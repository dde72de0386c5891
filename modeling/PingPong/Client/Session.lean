import PingPong.Lib.Chunks
import PingPong.Common.RoundTrip

/-!
# The client's sessions

`session.hpp`: `ClientSenderSession::mainLoop`, which cuts a file into chunks, and
`ClientReceiverSession::mainLoop`, which puts it together again.  Each loop is a machine whose steps
lie between two looks at the incoming queue, so that messages can arrive and connections can close
between any two steps.  A step consumes from the queue and hands at most one message to `sendcb`.

SHA-256 is a parameter `sha256_chunk`, and the file system answers each step as its `Disk` says.
-/

namespace PingPong

open Common Net

/-! ## Files -/

/-- How the file system answers during one step.  A read that fails leaves `gcount()` at 0, also
when the call had read some bytes before; after a write that fails, the file holds the first
`writes` bytes of what has been written to it. -/
structure Disk where
  found : Bool := true
  opens : Bool := true
  reads : Bool := true
  writes : Option Nat := none
deriving DecidableEq

/-- An input stream: what it has not read yet, and whether it is still good. -/
structure Ifstream where
  rest : List UInt8 := []
  good : Bool := false

/-- Read into a buffer of `m` bytes.  A stream that runs out of input is no longer good, nor is one
that fails. -/
def Ifstream.read (ifs : Ifstream) (m : Nat) (reads : Bool) : List UInt8 × Ifstream :=
  if reads then (ifs.rest.take m, ⟨ifs.rest.drop m, m ≤ ifs.rest.length⟩)
  else ([], ⟨ifs.rest, false⟩)

theorem Ifstream.read_true (ifs : Ifstream) (m : Nat) :
    ifs.read m true = (ifs.rest.take m, ⟨ifs.rest.drop m, m ≤ ifs.rest.length⟩) := rfl

structure Ofstream where
  written : List UInt8 := []
  good : Bool := false

def Ofstream.write (ofs : Ofstream) (bytes : List UInt8) (failure : Option Nat) : Ofstream :=
  if ofs.good then
    match failure with
    | none => ⟨ofs.written ++ bytes, true⟩
    | some k => ⟨(ofs.written ++ bytes).take k, false⟩
  else ofs

/-- Closing flushes what is still buffered. -/
def Ofstream.close (ofs : Ofstream) : Option Nat → Ofstream
  | none => ofs
  | some k => ⟨ofs.written.take k, false⟩

/-! ## The sending side -/

/-- The length of the longest vector of bytes; for a longer one `std::length_error` is thrown. -/
def max_size : Nat := 2 ^ 63 - 1

/-- What one step of a session does: its next state, the queue it leaves behind, and the message it
hands to `sendcb`. -/
structure Turn (σ : Type) where
  session : σ
  m_messages_in : List Message
  call : Option Message := none

/-- The bytes read, with their hash pushed on top. -/
def chunkMessage (sha256_chunk : List UInt8 → Hash) (data : List UInt8) : Message :=
  (⟨⟨.Chunk, UInt32.ofNat data.length⟩, data⟩ : Message).push1
    (.data (TriviallyCopyable.toBytes (sha256_chunk data)))

namespace ClientSenderSession

inductive Pc where
  | start
  | loop
  | read
  | final
  | returned (op_result : Bool)
deriving DecidableEq

end ClientSenderSession

structure ClientSenderSession where
  /-- The bytes of the file. -/
  m_file : List UInt8
  m_max_chunk_size : UInt64
  pc : ClientSenderSession.Pc := .start
  ifs : Ifstream := {}
  op_result : Bool := true

/-- A step of `mainLoop`; `sendcb` is what the callback would return.  An exception, which nobody
catches, has no outcome: of the vector for a chunk, or of the hash pushed on top of the chunk. -/
def ClientSenderSession.step (sha256_chunk : List UInt8 → Hash) (t : ClientSenderSession)
    (m_messages_in : List Message) (sendcb : Message → Bool) (disk : Disk) :
    Option (Turn ClientSenderSession) :=
  match t.pc with
  | .start =>
      if disk.found then
        some ⟨{ t with pc := .loop, ifs := ⟨t.m_file, disk.opens⟩ }, m_messages_in, none⟩
      else some ⟨{ t with pc := .returned false }, m_messages_in, none⟩
  | .loop =>
      if t.ifs.good && t.op_result then
        match m_messages_in with
        | incoming_msg :: rest =>
            if incoming_msg.header.id = .Abort then
              some ⟨{ t with pc := .final, op_result := false }, rest, none⟩
            else some ⟨t, rest, none⟩
        | [] => some ⟨{ t with pc := .read }, [], none⟩
      else some ⟨{ t with pc := .final }, m_messages_in, none⟩
  | .read =>
      if max_size < t.m_max_chunk_size.toNat then none
      else
        let (data, ifs) := t.ifs.read t.m_max_chunk_size.toNat disk.reads
        if 0 < data.length then
          if max_size < data.length + SHA256_DIGEST_LENGTH then none
          else
            let msg := chunkMessage sha256_chunk data
            if sendcb msg then some ⟨{ t with pc := .loop, ifs }, m_messages_in, some msg⟩
            else some ⟨{ t with pc := .final, ifs, op_result := false }, m_messages_in, some msg⟩
        else some ⟨{ t with pc := .final, ifs }, m_messages_in, none⟩
  | .final =>
      some ⟨{ t with pc := .returned t.op_result }, m_messages_in, some (encode .FinalChunk {})⟩
  | .returned _ => none

/-! ## The receiving side -/

namespace ClientReceiverSession

inductive Pc where
  | start
  | loop
  | drain
  | returned (op_result : Bool)
deriving DecidableEq

end ClientReceiverSession

structure ClientReceiverSession where
  pc : ClientReceiverSession.Pc := .start
  ofs : Ofstream := {}
  op_result : Bool := true
  finish : Bool := false

/-- One message of the inner loop.  A chunk too short for a hash has no outcome. -/
def ClientReceiverSession.consume (sha256_chunk : List UInt8 → Hash) (t : ClientReceiverSession)
    (msg : Message) (disk : Disk) : Option ClientReceiverSession :=
  if msg.header.id = .Abort then some { t with pc := .loop, op_result := false }
  else if msg.header.id = .Chunk then do
    let (inc_hash, msg) ← msg.pop (ByteStack.Pop.data Hash)
    if inc_hash ≠ sha256_chunk msg.body then some { t with pc := .loop, op_result := false }
    else some { t with ofs := t.ofs.write msg.body disk.writes }
  else if msg.header.id = .FinalChunk then some { t with pc := .loop, finish := true }
  else some t

/-- A step of `mainLoop`; at the head of the outer loop it waits for the queue to fill. -/
def ClientReceiverSession.step (sha256_chunk : List UInt8 → Hash) (t : ClientReceiverSession)
    (m_messages_in : List Message) (disk : Disk) : Option (Turn ClientReceiverSession) :=
  match t.pc with
  | .start =>
      if disk.opens then
        some ⟨{ t with pc := .loop, ofs := ⟨[], true⟩ }, m_messages_in, none⟩
      else
        some ⟨{ t with pc := .returned false }, m_messages_in, some (encode .FailedReceive {})⟩
  | .loop =>
      if t.ofs.good && !t.finish && t.op_result then
        match m_messages_in with
        | [] => none
        | _ :: _ => some ⟨{ t with pc := .drain }, m_messages_in, none⟩
      else
        some ⟨{ t with pc := .returned t.op_result, ofs := t.ofs.close disk.writes },
          m_messages_in, none⟩
  | .drain =>
      match m_messages_in with
      | [] => some ⟨{ t with pc := .loop }, [], none⟩
      | msg :: rest => (t.consume sha256_chunk msg disk).map fun t => ⟨t, rest, none⟩
  | .returned _ => none

end PingPong
