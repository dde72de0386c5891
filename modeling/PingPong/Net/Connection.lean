import Mathlib.Logic.Function.Basic
import PingPong.Net.Message

/-!
# Connections

`Net::Connection`, one endpoint: the queue of outgoing messages, the handlers posted to its context,
and the reads and writes in flight on its socket.  `step` is everything that can happen to it: calls
from its owner, the next posted handler, some bytes of a write entering the stream or some bytes of
the stream filling the buffer of a read, and the completion handlers.

Reads and writes are kept by the part of the stream they are for, and several of one part could be
in flight at once; that they are not is a result.  Completing without an error means that the whole
buffer has been transferred; completing with one is possible at any time.
-/

namespace PingPong.Net

open TriviallyCopyable (width toBytes ofBytes)

/-! ## Frames -/

section Frames

variable {T : Type} [TriviallyCopyable T]

instance : TriviallyCopyable (MessageHeader T) where
  width := width T + width UInt32
  toBytes header := toBytes header.id ++ toBytes header.size
  ofBytes bs := { id := ofBytes (bs.take (width T)), size := ofBytes (bs.drop (width T)) }
  length_toBytes header := by simp
  ofBytes_toBytes header := by
    rw [List.take_left' (by simp), List.drop_left' (by simp)]
    simp

instance [NoPadding T] : NoPadding (MessageHeader T) where
  toBytes_ofBytes bs h := by
    change bs.length = width T + width UInt32 at h
    have id : toBytes (ofBytes (bs.take (width T)) : T) = bs.take (width T) := by
      apply NoPadding.toBytes_ofBytes
      rw [List.length_take]
      omega
    have size : toBytes (ofBytes (bs.drop (width T)) : UInt32) = bs.drop (width T) := by
      apply NoPadding.toBytes_ofBytes
      rw [List.length_drop]
      omega
    change toBytes (ofBytes (bs.take (width T)) : T) ++
      toBytes (ofBytes (bs.drop (width T)) : UInt32) = bs
    rw [id, size, List.take_append_drop]

/-- The bytes of a message on the wire. -/
def Message.frame (msg : Message T) : List UInt8 := toBytes msg.header ++ msg.body

end Frames

/-! ## State -/

inductive EOwner where
  | Server
  | Client
deriving DecidableEq

/-- The parts of a byte stream that are read and written in one operation each. -/
inductive Part where
  | validation
  | header
  | body
deriving DecidableEq

theorem Part.header_ne_validation : Part.header ≠ .validation := nofun

theorem Part.body_ne_validation : Part.body ≠ .validation := nofun

/-- The handlers posted by `send`, `disconnect` and `disconnectAfterFlush`. -/
inductive Handler (T : Type) where
  | send (msg : Message T)
  | close
  | closeAfterFlush

/-- An `async_read`: what has arrived in its buffer, and how much is missing. -/
structure Read where
  got : List UInt8
  missing : Nat
deriving DecidableEq

structure Connection (T : Type) [Inhabited T] where
  m_owner_type : EOwner
  m_socket_open : Bool := true
  m_messages_out : List (Message T) := []
  m_messages_in : List (Message T) := []
  m_forming_in_message : Message T := ⟨⟨default, 0⟩, []⟩
  m_pending_writes : Nat := 0
  m_validated : Bool := false
  m_close_after_flush : Bool := false
  m_handshake_out : UInt64 := 0
  m_handshake_in : UInt64 := 0
  m_handshake_crypted : UInt64 := 0
  /-- The handlers posted and not yet run, oldest first. -/
  posted : List (Handler T) := []
  /-- What is left to write of each `async_write` in flight. -/
  writes : Part → List (List UInt8) := fun _ => []
  reads : Part → List Read := fun _ => []
  -- History
  /-- The messages for which `send` returned true, in the order they were posted. -/
  sent : List (Message T) := []
  /-- The messages taken off `m_messages_out` after they were written. -/
  flushed : List (Message T) := []
  /-- The messages the owner has taken off `m_messages_in`. -/
  popped : List (Message T) := []
  /-- The bytes that entered the outgoing stream. -/
  written : List UInt8 := []
  /-- The bytes taken off the incoming stream. -/
  consumed : List UInt8 := []
  /-- Whether a write has completed with an error. -/
  write_failed : Bool := false

/-- `obfuscate`; the assignment binds tighter than the comma after it. -/
def obfuscate (input : UInt64) : UInt64 :=
  let out := input ^^^ 0xBABA15ACAB0011FF
  let out := ((out &&& 0xC0A0C0A0B0B0B0) >>> 4) ||| (out &&& 0x0C0A0C0A0B0B0B)
  out ^^^ 0xBABA15FACE1EE788

namespace Connection

variable {T : Type} [Inhabited T] [TriviallyCopyable T]

/-! ## Operations on the socket -/

def close (c : Connection T) : Connection T := { c with m_socket_open := false }

def asyncWrite (c : Connection T) (part : Part) (buffer : List UInt8) : Connection T :=
  { c with writes := Function.update c.writes part (c.writes part ++ [buffer]) }

def asyncRead (c : Connection T) (part : Part) (size : Nat) : Connection T :=
  { c with reads := Function.update c.reads part (c.reads part ++ [⟨[], size⟩]) }

/-! ## The write chain -/

/-- `writeHeader`, which its callers only reach with a message in the queue. -/
def writeHeader (c : Connection T) : Connection T :=
  match c.m_messages_out with
  | msg :: _ => c.asyncWrite .header (toBytes msg.header)
  | [] => c

def writeBody (c : Connection T) : Connection T :=
  match c.m_messages_out with
  | msg :: _ => c.asyncWrite .body msg.body
  | [] => c

/-- What both completion handlers do once the message at the front is written. -/
def finishMessage (c : Connection T) : Connection T :=
  let c :=
    { c with
      m_messages_out := c.m_messages_out.tail
      m_pending_writes := c.m_pending_writes - 1
      flushed := c.flushed ++ c.m_messages_out.take 1 }
  if c.m_messages_out.isEmpty then
    if c.m_close_after_flush then c.close else c
  else c.writeHeader

def headerWritten (c : Connection T) : Connection T :=
  match c.m_messages_out with
  | msg :: _ => if 0 < msg.body.length then c.writeBody else c.finishMessage
  | [] => c

/-! ## The read chain and the handshake -/

def readHeader (c : Connection T) : Connection T :=
  c.asyncRead .header (width (MessageHeader T))

def readBody (c : Connection T) : Connection T :=
  c.asyncRead .body c.m_forming_in_message.header.size.toNat

def addToIncomingMessageQueue (c : Connection T) : Connection T :=
  readHeader
    { c with
      m_messages_in := c.m_messages_in ++ [c.m_forming_in_message]
      m_forming_in_message := ⟨⟨default, 0⟩, []⟩ }

def writeValidation (c : Connection T) : Connection T :=
  c.asyncWrite .validation (toBytes c.m_handshake_out)

def readValidation (c : Connection T) : Connection T :=
  c.asyncRead .validation (width UInt64)

def validationWritten (c : Connection T) : Connection T :=
  match c.m_owner_type with
  | .Client => readHeader { c with m_validated := true }
  | .Server => c

def validationRead (c : Connection T) (buffer : List UInt8) : Connection T :=
  let c := { c with m_handshake_in := ofBytes buffer }
  match c.m_owner_type with
  | .Server =>
      if c.m_handshake_in = c.m_handshake_crypted then
        readHeader { c with m_validated := true }
      else c.close
  | .Client => writeValidation { c with m_handshake_out := obfuscate c.m_handshake_in }

def headerRead (c : Connection T) (buffer : List UInt8) : Connection T :=
  let c :=
    { c with m_forming_in_message := { c.m_forming_in_message with header := ofBytes buffer } }
  if 0 < c.m_forming_in_message.header.size then c.readBody else c.addToIncomingMessageQueue

def bodyRead (c : Connection T) (buffer : List UInt8) : Connection T :=
  addToIncomingMessageQueue
    { c with m_forming_in_message := { c.m_forming_in_message with body := buffer } }

/-! ## Calls from the owner, and what they post -/

def send (c : Connection T) (msg : Message T) : Bool × Connection T :=
  if c.m_validated = false then (false, c)
  else if c.m_socket_open = false then (false, c)
  else
    (true,
      { c with
        m_pending_writes := c.m_pending_writes + 1
        posted := c.posted ++ [.send msg]
        sent := c.sent ++ [msg] })

def disconnect (c : Connection T) : Connection T :=
  if c.m_socket_open then { c with posted := c.posted ++ [.close] } else c

def disconnectAfterFlush (c : Connection T) : Connection T :=
  { c with posted := c.posted ++ [.closeAfterFlush] }

def runHandler (c : Connection T) : Handler T → Connection T
  | .send msg =>
      let already_writing := !c.m_messages_out.isEmpty
      let c := { c with m_messages_out := c.m_messages_out ++ [msg] }
      if already_writing then c else c.writeHeader
  | .close => c.close
  | .closeAfterFlush =>
      if c.m_messages_out.isEmpty then c.close else { c with m_close_after_flush := true }

/-! ## Steps -/

inductive Act (T : Type) where
  | send (msg : { msg : Message T // msg.Framed })
  | disconnect
  | disconnectAfterFlush
  | runPosted
  | put (part : Part) (i n : Nat)
  | writeDone (part : Part) (i : Nat)
  | writeFailed (part : Part) (i : Nat)
  | take (part : Part) (i : Nat) (bytes : List UInt8)
  | readDone (part : Part) (i : Nat)
  | readFailed (part : Part) (i : Nat)
  | pop

/-- The completion handler of a write. -/
def wrote (c : Connection T) : Part → Connection T
  | .validation => c.validationWritten
  | .header => c.headerWritten
  | .body => c.finishMessage

/-- The completion handler of a read. -/
def read (c : Connection T) (buffer : List UInt8) : Part → Connection T
  | .validation => c.validationRead buffer
  | .header => c.headerRead buffer
  | .body => c.bodyRead buffer

/-- Replace the writes in flight of one part. -/
def setWrites (c : Connection T) (part : Part) (ws : List (List UInt8)) : Connection T :=
  { c with writes := Function.update c.writes part ws }

def setReads (c : Connection T) (part : Part) (rs : List Read) : Connection T :=
  { c with reads := Function.update c.reads part rs }

/-- The next `n` bytes of a write, of which `left` is left, enter the stream. -/
def putBytes (c : Connection T) (part : Part) (i : Nat) (left : List UInt8) (n : Nat) :
    Connection T :=
  { c.setWrites part ((c.writes part).set i (left.drop n)) with
    written := c.written ++ left.take n }

/-- The next bytes of the stream arrive in the buffer of a read. -/
def takeBytes (c : Connection T) (part : Part) (i : Nat) (op : Read) (bytes : List UInt8) :
    Connection T :=
  { c.setReads part ((c.reads part).set i ⟨op.got ++ bytes, op.missing - bytes.length⟩) with
    consumed := c.consumed ++ bytes }

def step (c : Connection T) : Act T → Option (Connection T)
  | .send msg => some (c.send msg.1).2
  | .disconnect => some c.disconnect
  | .disconnectAfterFlush => some c.disconnectAfterFlush
  | .runPosted =>
      match c.posted with
      | [] => none
      | handler :: later => some (runHandler { c with posted := later } handler)
  | .put part i n =>
      match (c.writes part)[i]? with
      | none => none
      | some left => if c.m_socket_open then some (c.putBytes part i left n) else none
  | .writeDone part i =>
      match (c.writes part)[i]? with
      | some [] => some ((c.setWrites part ((c.writes part).eraseIdx i)).wrote part)
      | _ => none
  | .writeFailed part i =>
      match (c.writes part)[i]? with
      | none => none
      | some _ =>
          some (close { c.setWrites part ((c.writes part).eraseIdx i) with write_failed := true })
  | .take part i bytes =>
      match (c.reads part)[i]? with
      | none => none
      | some op =>
          if c.m_socket_open ∧ bytes.length ≤ op.missing then some (c.takeBytes part i op bytes)
          else none
  | .readDone part i =>
      match (c.reads part)[i]? with
      | some ⟨buffer, 0⟩ => some ((c.setReads part ((c.reads part).eraseIdx i)).read buffer part)
      | _ => none
  | .readFailed part i =>
      match (c.reads part)[i]? with
      | none => none
      | some _ => some (c.setReads part ((c.reads part).eraseIdx i)).close
  | .pop =>
      match c.m_messages_in with
      | [] => none
      | msg :: rest => some { c with m_messages_in := rest, popped := c.popped ++ [msg] }

/-- An endpoint once the connection stands: `connectToClient` on the server, whose challenge is the
time, and the handler of `async_connect` on the client. -/
def start (challenge : UInt64) : EOwner → Connection T
  | .Server =>
      readValidation (writeValidation
        { m_owner_type := .Server
          m_handshake_out := challenge
          m_handshake_crypted := obfuscate challenge })
  | .Client => readValidation { m_owner_type := .Client }

end Connection

end PingPong.Net
