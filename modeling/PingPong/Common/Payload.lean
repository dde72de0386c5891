import PingPong.Net.Message

/-!
# Message types and payloads

`ppcommon.hpp`: the message types, the payload carried by each, and the stream operators of the
payload types.  A payload's `pushes` are the single `operator<<` calls its operator makes, in their
order; its `pops` are the single `operator>>` calls, each container being resized to the size popped
before it.  Strings are byte lists.
-/

namespace PingPong.Common

open ByteStack Net
open TriviallyCopyable (toBytes)

/-! ## Payload types -/

/-- An enumeration over `uint8_t`; any byte can be read into it. -/
inductive EPayloadType where
  | File
  | unlisted (raw : UInt8) (h : raw ≠ 0)
deriving DecidableEq

def EPayloadType.toRaw : EPayloadType → UInt8
  | File => 0
  | unlisted raw _ => raw

def EPayloadType.ofRaw (raw : UInt8) : EPayloadType :=
  if h : raw = 0 then File else unlisted raw h

theorem EPayloadType.ofRaw_toRaw (t : EPayloadType) : ofRaw t.toRaw = t := by
  cases t with
  | File => rfl
  | unlisted raw h => exact dif_neg h

instance : TriviallyCopyable EPayloadType :=
  .via EPayloadType.toRaw EPayloadType.ofRaw EPayloadType.ofRaw_toRaw

structure CodePhrase where
  code_size : UInt8
  code : List UInt8
deriving DecidableEq

structure FileData where
  file_size : UInt64
  file_name_size : UInt8
  file_name : List UInt8
deriving DecidableEq

structure PreMetadata where
  payload_type : EPayloadType
  code_phrase : CodePhrase
  file_data : FileData
deriving DecidableEq

structure PostMetadata where
  payload_type : EPayloadType
  max_chunk_size : UInt64
  code_phrase : CodePhrase
  file_data : FileData
deriving DecidableEq

structure Empty where
deriving DecidableEq

/-- An empty class occupies one byte, which is padding; it is written as zero here. -/
instance : TriviallyCopyable Empty where
  width := 1
  toBytes _ := [0]
  ofBytes _ := {}
  length_toBytes _ := rfl
  ofBytes_toBytes _ := rfl

abbrev SHA256_DIGEST_LENGTH : Nat := 32

abbrev Buffer : Type := List UInt8

abbrev Hash : Type := Vector UInt8 SHA256_DIGEST_LENGTH

structure ChunkData where
  hash : Hash
  data : Buffer
deriving DecidableEq

/-! ## Stream operators -/

/-- The `operator<<` and `operator>>` of a payload type. -/
class Streamed (α : Type) where
  pushes : α → List Push
  pops : Pop α

instance : Streamed CodePhrase where
  pushes data := [.container data.code, .data (toBytes data.code_size)]
  pops := do
    let code_size ← Pop.data UInt8
    let code ← Pop.container code_size.toNat
    return { code_size, code }

instance : Streamed FileData where
  pushes data :=
    [.container data.file_name, .data (toBytes data.file_name_size),
      .data (toBytes data.file_size)]
  pops := do
    let file_size ← Pop.data UInt64
    let file_name_size ← Pop.data UInt8
    let file_name ← Pop.container file_name_size.toNat
    return { file_size, file_name_size, file_name }

instance : Streamed PreMetadata where
  pushes data :=
    Streamed.pushes data.file_data ++ Streamed.pushes data.code_phrase ++
      [.data (toBytes data.payload_type)]
  pops := do
    let payload_type ← Pop.data EPayloadType
    let code_phrase ← Streamed.pops
    let file_data ← Streamed.pops
    return { payload_type, code_phrase, file_data }

instance : Streamed PostMetadata where
  pushes data :=
    Streamed.pushes data.file_data ++ Streamed.pushes data.code_phrase ++
      [.data (toBytes data.max_chunk_size)] ++ [.data (toBytes data.payload_type)]
  pops := do
    let payload_type ← Pop.data EPayloadType
    let max_chunk_size ← Pop.data UInt64
    let code_phrase ← Streamed.pops
    let file_data ← Streamed.pops
    return { payload_type, max_chunk_size, code_phrase, file_data }

instance : Streamed Empty where
  pushes data := [.data (toBytes data)]
  pops := Pop.data Empty

instance : Streamed ChunkData where
  pushes data := [.container data.data, .data (toBytes data.hash)]
  pops := do
    let hash ← Pop.data Hash
    let size ← Pop.size Pop.done
    let data ← Pop.container size
    return { hash, data }

/-! ## Message types -/

/-- An enumeration over `uint32_t`; any 32-bit value can arrive as an id. -/
inductive EMessageType where
  | Accept
  | Reject
  | Success
  | Abort
  | Send
  | RequestReceive
  | FinishReceive
  | FailedReceive
  | Receive
  | Chunk
  | FinalChunk
  | unlisted (raw : UInt32) (h : 10 < raw.toNat)
deriving DecidableEq

def EMessageType.toRaw : EMessageType → UInt32
  | Accept => 0
  | Reject => 1
  | Success => 2
  | Abort => 3
  | Send => 4
  | RequestReceive => 5
  | FinishReceive => 6
  | FailedReceive => 7
  | Receive => 8
  | Chunk => 9
  | FinalChunk => 10
  | unlisted raw _ => raw

def EMessageType.ofRaw (raw : UInt32) : EMessageType :=
  if h : 10 < raw.toNat then unlisted raw h
  else
    match raw.toNat with
    | 0 => Accept
    | 1 => Reject
    | 2 => Success
    | 3 => Abort
    | 4 => Send
    | 5 => RequestReceive
    | 6 => FinishReceive
    | 7 => FailedReceive
    | 8 => Receive
    | 9 => Chunk
    | _ => FinalChunk

theorem EMessageType.ofRaw_toRaw (t : EMessageType) : ofRaw t.toRaw = t := by
  cases t with
  | unlisted raw h => exact dif_pos h
  | _ => rfl

theorem EMessageType.toRaw_ofRaw (raw : UInt32) : (ofRaw raw).toRaw = raw := by
  unfold ofRaw
  split
  · rfl
  · rename_i bound
    apply UInt32.toNat_inj.mp
    split
    case h_11 =>
      have last : raw.toNat = 10 := by grind
      exact last.symm
    all_goals
      rename_i value
      exact value.symm

instance : TriviallyCopyable EMessageType :=
  .via EMessageType.toRaw EMessageType.ofRaw EMessageType.ofRaw_toRaw

instance : NoPadding EMessageType where
  toBytes_ofBytes bs h := by
    change toBytes (EMessageType.ofRaw (TriviallyCopyable.ofBytes bs)).toRaw = bs
    rw [EMessageType.toRaw_ofRaw]
    exact NoPadding.toBytes_ofBytes bs h

abbrev Message : Type := Net.Message EMessageType

/-- The payload of each message type; an id outside the enumeration has none. -/
abbrev Payload : EMessageType → Type
  | .Accept => PostMetadata
  | .Reject => Empty
  | .Success => Empty
  | .Abort => Empty
  | .Send => PreMetadata
  | .RequestReceive => PreMetadata
  | .FinishReceive => Empty
  | .FailedReceive => Empty
  | .Receive => CodePhrase
  | .Chunk => ChunkData
  | .FinalChunk => Empty
  | .unlisted _ _ => PEmpty

/-- A new message of type `M` with its payload. -/
def encode (M : EMessageType) [Streamed (Payload M)] (data : Payload M) : Message :=
  Net.Message.push ⟨⟨M, 0⟩, []⟩ (Streamed.pushes data)

@[simp] theorem encode_id (M : EMessageType) [Streamed (Payload M)] (data : Payload M) :
    (encode M data).header.id = M := Net.Message.push_id _ _

/-- The payload popped off a message, with the rest of the message; a fault where a fixed-width
read does not fit. -/
def decode (M : EMessageType) [Streamed (Payload M)] (msg : Message) :
    Option (Payload M × Message) :=
  msg.pop Streamed.pops

example : decode .Receive (encode .Receive ⟨2, [104, 105]⟩) =
    some (⟨2, [104, 105]⟩, ⟨⟨.Receive, 0⟩, []⟩) := by decide

end PingPong.Common
