import PingPong.Common.Payload

/-!
# Round trips and faults of the payload codec

* `reads`: each payload operator pops, in reverse order, what its counterpart pushed, and leaves the
  bytes below alone.  The size fields have to be the lengths of their strings (`Sized`).
* `yields_sized`: whatever bytes are decoded, the strings that come out have their declared sizes,
  since each was resized to its size before it was read.
* `fits`: the exact bodies on which a payload can be popped without reading out of bounds.
-/

namespace PingPong.Common

open ByteStack Net
open TriviallyCopyable (toBytes)

/-! ## Size fields that match -/

def CodePhrase.Sized (data : CodePhrase) : Prop := data.code.length = data.code_size.toNat

def FileData.Sized (data : FileData) : Prop := data.file_name.length = data.file_name_size.toNat

def PreMetadata.Sized (data : PreMetadata) : Prop :=
  data.code_phrase.Sized ∧ data.file_data.Sized

def PostMetadata.Sized (data : PostMetadata) : Prop :=
  data.code_phrase.Sized ∧ data.file_data.Sized

/-! ## Reading back what was written -/

theorem CodePhrase.reads (b : List UInt8) {data : CodePhrase} (h : data.Sized) :
    (Streamed.pops : Pop CodePhrase).Reads b (written (Streamed.pushes data)) data := by
  have code : (Pop.container data.code_size.toNat).Reads b data.code data.code := by
    rw [← h]
    exact Pop.Reads.container b data.code
  have bytes : written (Streamed.pushes data) = data.code ++ toBytes data.code_size := by
    simp [Streamed.pushes, Push.bytes]
  rw [bytes]
  exact (Pop.Reads.data _ data.code_size).bind (code.map rfl)

theorem FileData.reads (b : List UInt8) {data : FileData} (h : data.Sized) :
    (Streamed.pops : Pop FileData).Reads b (written (Streamed.pushes data)) data := by
  have name : (Pop.container data.file_name_size.toNat).Reads b data.file_name data.file_name := by
    rw [← h]
    exact Pop.Reads.container b data.file_name
  have bytes : written (Streamed.pushes data) =
      (data.file_name ++ toBytes data.file_name_size) ++ toBytes data.file_size := by
    simp [Streamed.pushes, Push.bytes]
  rw [bytes]
  exact (Pop.Reads.data _ data.file_size).bind
    ((Pop.Reads.data _ data.file_name_size).bind (name.map rfl))

theorem PreMetadata.reads (b : List UInt8) {data : PreMetadata} (h : data.Sized) :
    (Streamed.pops : Pop PreMetadata).Reads b (written (Streamed.pushes data)) data := by
  have file := FileData.reads b h.2
  have code := CodePhrase.reads (b ++ written (Streamed.pushes data.file_data)) h.1
  have bytes : written (Streamed.pushes data) =
      (written (Streamed.pushes data.file_data) ++ written (Streamed.pushes data.code_phrase)) ++
        toBytes data.payload_type := by
    simp [Streamed.pushes, Push.bytes]
  rw [bytes]
  exact (Pop.Reads.data _ data.payload_type).bind (code.bind (file.map rfl))

theorem PostMetadata.reads (b : List UInt8) {data : PostMetadata} (h : data.Sized) :
    (Streamed.pops : Pop PostMetadata).Reads b (written (Streamed.pushes data)) data := by
  have file := FileData.reads b h.2
  have code := CodePhrase.reads (b ++ written (Streamed.pushes data.file_data)) h.1
  have bytes : written (Streamed.pushes data) =
      ((written (Streamed.pushes data.file_data) ++ written (Streamed.pushes data.code_phrase)) ++
        toBytes data.max_chunk_size) ++ toBytes data.payload_type := by
    simp [Streamed.pushes, Push.bytes]
  rw [bytes]
  exact (Pop.Reads.data _ data.payload_type).bind
    ((Pop.Reads.data _ data.max_chunk_size).bind (code.bind (file.map rfl)))

theorem Empty.reads (b : List UInt8) (data : Empty) :
    (Streamed.pops : Pop Empty).Reads b (written (Streamed.pushes data)) data :=
  Pop.Reads.data b data

/-- The data of a chunk is whatever lies below the hash, so a chunk reads back only off the bottom
of the stack. -/
theorem ChunkData.reads (data : ChunkData) :
    (Streamed.pops : Pop ChunkData).Reads [] (written (Streamed.pushes data)) data := by
  have rest : (Pop.size Pop.done).Reads data.data [] data.data.length := by
    unfold Pop.Reads
    rw [List.append_nil]
    rfl
  have body := (Pop.Reads.container [] data.data).map
    (f := fun bs => Pop.done (⟨data.hash, bs⟩ : ChunkData)) rfl
  have bytes : written (Streamed.pushes data) = (data.data ++ []) ++ toBytes data.hash := by
    simp [Streamed.pushes, Push.bytes]
  rw [bytes]
  exact (Pop.Reads.data _ data.hash).bind (rest.bind body)

/-- Pushing a value onto a message and popping it gives the value back and leaves the body as it
was, with its size in the header; and where header and body were in step before, they are after
every single push and every single pop. -/
structure RoundTrips {T α : Type} [Streamed α] (msg : Net.Message T) (data : α) : Prop where
  back : (msg.push (Streamed.pushes data)).pop Streamed.pops = some (data, msg.resized msg.body)
  in_step : msg.Synced →
    ∀ m ∈ msg.pushed (Streamed.pushes data) ++
      (msg.push (Streamed.pushes data)).popped (Streamed.pops (α := α)), m.Synced

/-- Every payload operator ends in a fixed-width push, so a header that was out of step before is in
step when the first pop comes. -/
theorem RoundTrips.of_reads {T α : Type} [Streamed α] {msg : Net.Message T} {data : α}
    (reads : (Streamed.pops : Pop α).Reads msg.body (written (Streamed.pushes data)) data)
    (last : ∃ ws bytes, Streamed.pushes data = ws ++ [.data bytes]) : RoundTrips msg data := by
  obtain ⟨ws, bytes, last⟩ := last
  have synced : (msg.push (Streamed.pushes data)).Synced := by
    rw [last]
    exact msg.push_data_synced ws bytes
  constructor
  · rw [Net.Message.pop_of_reads reads (msg.push_body _) synced]
    simp only [Net.Message.resized, Net.Message.push_id]
  · intro before m member
    rcases List.mem_append.mp member with pushed | popped
    · exact before.pushed _ m pushed
    · exact synced.popped _ m popped

theorem PostMetadata.roundTrips {T : Type} (msg : Net.Message T) {data : PostMetadata}
    (sized : data.Sized) : RoundTrips msg data :=
  .of_reads (data.reads msg.body sized) ⟨_, _, rfl⟩

theorem PreMetadata.roundTrips {T : Type} (msg : Net.Message T) {data : PreMetadata}
    (sized : data.Sized) : RoundTrips msg data :=
  .of_reads (data.reads msg.body sized) ⟨_, _, rfl⟩

theorem CodePhrase.roundTrips {T : Type} (msg : Net.Message T) {data : CodePhrase}
    (sized : data.Sized) : RoundTrips msg data :=
  .of_reads (data.reads msg.body sized) ⟨[.container data.code], _, rfl⟩

theorem Empty.roundTrips {T : Type} (msg : Net.Message T) (data : Empty) : RoundTrips msg data :=
  .of_reads (data.reads msg.body) ⟨[], _, rfl⟩

theorem ChunkData.roundTrips {T : Type} {msg : Net.Message T} (empty : msg.body = [])
    (data : ChunkData) : RoundTrips msg data := by
  refine .of_reads ?_ ⟨[.container data.data], _, rfl⟩
  rw [empty]
  exact data.reads

/-- **Codec round trip with stack discipline.** -/
theorem payload_round_trip {T : Type} (msg : Net.Message T) :
    (∀ data : PostMetadata, data.Sized → RoundTrips msg data) ∧
    (∀ data : PreMetadata, data.Sized → RoundTrips msg data) ∧
    (∀ data : CodePhrase, data.Sized → RoundTrips msg data) ∧
    (∀ data : Empty, RoundTrips msg data) ∧
    (msg.body = [] → ∀ data : ChunkData, RoundTrips msg data) :=
  ⟨fun _ => PostMetadata.roundTrips msg, fun _ => PreMetadata.roundTrips msg,
    fun _ => CodePhrase.roundTrips msg, Empty.roundTrips msg, ChunkData.roundTrips⟩

/-- A file announcement pushed on top of three bytes. -/
theorem payload_round_trip_send :
    RoundTrips (⟨⟨EMessageType.Send, 3⟩, [7, 8, 9]⟩ : Message)
      (⟨.File, ⟨2, [104, 105]⟩, ⟨1000, 1, [102]⟩⟩ : PreMetadata) :=
  (payload_round_trip _).2.1 _ ⟨rfl, rfl⟩

/-- What was encoded decodes to the same value and uses up the body. -/
theorem decode_encode {M : EMessageType} [Streamed (Payload M)] {data : Payload M}
    (h : ∀ msg : Message, msg.body = [] → RoundTrips msg data) :
    decode M (encode M data) = some (data, ⟨⟨M, 0⟩, []⟩) :=
  (h ⟨⟨M, 0⟩, []⟩ rfl).back

/-- File data never fault on nine bytes or more, whatever size they declare. -/
theorem FileData.run_isSome {b : List UInt8} (long : 9 ≤ b.length) :
    ((Streamed.pops : Pop FileData).run b).isSome := by
  simp only [Streamed.pops, Pop.bind_eq, Pop.pure_eq, Pop.isSome_data_bind,
    Pop.isSome_container_bind, Pop.isSome_done, and_true, TriviallyCopyable.width,
    List.length_take]
  omega

theorem PreMetadata.pops_eq : (Streamed.pops : Pop PreMetadata) =
    (Pop.data EPayloadType).bind fun payload_type =>
      (Streamed.pops : Pop CodePhrase).bind fun code_phrase =>
        (Streamed.pops : Pop FileData).bind fun file_data =>
          Pop.done ⟨payload_type, code_phrase, file_data⟩ := rfl

/-- The part of a code that its declared size covers, the end of it. -/
def CodePhrase.covered (data : CodePhrase) : CodePhrase :=
  ⟨data.code_size, data.code.drop (data.code.length - data.code_size.toNat)⟩

theorem CodePhrase.covered_of_sized {data : CodePhrase} (sized : data.Sized) :
    data.covered = data := by
  have none_over : data.code.length - data.code_size.toNat = 0 := by
    rw [sized, Nat.sub_self]
  unfold covered
  rw [none_over]
  rfl

theorem CodePhrase.covered_sized {data : CodePhrase}
    (fits : data.code_size.toNat ≤ data.code.length) : data.covered.Sized := by
  change (data.code.drop _).length = data.code_size.toNat
  rw [List.length_drop]
  omega

/-- A code longer than its size is read as its end, and the beginning stays where it is. -/
theorem CodePhrase.run_covered (b : List UInt8) {data : CodePhrase}
    (fits : data.code_size.toNat ≤ data.code.length) :
    (Streamed.pops : Pop CodePhrase).run (b ++ written (Streamed.pushes data)) =
      some (data.covered,
        b ++ data.code.take (data.code.length - data.code_size.toNat)) := by
  have code := CodePhrase.reads
    (b ++ data.code.take (data.code.length - data.code_size.toNat)) (covered_sized fits)
  have bytes : b ++ written (Streamed.pushes data) =
      b ++ data.code.take (data.code.length - data.code_size.toNat) ++
        written (Streamed.pushes data.covered) := by
    have whole : written (Streamed.pushes data) =
        data.code.take (data.code.length - data.code_size.toNat) ++
          written (Streamed.pushes data.covered) := by
      simp only [Streamed.pushes, written_cons, Push.bytes, covered]
      rw [← List.append_assoc (List.take _ _), List.take_append_drop]
    rw [whole, List.append_assoc]
  rw [bytes]
  exact code

/-- Of the code phrase comes off what is covered, whatever size the name under it declares. -/
theorem PreMetadata.pop_covered {T : Type} (msg : Net.Message T) (data : PreMetadata)
    (fits : data.code_phrase.code_size.toNat ≤ data.code_phrase.code.length) :
    ∃ file_data rest, (msg.push (Streamed.pushes data)).pop Streamed.pops =
      some ((⟨data.payload_type, data.code_phrase.covered, file_data⟩ : PreMetadata), rest) := by
  let below := msg.body ++ written (Streamed.pushes data.file_data)
  have code := CodePhrase.run_covered below fits
  have long : 9 ≤ (below ++ data.code_phrase.code.take
      (data.code_phrase.code.length - data.code_phrase.code_size.toNat)).length := by
    simp only [below, Streamed.pushes, written_cons, written_nil, Push.bytes, List.length_append,
      TriviallyCopyable.length_toBytes, TriviallyCopyable.width]
    omega
  obtain ⟨⟨file_data, left⟩, file⟩ := Option.isSome_iff_exists.mp (FileData.run_isSome long)
  have payload := Pop.Reads.data (below ++ written (Streamed.pushes data.code_phrase))
    data.payload_type
  have body : (msg.push (Streamed.pushes data)).body =
      (below ++ written (Streamed.pushes data.code_phrase)) ++ toBytes data.payload_type := by
    rw [Net.Message.push_body]
    simp [Streamed.pushes, Push.bytes, below]
  have run : (Streamed.pops : Pop PreMetadata).run (msg.push (Streamed.pushes data)).body =
      some (⟨data.payload_type, data.code_phrase.covered, file_data⟩, left) := by
    unfold Pop.Reads at payload
    rw [body, PreMetadata.pops_eq, Pop.run_bind, payload, Option.bind_some, Pop.run_bind, code,
      Option.bind_some, Pop.run_bind, file]
    rfl
  rw [← Net.Message.pop_run] at run
  obtain ⟨⟨popped, rest⟩, hr, heq⟩ := Option.map_eq_some_iff.mp run
  obtain ⟨rfl, -⟩ := Prod.mk.inj heq
  exact ⟨file_data, rest, hr⟩

/-- A code of the declared size comes off whole. -/
theorem PreMetadata.pop_code {T : Type} (msg : Net.Message T) (data : PreMetadata)
    (sized : data.code_phrase.Sized) :
    ∃ file_data rest, (msg.push (Streamed.pushes data)).pop Streamed.pops =
      some ((⟨data.payload_type, data.code_phrase, file_data⟩ : PreMetadata), rest) := by
  have popped := PreMetadata.pop_covered msg data (Nat.le_of_eq sized.symm)
  rw [CodePhrase.covered_of_sized sized] at popped
  exact popped

theorem decode_send_code {pre : PreMetadata} (sized : pre.code_phrase.Sized) :
    ∃ decoded rest, decode .Send (encode .Send pre) = some (decoded, rest) ∧
      decoded.code_phrase = pre.code_phrase := by
  obtain ⟨file_data, rest, popped⟩ :=
    PreMetadata.pop_code (⟨⟨EMessageType.Send, 0⟩, []⟩ : Message) pre sized
  exact ⟨_, rest, popped, rfl⟩

theorem decode_request_code {pre : PreMetadata} (sized : pre.code_phrase.Sized) :
    ∃ decoded rest, decode .RequestReceive (encode .RequestReceive pre) = some (decoded, rest) ∧
      decoded.code_phrase = pre.code_phrase := by
  obtain ⟨file_data, rest, popped⟩ :=
    PreMetadata.pop_code (⟨⟨EMessageType.RequestReceive, 0⟩, []⟩ : Message) pre sized
  exact ⟨_, rest, popped, rfl⟩

/-! ## Decoded strings have their declared sizes -/

theorem CodePhrase.yields_sized : (Streamed.pops : Pop CodePhrase).Yields CodePhrase.Sized :=
  (Pop.Yields.any _).bind fun code_size _ =>
    (Pop.Yields.container code_size.toNat).bind fun _ h => Pop.Yields.done h

theorem FileData.yields_sized : (Streamed.pops : Pop FileData).Yields FileData.Sized :=
  (Pop.Yields.any _).bind fun _ _ => (Pop.Yields.any _).bind fun file_name_size _ =>
    (Pop.Yields.container file_name_size.toNat).bind fun _ h => Pop.Yields.done h

theorem PreMetadata.yields_sized : (Streamed.pops : Pop PreMetadata).Yields PreMetadata.Sized :=
  (Pop.Yields.any _).bind fun _ _ => CodePhrase.yields_sized.bind fun _ code =>
    FileData.yields_sized.bind fun _ file => Pop.Yields.done ⟨code, file⟩

/-! ## Bodies that decode without a fault -/

/-- The bodies a `CodePhrase` can be popped from: its string is clamped to what is left. -/
def CodePhrase.Fits (b : List UInt8) : Prop := 1 ≤ b.length

/-- The bodies a `PreMetadata` can be popped from.  Read from the end, one byte of payload type and
one of code size come first; the code takes at most its size, and the nine bytes of file size and
file name size must still be there. -/
def PreMetadata.Fits (b : List UInt8) : Prop :=
  (b.getD (b.length - 2) 0).toNat + 11 ≤ b.length

instance (b : List UInt8) : Decidable (CodePhrase.Fits b) := inferInstanceAs (Decidable (_ ≤ _))

instance (b : List UInt8) : Decidable (PreMetadata.Fits b) := inferInstanceAs (Decidable (_ ≤ _))

theorem CodePhrase.isSome_iff (b : List UInt8) :
    ((Streamed.pops : Pop CodePhrase).run b).isSome ↔ CodePhrase.Fits b := by
  simp only [Streamed.pops, Pop.bind_eq, Pop.pure_eq, Pop.isSome_data_bind,
    Pop.isSome_container_bind, Pop.isSome_done, and_true]
  rfl

theorem PreMetadata.isSome_iff (b : List UInt8) :
    ((Streamed.pops : Pop PreMetadata).run b).isSome ↔ PreMetadata.Fits b := by
  simp only [Streamed.pops, Pop.bind_eq, Pop.pure_eq, Pop.bind_assoc, Pop.bind,
    Pop.isSome_data_bind, Pop.isSome_container_bind, Pop.isSome_done, and_true, List.length_take,
    ofBytes_drop_uint8, PreMetadata.Fits]
  simp only [TriviallyCopyable.width]
  rcases Nat.lt_or_ge b.length 2 with short | long
  · omega
  · have byte : (b.take (b.length - 1)).getD (min (b.length - 1) b.length - 1) 0 =
        b.getD (b.length - 2) 0 := by
      rw [Nat.min_eq_left (Nat.sub_le _ _), Nat.sub_sub]
      simp only [List.getD_eq_getElem?_getD]
      rw [List.getElem?_take_of_lt (by omega)]
    rw [byte]
    omega

end PingPong.Common
