import Mathlib.Data.List.TakeDrop
import PingPong.Common.RoundTrip

/-!
# What a decoder took off

Of a body that decodes, everything is accounted for: it is what was left below, followed by the
encoding of the value.  The one field this is not quite true of is the string that is read last.  It
was resized to its declared size before the read, and the read copies as much as there is: a body
that ends too early leaves the string with zero bytes at its end that were never in it.

`Trailing` has the payloads that end in such a string, and `Reencodes` the exact account.
-/

namespace PingPong.Common

open ByteStack Net
open TriviallyCopyable (toBytes)

theorem EPayloadType.toRaw_ofRaw (raw : UInt8) : (ofRaw raw).toRaw = raw := by
  unfold ofRaw
  split
  · rename_i zero
    exact zero.symm
  · rfl

instance : NoPadding EPayloadType where
  toBytes_ofBytes bs h := by
    change toBytes (EPayloadType.ofRaw (TriviallyCopyable.ofBytes bs)).toRaw = bs
    rw [EPayloadType.toRaw_ofRaw]
    exact NoPadding.toBytes_ofBytes bs h

/-! ## The string that is read last -/

/-- A payload whose operator reads a string last. -/
class Trailing (α : Type) where
  string : α → List UInt8
  /-- The size the string was resized to. -/
  declared : α → Nat
  /-- The bytes read before the string. -/
  above : α → Nat
  /-- The payload with its string cut to at most so many bytes. -/
  cut : Nat → α → α

open Trailing

instance : Trailing CodePhrase where
  string data := data.code
  declared data := data.code_size.toNat
  above _ := 1
  cut n data := { data with code := data.code.take n }

instance : Trailing FileData where
  string data := data.file_name
  declared data := data.file_name_size.toNat
  above _ := 9
  cut n data := { data with file_name := data.file_name.take n }

instance : Trailing PreMetadata where
  string data := data.file_data.file_name
  declared data := data.file_data.file_name_size.toNat
  above data := data.code_phrase.code_size.toNat + 11
  cut n data := { data with file_data := cut n data.file_data }

instance : Trailing PostMetadata where
  string data := data.file_data.file_name
  declared data := data.file_data.file_name_size.toNat
  above data := data.code_phrase.code_size.toNat + 19
  cut n data := { data with file_data := cut n data.file_data }

/-- The bytes a body of length `n` has left for the string of the value read from it. -/
def available {α : Type} [Trailing α] (n : Nat) (data : α) : Nat := n - above data

/-- The value without the bytes that were not in the body. -/
def found {α : Type} [Trailing α] (n : Nat) (data : α) : α := cut (available n data) data

/-- `b` was `rest` under the encoding of what was found, and the string is what was found of it,
filled up with zero bytes; only a body that is used up leaves it short. -/
structure Accounted {α : Type} [Streamed α] [Trailing α] (b : List UInt8) (data : α)
    (rest : List UInt8) : Prop where
  bytes : b = rest ++ written (Streamed.pushes (found b.length data))
  filled : string data = Pop.zeroFilled (declared data) (string (found b.length data))
  used_up : available b.length data < declared data → rest = []
  whole : found b.length data = data ↔ declared data ≤ available b.length data

/-- A string at the bottom of a payload, under `upper`, makes up its account. -/
theorem Accounted.of_string {α : Type} [Streamed α] [Trailing α] {data : α}
    {left upper rest : List UInt8}
    (run : (Pop.container (declared data)).run left = some (string data, rest))
    (length : above data = upper.length)
    (pushes : ∀ n, written (Streamed.pushes (cut n data)) = (string data).take n ++ upper)
    (cuts : ∀ n, string (cut n data) = (string data).take n)
    (whole : ∀ n, cut n data = data ↔ declared data ≤ n) :
    Accounted (left ++ upper) data rest := by
  have same : available (left ++ upper).length data = left.length := by
    unfold available
    rw [List.length_append, length]
    exact Nat.add_sub_cancel _ _
  have cut_off : found (left ++ upper).length data = cut left.length data := by
    unfold found
    rw [same]
  obtain ⟨consumed, filled, used_up⟩ := Pop.container_consumed run
  constructor
  case bytes => rw [cut_off, pushes, ← List.append_assoc, ← consumed]
  case filled =>
    rw [cut_off, cuts]
    exact filled
  case used_up =>
    rw [same]
    exact used_up
  case whole =>
    rw [cut_off, same]
    exact whole _

theorem CodePhrase.accounted {b rest : List UInt8} {data : CodePhrase}
    (run : (Streamed.pops : Pop CodePhrase).run b = some (data, rest)) :
    Accounted b data rest := by
  have sized : data.Sized := CodePhrase.yields_sized _ _ run
  obtain ⟨code_size, left, size, run⟩ := Pop.run_bind_eq_some run
  obtain ⟨code, below, string, done⟩ := Pop.run_bind_eq_some run
  cases done
  have b_eq : b = left ++ toBytes code_size := Pop.data_consumed size
  rw [b_eq]
  refine .of_string string (TriviallyCopyable.length_toBytes code_size).symm ?_ (fun _ => rfl) ?_
  · intro n
    exact congrArg (code.take n ++ ·) (List.append_nil _)
  · intro n
    change (⟨code_size, code.take n⟩ : CodePhrase) = ⟨code_size, code⟩ ↔ code_size.toNat ≤ n
    rw [CodePhrase.mk.injEq, and_iff_right rfl, List.take_eq_self_iff, ← sized]

theorem FileData.accounted {b rest : List UInt8} {data : FileData}
    (run : (Streamed.pops : Pop FileData).run b = some (data, rest)) :
    Accounted b data rest := by
  have sized : data.Sized := FileData.yields_sized _ _ run
  obtain ⟨file_size, above, size, run⟩ := Pop.run_bind_eq_some run
  obtain ⟨file_name_size, left, name_size, run⟩ := Pop.run_bind_eq_some run
  obtain ⟨file_name, below, string, done⟩ := Pop.run_bind_eq_some run
  cases done
  have b_eq : b = left ++ (toBytes file_name_size ++ toBytes file_size) := by
    rw [← List.append_assoc, ← Pop.data_consumed name_size]
    exact Pop.data_consumed size
  rw [b_eq]
  refine .of_string string ?_ ?_ (fun _ => rfl) ?_
  · rw [List.length_append, TriviallyCopyable.length_toBytes, TriviallyCopyable.length_toBytes]
    rfl
  · intro n
    change file_name.take n ++ (toBytes file_name_size ++ (toBytes file_size ++ [])) = _
    rw [List.append_nil]
    rfl
  · intro n
    change (⟨file_size, file_name_size, file_name.take n⟩ : FileData) =
      ⟨file_size, file_name_size, file_name⟩ ↔ file_name_size.toNat ≤ n
    rw [FileData.mk.injEq, and_iff_right rfl, and_iff_right rfl, List.take_eq_self_iff, ← sized]

/-! ## Metadata -/

theorem FileData.length_written (data : FileData) :
    (written (Streamed.pushes data)).length = data.file_name.length + 9 := by
  simp [Streamed.pushes, Push.bytes, TriviallyCopyable.width]

theorem CodePhrase.length_written (data : CodePhrase) :
    (written (Streamed.pushes data)).length = data.code.length + 1 := by
  simp [Streamed.pushes, Push.bytes, TriviallyCopyable.width]

/-- A code with file data under it was not cut short, since the file data need bytes of their
own. -/
theorem CodePhrase.consumed_above {b left rest : List UInt8} {code : CodePhrase} {file : FileData}
    (above : (Streamed.pops : Pop CodePhrase).run b = some (code, left))
    (below : (Streamed.pops : Pop FileData).run left = some (file, rest)) :
    b = left ++ written (Streamed.pushes code) := by
  have account := CodePhrase.accounted above
  have bytes_left : left ≠ [] := by
    have bytes := congrArg List.length (FileData.accounted below).bytes
    rw [List.length_append, FileData.length_written] at bytes
    exact List.ne_nil_of_length_pos (by omega)
  have whole : found b.length code = code :=
    account.whole.mpr (Nat.le_of_not_lt fun short => bytes_left (account.used_up short))
  rw [← whole]
  exact account.bytes

/-- File data at the bottom of a payload, under `upper`, make up its account. -/
theorem Accounted.under {α : Type} [Streamed α] [Trailing α] {left upper rest : List UInt8}
    {file : FileData} (account : Accounted left file rest) {wrap : FileData → α}
    (pushes : ∀ file, written (Streamed.pushes (wrap file)) =
      written (Streamed.pushes file) ++ upper)
    (wraps : string (wrap file) = string file ∧ declared (wrap file) = declared file ∧
      above (wrap file) = above file + upper.length)
    (cuts : ∀ n, cut n (wrap file) = wrap (cut n file) ∧
      string (wrap (cut n file)) = string (cut n file))
    (inj : wrap.Injective) : Accounted (left ++ upper) (wrap file) rest := by
  obtain ⟨same_string, same_declared, same_above⟩ := wraps
  have same : available (left ++ upper).length (wrap file) = available left.length file := by
    unfold available
    rw [List.length_append, same_above]
    omega
  have same_found : found (left ++ upper).length (wrap file) = wrap (found left.length file) := by
    unfold found
    rw [same]
    exact (cuts _).1
  constructor
  case bytes =>
    rw [same_found, pushes, ← List.append_assoc, ← account.bytes]
  case filled =>
    rw [same_found, same_string, same_declared, account.filled]
    exact congrArg _ (cuts _).2.symm
  case used_up =>
    rw [same, same_declared]
    exact account.used_up
  case whole =>
    rw [same_found, same, same_declared, inj.eq_iff]
    exact account.whole

theorem PreMetadata.accounted {b rest : List UInt8} {data : PreMetadata}
    (run : (Streamed.pops : Pop PreMetadata).run b = some (data, rest)) :
    Accounted b data rest := by
  obtain ⟨payload_type, under, type, run⟩ := Pop.run_bind_eq_some run
  obtain ⟨code, left, above, run⟩ := Pop.run_bind_eq_some run
  obtain ⟨file, below, last, done⟩ := Pop.run_bind_eq_some run
  cases done
  have sized : code.Sized := CodePhrase.yields_sized _ _ above
  let wrap : FileData → PreMetadata := fun file => ⟨payload_type, code, file⟩
  let upper := written (Streamed.pushes code) ++ toBytes payload_type
  have length : upper.length = code.code_size.toNat + 2 := by
    rw [List.length_append, CodePhrase.length_written, sized]
    rfl
  have b_eq : b = left ++ upper := by
    rw [← List.append_assoc, ← CodePhrase.consumed_above above last]
    exact Pop.data_consumed type
  have account : Accounted (left ++ upper) (wrap file) rest := by
    refine (FileData.accounted last).under ?_ ⟨rfl, rfl, ?_⟩ (fun n => ⟨rfl, rfl⟩) ?_
    · intro file
      simp [wrap, upper, Streamed.pushes, Push.bytes]
    · rw [length]
      change code.code_size.toNat + 11 = 9 + (code.code_size.toNat + 2)
      omega
    · intro file file' same
      exact (PreMetadata.mk.inj same).2.2
  rw [b_eq]
  exact account

theorem PostMetadata.accounted {b rest : List UInt8} {data : PostMetadata}
    (run : (Streamed.pops : Pop PostMetadata).run b = some (data, rest)) :
    Accounted b data rest := by
  obtain ⟨payload_type, under, type, run⟩ := Pop.run_bind_eq_some run
  obtain ⟨max_chunk_size, under', chunk, run⟩ := Pop.run_bind_eq_some run
  obtain ⟨code, left, above, run⟩ := Pop.run_bind_eq_some run
  obtain ⟨file, below, last, done⟩ := Pop.run_bind_eq_some run
  cases done
  have sized : code.Sized := CodePhrase.yields_sized _ _ above
  let wrap : FileData → PostMetadata := fun file => ⟨payload_type, max_chunk_size, code, file⟩
  let upper := written (Streamed.pushes code) ++ toBytes max_chunk_size ++ toBytes payload_type
  have length : upper.length = code.code_size.toNat + 10 := by
    rw [List.length_append, List.length_append, CodePhrase.length_written, sized,
      TriviallyCopyable.length_toBytes]
    rfl
  have b_eq : b = left ++ upper := by
    rw [← List.append_assoc, ← List.append_assoc, ← CodePhrase.consumed_above above last,
      ← Pop.data_consumed chunk]
    exact Pop.data_consumed type
  have account : Accounted (left ++ upper) (wrap file) rest := by
    refine (FileData.accounted last).under ?_ ⟨rfl, rfl, ?_⟩ (fun n => ⟨rfl, rfl⟩) ?_
    · intro file
      simp [wrap, upper, Streamed.pushes, Push.bytes]
    · rw [length]
      change code.code_size.toNat + 19 = 9 + (code.code_size.toNat + 10)
      omega
    · intro file file' same
      exact (PostMetadata.mk.inj same).2.2.2
  rw [b_eq]
  exact account

/-! ## Decoding and encoding again -/

/-- What `decode` took off the message, encoded again, is what is missing from its body.  A string
that was declared longer than what the body had left is accepted all the same: what was found of it
is encoded, zero bytes stand for the rest, and nothing of the body is left. -/
structure Reencodes (M : EMessageType) [Streamed (Payload M)] [Trailing (Payload M)]
    (msg : Message) (data : Payload M) (rest : Message) : Prop where
  body : msg.body = rest.body ++ (encode M (found msg.size data)).body
  filled : string data = Pop.zeroFilled (declared data) (string (found msg.size data))
  used_up : available msg.size data < declared data → rest.body = []
  whole : found msg.size data = data ↔ declared data ≤ available msg.size data

theorem Reencodes.of_accounted {M : EMessageType} [Streamed (Payload M)] [Trailing (Payload M)]
    (account : ∀ {b rest data}, (Streamed.pops : Pop (Payload M)).run b = some (data, rest) →
      Accounted b data rest)
    {msg : Message} {data : Payload M} {rest : Message}
    (decoded : decode M msg = some (data, rest)) : Reencodes M msg data rest := by
  have run := Net.Message.pop_run (Streamed.pops : Pop (Payload M)) msg
  unfold decode at decoded
  rw [decoded] at run
  have account := account run.symm
  refine ⟨?_, account.filled, account.used_up, account.whole⟩
  unfold encode
  rw [Net.Message.push_body, List.nil_append]
  exact account.bytes

/-- **What was decoded accounts for the body.** -/
theorem decode_reencodes (msg rest : Message) :
    (∀ data, decode .Send msg = some (data, rest) → Reencodes .Send msg data rest) ∧
    (∀ data, decode .RequestReceive msg = some (data, rest) →
      Reencodes .RequestReceive msg data rest) ∧
    (∀ data, decode .Accept msg = some (data, rest) → Reencodes .Accept msg data rest) ∧
    (∀ data, decode .Receive msg = some (data, rest) → Reencodes .Receive msg data rest) :=
  ⟨fun _ => .of_accounted PreMetadata.accounted, fun _ => .of_accounted PreMetadata.accounted,
    fun _ => .of_accounted PostMetadata.accounted, fun _ => .of_accounted CodePhrase.accounted⟩

/-- A file name that is all there, on top of two bytes that stay. -/
theorem decode_reencodes_send :
    Reencodes .Send ⟨⟨.Send, 16⟩, [7, 8, 102, 1, 5, 0, 0, 0, 0, 0, 0, 0, 104, 105, 2, 0]⟩
      (⟨.File, ⟨2, [104, 105]⟩, ⟨5, 1, [102]⟩⟩ : PreMetadata) ⟨⟨.Send, 2⟩, [7, 8]⟩ :=
  (decode_reencodes _ _).1 _ (by decide)

/-- One byte of a code that is declared as three: it is decoded with two zero bytes, which encoding
it again writes out. -/
theorem short_code_accepted :
    ∃ data rest, decode .Receive ⟨⟨.Receive, 2⟩, [104, 3]⟩ = some (data, rest) ∧
      [104, 3] ≠ rest.body ++ (encode .Receive data).body :=
  ⟨⟨3, [104, 0, 0]⟩, ⟨⟨.Receive, 0⟩, []⟩, by decide, by decide⟩

end PingPong.Common
