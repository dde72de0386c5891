import PingPong.Client.Receiver
import PingPong.Server.Invariant

/-!
# The code that is typed and the code that is looked up

The receiver puts the size of the typed code into one byte, and the server reads back as much of the
code as that byte says, from its end: a code of 256 bytes or more is looked up as what is left of it
modulo 256.  The fields the receiver leaves unset lie below the code and do not disturb it.
-/

namespace PingPong

open Common Net

/-- What the server reads of a typed code. -/
def narrowed (typed : List UInt8) : List UInt8 :=
  typed.drop (typed.length - typed.length % 256)

theorem codePhrase_covered (typed : List UInt8) :
    (codePhrase typed).covered.code = narrowed typed := by
  have size : (codePhrase typed).code_size.toNat = typed.length % 256 := UInt8.toNat_ofNat'
  unfold CodePhrase.covered
  rw [size]
  rfl

theorem codePhrase_fits (typed : List UInt8) :
    (codePhrase typed).code_size.toNat ≤ (codePhrase typed).code.length := by
  have size : (codePhrase typed).code_size.toNat = typed.length % 256 := UInt8.toNat_ofNat'
  rw [size]
  exact Nat.mod_le _ _

/-- The code is read whole just when its length fits in a byte. -/
theorem narrowed_eq_iff (typed : List UInt8) : narrowed typed = typed ↔ typed.length < 256 := by
  unfold narrowed
  constructor
  · intro whole
    have length := congrArg List.length whole
    rw [List.length_drop] at length
    omega
  · intro short
    rw [Nat.mod_eq_of_lt short, Nat.sub_self]
    rfl

/-! ## What the server decodes -/

theorem decode_typed_request (op : Operation) (unset : Receiver.Unset) :
    ∃ pre rest,
      decode .RequestReceive (encode .RequestReceive (Receiver.request op unset)) =
        some (pre, rest) ∧ pre.code_phrase.code = narrowed op.receival_code_phrase := by
  obtain ⟨file_data, rest, popped⟩ :=
    PreMetadata.pop_covered (⟨⟨EMessageType.RequestReceive, 0⟩, []⟩ : Message)
      (Receiver.request op unset) (codePhrase_fits op.receival_code_phrase)
  exact ⟨_, rest, popped, codePhrase_covered _⟩

theorem decode_typed_receive (typed : List UInt8) :
    ∃ request rest, decode .Receive (encode .Receive (codePhrase typed)) = some (request, rest) ∧
      request.code = narrowed typed := by
  have run := CodePhrase.run_covered [] (codePhrase_fits typed)
  have body : (encode .Receive (codePhrase typed)).body =
      [] ++ ByteStack.written (Streamed.pushes (codePhrase typed)) := Net.Message.push_body _ _
  rw [← body, ← Net.Message.pop_run] at run
  obtain ⟨⟨popped, rest⟩, hr, heq⟩ := Option.map_eq_some_iff.mp run
  obtain ⟨rfl, -⟩ := Prod.mk.inj heq
  exact ⟨_, rest, hr, codePhrase_covered typed⟩

/-! ## What is looked up -/

/-- The typed code is what the server decodes from both messages of the receiver, and resolves to a
sender only if it is the code which that sender has registered. -/
structure LooksUpTyped (op : Operation) (unset : Receiver.Unset) : Prop where
  request : ∃ pre rest,
    decode .RequestReceive (encode .RequestReceive (Receiver.request op unset)) =
      some (pre, rest) ∧ pre.code_phrase.code = op.receival_code_phrase
  receive : ∃ request rest,
    decode .Receive (encode .Receive (codePhrase op.receival_code_phrase)) =
      some (request, rest) ∧ request.code = op.receival_code_phrase
  requested : ∀ (κ : Type) (st : ClientStorage κ) (s : κ) (code : List UInt8) pre rest,
    (st.entriesOf s).phrase = some code →
    decode .RequestReceive (encode .RequestReceive (Receiver.request op unset)) =
      some (pre, rest) →
    st.getSenderByCode pre.code_phrase.code = some s → op.receival_code_phrase = code
  received : ∀ (κ : Type) (st : ClientStorage κ) (s : κ) (code : List UInt8) request rest,
    (st.entriesOf s).phrase = some code →
    decode .Receive (encode .Receive (codePhrase op.receival_code_phrase)) =
      some (request, rest) →
    st.getSenderByCode request.code = some s → op.receival_code_phrase = code

/-- A code resolves only to the sender that has registered it. -/
theorem ClientStorage.code_of_resolves {κ : Type} {st : ClientStorage κ} {s : κ}
    {code asked : List UInt8} (registered : (st.entriesOf s).phrase = some code)
    (known : st.getSenderByCode asked = some s) : asked = code := by
  have phrase := getSenderByCode_iff.mp known
  rw [registered] at phrase
  exact (Option.some.inj phrase).symm

/-- **When the typed code is looked up.** -/
theorem looks_up_typed_iff (op : Operation) (unset : Receiver.Unset) :
    LooksUpTyped op unset ↔ op.receival_code_phrase.length < 256 := by
  rw [← narrowed_eq_iff]
  obtain ⟨pre, left, requested, code⟩ := decode_typed_request op unset
  obtain ⟨request, left', received, code'⟩ := decode_typed_receive op.receival_code_phrase
  constructor
  · intro looks
    obtain ⟨request', rest, decoded, same⟩ := looks.receive
    rw [received] at decoded
    cases decoded
    rw [← code', same]
  · intro whole
    rw [whole] at code code'
    refine ⟨⟨pre, left, requested, code⟩, ⟨request, left', received, code'⟩, ?_, ?_⟩
    · intro κ st s registered pre' rest phrase decoded known
      rw [requested] at decoded
      cases decoded
      rw [← code]
      exact ClientStorage.code_of_resolves phrase known
    · intro κ st s registered request' rest phrase decoded known
      rw [received] at decoded
      cases decoded
      rw [← code']
      exact ClientStorage.code_of_resolves phrase known

/-- A code of 257 bytes that ends in the code of a sender. -/
def overlongCode : List UInt8 := List.replicate 256 97 ++ [7]

/-- It is looked up as that sender's code. -/
theorem overlong_code_resolves : ¬ ∀ op unset, LooksUpTyped op unset := by
  intro always
  have looks := always { receival_code_phrase := overlongCode } ⟨0, 0⟩
  obtain ⟨request, rest, decoded, code⟩ := decode_typed_receive overlongCode
  have narrow : narrowed overlongCode = [7] := by
    have length : overlongCode.length = 257 := by
      rw [overlongCode, List.length_append, List.length_replicate, List.length_singleton]
    unfold narrowed
    rw [length]
    exact List.drop_left' List.length_replicate
  have registered : (FileServer.onePair.entries 0).phrase = some [7] := by decide
  have resolves : FileServer.onePair.m_storage.getSenderByCode [7] = some 0 := by decide
  rw [narrow] at code
  have same := looks.received Nat FileServer.onePair.m_storage 0 [7] request rest registered
    decoded (by rw [code]; exact resolves)
  have length := congrArg List.length same
  rw [overlongCode, List.length_append, List.length_replicate, List.length_singleton] at length
  exact absurd length (by decide)

end PingPong
