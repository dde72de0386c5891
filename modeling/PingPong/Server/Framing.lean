import PingPong.Common.Reencoding
import PingPong.Server.Emission

/-!
# What the server sends is in step with its header

A connection writes a header and then as many bytes as the body has; the peer reads as many as the
header says.  The two sizes of an `Accept` are bytes, so that no string of it has more than 255, and
what is relayed was read under its own header: nothing the server sends throws its peer out of step.

* `Handled.adds`: whatever handling a message sends is that message, an answer without content, or
  the `Accept` of something announced.
* `emits_framed` is the result, of every connection in every reachable state.
-/

namespace PingPong

open Common Net
open ByteStack (written Push)
open TriviallyCopyable (toBytes)

theorem push_synced {T : Type} {msg : Net.Message T} (h : msg.Synced) (ws : List Push) :
    (msg.push ws).Synced := by
  induction ws generalizing msg with
  | nil => exact h
  | cons w ws ih => exact ih (h.push1 w)

/-- A message is in step with its header unless the size overflows. -/
theorem Net.Message.Synced.framed_iff {T : Type} {msg : Net.Message T} (h : msg.Synced) :
    msg.Framed ↔ msg.size < 2 ^ 32 := by
  unfold Net.Message.Framed
  rw [h, UInt32.toNat_ofNat']
  constructor
  · intro same
    rw [← same]
    exact Nat.mod_lt _ (by decide)
  · exact Nat.mod_eq_of_lt

theorem encode_framed_iff (M : EMessageType) [Streamed (Payload M)] (data : Payload M) :
    (encode M data).Framed ↔ (written (Streamed.pushes data)).length < 2 ^ 32 := by
  have empty : (⟨⟨M, 0⟩, []⟩ : Message).Synced := rfl
  have body : (encode M data).body = written (Streamed.pushes data) :=
    Net.Message.push_body _ _
  have synced : (encode M data).Synced := push_synced empty _
  rw [synced.framed_iff, Net.Message.size, body]

theorem PreMetadata.length_written (data : PreMetadata) :
    (written (Streamed.pushes data)).length =
      data.file_data.file_name.length + data.code_phrase.code.length + 11 := by
  have type : (written [.data (toBytes data.payload_type)]).length = 1 := rfl
  change (List.flatMap Push.bytes (Streamed.pushes data.file_data ++
    Streamed.pushes data.code_phrase ++ [.data (toBytes data.payload_type)])).length = _
  rw [List.flatMap_append, List.flatMap_append, List.length_append, List.length_append]
  change (written (Streamed.pushes data.file_data)).length +
    (written (Streamed.pushes data.code_phrase)).length +
    (written [.data (toBytes data.payload_type)]).length = _
  rw [FileData.length_written, CodePhrase.length_written, type]
  omega

theorem PostMetadata.length_written (data : PostMetadata) :
    (written (Streamed.pushes data)).length =
      data.file_data.file_name.length + data.code_phrase.code.length + 19 := by
  have upper : (written [.data (toBytes data.max_chunk_size)]).length = 8 := rfl
  have type : (written [.data (toBytes data.payload_type)]).length = 1 := rfl
  change (List.flatMap Push.bytes (Streamed.pushes data.file_data ++
    Streamed.pushes data.code_phrase ++ [.data (toBytes data.max_chunk_size)] ++
    [.data (toBytes data.payload_type)])).length = _
  rw [List.flatMap_append, List.flatMap_append, List.flatMap_append, List.length_append,
    List.length_append, List.length_append]
  change (written (Streamed.pushes data.file_data)).length +
    (written (Streamed.pushes data.code_phrase)).length +
    (written [.data (toBytes data.max_chunk_size)]).length +
    (written [.data (toBytes data.payload_type)]).length = _
  rw [FileData.length_written, CodePhrase.length_written, upper, type]
  omega

namespace FileServer

variable {κ : Type} [DecidableEq κ]

/-- The strings of what was announced have at most 255 bytes each. -/
theorem Announced.framed {context : TransmissionContext} (h : Announced context) :
    (encode .Accept context.post_metadata).Framed := by
  obtain ⟨-, -, code, name⟩ := h.decodes
  have short : context.post_metadata.code_phrase.code.length < 256 := by
    rw [code]
    exact UInt8.toNat_lt _
  have brief : context.post_metadata.file_data.file_name.length < 256 := by
    rw [name]
    exact UInt8.toNat_lt _
  rw [encode_framed_iff]
  change (written (Streamed.pushes context.post_metadata)).length < 2 ^ 32
  rw [PostMetadata.length_written]
  omega

/-- Everything that handling a message can send. -/
theorem Handled.adds {P : Message → Prop} {srv srv' : FileServer κ} (inv : srv.Inv) {c : κ}
    {msg : Message} (h : Handled srv c msg srv') (own : P msg) (reject : P (encode .Reject {}))
    (abort : P (encode .Abort {})) (success : P (encode .Success {}))
    (accept : ∀ context, Announced context → P (encode .Accept context.post_metadata)) {d : κ}
    {m : Message} (sent : m ∈ srv'.sentTo d) : m ∈ srv.sentTo d ∨ P m := by
  have posted : ∀ {target : κ} {answer : Message}, P answer →
      m ∈ (srv.post target answer).sentTo d → m ∈ srv.sentTo d ∨ P m := by
    intro target answer ok member
    rw [post_sentTo] at member
    split at member
    · rcases List.mem_append.mp member with before | new
      · exact Or.inl before
      · rw [List.mem_singleton.mp new]
        exact Or.inr ok
    · exact Or.inl member
  have aborted : ∀ s, m ∈ (srv.removeSessionAbruptly s).sentTo d → m ∈ srv.sentTo d ∨ P m := by
    intro s member
    rw [removeSessionAbruptly_eq, dropSender_sentTo] at member
    unfold abortSink at member
    split at member
    · exact posted abort member
    · exact Or.inl member
  cases h with
  | relayed session found relays => exact posted own sent
  | aborted session found ends => exact aborted c sent
  | registered pre rest free kind decoded => exact Or.inl sent
  | refused request rest free kind decoded unknown => exact posted reject sent
  | offered request rest s context free kind decoded known found =>
      exact posted (accept context ((inv s).announced context found)) sent
  | turnedAway request rest free kind decoded unknown => exact posted abort sent
  | stranded request rest s free kind decoded known none => exact aborted s sent
  | opened request rest s context free kind decoded known found =>
      exact posted (accept context ((inv s).announced context found)) sent
  | finished s free kind paired =>
      rw [dropSender_sentTo] at sent
      exact posted success sent
  | failed s free kind paired => exact aborted s sent
  | ignored => exact Or.inl sent

/-- Every message `send` has accepted is in step with its header. -/
def SendsFramed (srv : FileServer κ) : Prop := ∀ d, ∀ msg ∈ srv.sentTo d, msg.Framed

theorem SendsFramed.handled {srv srv' : FileServer κ} (h : srv.SendsFramed) (inv : srv.Inv) {c : κ}
    {msg : Message} (framed : msg.Framed) (step : Handled srv c msg srv') : srv'.SendsFramed := by
  intro d m sent
  rcases step.adds inv framed (by decide) (by decide) (by decide) (fun _ => Announced.framed) sent
    with before | new
  · exact h d m before
  · exact new

theorem Reachable.sendsFramed {srv : FileServer κ} (reachable : Reachable srv) :
    srv.SendsFramed := by
  refine Lts.Reachable.induct (M := lts κ) (P := SendsFramed) ?_ ?_ reachable
  · intro d msg member
    cases member
  · intro srv e srv' before ih step
    rcases step_handled step with ⟨only, -⟩ | ⟨d, msg, -, handled⟩
    · intro c m member
      rw [only.sent] at member
      exact ih c m member
    · exact ih.handled (Reachable.inv before) msg.2 handled

/-- **The server never falls out of step** with any of its peers. -/
theorem emits_framed {srv : FileServer κ} (reachable : Reachable srv) :
    ∀ (c : κ), ∀ msg ∈ srv.sentTo c, msg.Framed := Reachable.sendsFramed reachable

/-- The `Accept` that opens a session. -/
theorem emits_framed_onePair : ∃ msg ∈ onePair.sentTo 0, msg.Framed := by
  obtain ⟨msg, member⟩ : ∃ msg, msg ∈ onePair.sentTo 0 := List.exists_mem_of_ne_nil _ (by decide)
  exact ⟨msg, member, emits_framed onePair_reachable 0 msg member⟩

/-! ## A connection that takes nothing is sent nothing -/

theorem Handled.sentTo_of_refuses {srv srv' : FileServer κ} {c d : κ} {msg : Message}
    (h : Handled srv c msg srv') (refuses : srv.accepts d = false) :
    srv'.sentTo d = srv.sentTo d := by
  have posted : ∀ (t : FileServer κ) (target : κ) (answer : Message), t.conn = srv.conn →
      (t.post target answer).sentTo d = srv.sentTo d := by
    intro t target answer same
    have still : t.accepts d = false := by
      unfold accepts
      rw [same]
      exact refuses
    have neither : ¬ (d = target ∧ t.accepts target = true) := by
      intro both
      rw [← both.1, still] at both
      exact Bool.false_ne_true both.2
    rw [post_sentTo, if_neg neither, sentTo, same]
  have aborted : ∀ s, (srv.removeSessionAbruptly s).sentTo d = srv.sentTo d := by
    intro s
    rw [removeSessionAbruptly_eq, dropSender_sentTo]
    unfold abortSink
    split
    · exact posted srv _ _ rfl
    · rfl
  cases h with
  | relayed session found relays => exact posted srv _ _ rfl
  | aborted session found ends => exact aborted c
  | registered pre rest free kind decoded => rfl
  | refused request rest free kind decoded unknown => exact posted srv _ _ rfl
  | offered request rest s context free kind decoded known found => exact posted srv _ _ rfl
  | turnedAway request rest free kind decoded unknown => exact posted srv _ _ rfl
  | stranded request rest s free kind decoded known none => exact aborted s
  | opened request rest s context free kind decoded known found => exact posted _ _ _ rfl
  | finished s free kind paired =>
      rw [dropSender_sentTo]
      exact posted srv _ _ rfl
  | failed s free kind paired => exact aborted s
  | ignored => rfl

end FileServer

end PingPong
