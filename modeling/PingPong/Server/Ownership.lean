import PingPong.Server.Isolation

/-!
# Who owns the entries of the store

Whatever its clients send, a connection is accepted before it is validated, validated before it owns
an entry of the store, and owns a pairing only together with a session.  The first two say that a
client in the store can be reached unless its socket has closed.
-/

namespace PingPong

open Common Net

namespace FileServer

variable {κ : Type} [DecidableEq κ]

structure Owners (srv : FileServer κ) : Prop where
  accepted : ∀ c, (srv.conn c).m_validated → (srv.conn c).m_socket ≠ .absent
  validated : ∀ s, srv.entries s ≠ .absent → (srv.conn s).m_validated
  session_of_pairing : ∀ s, (srv.entries s).pairing ≠ none → (srv.entries s).session ≠ none

omit [DecidableEq κ] in
theorem owns_of_code {srv : FileServer κ} {code : List UInt8} {s : κ}
    (known : srv.m_storage.getSenderByCode code = some s) : srv.entries s ≠ .absent := by
  intro gone
  have phrase : (srv.entries s).phrase = some code := ClientStorage.getSenderByCode_iff.mp known
  rw [gone] at phrase
  cases phrase

omit [DecidableEq κ] in
theorem paired_of_receiver {srv : FileServer κ} {r s : κ}
    (paired : srv.m_storage.getSenderByReceiver r = some s) : (srv.entries s).pairing ≠ none := by
  have pairing : (srv.entries s).pairing = some r := ClientStorage.getSenderByReceiver_iff.mp paired
  rw [pairing]
  exact Option.some_ne_none r

omit [DecidableEq κ] in
/-- It is enough to look at the entries that are new. -/
theorem Owners.update {srv srv' : FileServer κ} (h : srv.Owners)
    (ends : ∀ d, SameEnd srv srv' d)
    (entries : ∀ s, srv'.entries s = .absent ∨ srv'.entries s = srv.entries s ∨
      ((srv.conn s).m_validated ∧
        ((srv'.entries s).pairing ≠ none → (srv'.entries s).session ≠ none))) :
    srv'.Owners := by
  refine ⟨fun c => ?_, fun s owns => ?_, fun s paired => ?_⟩
  · rw [(ends c).1, (ends c).2]
    exact h.accepted c
  · rw [(ends s).1]
    rcases entries s with gone | same | ⟨validated, -⟩
    · exact (owns gone).elim
    · rw [same] at owns
      exact h.validated s owns
    · exact validated
  · rcases entries s with gone | same | ⟨-, sessioned⟩
    · rw [gone] at paired
      exact (paired rfl).elim
    · rw [same] at paired ⊢
      exact h.session_of_pairing s paired
    · exact sessioned paired

theorem Owners.handled {srv srv' : FileServer κ} (h : srv.Owners) {c : κ} {msg : Message}
    (validated : (srv.conn c).m_validated) (step : Handled srv c msg srv') : srv'.Owners := by
  refine h.update step.sameEnd fun s => ?_
  have dropped : ∀ {t : κ}, OnlyDrops srv srv' t →
      srv'.entries s = .absent ∨ srv'.entries s = srv.entries s := by
    intro t drops
    rcases eq_or_ne s t with rfl | ne
    · exact Or.inl drops.1
    · exact Or.inr (drops.2 s ne)
  cases step with
  | relayed session found relays => exact Or.inr (Or.inl rfl)
  | aborted session found ends =>
      exact (dropped (removeSessionAbruptly_onlyDrops srv c)).imp id Or.inl
  | registered pre rest free kind decoded =>
      rcases eq_or_ne s c with rfl | ne
      · exact Or.inr (Or.inr ⟨validated, h.session_of_pairing s⟩)
      · exact Or.inr (Or.inl (ClientStorage.entriesOf_register_of_ne ne))
  | refused request rest free kind decoded unknown => exact Or.inr (Or.inl rfl)
  | offered request rest t context free kind decoded known found => exact Or.inr (Or.inl rfl)
  | turnedAway request rest free kind decoded unknown => exact Or.inr (Or.inl rfl)
  | stranded request rest t free kind decoded known none =>
      exact (dropped (removeSessionAbruptly_onlyDrops srv t)).imp id Or.inl
  | opened request rest t context free kind decoded known found =>
      rcases eq_or_ne s t with rfl | ne
      · refine Or.inr (Or.inr ⟨h.validated s (owns_of_code known), fun _ => ?_⟩)
        change ((srv.m_storage.addSession s c (newSession context c)).entriesOf s).session ≠ none
        rw [ClientStorage.entriesOf_addSession_self]
        dsimp only
        split
        · exact Option.some_ne_none _
        · assumption
      · exact Or.inr (Or.inl (ClientStorage.entriesOf_addSession_of_ne ne))
  | finished t free kind paired =>
      exact (dropped (post_dropSender_onlyDrops srv t _)).imp id Or.inl
  | failed t free kind paired =>
      exact (dropped (removeSessionAbruptly_onlyDrops srv t)).imp id Or.inl
  | ignored => exact Or.inr (Or.inl rfl)

/-- Replacing a connection by one that is accepted if it is validated, and validated if it was. -/
theorem Owners.withConn {srv : FileServer κ} (h : srv.Owners) {c : κ} {l : Link EMessageType}
    (accepted : l.m_validated → l.m_socket ≠ .absent)
    (validated : (srv.conn c).m_validated → l.m_validated) : (srv.withConn c l).Owners := by
  have conn : ∀ d, (srv.withConn c l).conn d = if d = c then l else srv.conn d := fun d =>
    Function.update_apply _ _ _ _
  refine ⟨fun d => ?_, fun s owns => ?_, h.session_of_pairing⟩
  · rw [conn]
    split
    · exact accepted
    · exact h.accepted d
  · rw [conn]
    split
    · rename_i here
      rw [here] at owns
      exact validated (h.validated c owns)
    · exact h.validated s owns

theorem Owners.step {srv srv' : FileServer κ} (h : srv.Owners) {e : Event κ}
    (step : srv.step e = some srv') : srv'.Owners := by
  cases e with
  | accept c =>
      simp only [FileServer.step] at step
      split at step <;> cases step
      exact h.withConn (fun _ => Socket.noConfusion) id
  | validate c =>
      simp only [FileServer.step] at step
      split at step
      · rename_i accepted
        cases step
        exact h.withConn (fun _ => accepted) fun _ => rfl
      · cases step
  | close c =>
      simp only [FileServer.step] at step
      split at step <;> cases step
      exact h.withConn (fun _ => Socket.noConfusion) id
  | message c msg =>
      obtain ⟨validated, handled⟩ := step_message step
      exact h.handled validated (onMessage_handled handled)

theorem Reachable.owners {srv : FileServer κ} (h : Reachable srv) : srv.Owners := by
  refine Lts.Reachable.induct (M := lts κ) (P := Owners) ⟨?_, ?_, ?_⟩
    (fun srv e srv' _ owners step => owners.step step) h
  · intro c validated
    cases validated
  · intro s owns
    exact (owns rfl).elim
  · intro s paired
    exact (paired rfl).elim

omit [DecidableEq κ] in
/-- A validated connection that refuses a message has closed. -/
theorem Owners.closed_of_refuses {srv : FileServer κ} (h : srv.Owners) {c : κ}
    (validated : (srv.conn c).m_validated) (refuses : srv.accepts c = false) :
    (srv.conn c).m_socket = .closed :=
  Link.closed_of_refuses validated (h.accepted c validated) refuses

end FileServer

end PingPong
