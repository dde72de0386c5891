import PingPong.Server.Announcements
import PingPong.Server.Ownership
import PingPong.Server.Pairings

/-!
# What a receiver's report comes to

The receiver of a pairing ends it with `FinishReceive` or `FailedReceive`.  `onMessage` looks at the
session of the client before it looks at the type of the message, so that the report of a receiver
which is a sender in a session of its own is taken for a bad part of its own file
(`report_ends_iff`).
-/

namespace PingPong

open Common Net

namespace FileServer

variable {κ : Type} [DecidableEq κ]

/-- Both reports of `r` end the session of `s`: success is told to `s`, failure ends it abruptly,
and either way `s` is a key of none of the four maps. -/
structure EndsByReport (srv : FileServer κ) (s r : κ) : Prop where
  finished : ∀ msg : Message, msg.header.id = .FinishReceive →
    ∃ srv', srv.onMessage r msg = some srv' ∧ srv'.entries s = .absent ∧
      newlySent srv srv' s = if srv.accepts s then [encode .Success {}] else []
  failed : ∀ msg : Message, msg.header.id = .FailedReceive →
    ∃ srv', srv.onMessage r msg = some srv' ∧ srv'.entries s = .absent ∧
      srv' = srv.removeSessionAbruptly s

/-! ## A receiver without a session of its own -/

theorem onMessage_finish {srv : FileServer κ} {s r : κ} {msg : Message}
    (free : srv.m_storage.m_sessions r = none)
    (paired : srv.m_storage.getSenderByReceiver r = some s)
    (kind : msg.header.id = .FinishReceive) :
    srv.onMessage r msg = some ((srv.post s (encode .Success {})).dropSender s) := by
  have free : srv.m_storage.getSessionBySender r = none := free
  rw [← finishSession_eq paired]
  simp only [onMessage, free, kind]
  rfl

theorem onMessage_fail {srv : FileServer κ} {s r : κ} {msg : Message}
    (free : srv.m_storage.m_sessions r = none)
    (paired : srv.m_storage.getSenderByReceiver r = some s)
    (kind : msg.header.id = .FailedReceive) :
    srv.onMessage r msg = some (srv.removeSessionAbruptly s) := by
  have free : srv.m_storage.getSessionBySender r = none := free
  simp only [onMessage, free, kind, paired]
  rfl

theorem EndsByReport.of_free {srv : FileServer κ} {s r : κ}
    (free : srv.m_storage.m_sessions r = none)
    (paired : srv.m_storage.getSenderByReceiver r = some s) : EndsByReport srv s r := by
  constructor
  · intro msg kind
    refine ⟨_, onMessage_finish free paired kind, dropSender_entries_self _ s, ?_⟩
    have posted := newlySent_post srv s s (encode .Success {})
    simp only [true_and] at posted
    rw [← posted, newlySent, dropSender_sentTo]
    rfl
  · intro msg kind
    exact ⟨_, onMessage_fail free paired kind, removeSessionAbruptly_entries_self srv s, rfl⟩

/-! ## A receiver in a session of its own -/

/-- Its reports end its own session. -/
theorem onMessage_report_sessioned {srv : FileServer κ} {r : κ}
    {session : ServerOneToOneRetranslatorSession κ}
    (found : srv.m_storage.m_sessions r = some session) {msg : Message}
    (kind : msg.header.id = .FinishReceive ∨ msg.header.id = .FailedReceive) :
    srv.onMessage r msg = some (srv.removeSessionAbruptly r) := by
  have found : srv.m_storage.getSessionBySender r = some session := found
  rcases kind with kind | kind
  · simp only [onMessage, found, onSessionedMessage, kind]
    rfl
  · simp only [onMessage, found, onSessionedMessage, kind]
    rfl

/-- A sender to itself is told `Abort`, if anything, where it should be told `Success`. -/
theorem EndsByReport.self_iff {srv : FileServer κ} {s : κ}
    {session : ServerOneToOneRetranslatorSession κ}
    (found : srv.m_storage.m_sessions s = some session) :
    EndsByReport srv s s ↔ srv.accepts s = false := by
  have gone := removeSessionAbruptly_entries_self srv s
  have sent := newlySent_removeSessionAbruptly found s
  constructor
  · intro ends
    obtain ⟨srv', step, -, told⟩ := ends.finished (encode .FinishReceive {}) (encode_id _ _)
    rw [onMessage_report_sessioned found (Or.inl (encode_id _ _))] at step
    cases step
    rw [sent] at told
    cases accepts : srv.accepts s with
    | false => rfl
    | true =>
        rw [accepts, if_pos rfl] at told
        split at told
        · have same : EMessageType.Abort = .Success :=
            congrArg (fun msg : Message => msg.header.id) (List.cons.inj told).1
          cases same
        · cases told
  · intro refuses
    constructor
    · intro msg kind
      refine ⟨_, onMessage_report_sessioned found (Or.inl kind), gone, ?_⟩
      rw [sent, refuses, if_neg Bool.false_ne_true]
      apply if_neg
      intro told
      obtain ⟨here, accepts⟩ := told
      rw [← here, refuses] at accepts
      cases accepts
    · intro msg kind
      exact ⟨_, onMessage_report_sessioned found (Or.inr kind), gone, rfl⟩

/-- **When a paired receiver can end its session.** -/
theorem report_ends_iff {srv : FileServer κ} {s r : κ}
    (paired : srv.m_storage.getSenderByReceiver r = some s) :
    EndsByReport srv s r ↔
      srv.m_storage.m_sessions r = none ∨ (r = s ∧ srv.accepts s = false) := by
  cases found : srv.m_storage.m_sessions r with
  | none => exact iff_of_true (.of_free found paired) (Or.inl rfl)
  | some session =>
      rcases eq_or_ne r s with rfl | ne
      · rw [EndsByReport.self_iff found]
        simp
      · -- The pairing of `s` survives the report.
        refine iff_of_false (fun ends => ?_) (by simp [ne])
        obtain ⟨srv', step, gone, -⟩ := ends.finished (encode .FinishReceive {}) (encode_id _ _)
        rw [onMessage_report_sessioned found (Or.inl (encode_id _ _))] at step
        cases step
        rw [removeSessionAbruptly_entries_of_ne ne.symm] at gone
        have pairing := paired_of_receiver paired
        rw [gone] at pairing
        exact pairing rfl

theorem report_ends_onePair :
    EndsByReport onePair 0 1 ↔
      onePair.m_storage.m_sessions 1 = none ∨ (1 = 0 ∧ onePair.accepts 0 = false) :=
  report_ends_iff (by decide)

/-- Client 1 is to receive the file of client 0, and sends one of its own to client 2. -/
def relayingReceiverEvents : List (Event Nat) :=
  [.accept 0, .validate 0, .accept 1, .validate 1, .accept 2, .validate 2,
    .message 0 ⟨encode .Send ⟨.File, ⟨1, [7]⟩, ⟨3, 1, [8]⟩⟩, send_framed⟩,
    .message 1 ⟨encode .Send ⟨.File, ⟨1, [9]⟩, ⟨3, 1, [8]⟩⟩, other_send_framed⟩,
    .message 1 ⟨encode .Receive ⟨1, [7]⟩, receive_framed⟩,
    .message 2 ⟨encode .Receive ⟨1, [9]⟩, other_receive_framed⟩]

def relayingReceiver : FileServer Nat := ((lts Nat).run relayingReceiverEvents).get (by decide)

theorem report_misdirected :
    ¬ ∀ (srv : FileServer Nat) (s r : Nat), Reachable srv →
      srv.m_storage.getSenderByReceiver r = some s → EndsByReport srv s r := by
  intro always
  have ends := always relayingReceiver 0 1 ⟨_, (Option.some_get _).symm⟩ (by decide)
  obtain ⟨srv', step, gone, -⟩ := ends.finished (encode .FinishReceive {}) (encode_id _ _)
  have survives : ((relayingReceiver.onMessage 1 (encode .FinishReceive {})).get
      (by decide)).entries 0 ≠ .absent := by decide
  apply survives
  rw [← gone]
  congr 1
  simp only [step, Option.get_some]

end FileServer

end PingPong
