import PingPong.Server.Emission

/-!
# Who is told that a session ended abnormally

`removeSessionAbruptly` sends its one `Abort` through the session, which knows its sink only; the
sender is just disconnected.  So both sides are told only where they are the same connection
(`abnormal_end_announced_iff`).
-/

namespace PingPong

open Common Net

namespace FileServer

variable {κ : Type} [DecidableEq κ]

/-! ## Newly sent messages -/

/-- The messages `send` has accepted on a connection since an earlier state. -/
def newlySent (srv srv' : FileServer κ) (c : κ) : List Message :=
  (srv'.sentTo c).drop (srv.sentTo c).length

/-- How many `Abort` messages were sent on a connection since an earlier state. -/
def abortsSent (srv srv' : FileServer κ) (c : κ) : Nat :=
  (newlySent srv srv' c).countP fun msg => msg.header.id = .Abort

theorem newlySent_post (srv : FileServer κ) (c d : κ) (msg : Message) :
    newlySent srv (srv.post c msg) d = if d = c ∧ srv.accepts c then [msg] else [] := by
  rw [newlySent, post_sentTo]
  split
  · exact List.drop_left
  · exact List.drop_length

/-- Ending a session abruptly sends one `Abort`, to its sink. -/
theorem newlySent_removeSessionAbruptly {srv : FileServer κ} {s : κ}
    {session : ServerOneToOneRetranslatorSession κ}
    (found : srv.m_storage.m_sessions s = some session) (d : κ) :
    newlySent srv (srv.removeSessionAbruptly s) d =
      if d = session.m_sink ∧ srv.accepts session.m_sink then [encode .Abort {}] else [] := by
  have same : (srv.removeSessionAbruptly s).sentTo d =
      (srv.post session.m_sink (encode .Abort {})).sentTo d := by
    rw [removeSessionAbruptly_eq, dropSender_sentTo, abortSink_of_session found]
  rw [newlySent, same]
  exact newlySent_post srv session.m_sink d _

theorem abortsSent_removeSessionAbruptly {srv : FileServer κ} {s : κ}
    {session : ServerOneToOneRetranslatorSession κ}
    (found : srv.m_storage.m_sessions s = some session) (d : κ) :
    abortsSent srv (srv.removeSessionAbruptly s) d =
      if d = session.m_sink ∧ srv.accepts session.m_sink then 1 else 0 := by
  rw [abortsSent, newlySent_removeSessionAbruptly found]
  split <;> rfl

/-! ## Abnormal ends -/

/-- The messages that end the session from `s` to `r` abnormally: from `s`, a chunk that is too
short or too long or anything that is no chunk; from `r`, a `FailedReceive`, where it is paired with
`s`. -/
inductive EndsAbnormally (srv : FileServer κ) (s r : κ) : κ → Message → Prop
  | badChunk (msg : Message) :
    msg.header.id = .Chunk →
    ¬ (SHA256_DIGEST_LENGTH ≤ msg.size ∧
      msg.size ≤ SHA256_DIGEST_LENGTH + m_max_chunk_size.toNat) →
    EndsAbnormally srv s r s msg
  | noChunk (msg : Message) :
    msg.header.id ≠ .Chunk → msg.header.id ≠ .FinalChunk → EndsAbnormally srv s r s msg
  | failed (msg : Message) :
    msg.header.id = .FailedReceive → srv.m_storage.getSenderByReceiver r = some s →
    EndsAbnormally srv s r r msg

/-- Both sides have been told, once each, and the sender has left the store. -/
structure AnnouncedToBoth (srv srv' : FileServer κ) (s r : κ) : Prop where
  sender : abortsSent srv srv' s = 1
  receiver : abortsSent srv srv' r = 1
  gone : srv'.entries s = .absent

/-- An abnormal end comes down to `removeSessionAbruptly`, for `s` or, where `r` has a session of
its own, for `r`. -/
theorem EndsAbnormally.ended {srv : FileServer κ} {s r c : κ} {msg : Message}
    (h : EndsAbnormally srv s r c msg) (framed : msg.Framed)
    (has : srv.m_storage.m_sessions s ≠ none) :
    ∃ t, srv.onMessage c msg = some (srv.removeSessionAbruptly t) ∧
      srv.m_storage.m_sessions t ≠ none ∧ (t = s ∨ t = r) := by
  have sessioned : ∀ {t}, srv.m_storage.m_sessions t ≠ none → msg.header.id ≠ .FinalChunk →
      (msg.header.id = .Chunk → exceedsChunkSize msg) →
      srv.onMessage t msg = some (srv.removeSessionAbruptly t) := by
    intro t ht notFinal bad
    obtain ⟨session, found⟩ := Option.ne_none_iff_exists'.mp ht
    have found : srv.m_storage.getSessionBySender t = some session := found
    simp only [onMessage, found, onSessionedMessage, if_neg notFinal]
    split
    · rename_i chunk
      rw [if_pos (bad chunk)]
    · rfl
  cases h with
  | badChunk _ kind size =>
      refine ⟨s, sessioned has (by rw [kind]; decide) fun _ => ?_, has, Or.inl rfl⟩
      rcases exceeds : exceedsChunkSize msg with _ | _
      · exact (size ((exceedsChunkSize_eq_false_iff framed).mp exceeds)).elim
      · rfl
  | noChunk _ notChunk notFinal =>
      exact ⟨s, sessioned has notFinal fun chunk => (notChunk chunk).elim, has, Or.inl rfl⟩
  | failed _ kind paired =>
      rcases own : srv.m_storage.m_sessions r with _ | session
      · refine ⟨s, ?_, has, Or.inl rfl⟩
        have own : srv.m_storage.getSessionBySender r = none := own
        simp only [onMessage, own, kind, paired]
        rfl
      · have hasOwn : srv.m_storage.m_sessions r ≠ none := by
          rw [own]
          exact Option.some_ne_none session
        refine ⟨r, sessioned hasOwn (by rw [kind]; decide) fun chunk => ?_, hasOwn, Or.inr rfl⟩
        rw [kind] at chunk
        cases chunk

/-- **When an abnormal end is announced to both sides.**  The message is always processed, and the
one `Abort` it causes reaches both only where sender and receiver are one connection. -/
theorem abnormal_end_announced_iff {srv : FileServer κ} {s r : κ}
    {session : ServerOneToOneRetranslatorSession κ}
    (found : srv.m_storage.m_sessions s = some session) (sink : session.m_sink = r)
    (accepts : srv.accepts s ∧ srv.accepts r) {c : κ} {msg : WireMessage}
    (ends : EndsAbnormally srv s r c msg.1) :
    ∃ srv', srv.onMessage c msg.1 = some srv' ∧ (AnnouncedToBoth srv srv' s r ↔ s = r) := by
  have has : srv.m_storage.m_sessions s ≠ none := by
    rw [found]
    exact Option.some_ne_none session
  obtain ⟨t, step, hasT, which⟩ := ends.ended msg.2 has
  obtain ⟨ended, foundT⟩ := Option.ne_none_iff_exists'.mp hasT
  have aborts := abortsSent_removeSessionAbruptly foundT
  refine ⟨_, step, ?_⟩
  constructor
  · intro announces
    obtain ⟨toSender, toReceiver, -⟩ := announces
    -- One message is counted, on one connection.
    rw [aborts, ite_eq_left_iff] at toSender toReceiver
    have first : s = ended.m_sink := by
      by_contra ne
      have none := toSender fun both => ne both.1
      omega
    have second : r = ended.m_sink := by
      by_contra ne
      have none := toReceiver fun both => ne both.1
      omega
    rw [first, second]
  · intro same
    obtain rfl := same
    obtain rfl : t = s := which.elim id id
    rw [found] at foundT
    cases foundT
    have told : abortsSent srv (srv.removeSessionAbruptly t) t = 1 := by
      rw [aborts, if_pos ⟨sink.symm, by rw [sink]; exact accepts.1⟩]
    exact ⟨told, told, removeSessionAbruptly_entries_self srv t⟩

theorem abnormal_end_announced_iff_onePair :
    ∃ srv', onePair.onMessage 0 ⟨⟨.Chunk, 0⟩, []⟩ = some srv' ∧
      (AnnouncedToBoth onePair srv' 0 1 ↔ (0 : Nat) = 1) :=
  @abnormal_end_announced_iff Nat _ onePair 0 1 ⟨3, 512, 1⟩ (by decide) rfl (by decide) 0
    ⟨⟨⟨.Chunk, 0⟩, []⟩, by decide⟩ (.badChunk _ rfl (by decide))

/-- After an empty chunk of client 0 only client 1 is sent an `Abort`. -/
theorem abnormal_end_unannounced :
    ¬ ∀ (srv : FileServer Nat) (s r : Nat) (session : ServerOneToOneRetranslatorSession Nat)
      (c : Nat) (msg : WireMessage) (srv' : FileServer Nat), Reachable srv →
      srv.m_storage.m_sessions s = some session → session.m_sink = r →
      srv.accepts s ∧ srv.accepts r → EndsAbnormally srv s r c msg.1 →
      srv.onMessage c msg.1 = some srv' → AnnouncedToBoth srv srv' s r := by
  intro always
  have both := always onePair 0 1 ⟨3, 512, 1⟩ 0 ⟨⟨⟨.Chunk, 0⟩, []⟩, by decide⟩ _
    onePair_reachable (by decide) rfl (by decide) (.badChunk _ rfl (by decide)) rfl
  exact absurd both.sender (by decide)

end FileServer

end PingPong
