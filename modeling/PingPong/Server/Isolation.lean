import PingPong.Server.Invariant

/-!
# Session isolation

What a message from one connection can do to the entries of another sender: nothing, unless it is
the `FinishReceive` or `FailedReceive` of the receiver paired with that sender.  The one branch that
would tear down a stranger's session, a `Receive` for a sender without a context, is dead by the
store invariant.
-/

namespace PingPong

open Common Net

namespace FileServer

variable {κ : Type} [DecidableEq κ]

/-- The message ends the session of the sender its own connection is paired with. -/
def EndsPairedSession (srv : FileServer κ) (c : κ) (msg : Message) (s : κ) : Prop :=
  (msg.header.id = .FinishReceive ∨ msg.header.id = .FailedReceive) ∧
    srv.m_storage.m_sessions c = none ∧ srv.m_storage.getSenderByReceiver c = some s

/-- The sender is a key of none of the four maps, and no other sender's entries have changed. -/
def OnlyDrops (srv srv' : FileServer κ) (s : κ) : Prop :=
  srv'.entries s = .absent ∧ ∀ t, t ≠ s → srv'.entries t = srv.entries t

omit [DecidableEq κ] in
theorem OnlyDrops.session_self {srv srv' : FileServer κ} {s : κ} (h : OnlyDrops srv srv' s) :
    srv'.m_storage.m_sessions s = none := congrArg Entries.session h.1

omit [DecidableEq κ] in
theorem OnlyDrops.session_of_ne {srv srv' : FileServer κ} {s t : κ} (h : OnlyDrops srv srv' s)
    (ne : t ≠ s) : srv'.m_storage.m_sessions t = srv.m_storage.m_sessions t :=
  congrArg Entries.session (h.2 t ne)

theorem removeSessionAbruptly_onlyDrops (srv : FileServer κ) (s : κ) :
    OnlyDrops srv (srv.removeSessionAbruptly s) s :=
  ⟨removeSessionAbruptly_entries_self srv s, fun _ => removeSessionAbruptly_entries_of_ne⟩

theorem post_dropSender_onlyDrops (srv : FileServer κ) (s : κ) (msg : Message) :
    OnlyDrops srv ((srv.post s msg).dropSender s) s :=
  ⟨dropSender_entries_self _ s, fun _ => dropSender_entries_of_ne⟩

theorem finishSession_onlyDrops {srv : FileServer κ} {r s : κ}
    (paired : srv.m_storage.getSenderByReceiver r = some s) :
    OnlyDrops srv (srv.finishSession r) s := by
  rw [finishSession_eq paired]
  exact post_dropSender_onlyDrops srv s _

/-- What a handled message does to the entries: it keeps those of everybody but its own connection,
or it ends one session and changes nothing else. -/
theorem Handled.entries_kept {srv srv' : FileServer κ} {c : κ} {msg : Message} (inv : srv.Inv)
    (h : Handled srv c msg srv') :
    ((∀ s, s ≠ c → (srv.entries s).Kept (srv'.entries s)) ∧
      ∀ s, (srv.entries s).session ≠ none → (srv'.entries s).session ≠ none) ∨
    ∃ s, OnlyDrops srv srv' s ∧ (s = c ∨ EndsPairedSession srv c msg s) := by
  cases h with
  | relayed session found relays => exact Or.inl ⟨fun _ _ => .of_eq rfl, fun _ => id⟩
  | aborted session found ends =>
      exact Or.inr ⟨c, removeSessionAbruptly_onlyDrops srv c, Or.inl rfl⟩
  | registered pre rest free kind decoded =>
      refine Or.inl ⟨fun s hs => .of_eq (ClientStorage.entriesOf_register_of_ne hs), ?_⟩
      intro s hs
      rcases eq_or_ne s c with rfl | ne
      · exact (hs free).elim
      · rw [entries, ClientStorage.entriesOf_register_of_ne ne]
        exact hs
  | refused request rest free kind decoded unknown =>
      exact Or.inl ⟨fun _ _ => .of_eq rfl, fun _ => id⟩
  | offered request rest s context free kind decoded known found =>
      exact Or.inl ⟨fun _ _ => .of_eq rfl, fun _ => id⟩
  | turnedAway request rest free kind decoded unknown =>
      exact Or.inl ⟨fun _ _ => .of_eq rfl, fun _ => id⟩
  | stranded request rest s free kind decoded known none =>
      exact (inv.not_stranded known none).elim
  | opened request rest s context free kind decoded known found =>
      have kept : ∀ t, (srv.entries t).Kept
          ((srv.m_storage.addSession s c (newSession context c)).entriesOf t) := fun t =>
        { phrase := fun _ => id
          context := fun _ => id
          pairing := fun _ => Bimap.insert_keeps
          session := fun x (hx : srv.m_storage.m_sessions t = some x) => Dict.insert_keeps hx }
      refine Or.inl ⟨fun t _ => kept t, fun t ht => ?_⟩
      obtain ⟨x, hx⟩ := Option.ne_none_iff_exists'.mp ht
      have still := (kept t).session x hx
      intro gone
      exact Option.some_ne_none x (still.symm.trans gone)
  | finished s free kind paired =>
      exact Or.inr ⟨s, post_dropSender_onlyDrops srv s _, Or.inr ⟨Or.inl kind, free, paired⟩⟩
  | failed s free kind paired =>
      exact Or.inr ⟨s, removeSessionAbruptly_onlyDrops srv s, Or.inr ⟨Or.inr kind, free, paired⟩⟩
  | ignored => exact Or.inl ⟨fun _ _ => .of_eq rfl, fun _ => id⟩

/-- **Session isolation.**  From a reachable state, a message leaves every entry of every other
sender in place unless it ends the session of the sender paired with its connection; and whenever a
session is ended, by a message or by the two functions that end sessions, its sender leaves the four
maps and nothing else changes. -/
theorem session_isolation {srv : FileServer κ} (reachable : Reachable srv) :
    (∀ (c : κ) (msg : Message) (srv' : FileServer κ), srv.onMessage c msg = some srv' →
      (∀ s, s ≠ c → ¬ EndsPairedSession srv c msg s → (srv.entries s).Kept (srv'.entries s)) ∧
      ∀ s, (srv.entries s).session ≠ none → (srv'.entries s).session = none →
        OnlyDrops srv srv' s) ∧
    (∀ s, OnlyDrops srv (srv.removeSessionAbruptly s) s) ∧
    ∀ r s, srv.m_storage.getSenderByReceiver r = some s →
      OnlyDrops srv (srv.finishSession r) s := by
  refine ⟨fun c msg srv' step => ?_, removeSessionAbruptly_onlyDrops srv,
    fun r s => finishSession_onlyDrops⟩
  rcases (onMessage_handled step).entries_kept reachable.inv with
    ⟨others, sessions⟩ | ⟨s, drops, whose⟩
  · exact ⟨fun s hs _ => others s hs, fun s had gone => (sessions s had gone).elim⟩
  · constructor
    · intro t ht notEnded
      rcases eq_or_ne t s with rfl | ne
      · exact (whose.elim ht notEnded).elim
      · exact .of_eq (drops.2 t ne)
    · intro t had gone
      rcases eq_or_ne t s with rfl | ne
      · exact drops
      · rw [drops.2 t ne] at gone
        exact (had gone).elim

def threeClients : FileServer Nat :=
  ((lts Nat).run (.accept 2 :: .validate 2 :: pairingEvents)).get (by decide)

/-- The third client announces a file. -/
def thirdAnnounced : FileServer Nat :=
  (threeClients.onMessage 2 (encode .Send ⟨.File, ⟨1, [9]⟩, ⟨3, 1, [8]⟩⟩)).get (by decide)

/-- That leaves the running session in place. -/
theorem session_isolation_third_party :
    (thirdAnnounced.entries 2).phrase = some [9] ∧
      (threeClients.entries 0).Kept (thirdAnnounced.entries 0) := by
  have reachable : Reachable threeClients := ⟨_, (Option.some_get _).symm⟩
  have step : threeClients.onMessage 2 (encode .Send ⟨.File, ⟨1, [9]⟩, ⟨3, 1, [8]⟩⟩) =
      some thirdAnnounced := (Option.some_get _).symm
  refine ⟨by decide, ((session_isolation reachable).1 2 _ _ step).1 0 (by decide) ?_⟩
  rintro ⟨finish | failed, -⟩
  · cases finish
  · cases failed

end FileServer

end PingPong
