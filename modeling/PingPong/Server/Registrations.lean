import PingPong.Server.Isolation

/-!
# Registration is all or nothing, unless codes collide

`addPendingSender` inserts a phrase, which is refused where another sender holds it, and a context,
which is not, and tells nobody.  `CodeIsFree` rules that collision out, and a run keeps phrases and
contexts together, and answers every `Send`, exactly as long as all its steps meet it.
-/

namespace PingPong

open Common Net

namespace FileServer

variable {κ : Type} [DecidableEq κ]

/-- Phrases and contexts are kept under the same senders, with the same codes. -/
def RegistrationsWhole (srv : FileServer κ) : Prop :=
  ∀ s p, (srv.entries s).phrase = some p ↔
    ∃ x, (srv.entries s).context = some x ∧ x.pre_metadata.code_phrase.code = p

/-- The connection is now the sender its code resolves to, and its earlier code resolves to
nobody. -/
structure Registered (srv srv' : FileServer κ) (c : κ) (code : List UInt8) : Prop where
  resolves : srv'.m_storage.getSenderByCode code = some c
  earlier : ∀ p, (srv.entries c).phrase = some p → p ≠ code →
    srv'.m_storage.getSenderByCode p = none

/-- The connection has been sent `Reject`, and nothing is pending under it. -/
structure Rejected (srv srv' : FileServer κ) (c : κ) : Prop where
  told : ∃ reject : Message, reject.header.id = .Reject ∧
    srv'.sentTo c = srv.sentTo c ++ [reject]
  phrase : (srv'.entries c).phrase = none
  context : (srv'.entries c).context = none

/-- What a `Send` from a connection without a session should come to: it is registered or rejected,
and the registrations of others are untouched. -/
def SendSettled (srv : FileServer κ) (e : Event κ) (srv' : FileServer κ) : Prop :=
  ∀ c msg pre rest, e = .message c msg → srv.m_storage.m_sessions c = none →
    msg.1.header.id = .Send → decode .Send msg.1 = some (pre, rest) →
    (Registered srv srv' c pre.code_phrase.code ∨ Rejected srv srv' c) ∧
      ∀ s, s ≠ c → (srv'.entries s).phrase = (srv.entries s).phrase ∧
        (srv'.entries s).context = (srv.entries s).context

/-- A `Send` carries a code that no other connection holds. -/
def CodeIsFree (srv : FileServer κ) (e : Event κ) : Prop :=
  ∀ c msg pre rest, e = .message c msg → srv.m_storage.m_sessions c = none →
    msg.1.header.id = .Send → decode .Send msg.1 = some (pre, rest) →
    srv.m_storage.FreeFor c pre.code_phrase.code

omit [DecidableEq κ] in
theorem RegistrationsWhole.congr {srv srv' : FileServer κ} (h : srv.RegistrationsWhole)
    (same : ∀ s, (srv'.entries s).phrase = (srv.entries s).phrase ∧
      (srv'.entries s).context = (srv.entries s).context) : srv'.RegistrationsWhole := by
  intro s p
  rw [(same s).1, (same s).2]
  exact h s p

omit [DecidableEq κ] in
theorem RegistrationsWhole.dropped {srv srv' : FileServer κ} (h : srv.RegistrationsWhole) {s : κ}
    (drops : OnlyDrops srv srv' s) : srv'.RegistrationsWhole := by
  intro t p
  rcases eq_or_ne t s with rfl | ht
  · rw [drops.1]
    simp [Entries.absent]
  · rw [drops.2 t ht]
    exact h t p

/-- A free code is registered, and the earlier code of its sender with it goes. -/
theorem registered_of_free {srv srv' : FileServer κ} {c : κ} {pre : PreMetadata}
    (free : srv.m_storage.FreeFor c pre.code_phrase.code)
    (storage : srv'.m_storage =
      (srv.m_storage.removePendingSender c).addPendingSender c m_max_chunk_size pre) :
    Registered srv srv' c pre.code_phrase.code := by
  have self : (srv'.entries c).phrase = some pre.code_phrase.code := by
    rw [entries, storage, ClientStorage.entriesOf_register_self (Or.inl ⟨free, rfl⟩)]
  constructor
  · rw [ClientStorage.getSenderByCode_iff]
    exact self
  · intro p had ne
    refine Option.eq_none_iff_forall_ne_some.mpr fun s known => ?_
    have holds := ClientStorage.getSenderByCode_iff.mp known
    rcases eq_or_ne s c with rfl | hs
    · have now := self.symm.trans holds
      exact ne (Option.some.inj now).symm
    · rw [storage, ClientStorage.entriesOf_register_of_ne hs] at holds
      exact hs (srv.m_storage.m_pending_phrase_senders.left_inj holds had)

/-- The step that can go wrong: a `Send` keeps phrases and contexts together just when its code is
free. -/
theorem RegistrationsWhole.register_iff {srv srv' : FileServer κ} (h : srv.RegistrationsWhole)
    (c : κ) (pre : PreMetadata)
    (storage : srv'.m_storage =
      (srv.m_storage.removePendingSender c).addPendingSender c m_max_chunk_size pre) :
    srv'.RegistrationsWhole ↔ srv.m_storage.FreeFor c pre.code_phrase.code := by
  constructor
  · intro whole
    by_contra taken
    have holds := whole c pre.code_phrase.code
    rw [entries, storage, ClientStorage.entriesOf_register_self (Or.inr ⟨taken, rfl⟩)] at holds
    cases holds.mpr ⟨_, rfl, rfl⟩
  · intro free s p
    rcases eq_or_ne s c with rfl | hs
    · rw [entries, storage, ClientStorage.entriesOf_register_self (Or.inl ⟨free, rfl⟩)]
      simp [ClientStorage.announce]
    · rw [entries, storage, ClientStorage.entriesOf_register_of_ne hs]
      exact h s p

/-- A step keeps registrations whole and settles its `Send` just when the code is free. -/
theorem RegistrationsWhole.step_iff {srv srv' : FileServer κ} (inv : srv.Inv)
    (h : srv.RegistrationsWhole) {e : Event κ} (step : srv.step e = some srv') :
    (srv'.RegistrationsWhole ∧ SendSettled srv e srv') ↔ CodeIsFree srv e := by
  rcases step_handled step with ⟨only, noMessage⟩ | ⟨c, msg, rfl, handled⟩
  · refine iff_of_true ⟨h.congr fun s => ?_, ?_⟩ ?_
    · rw [entries, only.storage]
      exact ⟨rfl, rfl⟩
    · intro c msg _ _ he
      exact (noMessage c msg he).elim
    · intro c msg _ _ he
      exact (noMessage c msg he).elim
  -- Outside `registered`, the message is no `Send` of a connection without a session.
  have settled : srv'.RegistrationsWhole →
      (srv.m_storage.m_sessions c = none → msg.1.header.id ≠ .Send) →
      ((srv'.RegistrationsWhole ∧ SendSettled srv (.message c msg) srv') ↔
        CodeIsFree srv (.message c msg)) := by
    intro whole notSend
    refine iff_of_true ⟨whole, ?_⟩ ?_
    · intro d msg' _ _ he free kind
      cases he
      exact (notSend free kind).elim
    · intro d msg' _ _ he free kind
      cases he
      exact (notSend free kind).elim
  have other : ∀ {M : EMessageType}, M ≠ .Send → msg.1.header.id = M →
      srv.m_storage.m_sessions c = none → msg.1.header.id ≠ .Send := by
    intro M ne kind _ send
    exact ne (kind.symm.trans send)
  have sessioned : ∀ {session}, srv.m_storage.m_sessions c = some session →
      srv.m_storage.m_sessions c = none → msg.1.header.id ≠ .Send := by
    intro session found free
    exact (Option.some_ne_none session (found.symm.trans free)).elim
  cases handled with
  | relayed session found relays =>
      exact settled (h.congr fun _ => ⟨rfl, rfl⟩) (sessioned found)
  | aborted session found ends =>
      exact settled (h.dropped (removeSessionAbruptly_onlyDrops srv c)) (sessioned found)
  | registered pre rest free kind decoded =>
      rw [h.register_iff c pre rfl]
      constructor
      · intro frees d msg' pre' rest' he _ _ decoded'
        obtain ⟨codeFree, -⟩ := frees
        cases he
        rw [decoded] at decoded'
        cases decoded'
        exact codeFree
      · intro codeFree
        have own := codeFree c msg pre rest rfl free kind decoded
        refine ⟨own, ?_⟩
        intro d msg' pre' rest' he _ _ decoded'
        cases he
        rw [decoded] at decoded'
        cases decoded'
        refine ⟨Or.inl (registered_of_free own rfl), fun s hs => ?_⟩
        rw [entries, ClientStorage.entriesOf_register_of_ne hs]
        exact ⟨rfl, rfl⟩
  | refused request rest free kind decoded unknown =>
      exact settled (h.congr fun _ => ⟨rfl, rfl⟩) (other (by decide) kind)
  | offered request rest s context free kind decoded known found =>
      exact settled (h.congr fun _ => ⟨rfl, rfl⟩) (other (by decide) kind)
  | turnedAway request rest free kind decoded unknown =>
      exact settled (h.congr fun _ => ⟨rfl, rfl⟩) (other (by decide) kind)
  | stranded request rest s free kind decoded known none =>
      exact (inv.not_stranded known none).elim
  | opened request rest s context free kind decoded known found =>
      exact settled (h.congr fun _ => ⟨rfl, rfl⟩) (other (by decide) kind)
  | finished s free kind paired =>
      exact settled (h.dropped (post_dropSender_onlyDrops srv s _)) (other (by decide) kind)
  | failed s free kind paired =>
      exact settled (h.dropped (removeSessionAbruptly_onlyDrops srv s)) (other (by decide) kind)
  | ignored free notSend => exact settled h fun _ => notSend

/-- **When registration is all or nothing throughout a run.** -/
theorem registrations_whole_iff (es : List (Event κ)) :
    ((∀ srv, (lts κ).Visits es srv → srv.RegistrationsWhole) ∧
      ∀ srv e srv', (lts κ).Takes es srv e srv' → SendSettled srv e srv') ↔
    ∀ srv e srv', (lts κ).Takes es srv e srv' → CodeIsFree srv e := by
  have start : RegistrationsWhole (lts κ).init := by
    intro s p
    constructor
    · intro registered
      cases registered
    · intro registered
      obtain ⟨x, found, -⟩ := registered
      cases found
  exact Lts.always_iff es start fun srv e srv' reachable h step =>
    h.step_iff (Reachable.inv reachable) step

/-- Client 2 announces a file under the code of client 0. -/
def collidingEvents : List (Event Nat) :=
  pairingEvents ++
    [.accept 2, .validate 2,
      .message 2 ⟨encode .Send ⟨.File, ⟨1, [7]⟩, ⟨3, 1, [8]⟩⟩, send_framed⟩]

def collided : FileServer Nat := ((lts Nat).run collidingEvents).get (by decide)

/-- It ends up with a context, without a phrase, and without a `Reject`. -/
theorem registrations_not_whole :
    ¬ ∀ srv : FileServer Nat, Reachable srv → srv.RegistrationsWhole := by
  intro always
  have whole := always collided ⟨collidingEvents, (Option.some_get _).symm⟩
  have phrase := (whole 2 [7]).mpr
    ⟨ClientStorage.announce 512 ⟨.File, ⟨1, [7]⟩, ⟨3, 1, [8]⟩⟩, by decide, rfl⟩
  exact absurd phrase (by decide)

end FileServer

end PingPong
