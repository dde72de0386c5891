import PingPong.Server.Isolation

/-!
# Pairings against sessions

`addSession` inserts into `m_senders_receivers` and into `m_sessions`, and each insertion is refused
on its own condition: the pairing where either side is taken, the session where the sender has one.
A receiver that is paired already and asks for the code of a sender without a session gets the
session but not the pairing.  `AddsWholeSession` rules out just that, and a run keeps pairings and
sessions in agreement exactly as long as all its steps meet it.
-/

namespace PingPong

open Common Net

namespace FileServer

variable {κ : Type} [DecidableEq κ]

structure PairingsAgree (srv : FileServer κ) : Prop where
  agree : ∀ s r, (srv.entries s).pairing = some r ↔
    ∃ x, (srv.entries s).session = some x ∧ x.m_sink = r
  one_session : ∀ s t x y, (srv.entries s).session = some x → (srv.entries t).session = some y →
    x.m_sink = y.m_sink → s = t

/-- A `Receive` that resolves to a sender without a session comes from a connection that is not
paired with anyone. -/
def AddsWholeSession (srv : FileServer κ) (e : Event κ) : Prop :=
  ∀ c msg request rest s, e = .message c msg → srv.m_storage.m_sessions c = none →
    msg.1.header.id = .Receive → decode .Receive msg.1 = some (request, rest) →
    srv.m_storage.getSenderByCode request.code = some s →
    srv.m_storage.m_sessions s ≠ none ∨ srv.m_storage.getSenderByReceiver c = none

omit [DecidableEq κ] in
/-- The second half follows from the first, since the pairing is one to one. -/
theorem PairingsAgree.of_agree {srv : FileServer κ}
    (h : ∀ s r, (srv.entries s).pairing = some r ↔
      ∃ x, (srv.entries s).session = some x ∧ x.m_sink = r) : srv.PairingsAgree := by
  refine ⟨h, fun s t x y hx hy same => ?_⟩
  have left : (srv.entries s).pairing = some y.m_sink := (h s y.m_sink).mpr ⟨x, hx, same⟩
  have right : (srv.entries t).pairing = some y.m_sink := (h t y.m_sink).mpr ⟨y, hy, rfl⟩
  exact srv.m_storage.m_senders_receivers.left_inj left right

omit [DecidableEq κ] in
/-- Sender by sender, only pairing and session matter. -/
theorem PairingsAgree.congr {srv srv' : FileServer κ} (h : srv.PairingsAgree)
    (same : ∀ s, (srv'.entries s).pairing = (srv.entries s).pairing ∧
      (srv'.entries s).session = (srv.entries s).session) : srv'.PairingsAgree := by
  refine .of_agree fun s r => ?_
  rw [(same s).1, (same s).2]
  exact h.agree s r

omit [DecidableEq κ] in
theorem PairingsAgree.dropped {srv srv' : FileServer κ} (h : srv.PairingsAgree) {s : κ}
    (drops : OnlyDrops srv srv' s) : srv'.PairingsAgree := by
  refine .of_agree fun t r => ?_
  rcases eq_or_ne t s with rfl | ht
  · rw [drops.1]
    simp [Entries.absent]
  · rw [drops.2 t ht]
    exact h.agree t r

/-- The step that can go wrong: from agreement, opening a session keeps it just when the sender has
a session, and nothing is inserted, or the receiver is unpaired, and both insertions go through. -/
theorem PairingsAgree.addSession_iff {srv srv' : FileServer κ} (h : srv.PairingsAgree) {s c : κ}
    {x : ServerOneToOneRetranslatorSession κ} (sink : x.m_sink = c)
    (storage : srv'.m_storage = srv.m_storage.addSession s c x) :
    srv'.PairingsAgree ↔
      (srv.m_storage.m_sessions s ≠ none ∨ srv.m_storage.getSenderByReceiver c = none) := by
  have self : srv'.entries s = (srv.m_storage.addSession s c x).entriesOf s := by
    rw [entries, storage]
  rw [ClientStorage.entriesOf_addSession_self] at self
  have others : ∀ t, t ≠ s → srv'.entries t = srv.entries t := by
    intro t ht
    rw [entries, storage]
    exact ClientStorage.entriesOf_addSession_of_ne ht
  rcases hx : (srv.entries s).session with _ | y
  · have unpaired : (srv.entries s).pairing = none := by
      refine Option.eq_none_iff_forall_ne_some.mpr fun r hr => ?_
      obtain ⟨y, hy, -⟩ := (h.agree s r).mp hr
      rw [hx] at hy
      cases hy
    have session : (srv'.entries s).session = some x := by
      rw [self]
      exact if_pos hx
    constructor
    · intro h'
      right
      have pairing := (h'.agree s c).mpr ⟨x, session, sink⟩
      rw [self] at pairing
      dsimp only at pairing
      split at pairing
      · rename_i free
        exact free.2
      · rw [unpaired] at pairing
        cases pairing
    · intro either
      rcases either with taken | free
      · exact (taken hx).elim
      · have pairing : (srv'.entries s).pairing = some c := by
          rw [self]
          exact if_pos ⟨unpaired, free⟩
        refine .of_agree fun t r => ?_
        rcases eq_or_ne t s with rfl | ht
        · rw [pairing, session]
          simp [sink]
        · rw [others t ht]
          exact h.agree t r
  · have session : (srv.entries s).session ≠ none := by
      rw [hx]
      exact Option.some_ne_none y
    have paired : (srv.entries s).pairing ≠ none := by
      rw [(h.agree s y.m_sink).mpr ⟨y, hx, rfl⟩]
      exact Option.some_ne_none _
    refine iff_of_true (h.congr fun t => ?_) (Or.inl session)
    rcases eq_or_ne t s with rfl | ht
    · rw [self]
      exact ⟨if_neg fun both => paired both.1, if_neg session⟩
    · rw [others t ht]
      exact ⟨rfl, rfl⟩

/-- A step keeps pairings and sessions in agreement just when it adds no half session. -/
theorem PairingsAgree.step_iff {srv srv' : FileServer κ} (inv : srv.Inv) (h : srv.PairingsAgree)
    {e : Event κ} (step : srv.step e = some srv') :
    srv'.PairingsAgree ↔ AddsWholeSession srv e := by
  rcases step_handled step with ⟨only, noMessage⟩ | ⟨c, msg, rfl, handled⟩
  · refine iff_of_true (h.congr fun s => ?_) ?_
    · rw [entries, only.storage]
      exact ⟨rfl, rfl⟩
    · intro c msg _ _ _ he
      exact (noMessage c msg he).elim
  have notReceive : ∀ {M : EMessageType}, M ≠ .Receive → msg.1.header.id = M →
      AddsWholeSession srv (.message c msg) := by
    intro M ne kind d msg' _ _ _ he _ kind'
    cases he
    exact (ne (kind.symm.trans kind')).elim
  have sessioned : srv.m_storage.m_sessions c ≠ none →
      AddsWholeSession srv (.message c msg) := by
    intro has d msg' _ _ _ he free
    cases he
    exact (has free).elim
  cases handled with
  | relayed session found relays =>
      exact iff_of_true (h.congr fun _ => ⟨rfl, rfl⟩)
        (sessioned (by rw [found]; exact Option.some_ne_none _))
  | aborted session found ends =>
      exact iff_of_true (h.dropped (removeSessionAbruptly_onlyDrops srv c))
        (sessioned (by rw [found]; exact Option.some_ne_none _))
  | registered pre rest free kind decoded =>
      refine iff_of_true (h.congr fun s => ?_) (notReceive (by decide) kind)
      exact ⟨rfl, rfl⟩
  | refused request rest free kind decoded unknown =>
      exact iff_of_true (h.congr fun _ => ⟨rfl, rfl⟩) (notReceive (by decide) kind)
  | offered request rest s context free kind decoded known found =>
      exact iff_of_true (h.congr fun _ => ⟨rfl, rfl⟩) (notReceive (by decide) kind)
  | turnedAway request rest free kind decoded unknown =>
      refine iff_of_true (h.congr fun _ => ⟨rfl, rfl⟩) ?_
      intro d msg' request' rest' s he _ _ decoded' known
      cases he
      rw [decoded] at decoded'
      cases decoded'
      rw [unknown] at known
      cases known
  | stranded request rest s free kind decoded known none =>
      exact (inv.not_stranded known none).elim
  | opened request rest s context free kind decoded known found =>
      rw [h.addSession_iff (s := s) (c := c) (x := newSession context c) rfl rfl]
      constructor
      · intro whole d msg' request' rest' t he _ _ decoded' known'
        cases he
        rw [decoded] at decoded'
        cases decoded'
        rw [known] at known'
        cases known'
        exact whole
      · intro whole
        exact whole c msg request rest s rfl free kind decoded known
  | finished s free kind paired =>
      exact iff_of_true (h.dropped (post_dropSender_onlyDrops srv s _))
        (notReceive (by decide) kind)
  | failed s free kind paired =>
      exact iff_of_true (h.dropped (removeSessionAbruptly_onlyDrops srv s))
        (notReceive (by decide) kind)
  | ignored free notSend notRequest notReceive' unpaired =>
      refine iff_of_true h ?_
      intro d msg' _ _ _ he _ kind
      cases he
      exact (notReceive' kind).elim

/-- **When pairings and sessions agree throughout a run.** -/
theorem pairings_agree_iff (es : List (Event κ)) :
    (∀ srv, (lts κ).Visits es srv → srv.PairingsAgree) ↔
      ∀ srv e srv', (lts κ).Takes es srv e srv' → AddsWholeSession srv e := by
  have start : PairingsAgree (lts κ).init := by
    refine .of_agree fun s r => ?_
    constructor
    · intro paired
      cases paired
    · intro paired
      obtain ⟨x, found, -⟩ := paired
      cases found
  have exact_run := Lts.always_iff (M := lts κ) (P := PairingsAgree) (Q := fun _ _ _ => True)
    (C := AddsWholeSession) es start fun srv e srv' reachable h step => by
      rw [and_true]
      exact h.step_iff (Reachable.inv reachable) step
  rw [← exact_run]
  simp only [implies_true, and_true]

theorem other_send_framed : (encode .Send ⟨.File, ⟨1, [9]⟩, ⟨3, 1, [8]⟩⟩).Framed := by decide

theorem other_receive_framed : (encode .Receive ⟨1, [9]⟩).Framed := by decide

/-- One receiver with the codes of two senders: the second session has it as a sink without a
pairing. -/
def doubleReceiverEvents : List (Event Nat) :=
  pairingEvents ++
    [.accept 2, .validate 2,
      .message 2 ⟨encode .Send ⟨.File, ⟨1, [9]⟩, ⟨3, 1, [8]⟩⟩, other_send_framed⟩,
      .message 1 ⟨encode .Receive ⟨1, [9]⟩, other_receive_framed⟩]

def doubleReceiver : FileServer Nat := ((lts Nat).run doubleReceiverEvents).get (by decide)

theorem pairings_disagree :
    ¬ ∀ srv : FileServer Nat, Reachable srv → srv.PairingsAgree := by
  intro always
  have agree := always doubleReceiver ⟨doubleReceiverEvents, (Option.some_get _).symm⟩
  have pairing := (agree.agree 2 1).mpr ⟨⟨3, 512, 1⟩, by decide, rfl⟩
  exact absurd pairing (by decide)

end FileServer

end PingPong
