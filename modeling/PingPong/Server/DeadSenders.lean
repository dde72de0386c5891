import PingPong.Server.Announcements

/-!
# Senders whose connection has closed

Nothing on the way from a closing socket to the store calls `onClientDisconnect`, so a closed sender
stays registered, and a request for its code is handled like any other.  `TurnedAway` is what should
happen to such a request; it happens to none, so a run has it throughout just when no request asks
for a closed sender (`dead_senders_turned_away_iff`).
-/

namespace PingPong

open Common Net

namespace FileServer

variable {κ : Type} [DecidableEq κ]

/-- The code that a `RequestReceive` or a `Receive` asks for. -/
def requestedCode (msg : Message) : Option (List UInt8) :=
  match msg.header.id with
  | .RequestReceive => (decode .RequestReceive msg).map fun popped => popped.1.code_phrase.code
  | .Receive => (decode .Receive msg).map fun popped => popped.1.code
  | _ => none

/-- The message asks for the code of a sender `s` whose socket is closed. -/
def AsksDeadSender (srv : FileServer κ) (msg : Message) (s : κ) : Prop :=
  ∃ code, requestedCode msg = some code ∧ srv.m_storage.getSenderByCode code = some s ∧
    (srv.conn s).m_socket = .closed

/-- What a request for a dead sender should come to. -/
structure TurnedAway (srv srv' : FileServer κ) (c : κ) (msg : Message) (s : κ) : Prop where
  not_offered : msg.header.id = .RequestReceive →
    ∀ answer ∈ newlySent srv srv' c, answer.header.id ≠ .Accept
  not_opened : msg.header.id = .Receive →
    (srv.entries s).session = none → (srv'.entries s).session = none
  told : ∃ answer ∈ newlySent srv srv' c,
    answer.header.id = .Reject ∨ answer.header.id = .Abort
  gone : srv'.entries s = .absent

theorem requestedCode_kind {msg : Message} {code : List UInt8}
    (h : requestedCode msg = some code) :
    msg.header.id = .RequestReceive ∨ msg.header.id = .Receive := by
  unfold requestedCode at h
  split at h
  · rename_i kind
    exact Or.inl kind
  · rename_i kind
    exact Or.inr kind
  · cases h

/-- No request for a dead sender comes to what it should: the sender stays in the store, unless the
request ends the session of the sender itself, and then nobody is left to be told. -/
theorem Handled.not_turnedAway {srv srv' : FileServer κ} (inv : srv.Inv) {c : κ} {msg : Message}
    (h : Handled srv c msg srv') {s : κ} (asks : AsksDeadSender srv msg s) :
    ¬ TurnedAway srv srv' c msg s := by
  obtain ⟨code, requested, resolves, closed⟩ := asks
  have kind := requestedCode_kind requested
  have stays : ∀ {M : EMessageType}, M ≠ .RequestReceive → M ≠ .Receive →
      msg.header.id ≠ M := by
    intro M notRequest notReceive is
    rw [is] at kind
    exact kind.elim notRequest notReceive
  have kept : (srv'.entries s).phrase = (srv.entries s).phrase → ¬ TurnedAway srv srv' c msg s := by
    intro same turned
    have phrase : (srv.entries s).phrase = some code :=
      ClientStorage.getSenderByCode_iff.mp resolves
    rw [← same, turned.gone] at phrase
    cases phrase
  cases h with
  | relayed session found relays => exact kept rfl
  | aborted session found ends =>
      rcases eq_or_ne s c with rfl | ne
      · -- The sender asks for its own code: its socket is closed, so it cannot be told anything.
        intro accepted
        obtain ⟨-, -, ⟨answer, member, -⟩, -⟩ := accepted
        have refuses : srv.accepts s = false := Link.refuses_of_closed closed
        rw [newlySent_removeSessionAbruptly found] at member
        split at member
        · rename_i self
          rw [← self.1, refuses] at self
          cases self.2
        · cases member
      · exact kept (by rw [removeSessionAbruptly_entries_of_ne ne])
  | registered pre rest free is decoded => exact (stays (by decide) (by decide) is).elim
  | refused request rest free is decoded unknown => exact kept rfl
  | offered request rest t context free is decoded known found => exact kept rfl
  | turnedAway request rest free is decoded unknown => exact kept rfl
  | stranded request rest t free is decoded known none =>
      exact (inv.not_stranded known none).elim
  | opened request rest t context free is decoded known found => exact kept rfl
  | finished t free is paired => exact (stays (by decide) (by decide) is).elim
  | failed t free is paired => exact (stays (by decide) (by decide) is).elim
  | ignored free notSend notRequest notReceive => exact (kind.elim notRequest notReceive).elim

/-- **When no transfer is offered from a dead sender throughout a run.** -/
theorem dead_senders_turned_away_iff (es : List (Event κ)) :
    (∀ srv c msg srv', (lts κ).Takes es srv (.message c msg) srv' →
      ∀ s, AsksDeadSender srv msg.1 s → TurnedAway srv srv' c msg.1 s) ↔
    ∀ srv c msg srv', (lts κ).Takes es srv (.message c msg) srv' →
      ∀ s, ¬ AsksDeadSender srv msg.1 s := by
  constructor
  · intro turned srv c msg srv' taken s asks
    have inv : srv.Inv := Reachable.inv taken.visits.reachable
    obtain ⟨_, _, _, _, step⟩ := id taken
    have handled := onMessage_handled (step_message step).2
    exact handled.not_turnedAway inv asks (turned srv c msg srv' taken s asks)
  · intro none srv c msg srv' taken s asks
    exact (none srv c msg srv' taken s asks).elim

/-- Client 0 announces a file and goes away; client 1 asks for it. -/
def deadSenderEvents : List (Event Nat) :=
  [.accept 0, .validate 0, .accept 1, .validate 1,
    .message 0 ⟨encode .Send ⟨.File, ⟨1, [7]⟩, ⟨3, 1, [8]⟩⟩, send_framed⟩, .close 0]

def deadSender : FileServer Nat := ((lts Nat).run deadSenderEvents).get (by decide)

def deadRequest : WireMessage :=
  ⟨encode .RequestReceive ⟨.File, ⟨1, [7]⟩, ⟨0, 0, []⟩⟩, request_framed⟩

/-- It is offered the file. -/
theorem dead_sender_offered :
    ¬ ∀ (srv : FileServer Nat) (c : Nat) (msg : WireMessage) (srv' : FileServer Nat),
      Reachable srv → srv.step (.message c msg) = some srv' →
      ∀ s, AsksDeadSender srv msg.1 s → TurnedAway srv srv' c msg.1 s := by
  intro always
  have turned := always deadSender 1 deadRequest _ ⟨deadSenderEvents, (Option.some_get _).symm⟩
    (Option.some_get (by decide)).symm 0 ⟨[7], by decide, by decide, by decide⟩
  exact absurd (turned.not_offered rfl) (by decide)

end FileServer

end PingPong
