import PingPong.Server.Announcements
import PingPong.Server.Ownership

/-!
# What a `Receive` and a failed relay come to

* A `Receive` is to open a session or to be turned away with an `Abort`.  The server answers every
  code it knows with an `Accept` to the sender, whether or not the two insertions of `addSession`
  took place, so the outcome is right just where both do (`receive_settled_iff`).
* A relay that fails is to end the session.  It does for a `Chunk`; for a `FinalChunk` the result of
  the relay is dropped (`failed_relay_ends_iff`).
-/

namespace PingPong

open Common Net

namespace FileServer

variable {κ : Type} [DecidableEq κ]

/-! ## Requests of a client without a session -/

theorem onMessage_request {srv : FileServer κ} {c : κ} {msg : Message}
    (free : srv.m_storage.m_sessions c = none) (kind : msg.header.id = .RequestReceive) :
    srv.onMessage c msg = srv.onReceiveEstablishment c msg := by
  have free : srv.m_storage.getSessionBySender c = none := free
  simp only [onMessage, free, kind]
  rfl

theorem onMessage_receive {srv : FileServer κ} {c : κ} {msg : Message}
    (free : srv.m_storage.m_sessions c = none) (kind : msg.header.id = .Receive) :
    srv.onMessage c msg = srv.establishTransmissionSession c msg := by
  have free : srv.m_storage.getSessionBySender c = none := free
  simp only [onMessage, free, kind]
  rfl

/-- The state after `establishTransmissionSession` has found a sender and its context. -/
def openSession (srv : FileServer κ) (s r : κ) (context : TransmissionContext) : FileServer κ :=
  FileServer.post
    { srv with m_storage := srv.m_storage.addSession s r (newSession context r) }
    s (encode .Accept context.post_metadata)

theorem onMessage_receive_unknown {srv : FileServer κ} {c : κ} {msg rest : Message}
    {request : CodePhrase} (free : srv.m_storage.m_sessions c = none)
    (kind : msg.header.id = .Receive) (decoded : decode .Receive msg = some (request, rest))
    (unknown : srv.m_storage.getSenderByCode request.code = none) :
    srv.onMessage c msg = some (srv.post c (encode .Abort {})) := by
  rw [onMessage_receive free kind]
  simp only [establishTransmissionSession, decoded, Option.bind_eq_bind, Option.bind_some, unknown]

theorem onMessage_receive_known {srv : FileServer κ} {c s : κ} {msg rest : Message}
    {request : CodePhrase} {context : TransmissionContext}
    (free : srv.m_storage.m_sessions c = none) (kind : msg.header.id = .Receive)
    (decoded : decode .Receive msg = some (request, rest))
    (known : srv.m_storage.getSenderByCode request.code = some s)
    (found : srv.m_storage.m_pending_transmissions s = some context) :
    srv.onMessage c msg = some (srv.openSession s c context) := by
  have found : srv.m_storage.getContextBySender s = some context := found
  rw [onMessage_receive free kind]
  simp only [establishTransmissionSession, decoded, Option.bind_eq_bind, Option.bind_some, known,
    found]
  rfl

/-! ## The two outcomes of a `Receive` -/

/-- A session from `s` to `r` and their pairing are new, and `s` has been sent one `Accept`. -/
structure Opened (srv srv' : FileServer κ) (s r : κ) : Prop where
  no_session : (srv.entries s).session = none
  session : ∃ x, (srv'.entries s).session = some x ∧ x.m_sink = r
  no_pairing : (srv.entries s).pairing = none
  pairing : (srv'.entries s).pairing = some r
  accepted : ∃ accept : Message, accept.header.id = .Accept ∧ newlySent srv srv' s = [accept]

/-- `r` has been sent one `Abort`, and nothing else has changed. -/
structure Refused (srv srv' : FileServer κ) (r : κ) : Prop where
  told : ∃ abort : Message, abort.header.id = .Abort ∧ newlySent srv srv' r = [abort]
  storage : srv'.m_storage = srv.m_storage
  others : ∀ d, d ≠ r → srv'.sentTo d = srv.sentTo d

theorem openSession_opened_iff {srv : FileServer κ} (owners : srv.Owners) {s r : κ}
    (context : TransmissionContext) (accepts : srv.accepts s) :
    Opened srv (srv.openSession s r context) s r ↔
      (srv.entries s).session = none ∧ srv.m_storage.getSenderByReceiver r = none := by
  have self : (srv.openSession s r context).entries s =
      (srv.m_storage.addSession s r (newSession context r)).entriesOf s := rfl
  rw [ClientStorage.entriesOf_addSession_self] at self
  constructor
  · intro opened
    refine ⟨opened.no_session, ?_⟩
    have pairing := opened.pairing
    rw [self] at pairing
    dsimp only at pairing
    split at pairing
    · rename_i free
      exact free.2
    · have unpaired : (srv.m_storage.entriesOf s).pairing = none := opened.no_pairing
      rw [unpaired] at pairing
      cases pairing
  · intro opens
    obtain ⟨unsessioned, free⟩ := opens
    have unpaired : (srv.entries s).pairing = none := by
      by_contra paired
      exact owners.session_of_pairing s paired unsessioned
    refine ⟨unsessioned, ⟨newSession context r, ?_, rfl⟩, unpaired, ?_,
      encode .Accept context.post_metadata, encode_id _ _, ?_⟩
    · rw [self]
      exact if_pos unsessioned
    · rw [self]
      exact if_pos ⟨unpaired, free⟩
    · have posted := newlySent_post
        { srv with m_storage := srv.m_storage.addSession s r (newSession context r) } s s
        (encode .Accept context.post_metadata)
      rw [if_pos ⟨rfl, accepts⟩] at posted
      exact posted

/-- **When a `Receive` has one of its two outcomes.**  A code that nobody holds is turned away; any
other opens a session just if its sender has none and the receiver is not paired. -/
theorem receive_settled_iff {srv : FileServer κ} (reachable : Reachable srv) {r : κ}
    {msg rest : Message} {request : CodePhrase} (free : srv.m_storage.m_sessions r = none)
    (kind : msg.header.id = .Receive) (decoded : decode .Receive msg = some (request, rest))
    (accepts : srv.accepts r)
    (reached : ∀ s, srv.m_storage.getSenderByCode request.code = some s → srv.accepts s) :
    ∃ srv', srv.onMessage r msg = some srv' ∧
      (((∃ s, srv.m_storage.getSenderByCode request.code = some s ∧ Opened srv srv' s r) ∨
          Refused srv srv' r) ↔
        ∀ s, srv.m_storage.getSenderByCode request.code = some s →
          (srv.entries s).session = none ∧ srv.m_storage.getSenderByReceiver r = none) := by
  cases known : srv.m_storage.getSenderByCode request.code with
  | none =>
      refine ⟨_, onMessage_receive_unknown free kind decoded known, iff_of_true (Or.inr ?_) ?_⟩
      · refine ⟨⟨encode .Abort {}, encode_id _ _, ?_⟩, rfl, fun d ne => post_sentTo_of_ne ne⟩
        rw [newlySent_post, if_pos ⟨rfl, accepts⟩]
      · intro s same
        cases same
  | some s =>
      obtain ⟨context, found, -, announced⟩ := reachable.inv.context_of_code known
      refine ⟨_, onMessage_receive_known free kind decoded known found, ?_⟩
      have opened := openSession_opened_iff (r := r) reachable.owners context (reached s known)
      constructor
      · intro outcome
        rcases outcome with ⟨t, same, outcome⟩ | outcome
        · cases same
          intro t same
          cases same
          exact opened.mp outcome
        · -- The sender is told of the session, so nobody has been turned away.
          obtain ⟨abort, kind, told⟩ := outcome.told
          have accepted := newlySent_post
            { srv with m_storage := srv.m_storage.addSession s r (newSession context r) } s r
            (encode .Accept context.post_metadata)
          have same : newlySent srv (srv.openSession s r context) r =
              if r = s ∧ srv.accepts s then [encode .Accept context.post_metadata] else [] :=
            accepted
          rw [told] at same
          split at same
          · cases same
            rw [encode_id] at kind
            cases kind
          · cases same
      · intro settled
        exact Or.inl ⟨s, rfl, opened.mpr (settled s rfl)⟩

/-- Client 2 asks for the code of a sender that is not in a session yet. -/
def registeredEvents : List (Event Nat) :=
  [.accept 0, .validate 0, .accept 2, .validate 2,
    .message 0 ⟨encode .Send ⟨.File, ⟨1, [7]⟩, ⟨3, 1, [8]⟩⟩, send_framed⟩]

def registered : FileServer Nat := ((lts Nat).run registeredEvents).get (by decide)

theorem receive_settled_registered :
    ∃ srv', registered.onMessage 2 (encode .Receive ⟨1, [7]⟩) = some srv' ∧
      (((∃ s, registered.m_storage.getSenderByCode [7] = some s ∧ Opened registered srv' s 2) ∨
          Refused registered srv' 2) ↔
        ∀ s, registered.m_storage.getSenderByCode [7] = some s →
          (registered.entries s).session = none ∧
            registered.m_storage.getSenderByReceiver 2 = none) := by
  have resolves : registered.m_storage.getSenderByCode [7] = some 0 := by decide
  refine @receive_settled_iff Nat _ registered ⟨registeredEvents, (Option.some_get _).symm⟩ 2
    (encode .Receive ⟨1, [7]⟩) ⟨⟨.Receive, 0⟩, []⟩ ⟨1, [7]⟩ (by decide) (by decide) (by decide)
    (by decide) fun s known => ?_
  cases resolves.symm.trans known
  decide

/-- Clients 0 and 1 are in a session; client 2 has the code, too. -/
def lateReceiver : FileServer Nat :=
  ((lts Nat).run (pairingEvents ++ [.accept 2, .validate 2])).get (by decide)

/-- Its `Receive` gets a second `Accept` sent to client 0, and no answer. -/
theorem late_receive_unsettled :
    ¬ ∀ (srv : FileServer Nat) (r : Nat) (msg rest : Message) (request : CodePhrase)
      (srv' : FileServer Nat), Reachable srv → srv.m_storage.m_sessions r = none →
      msg.header.id = .Receive → decode .Receive msg = some (request, rest) → srv.accepts r →
      (∀ s, srv.m_storage.getSenderByCode request.code = some s → srv.accepts s) →
      srv.onMessage r msg = some srv' →
      (∃ s, srv.m_storage.getSenderByCode request.code = some s ∧ Opened srv srv' s r) ∨
        Refused srv srv' r := by
  intro always
  have resolves : lateReceiver.m_storage.getSenderByCode [7] = some 0 := by decide
  have settled := always lateReceiver 2 (encode .Receive ⟨1, [7]⟩) ⟨⟨.Receive, 0⟩, []⟩ ⟨1, [7]⟩ _
    ⟨_, (Option.some_get _).symm⟩ (by decide) (by decide) (by decide) (by decide)
    (fun s known => by cases resolves.symm.trans known; decide)
    (Option.some_get (by decide)).symm
  rcases settled with ⟨s, known, opened⟩ | refused
  · cases resolves.symm.trans known
    exact absurd opened.no_session (by decide)
  · have silent : newlySent lateReceiver
        ((lateReceiver.onMessage 2 (encode .Receive ⟨1, [7]⟩)).get (by decide)) 2 = [] := by decide
    obtain ⟨abort, -, told⟩ := refused.told
    cases silent.symm.trans told

/-! ## Failed relays -/

/-- **When a failed relay ends the session.** -/
theorem failed_relay_ends_iff {srv : FileServer κ} {s : κ}
    {session : ServerOneToOneRetranslatorSession κ}
    (found : srv.m_storage.m_sessions s = some session)
    (fails : srv.accepts session.m_sink = false) {msg : Message}
    (kind : msg.header.id = .Chunk ∨ msg.header.id = .FinalChunk) :
    ∃ srv', srv.onMessage s msg = some srv' ∧
      (srv'.entries s = .absent ↔ msg.header.id = .Chunk) := by
  have sessioned : srv.onMessage s msg = some (srv.onSessionedMessage s session msg) := by
    have found : srv.m_storage.getSessionBySender s = some session := found
    simp only [onMessage, found]
  refine ⟨_, sessioned, ?_⟩
  have handled : Handled srv s msg (srv.onSessionedMessage s session msg) :=
    onSessionedMessage_handled found
  rcases kind with chunk | final
  · refine iff_of_true ?_ chunk
    -- With a sink that refuses, a chunk can only be handled by ending the session.
    generalize srv.onSessionedMessage s session msg = srv' at handled
    cases handled with
    | aborted session found ends => exact removeSessionAbruptly_entries_self srv s
    | relayed session' found' relays =>
        rw [found] at found'
        cases found'
        rcases relays with final | ⟨-, -, takes⟩
        · rw [chunk] at final
          cases final
        · rw [fails] at takes
          cases takes
    | registered _ _ free | refused _ _ free | offered _ _ _ _ free | turnedAway _ _ free
    | stranded _ _ _ free | opened _ _ _ _ free | finished _ free | failed _ free | ignored free =>
        rw [found] at free
        cases free
  · refine iff_of_false (fun gone => ?_) (by rw [final]; exact EMessageType.noConfusion)
    have same : srv.onSessionedMessage s session msg = srv := by
      unfold onSessionedMessage
      rw [if_pos final, relay_eq_send (Or.inr (Or.inl final))]
      exact post_of_refuses fails msg
    have sessions : (srv.entries s).session = some session := found
    rw [same] at gone
    rw [gone] at sessions
    cases sessions

/-- The receiver of a session has closed. -/
def closedSink : FileServer Nat :=
  ((lts Nat).run (pairingEvents ++ [.close 1])).get (by decide)

theorem failed_relay_ends_closedSink :
    ∃ srv', closedSink.onMessage 0 ⟨⟨.Chunk, 0⟩, []⟩ = some srv' ∧
      (srv'.entries 0 = .absent ↔ EMessageType.Chunk = .Chunk) :=
  @failed_relay_ends_iff Nat _ closedSink 0 ⟨3, 512, 1⟩ (by decide) (by decide)
    ⟨⟨.Chunk, 0⟩, []⟩ (Or.inl rfl)

/-- Its session survives a `FinalChunk`. -/
theorem failed_relay_survived :
    ¬ ∀ (srv : FileServer Nat) (s : Nat) (session : ServerOneToOneRetranslatorSession Nat)
      (msg : WireMessage) (srv' : FileServer Nat), Reachable srv →
      srv.m_storage.m_sessions s = some session →
      (msg.1.header.id = .Chunk ∨ msg.1.header.id = .FinalChunk) →
      srv.accepts session.m_sink = false → srv.onMessage s msg.1 = some srv' →
      srv'.entries s = .absent := by
  intro always
  have gone := always closedSink 0 ⟨3, 512, 1⟩ ⟨encode .FinalChunk {}, by decide⟩ _
    ⟨_, (Option.some_get _).symm⟩ (by decide) (Or.inr rfl) (by decide)
    (Option.some_get (by decide)).symm
  exact absurd gone (by decide)

end FileServer

end PingPong
