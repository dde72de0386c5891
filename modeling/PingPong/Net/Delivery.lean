import PingPong.Net.Endpoint

/-!
# In-order exactly-once delivery

`Wire` is one TCP connection with its two endpoints and the bytes on their way in each direction.  A
stream may break at any point: the bytes behind the break are lost, and so is everything written
later.

* `Wire.Inv`: both endpoints keep their invariant, and what an endpoint has read and what is on its
  way to it is the start of what its peer wrote.
* `Wire.refines_channel`: each direction, seen as the messages accepted at one end and popped at the
  other, is a first-in first-out channel.
* `Wire.delivery`: what this says of the bytes on the wire.
-/

namespace PingPong.Net

open TriviallyCopyable (width toBytes ofBytes)

def EOwner.peer : EOwner → EOwner
  | .Server => .Client
  | .Client => .Server

@[simp] theorem EOwner.peer_peer (o : EOwner) : o.peer.peer = o := by
  cases o <;> rfl

theorem EOwner.peer_ne (o : EOwner) : o.peer ≠ o := by
  cases o <;> exact EOwner.noConfusion

theorem EOwner.eq_or_peer (o d : EOwner) : d = o ∨ d = o.peer := by
  cases o <;> cases d
  · exact Or.inl rfl
  · exact Or.inr rfl
  · exact Or.inr rfl
  · exact Or.inl rfl

/-- The bytes on their way in one direction. -/
structure Stream where
  bytes : List UInt8 := []
  broken : Bool := false

/-- Bytes written to a broken stream are lost. -/
def Stream.append (s : Stream) (bytes : List UInt8) : Stream :=
  if s.broken then s else { s with bytes := s.bytes ++ bytes }

structure Wire (T : Type) [Inhabited T] where
  conn : EOwner → Connection T
  /-- The stream an endpoint writes to. -/
  stream : EOwner → Stream := fun _ => {}

namespace Wire

variable {T : Type} [Inhabited T] [TriviallyCopyable T]

inductive Event (T : Type) where
  | act (o : EOwner) (a : Connection.Act T)
  /-- The stream written by `o` breaks behind the first `keep` bytes on their way. -/
  | cut (o : EOwner) (keep : Nat)

/-- A step of one endpoint, which takes its bytes from the front of the stream of its peer and
writes to the end of its own. -/
def act (w : Wire T) (o : EOwner) (a : Connection.Act T) : Option (Wire T) :=
  if a.taken.isPrefixOf (w.stream o.peer).bytes then do
    let c ← (w.conn o).step a
    let put := c.written.drop (w.conn o).written.length
    let left := (w.stream o.peer).bytes.drop a.taken.length
    some
      { conn := Function.update w.conn o c
        stream := Function.update
          (Function.update w.stream o ((w.stream o).append put))
          o.peer { w.stream o.peer with bytes := left } }
  else none

def step (w : Wire T) : Event T → Option (Wire T)
  | .act o a => w.act o a
  | .cut o keep =>
      some
        { w with
          stream := Function.update w.stream o ⟨(w.stream o).bytes.take keep, true⟩ }

def lts (T : Type) [Inhabited T] [TriviallyCopyable T] (challenge : UInt64) :
    Lts (Wire T) (Event T) :=
  ⟨{ conn := Connection.start challenge }, step⟩

/-! ## Steps -/

/-- What a step of endpoint `o` does to the wire. -/
structure Acts (w w' : Wire T) (o : EOwner) (a : Connection.Act T) : Prop where
  step : (w.conn o).step a = some (w'.conn o)
  peer : w'.conn o.peer = w.conn o.peer
  put : ∃ bytes, (w'.conn o).written = (w.conn o).written ++ bytes ∧
    w'.stream o = (w.stream o).append bytes
  took : (w.stream o.peer).bytes = a.taken ++ (w'.stream o.peer).bytes
  unbroken : (w'.stream o.peer).broken = (w.stream o.peer).broken

theorem act_acts {w w' : Wire T} {o : EOwner} {a : Connection.Act T} (h : w.act o a = some w') :
    Acts w w' o a := by
  unfold act at h
  split at h
  · rename_i front
    obtain ⟨c, step, rest⟩ := Option.bind_eq_some_iff.mp h
    cases rest
    have ne : o ≠ o.peer := o.peer_ne.symm
    obtain ⟨bytes, written, -⟩ := (Connection.step_effect step).written
    have self : Function.update w.conn o c o = c := Function.update_self _ _ _
    constructor
    · change (w.conn o).step a = some (Function.update w.conn o c o)
      rw [self]
      exact step
    · exact Function.update_of_ne o.peer_ne _ _
    · refine ⟨bytes, ?_, ?_⟩
      · change (Function.update w.conn o c o).written = _
        rw [self]
        exact written
      · dsimp only
        rw [Function.update_of_ne ne, Function.update_self, written, List.drop_left]
    · obtain ⟨tail, bytes⟩ := List.isPrefixOf_iff_prefix.mp front
      dsimp only
      rw [Function.update_self, ← bytes, List.drop_left]
    · dsimp only
      rw [Function.update_self]
  · cases h

/-! ## The invariant -/

structure Inv (w : Wire T) : Prop where
  endpoint : ∀ o, (w.conn o).Inv
  owner : ∀ o, (w.conn o).m_owner_type = o
  failed_closed : ∀ o, (w.conn o).write_failed = true → (w.conn o).m_socket_open = false
  /-- What has been read, and what is on its way, is the start of what was written. -/
  stream : ∀ o, (w.conn o.peer).consumed ++ (w.stream o).bytes <+: (w.conn o).written
  whole : ∀ o, (w.stream o).broken = false →
    (w.conn o.peer).consumed ++ (w.stream o).bytes = (w.conn o).written

theorem Inv.consumed_isPrefix {w : Wire T} (h : w.Inv) (o : EOwner) :
    (w.conn o.peer).consumed <+: (w.conn o).written :=
  (List.prefix_append _ _).trans (h.stream o)

/-- The reply a server has read was written after its whole challenge had been read. -/
theorem Inv.answered {w : Wire T} (h : w.Inv) (o : EOwner) : Connection.Answered (w.conn o) := by
  intro server read
  rw [h.owner o] at server
  subst server
  have reply : (w.conn .Server).consumed.length ≤ (w.conn .Client).written.length :=
    (h.consumed_isPrefix .Client).length_le
  have some : (w.conn .Client).written ≠ [] := by
    intro none
    rw [none, List.length_nil] at reply
    omega
  have challenge := (h.endpoint .Client).client_answers (h.owner .Client) some
  have written : (w.conn .Client).consumed.length ≤ (w.conn .Server).written.length :=
    (h.consumed_isPrefix .Server).length_le
  omega

theorem Inv.start (challenge : UInt64) : Inv (lts T challenge).init := by
  refine ⟨Connection.Inv.start challenge, ?_, ?_, ?_, ?_⟩
  · intro o
    cases o <;> rfl
  · intro o failed
    cases o <;> cases failed
  · intro o
    cases o <;> exact List.prefix_rfl
  · intro o _
    cases o <;> rfl

theorem Inv.acts [NoPadding T] {w w' : Wire T} (h : w.Inv) {o : EOwner} {a : Connection.Act T}
    (acts : Acts w w' o a) : w'.Inv := by
  obtain ⟨step, peer, ⟨bytes, written, stream⟩, took, unbroken⟩ := acts
  have effect := Connection.step_effect step
  have each : ∀ {P : EOwner → Prop}, P o → P o.peer → ∀ d, P d := by
    intro P self other d
    rcases EOwner.eq_or_peer o d with rfl | rfl
    · exact self
    · exact other
  constructor
  · refine each ((h.endpoint o).step (h.answered o) step) ?_
    rw [peer]
    exact h.endpoint o.peer
  · refine each ?_ ?_
    · rw [effect.owner]
      exact h.owner o
    · rw [peer]
      exact h.owner o.peer
  · refine each ?_ ?_
    · intro failed
      rcases effect.failed failed with before | closed
      · exact effect.closed (h.failed_closed o before)
      · exact closed
    · rw [peer]
      exact h.failed_closed o.peer
  · refine each ?_ ?_
    · rw [peer, stream, written]
      unfold Stream.append
      split
      · exact (h.stream o).trans (List.prefix_append _ _)
      · rename_i unbroken
        have whole := h.whole o (Bool.eq_false_iff.mpr unbroken)
        refine ⟨[], ?_⟩
        rw [← whole, List.append_nil, List.append_assoc]
    · have before := h.stream o.peer
      rw [EOwner.peer_peer, took, ← List.append_assoc] at before
      rw [EOwner.peer_peer, peer, effect.consumed]
      exact before
  · refine each ?_ ?_
    · intro unbroken
      rw [stream] at unbroken
      rw [peer, stream, written]
      unfold Stream.append at unbroken ⊢
      split at unbroken
      · rename_i broken
        rw [broken] at unbroken
        cases unbroken
      · rename_i intact
        rw [if_neg intact, ← h.whole o (Bool.eq_false_iff.mpr intact), List.append_assoc]
    · intro intact
      have before := h.whole o.peer (unbroken.symm.trans intact)
      rw [EOwner.peer_peer, took, ← List.append_assoc] at before
      rw [EOwner.peer_peer, peer, effect.consumed]
      exact before

theorem Inv.cut {w : Wire T} (h : w.Inv) (o : EOwner) (keep : Nat) :
    Inv { w with stream := Function.update w.stream o ⟨(w.stream o).bytes.take keep, true⟩ } := by
  refine ⟨h.endpoint, h.owner, h.failed_closed, fun d => ?_, fun d intact => ?_⟩
  · dsimp only
    rcases eq_or_ne d o with rfl | ne
    · rw [Function.update_self]
      have shorter : (w.stream d).bytes.take keep <+: (w.stream d).bytes := List.take_prefix _ _
      exact ((List.prefix_append_right_inj _).mpr shorter).trans (h.stream d)
    · rw [Function.update_of_ne ne]
      exact h.stream d
  · dsimp only at intact ⊢
    rcases eq_or_ne d o with rfl | ne
    · rw [Function.update_self] at intact
      cases intact
    · rw [Function.update_of_ne ne] at intact ⊢
      exact h.whole d intact

theorem Reachable.inv [NoPadding T] {challenge : UInt64} {w : Wire T}
    (h : (lts T challenge).Reachable w) : w.Inv := by
  refine h.induct (P := Inv) (Inv.start challenge) ?_
  intro w e w' _ inv step
  cases e with
  | act o a => exact inv.acts (act_acts step)
  | cut o keep =>
      cases step
      exact inv.cut o keep

/-! ## Delivery -/

/-- The messages parsed at one end are the first of those accepted at the other. -/
theorem Inv.parsed_isPrefix {w : Wire T} (h : w.Inv) (o : EOwner) :
    (w.conn o.peer).parsed <+: (w.conn o).sent := by
  rcases (h.endpoint o.peer).parsed_isPrefix with ⟨-, -, none⟩ | ⟨hs, eight, parsed⟩
  · rw [none]
    exact List.nil_prefix
  · have bytes : hs ++ frames (w.conn o.peer).parsed <+:
        (w.conn o).greeting ++ frames (w.conn o).sent :=
      (parsed.trans (h.consumed_isPrefix o)).trans (h.endpoint o).written_isPrefix
    obtain ⟨rest, heq⟩ := bytes
    rw [List.append_assoc] at heq
    have split := List.append_inj heq (eight.trans (w.conn o).length_greeting.symm)
    exact frame_selfDelimiting.prefix_of_flatMap (h.endpoint o.peer).parsed_framed
      (h.endpoint o).framed ⟨rest, split.2⟩

/-- Each direction is a first-in first-out channel. -/
theorem refines_channel [NoPadding T] (challenge : UInt64) (o : EOwner) :
    (lts T challenge).Refines (Channel.lts (Message T))
      fun w => ⟨(w.conn o).sent, (w.conn o.peer).popped⟩ := by
  constructor
  · cases o <;> rfl
  · intro w e w' reachable step
    have inv' : w'.Inv := (Reachable.inv (reachable.next step))
    cases e with
    | cut d keep =>
        cases step
        exact Or.inl rfl
    | act d a =>
        have acts := act_acts step
        have effect := Connection.step_effect acts.step
        rcases EOwner.eq_or_peer d o with rfl | rfl
        · rw [acts.peer]
          rcases effect.sent with same | ⟨msg, -, grown⟩
          · rw [same]
            exact Or.inl rfl
          · rw [grown]
            exact Or.inr ⟨.send msg.1, rfl⟩
        · rw [acts.peer, EOwner.peer_peer]
          rcases effect.popped with same | ⟨msg, grown⟩
          · rw [same]
            exact Or.inl rfl
          · have next : (w.conn d).popped ++ [msg] <+: (w.conn d.peer).sent := by
              have parsed := inv'.parsed_isPrefix d.peer
              rw [EOwner.peer_peer, acts.peer] at parsed
              rw [← grown]
              exact (List.prefix_append _ _).trans parsed
            rw [grown]
            exact Or.inr ⟨.receive, Channel.step_receive next⟩

/-- A socket that is closed is written to no more. -/
theorem closed_written {challenge : UInt64} {w w' : Wire T} {o : EOwner}
    (closed : (w.conn o).m_socket_open = false) {es : List (Event T)}
    (run : (lts T challenge).runFrom w es = some w') :
    (w'.conn o).written = (w.conn o).written := by
  have both : (w'.conn o).m_socket_open = false ∧ (w'.conn o).written = (w.conn o).written := by
    refine Lts.runFrom_induct (M := lts T challenge) (P := fun v =>
      (v.conn o).m_socket_open = false ∧ (v.conn o).written = (w.conn o).written) ?_
      ⟨closed, rfl⟩ run
    intro v e v' ⟨shut, same⟩ step
    cases e with
    | cut d keep =>
        cases step
        exact ⟨shut, same⟩
    | act d a =>
        have acts := act_acts step
        have effect := Connection.step_effect acts.step
        rcases EOwner.eq_or_peer d o with rfl | rfl
        · obtain ⟨bytes, written, none⟩ := effect.written
          refine ⟨effect.closed shut, ?_⟩
          rw [written, none shut, List.append_nil]
          exact same
        · rw [acts.peer]
          exact ⟨shut, same⟩
  exact both.2

/-- **In-order exactly-once delivery.** -/
theorem delivery [NoPadding T] {challenge : UInt64} {w : Wire T}
    (reachable : (lts T challenge).Reachable w) (o : EOwner) :
    (w.conn o.peer).popped <+: (w.conn o).sent ∧
    -- No frame byte goes before the eight handshake bytes of its direction.
    (w.conn o).written <+: (w.conn o).greeting ++ frames (w.conn o).sent ∧
    ((w.conn o).writes .header ≠ [] ∨ (w.conn o).writes .body ≠ [] →
      (w.conn o).greeting <+: (w.conn o).written) ∧
    ((w.conn o).reads .header ≠ [] ∨ (w.conn o).reads .body ≠ [] ∨ (w.conn o).parsed ≠ [] →
      8 ≤ (w.conn o).consumed.length) ∧
    ((w.conn o).writes .header).length + ((w.conn o).writes .body).length ≤ 1 ∧
    -- After a failed write nothing more is written.
    ((w.conn o).write_failed = true → ∀ es w', (lts T challenge).runFrom w es = some w' →
      (w'.conn o).written = (w.conn o).written) := by
  have inv : w.Inv := Reachable.inv reachable
  have endpoint := inv.endpoint o
  refine ⟨?_, endpoint.written_isPrefix, endpoint.greeting_first, ?_, endpoint.one_frame_write, ?_⟩
  · exact Channel.Reachable.isPrefix ((refines_channel challenge o).reachable reachable)
  · intro reads
    rcases endpoint.parsed_isPrefix with ⟨headers, bodies, none⟩ | ⟨hs, eight, parsed⟩
    · exact (reads.elim (· headers) (·.elim (· bodies) (· none))).elim
    · have length := parsed.length_le
      rw [List.length_append] at length
      omega
  · intro failed es w' run
    exact closed_written (inv.failed_closed o failed) run

/-- The handshake and one message of one byte from the server to the client. -/
def helloEvents : List (Event UInt32) :=
  let reply := toBytes (obfuscate 0)
  let msg : Message UInt32 := ⟨⟨9, 1⟩, [42]⟩
  [.act .Server (.put .validation 0 8), .act .Client (.take .validation 0 [0, 0, 0, 0, 0, 0, 0, 0]),
    .act .Client (.readDone .validation 0), .act .Client (.put .validation 0 8),
    .act .Client (.writeDone .validation 0), .act .Server (.take .validation 0 reply),
    .act .Server (.readDone .validation 0), .act .Server (.send ⟨msg, by decide⟩),
    .act .Server .runPosted, .act .Server (.put .header 0 8), .act .Server (.writeDone .header 0),
    .act .Server (.put .body 0 1), .act .Client (.take .header 0 (toBytes msg.header)),
    .act .Client (.readDone .header 0), .act .Client (.take .body 0 [42]),
    .act .Client (.readDone .body 0), .act .Client .pop]

def hello : Wire UInt32 := ((lts UInt32 0).run helloEvents).get (by decide +kernel)

theorem hello_reachable : (lts UInt32 0).Reachable hello :=
  ⟨helloEvents, (Option.some_get _).symm⟩

theorem delivery_hello : (hello.conn .Client).popped = [⟨⟨9, 1⟩, [42]⟩] ∧
    (hello.conn .Client).popped <+: (hello.conn .Server).sent :=
  ⟨by decide +kernel, (delivery hello_reachable .Server).1⟩

end Wire

end PingPong.Net
