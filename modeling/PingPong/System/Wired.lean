import PingPong.System.Agreement
import PingPong.System.Served

/-!
# A transfer over its sockets

`Transfer.lts` takes the two connections of a transfer to be first-in first-out channels.  Here they
are wires: the bytes of both directions, with the connections of the two clients at the other ends,
and the file server on its sockets (`Served`).  Whatever else is connected writes any bytes at all,
as long as no message the server takes from them carries the phrase.

* `Ended` is the invariant of the wire of one client: it is a reachable state of `Wire.lts`, the
  client's link shows its end, and what has been taken off at each end is what the transfer has on
  record.
* `transfer_on_sockets`: every step over the sockets is a run of `Transfer.lts`.
* `file_over_sockets`: what the routines' results mean therefore holds of the bytes.
-/

namespace PingPong

open Common Net
open TriviallyCopyable (toBytes)

namespace Transfer

variable {κ : Type}

/-- The state of a transfer, whose links are what the owners have last seen of the wires. -/
structure Wired (κ : Type) extends State κ where
  wire : κ → Option (Wire EMessageType) := fun _ => none

namespace Wired

def served (st : Wired κ) : Served κ := ⟨st.server, st.wire⟩

inductive Event (κ : Type) where
  /-- Something happens on the sockets, or the server handles a message. -/
  | net (e : Served.Event κ)
  /-- A client takes a message off the queue of its connection. -/
  | toSender
  | toReceiver
  | sendRoutine (choice : Choice)
  | receiveRoutine (choice : Choice)

variable [DecidableEq κ]

/-- The client of the connection `c` only sends through its routine. -/
def tame (c : κ) : Served.Event κ → Bool
  | .act d o a => d ≠ c || o = .Server || a.network
  | .inject d _ => d ≠ c
  | _ => true

/-- The two clients only send through their routines, and nobody else sends the phrase. -/
def permits (x : Transfer κ) (st : Wired κ) (e : Served.Event κ) : Bool :=
  tame x.s e && tame x.r e &&
    match e with
    | .message c =>
        c = x.s || c = x.r || (st.served.next c).all fun msg => carriedCode msg ≠ some x.phrase
    | _ => true

/-- A client looks at its connection, once there is one. -/
def look (l : Link EMessageType) : Option (Wire EMessageType) → Link EMessageType
  | none => l
  | some w => l.look (w.conn .Client)

def lookAt (c : FileClient) (w : Option (Wire EMessageType)) : FileClient :=
  { c with m_connection := look c.m_connection w }

/-- What a step of the sockets makes the server take from `c`. -/
def taken (st : Served κ) (e : Served.Event κ) (c : κ) : List Message :=
  if e.handles = some c then (st.next c).toList else []

/-- What has been sent on a link since it was `l`, goes to the client's end of the wire. -/
def deliver (w : Option (Wire EMessageType)) (l l' : Link EMessageType) :
    Option (Wire EMessageType) :=
  w.map fun w => w.sendAll .Client (l'.sent.drop l.sent.length)

/-- The sockets have moved, and both clients look. -/
def moved (x : Transfer κ) (st : Wired κ) (e : Served.Event κ) (served : Served κ) : Wired κ where
  server := served.server
  sender := { st.sender with c := lookAt st.sender.c (served.wire x.s) }
  receiver := { st.receiver with c := lookAt st.receiver.c (served.wire x.r) }
  fromSender := st.fromSender ++ taken st.served e x.s
  fromReceiver := st.fromReceiver ++ taken st.served e x.r
  toSender := st.toSender
  toReceiver := st.toReceiver
  wire := served.wire

/-- The files of both clients can be read and written. -/
def step (x : Transfer κ) (st : Wired κ) : Event κ → Option (Wired κ)
  | .net e =>
      if permits x st e then (st.served.step e).map fun served => moved x st e served else none
  | .toSender => do
      let w ← st.wire x.s
      let msg ← (w.conn .Client).m_messages_in.head?
      let w ← w.act .Client .pop
      some { st with
        wire := Function.update st.wire x.s (some w)
        sender := { st.sender with c := st.sender.c.receive msg }
        toSender := st.toSender ++ [msg] }
  | .toReceiver => do
      let w ← st.wire x.r
      let msg ← (w.conn .Client).m_messages_in.head?
      let w ← w.act .Client .pop
      some { st with
        wire := Function.update st.wire x.r (some w)
        receiver := { st.receiver with c := st.receiver.c.receive msg }
        toReceiver := st.toReceiver ++ [msg] }
  | .sendRoutine choice =>
      if choice.disk = {} then
        (st.sender.step x.sha256_chunk x.upload x.phrase choice).map fun sender =>
          { st with
            wire := Function.update st.wire x.s
              (deliver (st.wire x.s) st.sender.c.m_connection sender.c.m_connection)
            sender }
      else none
  | .receiveRoutine choice =>
      if choice.disk = {} then
        (st.receiver.step x.sha256_chunk x.download x.unset choice).map fun receiver =>
          { st with
            wire := Function.update st.wire x.r
              (deliver (st.wire x.r) st.receiver.c.m_connection receiver.c.m_connection)
            receiver }
      else none

def lts (x : Transfer κ) : Lts (Wired κ) (Event κ) :=
  ⟨{ sender := { chunksize := x.chunksize } }, step x⟩

/-! ## The wire of a client -/

/-- The link of a client, what the server has taken of its messages, what it has taken of the
server's, and its wire. -/
inductive Ended (l : Link EMessageType) (up down : List Message) :
    Option (Wire EMessageType) → Prop
  | absent : l.m_socket = .absent → l.m_validated = false → l.sent = [] → up = [] → down = [] →
    Ended l up down none
  | present (w : Wire EMessageType) (challenge : UInt64) :
    (Wire.lts EMessageType challenge).Reachable w → (w.conn .Client).Shows l →
    (w.conn .Server).popped = up → (w.conn .Client).popped = down → Ended l up down (some w)

variable {l l' : Link EMessageType} {up down : List Message} {w w' : Wire EMessageType}
  {wire : Option (Wire EMessageType)}

/-- What the server has taken was sent, in this order. -/
theorem Ended.up_isPrefix (h : Ended l up down wire) : up <+: l.sent := by
  cases h with
  | absent socket unvalidated none up down =>
      rw [up]
      exact List.nil_prefix
  | present w challenge reachable shows up down =>
      rw [← up, shows.sent]
      exact (Wire.delivery reachable .Client).1

theorem Ended.look (h : Ended l up down wire) : Wired.look l wire = l := by
  cases h with
  | absent => rfl
  | present w challenge reachable shows up down => exact shows.look

/-- A step of the wire with neither a call of `send` nor a message taken off a queue. -/
theorem Ended.act (h : Ended l up down (some w)) {o : EOwner} {a : Connection.Act EMessageType}
    (network : a.network = true) (act : w.act o a = some w') :
    Ended (Wired.look l (some w')) up down (some w') ∧
      l.Becomes (Wired.look l (some w')) := by
  cases h with
  | present _ challenge reachable shows up down =>
      have acts := Wire.act_acts act
      have next : (Wire.lts EMessageType challenge).Reachable w' :=
        reachable.next (e := .act o a) act
      have popped := Connection.network_popped network acts.step
      cases o with
      | Server =>
          have same : w'.conn .Client = w.conn .Client := acts.peer
          have looked : Wired.look l (some w') = l := by
            change l.look (w'.conn .Client) = l
            rw [same, shows.look]
          rw [looked]
          rw [← same] at shows down
          exact ⟨.present w' challenge next shows (popped.trans up) down, .refl l⟩
      | Client =>
          have same : w'.conn .Server = w.conn .Server := acts.peer
          obtain ⟨shows', becomes⟩ := shows.moves acts.step (Connection.network_quiet network)
          rw [← same] at up
          exact ⟨.present w' challenge next shows' up (popped.trans down), becomes⟩

/-- The stream of one end breaks. -/
theorem Ended.cut (h : Ended l up down (some w)) {o : EOwner} {keep : Nat}
    (cut : w.step (.cut o keep) = some w') :
    Ended (Wired.look l (some w')) up down (some w') ∧
      l.Becomes (Wired.look l (some w')) := by
  cases h with
  | present _ challenge reachable shows up down =>
      have next : (Wire.lts EMessageType challenge).Reachable w' :=
        reachable.next (e := .cut o keep) cut
      cases cut
      have broken := Ended.present _ challenge next shows up down
      rw [broken.look]
      exact ⟨broken, .refl l⟩

/-- The connection is accepted. -/
theorem Ended.open (h : Ended l up down none) (challenge : UInt64) :
    Ended (Wired.look l (some { conn := Connection.start challenge })) up down
        (some { conn := Connection.start challenge }) ∧
      l.Becomes (Wired.look l (some { conn := Connection.start challenge })) := by
  cases h with
  | absent socket unvalidated none up down =>
      have opens : Wired.look l (some { conn := Connection.start challenge }) =
          { l with m_socket := .opened } := by
        change { l with m_validated := false, m_socket := .opened } = _
        rw [← unvalidated]
      refine ⟨.present _ challenge .start ⟨rfl, rfl, none⟩ up.symm down.symm, ?_⟩
      rw [opens]
      exact Link.becomes_opened socket

/-- The server sends on its end. -/
theorem Ended.forward (h : Ended l up down (some w)) {msgs : List Message}
    (framed : ∀ msg ∈ msgs, msg.Framed) : Ended l up down (some (w.sendAll .Server msgs)) := by
  cases h with
  | present _ challenge reachable shows up down =>
      obtain ⟨es, run⟩ := Wire.sendAll_run challenge .Server msgs framed w
      have client : (w.sendAll .Server msgs).conn .Client = w.conn .Client :=
        Wire.sendAll_peer w EOwner.noConfusion msgs
      have server := w.sendAll_conn .Server msgs
      refine .present _ challenge (reachable.runFrom run) ?_ ?_ ?_
      · rw [client]
        exact shows
      · rw [server]
        exact (Connection.sendAll_owner _ _).2.trans up
      · rw [client]
        exact down

/-- The client sends on its end. -/
theorem Ended.deliver (h : Ended l up down wire) (sends : l.Sends l')
    (framed : ∀ msg ∈ l'.sent, msg.Framed) : Ended l' up down (Wired.deliver wire l l') := by
  cases h with
  | absent absent unvalidated none up down =>
      refine .absent (sends.socket.trans absent) (sends.validated.trans unvalidated) ?_ up down
      rcases sends.sent with same | ⟨msg, accepts, -⟩
      · exact same.trans none
      · rw [Link.accepts, unvalidated] at accepts
        cases accepts
  | present w challenge reachable shows up down =>
      obtain ⟨es, run⟩ := Wire.sendAll_run challenge .Client (l'.sent.drop l.sent.length)
        (fun msg member => framed msg (List.mem_of_mem_drop member)) w
      have server : (w.sendAll .Client (l'.sent.drop l.sent.length)).conn .Server =
          w.conn .Server := Wire.sendAll_peer w EOwner.noConfusion _
      have client := w.sendAll_conn .Client (l'.sent.drop l.sent.length)
      refine .present _ challenge (reachable.runFrom run) ?_ ?_ ?_
      · rw [client]
        exact shows.sendAll sends
      · rw [server]
        exact up
      · rw [client]
        exact (Connection.sendAll_owner _ _).2.trans down

/-- One end takes a message off its queue. -/
theorem pop_popped {c c' : Connection EMessageType} {msg : Message}
    (front : c.m_messages_in.head? = some msg) (step : c.step .pop = some c') :
    c'.popped = c.popped ++ [msg] := by
  cases Connection.step_steps step with
  | pops other rest queue =>
      rw [queue] at front
      cases front
      rfl

theorem Ended.fromClient (h : Ended l up down (some w)) {msg : Message}
    (front : (w.conn .Server).m_messages_in.head? = some msg)
    (pop : w.act .Server .pop = some w') : Ended l (up ++ [msg]) down (some w') := by
  cases h with
  | present _ challenge reachable shows up down =>
      have acts := Wire.act_acts pop
      have same : w'.conn .Client = w.conn .Client := acts.peer
      have popped := pop_popped front acts.step
      rw [← same] at shows down
      rw [up] at popped
      exact .present w' challenge (reachable.next (e := .act .Server .pop) pop) shows popped down

theorem Ended.toClient (h : Ended l up down (some w)) {msg : Message}
    (front : (w.conn .Client).m_messages_in.head? = some msg)
    (pop : w.act .Client .pop = some w') :
    Ended l up (down ++ [msg]) (some w') ∧ down ++ [msg] <+: (w.conn .Server).sent := by
  cases h with
  | present _ challenge reachable shows up down =>
      have acts := Wire.act_acts pop
      have same : w'.conn .Server = w.conn .Server := acts.peer
      have popped := pop_popped front acts.step
      have next : (Wire.lts EMessageType challenge).Reachable w' :=
        reachable.next (e := .act .Client .pop) pop
      have delivered := (Wire.delivery next .Server).1
      rw [down] at popped
      rw [same] at delivered
      change (w'.conn .Client).popped <+: _ at delivered
      rw [popped] at delivered
      rw [← same] at up
      exact ⟨.present w' challenge next (shows.pop acts.step) up popped, delivered⟩

/-! ## Steps of the sockets -/

theorem Ended.still (h : Ended l up down wire) :
    Ended (Wired.look l wire) (up ++ []) down wire ∧ l.Becomes (Wired.look l wire) := by
  rw [h.look, List.append_nil]
  exact ⟨h, .refl l⟩

/-- What a step of the sockets does to the wire of a client, which looks at it afterwards. -/
theorem Ended.net {st st' : Served κ} {c : κ} (h : Ended l up down (st.wire c))
    {e : Served.Event κ} (allowed : tame c e = true) (framed : st'.server.SendsFramed)
    (step : st.step e = some st') :
    Ended (Wired.look l (st'.wire c)) (up ++ taken st e c) down (st'.wire c) ∧
      l.Becomes (Wired.look l (st'.wire c)) := by
  cases e with
  | accept d challenge =>
      simp only [Served.step] at step
      split at step <;> cases step
      rename_i found
      change Ended (Wired.look l (Function.update st.wire d _ c)) (up ++ []) down
        (Function.update st.wire d _ c) ∧ l.Becomes (Wired.look l (Function.update st.wire d _ c))
      rcases eq_or_ne c d with rfl | ne
      · rw [found] at h
        rw [Function.update_self, List.append_nil]
        exact h.open challenge
      · rw [Function.update_of_ne ne]
        exact h.still
  | act d o a =>
      simp only [Served.step] at step
      split at step
      · cases step
      rename_i w found
      split at step
      · rename_i either
        obtain ⟨w', act, rfl⟩ := Option.map_eq_some_iff.mp step
        change Ended (Wired.look l (Function.update st.wire d _ c)) (up ++ []) down
          (Function.update st.wire d _ c) ∧
            l.Becomes (Wired.look l (Function.update st.wire d _ c))
        rcases eq_or_ne c d with rfl | ne
        · have network : a.network = true := by
            rcases either with client | network
            · simpa [tame, client] using allowed
            · exact network
          rw [found] at h
          rw [Function.update_self, List.append_nil]
          exact h.act network act
        · rw [Function.update_of_ne ne]
          exact h.still
      · cases step
  | cut d o keep =>
      simp only [Served.step] at step
      obtain ⟨w, found, step⟩ := Option.bind_eq_some_iff.mp step
      obtain ⟨w', cut, step⟩ := Option.bind_eq_some_iff.mp step
      cases step
      change Ended (Wired.look l (Function.update st.wire d _ c)) (up ++ []) down
        (Function.update st.wire d _ c) ∧ l.Becomes (Wired.look l (Function.update st.wire d _ c))
      rcases eq_or_ne c d with rfl | ne
      · rw [found] at h
        rw [Function.update_self, List.append_nil]
        exact h.cut cut
      · rw [Function.update_of_ne ne]
        exact h.still
  | inject d bytes =>
      simp only [Served.step] at step
      obtain ⟨w, found, rfl⟩ := Option.map_eq_some_iff.mp step
      have ne : c ≠ d := by
        intro same
        simp [tame, same] at allowed
      change Ended (Wired.look l (Function.update st.wire d _ c)) (up ++ []) down
        (Function.update st.wire d _ c) ∧ l.Becomes (Wired.look l (Function.update st.wire d _ c))
      rw [Function.update_of_ne ne]
      exact h.still
  | message d =>
      simp only [Served.step] at step
      obtain ⟨w, found, step⟩ := Option.bind_eq_some_iff.mp step
      obtain ⟨msg, front, step⟩ := Option.bind_eq_some_iff.mp step
      obtain ⟨w', pop, step⟩ := Option.bind_eq_some_iff.mp step
      obtain ⟨server, handles, step⟩ := Option.bind_eq_some_iff.mp step
      cases step
      have popped : Ended l (up ++ taken st (.message d) c) down
          (Function.update st.wire d (some w') c) := by
        rcases eq_or_ne c d with rfl | ne
        · have next : st.next c = some msg := by
            unfold Served.next
            rw [found]
            exact front
          have took : taken st (.message c) c = [msg] := by
            simp [taken, Served.Event.handles, next]
          rw [found] at h
          rw [Function.update_self, took]
          exact h.fromClient front pop
        · have took : taken st (.message d) c = [] := by
            simp [taken, Served.Event.handles, ne.symm]
          rw [Function.update_of_ne ne, took, List.append_nil]
          exact h
      have sent : ∀ msg ∈ (server.sentTo c).drop (st.server.sentTo c).length, msg.Framed :=
        fun msg member => framed c msg (List.mem_of_mem_drop member)
      change Ended (Wired.look l ((Function.update st.wire d (some w') c).map _)) _ down
        ((Function.update st.wire d (some w') c).map _) ∧
          l.Becomes (Wired.look l ((Function.update st.wire d (some w') c).map _))
      generalize Function.update st.wire d (some w') c = wire at popped ⊢
      cases wire with
      | none =>
          rw [Option.map_none, popped.look]
          exact ⟨popped, .refl l⟩
      | some v =>
          have forwarded := popped.forward sent
          rw [Option.map_some, forwarded.look]
          exact ⟨forwarded, .refl l⟩

/-! ## Runs of the transfer -/

/-- What happens to a client's connection, as an event of the client. -/
def ofLink : Link.Event → FileClient.Event
  | .opened => .opened
  | .validated => .validated
  | .closed => .closed

theorem on_ofLink {e : Link.Event} (on : l.on e = some l') (c : FileClient) :
    ({ c with m_connection := l } : FileClient).on (ofLink e) =
      some { c with m_connection := l' } := by
  cases e <;>
    · simp only [Link.on] at on
      split at on <;> cases on
      rename_i ready
      exact if_pos ready

variable {x : Transfer κ}

/-- What becomes of a client's connection is a run of the transfer. -/
theorem senderLink_run (sys : State κ) (becomes : sys.sender.c.m_connection.Becomes l) :
    ∃ ds, x.lts.runFrom sys ds = some { sys with sender.c.m_connection := l } := by
  obtain ⟨es, run⟩ := becomes
  refine ⟨es.map fun e => .senderLink (ofLink e), ?_⟩
  refine Lts.runFrom_map (f := fun l => { sys with sender.c.m_connection := l }) ?_ run
  intro e _ l l' on
  simp only [Transfer.lts, Transfer.step]
  rw [on_ofLink on sys.sender.c]
  rfl

theorem receiverLink_run (sys : State κ) (becomes : sys.receiver.c.m_connection.Becomes l) :
    ∃ ds, x.lts.runFrom sys ds = some { sys with receiver.c.m_connection := l } := by
  obtain ⟨es, run⟩ := becomes
  refine ⟨es.map fun e => .receiverLink (ofLink e), ?_⟩
  refine Lts.runFrom_map (f := fun l => { sys with receiver.c.m_connection := l }) ?_ run
  intro e _ l l' on
  simp only [Transfer.lts, Transfer.step]
  rw [on_ofLink on sys.receiver.c]
  rfl

theorem serverLinks_run {sys : State κ} {server : FileServer κ} {ds : List (FileServer.Event κ)}
    (links : ∀ d ∈ ds, FileServer.Event.link d = true)
    (run : (FileServer.lts κ).runFrom sys.server ds = some server) :
    x.lts.runFrom sys (ds.map .server) = some { sys with server } := by
  refine Lts.runFrom_map (f := fun server => { sys with server }) ?_ run
  intro d member srv srv' step
  have permitted : x.permits d = true := by
    cases d with
    | message => cases links _ member
    | _ => rfl
  have step : srv.step d = some srv' := step
  simp only [Transfer.lts, Transfer.step, permitted, if_true, step, Option.map_some]

/-- What is next is next. -/
theorem drop_eq_cons {sent done : List Message} {msg : Message} (h : done ++ [msg] <+: sent) :
    ∃ rest, sent.drop done.length = msg :: rest := by
  obtain ⟨rest, rfl⟩ := h
  refine ⟨rest, ?_⟩
  rw [List.append_assoc, List.drop_left]
  rfl

structure Inv (x : Transfer κ) (st : Wired κ) : Prop where
  served : st.served.Inv
  reachable : st.server.Reachable
  sender : Ended st.sender.c.m_connection st.fromSender st.toSender (st.wire x.s)
  receiver : Ended st.receiver.c.m_connection st.fromReceiver st.toReceiver (st.wire x.r)

/-- The server's part of a step of the sockets. -/
theorem server_run {st : Wired κ} {e : Served.Event κ} {server : FileServer κ}
    (permitted : permits x st e = true) (effect : Served.Effect st.served e server)
    (fromSender : st.fromSender ++ taken st.served e x.s <+: st.sender.c.sent)
    (fromReceiver : st.fromReceiver ++ taken st.served e x.r <+: st.receiver.c.sent) :
    ∃ ds, x.lts.runFrom st.toState ds =
      some { st.toState with
        server
        fromSender := st.fromSender ++ taken st.served e x.s
        fromReceiver := st.fromReceiver ++ taken st.served e x.r } := by
  cases effect with
  | links _ _ ds other links run =>
      have nothing : ∀ c, taken st.served e c = [] := by
        intro c
        simp [taken, other]
      refine ⟨ds.map .server, ?_⟩
      rw [nothing, nothing, List.append_nil, List.append_nil]
      exact serverLinks_run links run
  | message c msg _ next step =>
      have took : taken st.served (.message c) c = [msg.1] := by
        simp [taken, Served.Event.handles, next]
      have others : ∀ d, d ≠ c → taken st.served (.message c) d = [] := by
        intro d ne
        simp [taken, Served.Event.handles, ne.symm]
      have step : (if (st.server.conn c).m_validated then st.server.onMessage c msg.1 else none) =
          some server := step
      rcases eq_or_ne c x.s with rfl | notSender
      · rw [others x.r x.distinct.symm, List.append_nil]
        rw [took] at fromSender ⊢
        obtain ⟨rest, ready⟩ := drop_eq_cons fromSender
        refine ⟨[.fromSender], ?_⟩
        simp only [Lts.runFrom, Transfer.lts, Transfer.step, ready, process, step, Option.map_some,
          Option.bind_some]
      rcases eq_or_ne c x.r with rfl | notReceiver
      · rw [others x.s x.distinct, List.append_nil]
        rw [took] at fromReceiver ⊢
        obtain ⟨rest, ready⟩ := drop_eq_cons fromReceiver
        refine ⟨[.fromReceiver], ?_⟩
        simp only [Lts.runFrom, Transfer.lts, Transfer.step, ready, process, step, Option.map_some,
          Option.bind_some]
      · rw [others x.s notSender.symm, others x.r notReceiver.symm, List.append_nil,
          List.append_nil]
        have allowed : x.permits (.message c msg) = true := by
          simpa [permits, tame, next, notSender, notReceiver, Transfer.permits] using permitted
        refine ⟨[.server (.message c msg)], ?_⟩
        simp only [Lts.runFrom, Transfer.lts, Transfer.step, allowed, if_true, FileServer.step,
          step, Option.map_some, Option.bind_some]

/-! ## What the clients send is in step with its header -/

theorem chunkMessage_framed {sha256_chunk : List UInt8 → Hash} {data : List UInt8}
    (short : data.length ≤ m_max_chunk_size.toNat) : (chunkMessage sha256_chunk data).Framed := by
  have synced : (chunkMessage sha256_chunk data).Synced := Net.Message.resized_synced _ _
  have body : (chunkMessage sha256_chunk data).body =
      data ++ toBytes (sha256_chunk data) := Net.Message.push1_body _ _
  have width : (toBytes (sha256_chunk data)).length = SHA256_DIGEST_LENGTH :=
    TriviallyCopyable.length_toBytes _
  have limit : m_max_chunk_size.toNat + SHA256_DIGEST_LENGTH < 2 ^ 32 := by decide
  rw [synced.framed_iff, Net.Message.size, body, List.length_append, width]
  omega

omit [DecidableEq κ] in
theorem sendings_framed (named : x.filename.length < 2 ^ 31) :
    ∀ msg ∈ x.sendings, msg.Framed := by
  have code : (codePhrase x.phrase).code.length ≤ 255 := x.bounded
  intro msg member
  rcases List.mem_cons.mp member with rfl | piece
  · rw [encode_framed_iff]
    change (ByteStack.written (Streamed.pushes (Sender.announcement x.upload x.phrase))).length < _
    rw [PreMetadata.length_written]
    change x.filename.length + (codePhrase x.phrase).code.length + 11 < _
    omega
  rcases List.mem_append.mp piece with chunk | final
  · obtain ⟨data, cut, rfl⟩ := List.mem_map.mp chunk
    exact chunkMessage_framed (List.length_of_mem_chunks cut).2
  · rw [List.mem_singleton.mp final]
    decide

omit [DecidableEq κ] in
theorem requests_framed : ∀ msg ∈ x.requests, msg.Framed := by
  have code : (codePhrase x.phrase).code.length ≤ 255 := x.bounded
  intro msg member
  simp only [requests, Receiver.requests, List.mem_cons, List.not_mem_nil, or_false] at member
  rcases member with rfl | rfl | rfl
  · rw [encode_framed_iff]
    change (ByteStack.written (Streamed.pushes (Receiver.request x.download x.unset))).length < _
    rw [PreMetadata.length_written]
    change 0 + (codePhrase x.phrase).code.length + 11 < _
    omega
  · rw [encode_framed_iff]
    change (ByteStack.written (Streamed.pushes (codePhrase x.phrase))).length < _
    rw [CodePhrase.length_written]
    omega
  · decide

/-! ## Steps -/

variable {st st' : Wired κ}

theorem Inv.start (x : Transfer κ) : Inv x { sender := { chunksize := x.chunksize } } where
  served _ := .absent rfl rfl rfl
  reachable := .start
  sender := .absent rfl rfl rfl rfl rfl
  receiver := .absent rfl rfl rfl rfl rfl

theorem look_sent (l : Link EMessageType) (wire : Option (Wire EMessageType)) :
    (look l wire).sent = l.sent := by
  cases wire <;> rfl

/-- Sending at a client's end is nothing to the server's. -/
theorem Inv.line (h : Inv x st) (c : κ) (l l' : Link EMessageType) :
    Served.Line (st.server.conn c) (deliver (st.wire c) l l') := by
  have line : Served.Line (st.server.conn c) (st.wire c) := h.served c
  generalize st.wire c = wire at line ⊢
  cases wire with
  | none => exact line
  | some w => exact line.congr (Wire.sendAll_peer w EOwner.noConfusion _)

theorem Inv.sentTo (h : Inv x st) {c : κ} (found : st.wire c = some w) :
    st.server.sentTo c = (w.conn .Server).sent := by
  have line : Served.Line (st.server.conn c) (st.wire c) := h.served c
  rw [found] at line
  cases line with
  | present _ challenge shows owner serving => exact shows.sent

theorem Inv.net (h : Inv x st) {e : Served.Event κ} (step : Wired.step x st (.net e) = some st') :
    Inv x st' ∧ ∃ ds, x.lts.runFrom st.toState ds = some st'.toState := by
  simp only [Wired.step] at step
  split at step
  · rename_i permitted
    obtain ⟨served, moves, rfl⟩ := Option.map_eq_some_iff.mp step
    have tames : (tame x.s e && tame x.r e) = true := (Bool.and_eq_true_iff.mp permitted).1
    obtain ⟨tameSender, tameReceiver⟩ := Bool.and_eq_true_iff.mp tames
    obtain ⟨inv, effect⟩ := h.served.step moves
    obtain ⟨ds, run⟩ := effect.run
    have reachable : served.server.Reachable := h.reachable.runFrom run
    have framed := FileServer.Reachable.sendsFramed reachable
    have senderEnd : Ended _ _ _ (st.served.wire x.s) := h.sender
    have receiverEnd : Ended _ _ _ (st.served.wire x.r) := h.receiver
    obtain ⟨sender, senderLink⟩ := senderEnd.net tameSender framed moves
    obtain ⟨receiver, receiverLink⟩ := receiverEnd.net tameReceiver framed moves
    have fromSender := sender.up_isPrefix
    have fromReceiver := receiver.up_isPrefix
    rw [look_sent] at fromSender fromReceiver
    obtain ⟨ds, serves⟩ := server_run permitted effect fromSender fromReceiver
    -- First the server, then the links that the two clients look at.
    obtain ⟨es, looks⟩ := senderLink_run (x := x) { st.toState with
      server := served.server
      fromSender := st.fromSender ++ taken st.served e x.s
      fromReceiver := st.fromReceiver ++ taken st.served e x.r } senderLink
    obtain ⟨es', looks'⟩ := receiverLink_run (x := x) { st.toState with
      server := served.server
      sender := { st.sender with c := lookAt st.sender.c (served.wire x.s) }
      fromSender := st.fromSender ++ taken st.served e x.s
      fromReceiver := st.fromReceiver ++ taken st.served e x.r } receiverLink
    have run := Lts.runFrom_trans (Lts.runFrom_trans serves looks) looks'
    exact ⟨⟨inv, reachable, sender, receiver⟩, _, run⟩
  · cases step

theorem Inv.toSender (h : Inv x st) (step : Wired.step x st .toSender = some st') :
    Inv x st' ∧ ∃ ds, x.lts.runFrom st.toState ds = some st'.toState := by
  simp only [Wired.step] at step
  obtain ⟨w, found, step⟩ := Option.bind_eq_some_iff.mp step
  obtain ⟨msg, front, step⟩ := Option.bind_eq_some_iff.mp step
  obtain ⟨w', pop, step⟩ := Option.bind_eq_some_iff.mp step
  cases step
  have ended := h.sender
  have line : Served.Line (st.server.conn x.s) (st.wire x.s) := h.served x.s
  rw [found] at ended line
  obtain ⟨ended, arrived⟩ := ended.toClient front pop
  rw [← h.sentTo found] at arrived
  obtain ⟨rest, next⟩ := drop_eq_cons arrived
  refine ⟨⟨?_, h.reachable, ?_, ?_⟩, [.toSender], ?_⟩
  · exact h.served.rewire (line.congr (Wire.act_acts pop).peer)
  · change Ended _ _ _ (Function.update st.wire x.s (some w') x.s)
    rw [Function.update_self]
    exact ended
  · change Ended _ _ _ (Function.update st.wire x.s (some w') x.r)
    rw [Function.update_of_ne x.distinct.symm]
    exact h.receiver
  · simp only [Lts.runFrom, Transfer.lts, Transfer.step, next, Option.bind_some]

theorem Inv.toReceiver (h : Inv x st) (step : Wired.step x st .toReceiver = some st') :
    Inv x st' ∧ ∃ ds, x.lts.runFrom st.toState ds = some st'.toState := by
  simp only [Wired.step] at step
  obtain ⟨w, found, step⟩ := Option.bind_eq_some_iff.mp step
  obtain ⟨msg, front, step⟩ := Option.bind_eq_some_iff.mp step
  obtain ⟨w', pop, step⟩ := Option.bind_eq_some_iff.mp step
  cases step
  have ended := h.receiver
  have line : Served.Line (st.server.conn x.r) (st.wire x.r) := h.served x.r
  rw [found] at ended line
  obtain ⟨ended, arrived⟩ := ended.toClient front pop
  rw [← h.sentTo found] at arrived
  obtain ⟨rest, next⟩ := drop_eq_cons arrived
  refine ⟨⟨?_, h.reachable, ?_, ?_⟩, [.toReceiver], ?_⟩
  · exact h.served.rewire (line.congr (Wire.act_acts pop).peer)
  · change Ended _ _ _ (Function.update st.wire x.r (some w') x.s)
    rw [Function.update_of_ne x.distinct]
    exact h.sender
  · change Ended _ _ _ (Function.update st.wire x.r (some w') x.r)
    rw [Function.update_self]
    exact ended
  · simp only [Lts.runFrom, Transfer.lts, Transfer.step, next, Option.bind_some]

theorem Inv.sendRoutine (h : Inv x st) (named : x.filename.length < 2 ^ 31)
    (reachable : x.Reachable st.toState) {choice : Choice}
    (step : Wired.step x st (.sendRoutine choice) = some st') :
    Inv x st' ∧ ∃ ds, x.lts.runFrom st.toState ds = some st'.toState := by
  simp only [Wired.step] at step
  split at step
  · rename_i readable
    obtain ⟨sender, stepped, rfl⟩ := Option.map_eq_some_iff.mp step
    have moved : x.lts.step st.toState (.sendRoutine choice) =
        some { st.toState with sender } := by
      simp only [Transfer.lts, Transfer.step, readable, stepped, if_true, Option.map_some]
    have sent := (Reachable.inv (reachable.next moved)).sender.sent_isPrefix
    have framed : ∀ msg ∈ sender.c.m_connection.sent, msg.Framed :=
      fun msg member => sendings_framed named msg (sent.subset member)
    refine ⟨⟨?_, h.reachable, ?_, ?_⟩, [.sendRoutine choice], ?_⟩
    · exact h.served.rewire (h.line x.s _ _)
    · change Ended _ _ _ (Function.update st.wire x.s _ x.s)
      rw [Function.update_self]
      exact h.sender.deliver (Sender.step_sends stepped) framed
    · change Ended _ _ _ (Function.update st.wire x.s _ x.r)
      rw [Function.update_of_ne x.distinct.symm]
      exact h.receiver
    · simp only [Lts.runFrom, moved, Option.bind_some]
  · cases step

theorem Inv.receiveRoutine (h : Inv x st) (reachable : x.Reachable st.toState) {choice : Choice}
    (step : Wired.step x st (.receiveRoutine choice) = some st') :
    Inv x st' ∧ ∃ ds, x.lts.runFrom st.toState ds = some st'.toState := by
  simp only [Wired.step] at step
  split at step
  · rename_i writable
    obtain ⟨receiver, stepped, rfl⟩ := Option.map_eq_some_iff.mp step
    have moved : x.lts.step st.toState (.receiveRoutine choice) =
        some { st.toState with receiver } := by
      simp only [Transfer.lts, Transfer.step, writable, stepped, if_true, Option.map_some]
    have sent := (Reachable.inv (reachable.next moved)).receiver.sent_isPrefix
    have framed : ∀ msg ∈ receiver.c.m_connection.sent, msg.Framed :=
      fun msg member => requests_framed msg (sent.subset member)
    refine ⟨⟨?_, h.reachable, ?_, ?_⟩, [.receiveRoutine choice], ?_⟩
    · exact h.served.rewire (h.line x.r _ _)
    · change Ended _ _ _ (Function.update st.wire x.r _ x.s)
      rw [Function.update_of_ne x.distinct]
      exact h.sender
    · change Ended _ _ _ (Function.update st.wire x.r _ x.r)
      rw [Function.update_self]
      exact h.receiver.deliver (Receiver.step_sends stepped) framed
    · simp only [Lts.runFrom, moved, Option.bind_some]
  · cases step

/-- **One step over the sockets.** -/
theorem Inv.step (h : Inv x st) (named : x.filename.length < 2 ^ 31)
    (reachable : x.Reachable st.toState) {e : Event κ} (step : Wired.step x st e = some st') :
    Inv x st' ∧ ∃ ds, x.lts.runFrom st.toState ds = some st'.toState := by
  cases e with
  | net e => exact h.net step
  | toSender => exact h.toSender step
  | toReceiver => exact h.toReceiver step
  | sendRoutine choice => exact h.sendRoutine named reachable step
  | receiveRoutine choice => exact h.receiveRoutine reachable step

theorem Reachable.inv (named : x.filename.length < 2 ^ 31) (reachable : (lts x).Reachable st) :
    Inv x st ∧ x.Reachable st.toState := by
  refine reachable.induct (P := fun st => Inv x st ∧ x.Reachable st.toState)
    ⟨.start x, .start⟩ ?_
  intro st e st' _ inv step
  obtain ⟨inv, reached⟩ := inv
  obtain ⟨inv, ds, run⟩ := inv.step named reached step
  exact ⟨inv, reached.runFrom run⟩

/-- **A transfer over its sockets is a transfer.**  However the bytes are cut up, whatever everyone
else writes, and whichever sockets fail or are closed when. -/
theorem transfer_on_sockets (x : Transfer κ) (named : x.filename.length < 2 ^ 31) :
    (lts x).Implements x.lts Wired.toState := by
  refine ⟨rfl, fun st e st' reachable step => ?_⟩
  obtain ⟨inv, reached⟩ := Reachable.inv named reachable
  exact (inv.step named reached step).2

/-- **The file over the sockets.** -/
theorem file_over_sockets (x : Transfer κ) (named : x.filename.length < 2 ^ 31) {st : Wired κ}
    (reachable : (lts x).Reachable st) :
    st.receiver.session.ofs.written <+: x.file ∧
    (st.sender.pc = .returned true → st.receiver.session.ofs.written = x.file) ∧
    (st.receiver.pc = .returned true →
      st.receiver.session.ofs.written = x.file ∨ st.receiver.session = {}) := by
  obtain ⟨-, reached⟩ := Reachable.inv named reachable
  refine ⟨(Transfer.Reachable.inOrder reached).isPrefix (by decide), ?_, ?_⟩
  · intro returned
    exact (Transfer.Reachable.reported reached returned).whole.written
  · intro returned
    rcases Transfer.Reachable.concluded reached (Or.inr (Or.inr returned)) with
      done | ⟨-, fresh, -⟩
    · exact Or.inl done.whole.written
    · exact Or.inr fresh

/-! ## Two bytes -/

/-- A connection is accepted, and both ends have validated it. -/
def handshake (c : Nat) (challenge : UInt64) : List (Event Nat) :=
  List.map .net [.accept c challenge, .act c .Server (.put .validation 0 8),
    .act c .Client (.take .validation 0 (toBytes challenge)),
    .act c .Client (.readDone .validation 0), .act c .Client (.put .validation 0 8),
    .act c .Client (.writeDone .validation 0), .act c .Server (.writeDone .validation 0),
    .act c .Server (.take .validation 0 (toBytes (obfuscate challenge))),
    .act c .Server (.readDone .validation 0)]

/-- A message that `send` has accepted at one end, until it is in the queue of the other. -/
def carry (c : Nat) (o : EOwner) (msg : Message) : List (Event Nat) :=
  List.map .net [.act c o .runPosted, .act c o (.put .header 0 8), .act c o (.writeDone .header 0),
    .act c o (.put .body 0 msg.size), .act c o (.writeDone .body 0),
    .act c o.peer (.take .header 0 (toBytes msg.header)), .act c o.peer (.readDone .header 0),
    .act c o.peer (.take .body 0 msg.body), .act c o.peer (.readDone .body 0)]

/-- The transfer of `twoBytes`, byte by byte; somebody else breaks off in the middle of a header. -/
def wiredEvents : List (Event Nat) :=
  let metadata : FileData := ⟨2, 1, [8]⟩
  let accept := encode .Accept ⟨.File, 512, ⟨1, [7]⟩, metadata⟩
  let chunk := chunkMessage twoBytes.sha256_chunk [1, 2]
  let final := encode .FinalChunk {}
  List.flatten [handshake 0 5, handshake 1 6, handshake 2 7,
    [.net (.inject 2 [9, 0, 0]), .net (.cut 2 .Client 2)],
    List.replicate 3 (.sendRoutine {}),
    carry 0 .Client (encode .Send ⟨.File, ⟨1, [7]⟩, metadata⟩), [.net (.message 0)],
    List.replicate 3 (.receiveRoutine {}),
    carry 1 .Client (encode .RequestReceive ⟨.File, ⟨1, [7]⟩, ⟨5, 3, []⟩⟩), [.net (.message 1)],
    carry 1 .Server accept, [.toReceiver], List.replicate 4 (.receiveRoutine {}),
    carry 1 .Client (encode .Receive ⟨1, [7]⟩), [.net (.message 1)],
    carry 0 .Server accept, [.toSender], List.replicate 8 (.sendRoutine {}),
    carry 0 .Client chunk, [.net (.message 0)], carry 0 .Client final, [.net (.message 0)],
    carry 1 .Server chunk, carry 1 .Server final, [.toReceiver, .toReceiver],
    List.replicate 7 (.receiveRoutine {}),
    carry 1 .Client (encode .FinishReceive {}), [.net (.message 1)],
    carry 0 .Server (encode .Success {}), [.toSender], List.replicate 2 (.sendRoutine {})]

def wired : Wired Nat := ((lts twoBytes).run wiredEvents).get (by decide +kernel)

theorem wired_reachable : (lts twoBytes).Reachable wired :=
  ⟨wiredEvents, (Option.some_get _).symm⟩

theorem transfer_on_sockets_twoBytes : twoBytes.Reachable wired.toState :=
  (transfer_on_sockets twoBytes (by decide)).reachable wired_reachable

theorem file_over_sockets_twoBytes :
    wired.sender.pc = .returned true ∧ wired.receiver.session.ofs.written = [1, 2] := by
  have returned : wired.sender.pc = .returned true := by decide +kernel
  exact ⟨returned, (file_over_sockets twoBytes (by decide) wired_reachable).2.1 returned⟩

end Wired

end Transfer

end PingPong
