import PingPong.Net.Look
import PingPong.Server.Framing

/-!
# The file server and its sockets

`FileServer.lts` knows a connection by its `Link`.  Here every connection is a `Wire`: the server's
end of it, the bytes on their way in both directions, and at the other end either a connection of
the same make or any program at all, which writes what it likes (`inject`).  The two are joined as
the source joins them: the server looks at its end before it acts (`Link.look`), a message it
handles was parsed by that end, and what it sends is sent there.

* `Line` is the invariant of one connection: its link shows the server's end, which reads nothing
  but the reply until it is validated.
* `server_on_sockets` is the result: whatever happens on the sockets, the server only does what it
  does in `FileServer.lts`.
-/

namespace PingPong

open Common Net

/-- `T id{}`. -/
instance : Inhabited EMessageType := ⟨EMessageType.ofRaw 0⟩

structure Served (κ : Type) where
  server : FileServer κ := {}
  wire : κ → Option (Wire EMessageType) := fun _ => none

namespace Served

inductive Event (κ : Type) where
  | accept (c : κ) (challenge : UInt64)
  /-- Anything at the other end of the wire; at the server's end, anything but `send` and taking a
  message off the queue, so that a `disconnectAfterFlush` may come at any time. -/
  | act (c : κ) (o : EOwner) (a : Connection.Act EMessageType)
  | cut (c : κ) (o : EOwner) (keep : Nat)
  | inject (c : κ) (bytes : List UInt8)
  /-- `update` takes a message of the client off the queue. -/
  | message (c : κ)

variable {κ : Type} [DecidableEq κ]

/-- The wire moves, and the server looks at its end. -/
def putWire (st : Served κ) (c : κ) (w : Wire EMessageType) : Served κ where
  server := st.server.withConn c ((st.server.conn c).look (w.conn .Server))
  wire := Function.update st.wire c (some w)

/-- The server has gone on to `server`; what it has sent is handed to the connections. -/
def forward (st : Served κ) (server : FileServer κ) : Served κ where
  server := server
  wire d := (st.wire d).map fun w =>
    w.sendAll .Server ((server.sentTo d).drop (st.server.sentTo d).length)

def step (st : Served κ) : Event κ → Option (Served κ)
  | .accept c challenge =>
      match st.wire c with
      | none => some (st.putWire c { conn := Connection.start challenge })
      | some _ => none
  | .act c o a =>
      match st.wire c with
      | none => none
      | some w =>
          if o = .Client ∨ a.network then (w.act o a).map fun w => st.putWire c w else none
  | .cut c o keep => do
      let w ← st.wire c
      let w ← w.step (.cut o keep)
      some (st.putWire c w)
  | .inject c bytes => (st.wire c).map fun w => st.putWire c (w.inject bytes)
  | .message c => do
      let w ← st.wire c
      let msg ← (w.conn .Server).m_messages_in.head?
      let w ← w.act .Server .pop
      let server ← st.server.onMessage c msg
      some ({ st with wire := Function.update st.wire c (some w) }.forward server)

def lts (κ : Type) [DecidableEq κ] : Lts (Served κ) (Event κ) := ⟨{}, step⟩

/-! ## The invariant of one connection -/

/-- What the server knows of a connection, and its end of it. -/
inductive Line (l : Link EMessageType) : Option (Wire EMessageType) → Prop
  | absent : l.m_socket = .absent → l.m_validated = false → l.sent = [] → Line l none
  | present (w : Wire EMessageType) (challenge : UInt64) : (w.conn .Server).Shows l →
    (w.conn .Server).m_owner_type = .Server → (w.conn .Server).Serving challenge →
    Line l (some w)

def Inv (st : Served κ) : Prop := ∀ c, Line (st.server.conn c) (st.wire c)

end Served

namespace FileServer

variable {κ : Type} [DecidableEq κ]

/-- The events that only concern a connection. -/
def Event.link : Event κ → Bool
  | .message _ _ => false
  | _ => true

theorem withConn_self (srv : FileServer κ) (c : κ) : srv.withConn c (srv.conn c) = srv := by
  unfold withConn
  rw [Function.update_eq_self]

theorem withConn_conn (srv : FileServer κ) (c : κ) (l : Link EMessageType) :
    (srv.withConn c l).conn c = l := Function.update_self _ _ _

theorem withConn_withConn (srv : FileServer κ) (c : κ) (l l' : Link EMessageType) :
    (srv.withConn c l).withConn c l' = srv.withConn c l' := by
  unfold withConn
  rw [Function.update_idem]

/-- What happens to one connection, as an event of the server. -/
def Event.ofLink (c : κ) : Link.Event → Event κ
  | .opened => .accept c
  | .validated => .validate c
  | .closed => .close c

/-- What may become of a connection is a run of the server. -/
theorem becomes_run {srv : FileServer κ} {c : κ} {l : Link EMessageType}
    (becomes : (srv.conn c).Becomes l) : ∃ ds, (∀ d ∈ ds, Event.link d = true) ∧
      (lts κ).runFrom srv ds = some (srv.withConn c l) := by
  obtain ⟨es, run⟩ := becomes
  refine ⟨es.map (Event.ofLink c), fun d member => ?_, ?_⟩
  · obtain ⟨e, -, rfl⟩ := List.mem_map.mp member
    cases e <;> rfl
  · have each : ∀ e ∈ es, ∀ l l' : Link EMessageType, Link.lts.step l e = some l' →
        (lts κ).step (srv.withConn c l) (Event.ofLink c e) = some (srv.withConn c l') := by
      intro e _ l l' on
      have conn : (srv.withConn c l).conn c = l := withConn_conn srv c l
      cases e <;>
        · simp only [Link.lts, Link.on] at on
          split at on <;> cases on
          rename_i ready
          simp only [lts, step, Event.ofLink, conn, ready, withConn_withConn, if_true, ne_eq,
            not_false_eq_true]
    have runs := Lts.runFrom_map each run
    rw [withConn_self] at runs
    exact runs

end FileServer

namespace Served

variable {κ : Type} [DecidableEq κ] {st st' : Served κ} {l : Link EMessageType}
  {w w' : Wire EMessageType}

/-! ## Steps of the wires -/

theorem Line.look (h : Line l (some w)) : l.look (w.conn .Server) = l := by
  cases h with
  | present _ challenge shows owner serving => exact shows.look

/-- Only the server's end matters. -/
theorem Line.congr (h : Line l (some w)) (same : w'.conn .Server = w.conn .Server) :
    Line l (some w') := by
  cases h with
  | present _ challenge shows owner serving =>
      rw [← same] at shows owner serving
      exact .present w' challenge shows owner serving

theorem Line.aside (h : Line l (some w)) (same : w'.conn .Server = w.conn .Server) :
    Line (l.look (w'.conn .Server)) (some w') ∧ l.Becomes (l.look (w'.conn .Server)) := by
  rw [same, h.look]
  exact ⟨h.congr same, .refl l⟩

theorem Line.act (h : Line l (some w)) {o : EOwner} {a : Connection.Act EMessageType}
    (allowed : o = .Client ∨ a.network = true) (act : w.act o a = some w') :
    Line (l.look (w'.conn .Server)) (some w') ∧ l.Becomes (l.look (w'.conn .Server)) := by
  have acts := Wire.act_acts act
  cases o with
  | Client => exact h.aside acts.peer
  | Server =>
      have quiet := Connection.network_quiet (allowed.resolve_left EOwner.noConfusion)
      cases h with
      | present _ challenge shows owner serving =>
          obtain ⟨shows', becomes⟩ := shows.moves acts.step quiet
          have owner' := (Connection.step_effect acts.step).owner.trans owner
          have serving' := serving.step (Connection.step_intakes owner acts.step)
          exact ⟨.present w' challenge shows' owner' serving', becomes⟩

theorem putWire_conn (st : Served κ) (c : κ) (w : Wire EMessageType) :
    (st.putWire c w).server.conn c = (st.server.conn c).look (w.conn .Server) :=
  Function.update_self _ _ _

theorem Inv.putWire (h : st.Inv) {c : κ}
    (line : Line ((st.server.conn c).look (w.conn .Server)) (some w)) : (st.putWire c w).Inv := by
  intro d
  rcases eq_or_ne d c with rfl | ne
  · rw [putWire_conn]
    change Line _ (Function.update st.wire d (some w) d)
    rw [Function.update_self]
    exact line
  · change Line (Function.update st.server.conn c _ d) (Function.update st.wire c (some w) d)
    rw [Function.update_of_ne ne, Function.update_of_ne ne]
    exact h d

theorem Inv.rewire (h : st.Inv) {c : κ} {wire : Option (Wire EMessageType)}
    (line : Line (st.server.conn c) wire) :
    Inv { st with wire := Function.update st.wire c wire } := by
  intro d
  change Line (st.server.conn d) (Function.update st.wire c wire d)
  rcases eq_or_ne d c with rfl | ne
  · rw [Function.update_self]
    exact line
  · rw [Function.update_of_ne ne]
    exact h d

/-! ## Handling a message -/

/-- The message of a client that `update` takes next. -/
def next (st : Served κ) (c : κ) : Option Message :=
  (st.wire c).bind fun w => (w.conn .Server).m_messages_in.head?

/-- What the server sends is sent, and shows. -/
theorem Line.forward (st : Served κ) {server : FileServer κ} {msg : Message} {c d : κ}
    (h : Line (st.server.conn d) (st.wire d))
    (handled : FileServer.Handled st.server c msg server) :
    Line (server.conn d) ((st.forward server).wire d) := by
  obtain ⟨validated, socket⟩ := handled.sameEnd d
  have silent : st.server.accepts d = false → server.sentTo d = st.server.sentTo d :=
    handled.sentTo_of_refuses
  change Line (server.conn d) ((st.wire d).map _)
  generalize st.wire d = wire at h ⊢
  cases h with
  | absent absent unvalidated none =>
      have refuses : st.server.accepts d = false := by
        rw [FileServer.accepts, Link.accepts, unvalidated, Bool.false_and]
      exact .absent (socket.trans absent) (validated.trans unvalidated)
        ((silent refuses).trans none)
  | present w challenge shows owner serving =>
      have sent : (server.conn d).sent = (st.server.conn d).sent ∨
          ∃ msg, (st.server.conn d).accepts = true ∧
            (server.conn d).sent = (st.server.conn d).sent ++ [msg] := by
        rcases handled.extends d with same | ⟨msg, grown⟩
        · exact Or.inl same
        · refine Or.inr ⟨msg, ?_, grown⟩
          by_contra refuses
          have same := silent (Bool.eq_false_iff.mpr refuses)
          rw [grown] at same
          exact List.cons_ne_nil msg [] (List.append_right_eq_self.mp same)
      have shows' := shows.sendAll ⟨validated, socket, sent⟩
      have conn := w.sendAll_conn .Server
        ((server.sentTo d).drop (st.server.sentTo d).length)
      refine .present _ challenge ?_ ?_ ?_
      · rw [conn]
        exact shows'
      · rw [conn]
        exact (Connection.sendAll_owner _ _).1.trans owner
      · rw [conn]
        exact serving.sendAll

/-- Taking a message off the queue. -/
theorem Line.pop (h : Line l (some w)) (pop : w.act .Server .pop = some w') :
    Line l (some w') := by
  have acts := Wire.act_acts pop
  cases h with
  | present _ challenge shows owner serving =>
      exact .present w' challenge (shows.pop acts.step)
        ((Connection.step_effect acts.step).owner.trans owner)
        (serving.step (Connection.step_intakes owner acts.step))

/-! ## Steps -/

/-- The client whose message the server handles. -/
def Event.handles : Event κ → Option κ
  | .message c => some c
  | _ => none

/-- What a step of the sockets is to the server. -/
inductive Effect (st : Served κ) : Event κ → FileServer κ → Prop
  | links (e : Event κ) (server : FileServer κ) (ds : List (FileServer.Event κ)) :
    e.handles = none → (∀ d ∈ ds, FileServer.Event.link d = true) →
    (FileServer.lts κ).runFrom st.server ds = some server → Effect st e server
  | message (c : κ) (msg : FileServer.WireMessage) (server : FileServer κ) :
    st.next c = some msg.1 → st.server.step (.message c msg) = some server →
    Effect st (.message c) server

theorem Effect.run {e : Event κ} {server : FileServer κ} (h : Effect st e server) :
    ∃ ds, (FileServer.lts κ).runFrom st.server ds = some server := by
  cases h with
  | links _ _ ds other links run => exact ⟨ds, run⟩
  | message c msg _ next handled =>
      refine ⟨[.message c msg], ?_⟩
      simp only [Lts.runFrom, FileServer.lts, handled, Option.bind_some]

theorem Inv.moves (h : st.Inv) {c : κ} (found : st.wire c = some w) (w' : Wire EMessageType)
    (moves : Line (st.server.conn c) (some w) →
      Line ((st.server.conn c).look (w'.conn .Server)) (some w') ∧
        (st.server.conn c).Becomes ((st.server.conn c).look (w'.conn .Server))) :
    (st.putWire c w').Inv ∧ ∃ ds, (∀ d ∈ ds, FileServer.Event.link d = true) ∧
      (FileServer.lts κ).runFrom st.server ds = some (st.putWire c w').server := by
  have before : Line (st.server.conn c) (some w) := by
    rw [← found]
    exact h c
  obtain ⟨line, becomes⟩ := moves before
  exact ⟨h.putWire line, FileServer.becomes_run becomes⟩

theorem Inv.accept (h : st.Inv) {c : κ} (found : st.wire c = none) (challenge : UInt64) :
    (st.putWire c { conn := Connection.start challenge }).Inv ∧
      (FileServer.lts κ).runFrom st.server [.accept c] =
        some (st.putWire c { conn := Connection.start challenge }).server := by
  have before : Line (st.server.conn c) none := by
    rw [← found]
    exact h c
  cases before with
  | absent absent unvalidated none =>
      refine ⟨h.putWire ?_, ?_⟩
      · refine .present _ challenge ⟨rfl, rfl, none⟩ rfl (.start challenge)
      · have opens : (st.server.conn c).look (Connection.start challenge .Server) =
            { st.server.conn c with m_socket := .opened } := by
          change { st.server.conn c with m_validated := false, m_socket := .opened } = _
          rw [← unvalidated]
        simp only [Lts.runFrom, FileServer.lts, FileServer.step, absent, if_true, Option.bind_some]
        rw [← opens]
        rfl

theorem Inv.message (h : st.Inv) {c : κ} {msg : Message} {server : FileServer κ}
    (found : st.wire c = some w) (front : (w.conn .Server).m_messages_in.head? = some msg)
    (pop : w.act .Server .pop = some w') (handles : st.server.onMessage c msg = some server) :
    (({ st with wire := Function.update st.wire c (some w') } : Served κ).forward server).Inv ∧
      Effect st (.message c) server := by
  have line : Line (st.server.conn c) (some w) := by
    rw [← found]
    exact h c
  have popped : Inv { st with wire := Function.update st.wire c (some w') } :=
    h.rewire (line.pop pop)
  refine ⟨fun d => ?_, ?_⟩
  · exact Line.forward { st with wire := Function.update st.wire c (some w') } (popped d)
      (FileServer.onMessage_handled handles)
  · have member : msg ∈ (w.conn .Server).parsed :=
      List.mem_append_right _ (List.mem_of_head? front)
    cases line with
    | present _ challenge shows owner serving =>
        obtain ⟨validated, framed⟩ := serving.received member
        refine .message c ⟨msg, framed⟩ server ?_ ?_
        · unfold next
          rw [found]
          exact front
        · have valid : (st.server.conn c).m_validated = true := shows.validated.trans validated
          simp only [FileServer.step, valid, if_true]
          exact handles

/-- **One step of the sockets.** -/
theorem Inv.step (h : st.Inv) {e : Event κ} (step : st.step e = some st') :
    st'.Inv ∧ Effect st e st'.server := by
  cases e with
  | accept c challenge =>
      simp only [Served.step] at step
      split at step <;> cases step
      rename_i found
      obtain ⟨inv, run⟩ := h.accept found challenge
      refine ⟨inv, .links _ _ [.accept c] rfl (fun d member => ?_) run⟩
      rw [List.mem_singleton.mp member]
      rfl
  | act c o a =>
      simp only [Served.step] at step
      split at step
      · cases step
      rename_i w found
      split at step
      · rename_i allowed
        obtain ⟨w', act, rfl⟩ := Option.map_eq_some_iff.mp step
        obtain ⟨inv, ds, links, run⟩ := h.moves found w' fun line => line.act allowed act
        exact ⟨inv, .links _ _ ds rfl links run⟩
      · cases step
  | cut c o keep =>
      simp only [Served.step] at step
      obtain ⟨w, found, step⟩ := Option.bind_eq_some_iff.mp step
      obtain ⟨w', cut, step⟩ := Option.bind_eq_some_iff.mp step
      cases cut
      cases step
      obtain ⟨inv, ds, links, run⟩ := h.moves found
        { w with stream := Function.update w.stream o ⟨(w.stream o).bytes.take keep, true⟩ }
        fun line => line.aside rfl
      exact ⟨inv, .links _ _ ds rfl links run⟩
  | inject c bytes =>
      simp only [Served.step] at step
      obtain ⟨w, found, rfl⟩ := Option.map_eq_some_iff.mp step
      obtain ⟨inv, ds, links, run⟩ := h.moves found (w.inject bytes) fun line =>
        line.aside rfl
      exact ⟨inv, .links _ _ ds rfl links run⟩
  | message c =>
      simp only [Served.step] at step
      obtain ⟨w, found, step⟩ := Option.bind_eq_some_iff.mp step
      obtain ⟨msg, front, step⟩ := Option.bind_eq_some_iff.mp step
      obtain ⟨w', pop, step⟩ := Option.bind_eq_some_iff.mp step
      obtain ⟨server, handles, step⟩ := Option.bind_eq_some_iff.mp step
      cases step
      exact h.message found front pop handles

theorem Reachable.inv (h : (lts κ).Reachable st) : st.Inv := by
  refine h.induct (P := Inv) (fun c => .absent rfl rfl rfl) ?_
  intro st e st' _ inv step
  exact (inv.step step).1

/-- **The server on its sockets does what the server does.**  Whatever the peers write, however it
is cut into reads, and whichever sockets fail or are closed when: each step is a run of the file
server among its links, and each link shows the connection. -/
theorem server_on_sockets (κ : Type) [DecidableEq κ] :
    (lts κ).Implements (FileServer.lts κ) server ∧
      ∀ st : Served κ, (lts κ).Reachable st → ∀ c w, st.wire c = some w →
        (w.conn .Server).Shows (st.server.conn c) := by
  refine ⟨⟨rfl, fun st e st' reachable step => ?_⟩, fun st reachable c w found => ?_⟩
  · obtain ⟨-, effect⟩ := (Reachable.inv reachable).step step
    exact effect.run
  · have line := Reachable.inv reachable c
    rw [found] at line
    cases line with
    | present _ challenge shows owner serving => exact shows

/-- A peer answers the challenge and asks for a phrase nobody has registered, all in one packet,
and its socket is closed when the answer is on its way. -/
def askedEvents : List (Event Nat) :=
  let reply := TriviallyCopyable.toBytes (obfuscate 5)
  let request := encode .RequestReceive ⟨.File, ⟨1, [7]⟩, ⟨0, 0, []⟩⟩
  [.accept 3 5, .inject 3 (reply ++ request.frame), .act 3 .Server (.take .validation 0 reply),
    .act 3 .Server (.readDone .validation 0),
    .act 3 .Server (.take .header 0 (TriviallyCopyable.toBytes request.header)),
    .act 3 .Server (.readDone .header 0), .act 3 .Server (.take .body 0 request.body),
    .act 3 .Server (.readDone .body 0), .message 3, .act 3 .Server .runPosted,
    .act 3 .Server (.writeFailed .header 0)]

def asked : Served Nat := ((lts Nat).run askedEvents).get (by decide +kernel)

theorem server_on_sockets_asked : asked.server.Reachable ∧
    asked.server.sentTo 3 = [encode .Reject {}] ∧ (asked.server.conn 3).m_socket = .closed ∧
      ∃ w, asked.wire 3 = some w ∧ (w.conn .Server).Shows (asked.server.conn 3) := by
  have reachable : (lts Nat).Reachable asked := ⟨askedEvents, (Option.some_get _).symm⟩
  obtain ⟨w, wired⟩ : ∃ w, asked.wire 3 = some w :=
    Option.isSome_iff_exists.mp (by decide +kernel)
  exact ⟨(server_on_sockets Nat).1.reachable reachable, by decide +kernel, by decide +kernel,
    w, wired, (server_on_sockets Nat).2 asked reachable 3 w wired⟩

end Served

end PingPong
