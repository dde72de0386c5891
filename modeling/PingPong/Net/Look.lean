import PingPong.Net.Delivery
import PingPong.Net.Intake

/-!
# Looking at a connection

A `Link` is what the owner of a connection knows of it.  The owner finds out by looking
(`Link.look`); between two looks the connection may be opened, validated and closed
(`Link.Becomes`).  What the owner sends goes through the connection and shows on the link
(`Connection.Shows.sendAll`), and on a wire it is a run of `Wire.lts` (`Wire.sendAll_run`).
-/

namespace PingPong.Net

variable {T : Type}

/-! ## Links -/

namespace Link

/-- What may happen to a connection without its owner. -/
inductive Event where
  | opened
  | validated
  | closed

def on (l : Link T) : Event → Option (Link T)
  | .opened => if l.m_socket = .absent then some { l with m_socket := .opened } else none
  | .validated => if l.m_socket ≠ .absent then some { l with m_validated := true } else none
  | .closed => if l.m_socket ≠ .absent then some { l with m_socket := .closed } else none

def lts : Lts (Link T) Event := ⟨{}, on⟩

def Becomes (l l' : Link T) : Prop := ∃ es, lts.runFrom l es = some l'

theorem Becomes.refl (l : Link T) : l.Becomes l := ⟨[], rfl⟩

theorem becomes_opened {l : Link T} (absent : l.m_socket = .absent) :
    l.Becomes { l with m_socket := .opened } := ⟨[.opened], by simp [Lts.runFrom, lts, on, absent]⟩

theorem becomes_validated {l : Link T} (connected : l.m_socket ≠ .absent) {validated : Bool}
    (moves : validated = l.m_validated ∨ validated = true) :
    l.Becomes { l with m_validated := validated } := by
  rcases moves with rfl | rfl
  · exact .refl l
  · exact ⟨[.validated], by simp [Lts.runFrom, lts, on, connected]⟩

theorem becomes_closed {l : Link T} (connected : l.m_socket ≠ .absent) {socket : Socket}
    (moves : socket = l.m_socket ∨ socket = .closed) : l.Becomes { l with m_socket := socket } := by
  rcases moves with rfl | rfl
  · exact .refl l
  · exact ⟨[.closed], by simp [Lts.runFrom, lts, on, connected]⟩

theorem Becomes.trans {l l' l'' : Link T} (h : l.Becomes l') (h' : l'.Becomes l'') :
    l.Becomes l'' := by
  obtain ⟨es, run⟩ := h
  obtain ⟨es', run'⟩ := h'
  exact ⟨es ++ es', Lts.runFrom_trans run run'⟩

/-- The owner has sent one message at most. -/
structure Sends (l l' : Link T) : Prop where
  validated : l'.m_validated = l.m_validated
  socket : l'.m_socket = l.m_socket
  sent : l'.sent = l.sent ∨ ∃ msg, l.accepts = true ∧ l'.sent = l.sent ++ [msg]

theorem Sends.refl (l : Link T) : l.Sends l := ⟨rfl, rfl, Or.inl rfl⟩

theorem sends_send (l : Link T) (msg : Message T) : l.Sends (l.send msg).2 := by
  refine ⟨l.send_validated msg, l.send_socket msg, ?_⟩
  rw [send_sent]
  split
  · rename_i accepts
    exact Or.inr ⟨msg, accepts, rfl⟩
  · exact Or.inl rfl

end Link

namespace Connection

/-- Neither a call of `send` nor the removal of a message from the incoming queue. -/
def Act.network : Act T → Bool
  | .send _ => false
  | .pop => false
  | _ => true

variable [Inhabited T]

/-- Calls of `send`, one after another. -/
def sendAll (c : Connection T) (msgs : List (Message T)) : Connection T :=
  msgs.foldl (fun c msg => (c.send msg).2) c

end Connection

variable [Inhabited T]

/-- The owner looks at its connection. -/
def Link.look (l : Link T) (c : Connection T) : Link T :=
  { l with
    m_validated := c.m_validated
    m_socket := if c.m_socket_open then .opened else .closed }

/-! ## Connections -/

namespace Connection

variable {c c' : Connection T} {l l' : Link T}

theorem Shows.connected (h : c.Shows l) : l.m_socket ≠ .absent := by
  rw [h.socket]
  split <;> exact Socket.noConfusion

/-- A connection that is shown looks as it is shown. -/
theorem Shows.look (h : c.Shows l) : l.look c = l := by
  unfold Link.look
  rw [← h.validated, ← h.socket]

/-- The owner's sends, when the owner's link has gone through them. -/
theorem Shows.sendAll (h : c.Shows l) (sends : l.Sends l') :
    (c.sendAll (l'.sent.drop l.sent.length)).Shows l' := by
  obtain ⟨validated, socket, sent⟩ := sends
  rcases sent with same | ⟨msg, accepts, sent⟩
  · rw [same, List.drop_length]
    exact ⟨validated.trans h.validated, socket.trans h.socket, same.trans h.sent⟩
  · rw [sent, List.drop_left]
    obtain ⟨-, shows⟩ := h.send msg
    rw [Link.send_of_accepts accepts] at shows
    exact ⟨validated.trans shows.validated, socket.trans shows.socket, sent.trans shows.sent⟩

/-- What sending leaves alone. -/
theorem send_owner (c : Connection T) (msg : Message T) :
    (c.send msg).2.m_owner_type = c.m_owner_type ∧ (c.send msg).2.popped = c.popped := by
  unfold Connection.send
  split
  · exact ⟨rfl, rfl⟩
  split <;> exact ⟨rfl, rfl⟩

theorem sendAll_owner (c : Connection T) (msgs : List (Message T)) :
    (c.sendAll msgs).m_owner_type = c.m_owner_type ∧ (c.sendAll msgs).popped = c.popped := by
  induction msgs generalizing c with
  | nil => exact ⟨rfl, rfl⟩
  | cons msg msgs ih =>
      obtain ⟨owner, popped⟩ := ih (c.send msg).2
      obtain ⟨owner', popped'⟩ := send_owner c msg
      exact ⟨owner.trans owner', popped.trans popped'⟩

variable [TriviallyCopyable T]

/-- A step that is no call of `send` only shows in what a look at the connection tells. -/
theorem Shows.moves (h : c.Shows l) {a : Act T} (step : c.step a = some c')
    (quiet : ∀ msg, a ≠ .send msg) : c'.Shows (l.look c') ∧ l.Becomes (l.look c') := by
  obtain ⟨validated, socket, valid, closes, shows⟩ := h.step step quiet
  have same : l.look c' = { l with m_validated := validated, m_socket := socket } := by
    unfold Link.look
    rw [← shows.validated, ← shows.socket]
  let looked : Link T := { l with m_validated := validated }
  have becomes : l.Becomes looked := Link.becomes_validated h.connected valid
  have shuts : looked.Becomes { looked with m_socket := socket } :=
    Link.becomes_closed (l := looked) h.connected closes
  rw [same]
  exact ⟨shows, becomes.trans shuts⟩

theorem Shows.pop (h : c.Shows l) (step : c.step .pop = some c') : c'.Shows l := by
  cases step_steps step with
  | pops msg rest front => exact ⟨h.validated, h.socket, h.sent⟩

omit [Inhabited T] [TriviallyCopyable T] in
theorem network_quiet {a : Act T} (network : a.network = true) : ∀ msg, a ≠ .send msg := by
  intro msg same
  rw [same] at network
  cases network

/-- Only its owner takes messages off the queue. -/
theorem network_popped {a : Act T} (network : a.network = true) (step : c.step a = some c') :
    c'.popped = c.popped := by
  cases step_steps step with
  | refused | accepted | pops => cases network
  | disconnects | disconnected | disconnectsAfterFlush | puts | writeFails | takes | readFails =>
      rfl
  | runs handler later next =>
      exact congrArg History.popped (runHandler_onlyWrites { c with posted := later }
        handler).history
  | writes part i found =>
      cases part with
      | validation =>
          simp only [wrote, validationWritten]
          split <;> rfl
      | header =>
          exact congrArg History.popped (headerWritten_onlyWrites
            (c.setWrites .header ((c.writes .header).eraseIdx i))).history
      | body =>
          exact congrArg History.popped (finishMessage_onlyWrites
            (c.setWrites .body ((c.writes .body).eraseIdx i))).history
  | reads part i buffer found =>
      cases part with
      | validation =>
          simp only [read, validationRead]
          split
          · split <;> rfl
          · rfl
      | header =>
          exact congrArg History.popped (headerRead_onlyReads
            (c.setReads .header ((c.reads .header).eraseIdx i)) buffer).history
      | body => rfl

theorem send_aside (c : Connection T) (msg : Message T) : Intakes c (c.send msg).2 := by
  unfold Connection.send
  split
  · exact .aside c rfl rfl
  split
  · exact .aside c rfl rfl
  · exact .aside _ rfl rfl

/-- Sending does not touch what a server's connection reads. -/
theorem Serving.sendAll [NoPadding T] {challenge : UInt64} {msgs : List (Message T)}
    (h : c.Serving challenge) : (c.sendAll msgs).Serving challenge := by
  induction msgs generalizing c with
  | nil => exact h
  | cons msg msgs ih => exact ih (h.step (send_aside c msg))

/-- What a server's connection has parsed came in after its validation, and is in step with its
header. -/
theorem Serving.received {challenge : UInt64} (h : c.Serving challenge) {msg : Message T}
    (member : msg ∈ c.parsed) : c.m_validated = true ∧ msg.Framed := by
  cases h with
  | waiting unchecked none fresh =>
      rw [none] at member
      cases member
  | reading server validated replied parsing => exact ⟨validated, parsing.framed msg member⟩

end Connection

/-! ## Wires -/

namespace Wire

/-- The owner of one end sends. -/
def sendAll (w : Wire T) (o : EOwner) (msgs : List (Message T)) : Wire T :=
  { w with conn := Function.update w.conn o ((w.conn o).sendAll msgs) }

/-- The program at the other end of a server's connection writes to it. -/
def inject (w : Wire T) (bytes : List UInt8) : Wire T :=
  { w with stream := Function.update w.stream .Client ((w.stream .Client).append bytes) }

theorem sendAll_conn (w : Wire T) (o : EOwner) (msgs : List (Message T)) :
    (w.sendAll o msgs).conn o = (w.conn o).sendAll msgs := by
  change Function.update w.conn o _ o = _
  rw [Function.update_self]

theorem sendAll_peer (w : Wire T) {o d : EOwner} (ne : d ≠ o) (msgs : List (Message T)) :
    (w.sendAll o msgs).conn d = w.conn d := Function.update_of_ne ne _ _

variable [TriviallyCopyable T]

/-- A call of `send` puts nothing on the wire yet. -/
theorem act_send (w : Wire T) (o : EOwner) (msg : { msg : Message T // msg.Framed }) :
    w.act o (.send msg) = some (w.sendAll o [msg.1]) := by
  have written : ((w.conn o).send msg.1).2.written = (w.conn o).written := by
    unfold Connection.send
    split
    · rfl
    split <;> rfl
  have nothing : (w.stream o).append [] = w.stream o := by
    unfold Stream.append
    split
    · rfl
    · rw [List.append_nil]
  have stays : ({ w.stream o.peer with bytes := (w.stream o.peer).bytes.drop 0 } : Stream) =
      w.stream o.peer := rfl
  unfold act
  simp only [Connection.Act.taken, List.isPrefixOf_nil_left, if_true, Connection.step,
    Option.bind_eq_bind, Option.bind_some, written, List.drop_length, List.length_nil, nothing,
    stays, Function.update_eq_self]
  rfl

/-- What the owner of an end sends is a run of the wire. -/
theorem sendAll_run (challenge : UInt64) (o : EOwner) (msgs : List (Message T))
    (framed : ∀ msg ∈ msgs, msg.Framed) (w : Wire T) :
    ∃ es, (lts T challenge).runFrom w es = some (w.sendAll o msgs) := by
  induction msgs generalizing w with
  | nil =>
      refine ⟨[], ?_⟩
      change some w = some { w with conn := Function.update w.conn o (w.conn o) }
      rw [Function.update_eq_self]
  | cons msg msgs ih =>
      obtain ⟨es, run⟩ := ih (fun m member => framed m (List.mem_cons_of_mem msg member))
        (w.sendAll o [msg])
      have twice : (w.sendAll o [msg]).sendAll o msgs = w.sendAll o (msg :: msgs) := by
        unfold sendAll
        simp only [Function.update_self, Function.update_idem]
        rfl
      refine ⟨.act o (.send ⟨msg, framed msg List.mem_cons_self⟩) :: es, ?_⟩
      rw [twice] at run
      simp only [Lts.runFrom, lts, step, act_send, Option.bind_some]
      exact run

end Wire

end PingPong.Net
