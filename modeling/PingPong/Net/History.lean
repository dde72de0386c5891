import PingPong.Net.Link
import PingPong.Net.Reading

/-!
# What a step does to the history

* `OnlyWrites` and `OnlyReads`: the handlers of one chain leave everything outside it alone.
* `Steps`: the ways a step can go, with what each needs.
* `step_effect`: what any step can add to the messages accepted and popped and to the bytes written
  and read.
* `Accounted.step`: every accepted message is flushed, queued or posted.
* `Shows`: a `Link` is what the owner of a connection sees of it.  Calls of the owner have the same
  outcome on both, and anything else validates or closes the link at most.
-/

namespace PingPong.Net

open TriviallyCopyable (width toBytes ofBytes)

namespace Connection

variable {T : Type} [Inhabited T]

def Handler.message? : Handler T → Option (Message T)
  | .send msg => some msg
  | _ => none

/-- The messages of the posted `send` handlers. -/
def unsent (posted : List (Handler T)) : List (Message T) := posted.filterMap Handler.message?

/-- Every accepted message is flushed, queued or posted. -/
def Accounted (c : Connection T) : Prop :=
  c.sent = c.flushed ++ c.m_messages_out ++ unsent c.posted

variable [TriviallyCopyable T]

/-- What the chains of frames leave alone. -/
structure Control where
  owner : EOwner
  validated : Bool
  greeting : UInt64
  writes : List (List UInt8)
  reads : List Read

def control (c : Connection T) : Control :=
  ⟨c.m_owner_type, c.m_validated, c.m_handshake_out, c.writes .validation, c.reads .validation⟩

structure History (T : Type) where
  sent : List (Message T)
  popped : List (Message T)
  written : List UInt8
  consumed : List UInt8
  write_failed : Bool

def history (c : Connection T) : History T :=
  ⟨c.sent, c.popped, c.written, c.consumed, c.write_failed⟩

/-- The handlers of the write chain only touch the write chain, and do not open the socket. -/
structure OnlyWrites (c c' : Connection T) : Prop where
  control : c'.control = c.control
  history : c'.history = c.history
  incoming : c'.incoming = c.incoming
  closed : c.m_socket_open = false → c'.m_socket_open = false

structure OnlyReads (c c' : Connection T) : Prop where
  control : c'.control = c.control
  history : c'.history = c.history
  outgoing : c'.outgoing = c.outgoing
  closed : c.m_socket_open = false → c'.m_socket_open = false

theorem writeHeader_onlyWrites (c : Connection T) : OnlyWrites c c.writeHeader := by
  unfold writeHeader
  split
  · exact ⟨rfl, rfl, rfl, id⟩
  · exact ⟨rfl, rfl, rfl, id⟩

omit [TriviallyCopyable T] in
theorem writeBody_onlyWrites (c : Connection T) : OnlyWrites c c.writeBody := by
  unfold writeBody
  split
  · exact ⟨rfl, rfl, rfl, id⟩
  · exact ⟨rfl, rfl, rfl, id⟩

theorem finishMessage_onlyWrites (c : Connection T) : OnlyWrites c c.finishMessage := by
  unfold finishMessage
  dsimp only
  split
  · split
    · exact ⟨rfl, rfl, rfl, fun _ => rfl⟩
    · exact ⟨rfl, rfl, rfl, id⟩
  · obtain ⟨control, history, incoming, closed⟩ := writeHeader_onlyWrites
      { c with
        m_messages_out := c.m_messages_out.tail
        m_pending_writes := c.m_pending_writes - 1
        flushed := c.flushed ++ c.m_messages_out.take 1 }
    exact ⟨control, history, incoming, closed⟩

theorem headerWritten_onlyWrites (c : Connection T) : OnlyWrites c c.headerWritten := by
  unfold headerWritten
  split
  · split
    · exact writeBody_onlyWrites c
    · exact finishMessage_onlyWrites c
  · exact ⟨rfl, rfl, rfl, id⟩

theorem runHandler_onlyWrites (c : Connection T) (handler : Handler T) :
    OnlyWrites c (c.runHandler handler) := by
  cases handler with
  | send msg =>
      simp only [runHandler]
      split
      · exact ⟨rfl, rfl, rfl, id⟩
      · obtain ⟨control, history, incoming, closed⟩ := writeHeader_onlyWrites
          { c with m_messages_out := c.m_messages_out ++ [msg] }
        exact ⟨control, history, incoming, closed⟩
  | close => exact ⟨rfl, rfl, rfl, fun _ => rfl⟩
  | closeAfterFlush =>
      simp only [runHandler]
      split
      · exact ⟨rfl, rfl, rfl, fun _ => rfl⟩
      · exact ⟨rfl, rfl, rfl, id⟩

theorem headerRead_onlyReads (c : Connection T) (buffer : List UInt8) :
    OnlyReads c (c.headerRead buffer) := by
  unfold headerRead
  dsimp only
  split
  · exact ⟨rfl, rfl, rfl, id⟩
  · exact ⟨rfl, rfl, rfl, id⟩

/-! ## Steps -/

/-- One step, with what it needs. -/
inductive Steps (c : Connection T) : Act T → Connection T → Prop
  | refused (msg : { msg : Message T // msg.Framed }) :
    c.m_validated = false ∨ c.m_socket_open = false → Steps c (.send msg) c
  | accepted (msg : { msg : Message T // msg.Framed }) :
    c.m_validated = true → c.m_socket_open = true →
    Steps c (.send msg)
      { c with
        m_pending_writes := c.m_pending_writes + 1
        posted := c.posted ++ [.send msg.1]
        sent := c.sent ++ [msg.1] }
  | disconnects : c.m_socket_open = true →
    Steps c .disconnect { c with posted := c.posted ++ [.close] }
  | disconnected : c.m_socket_open = false → Steps c .disconnect c
  | disconnectsAfterFlush :
    Steps c .disconnectAfterFlush { c with posted := c.posted ++ [.closeAfterFlush] }
  | runs (handler : Handler T) (later : List (Handler T)) : c.posted = handler :: later →
    Steps c .runPosted (runHandler { c with posted := later } handler)
  | puts (part : Part) (i n : Nat) (left : List UInt8) :
    (c.writes part)[i]? = some left → c.m_socket_open = true →
    Steps c (.put part i n) (c.putBytes part i left n)
  | writes (part : Part) (i : Nat) : (c.writes part)[i]? = some [] →
    Steps c (.writeDone part i) ((c.setWrites part ((c.writes part).eraseIdx i)).wrote part)
  | writeFails (part : Part) (i : Nat) (left : List UInt8) : (c.writes part)[i]? = some left →
    Steps c (.writeFailed part i)
      (close { c.setWrites part ((c.writes part).eraseIdx i) with write_failed := true })
  | takes (part : Part) (i : Nat) (bytes : List UInt8) (op : Read) :
    (c.reads part)[i]? = some op → c.m_socket_open = true → bytes.length ≤ op.missing →
    Steps c (.take part i bytes) (c.takeBytes part i op bytes)
  | reads (part : Part) (i : Nat) (buffer : List UInt8) :
    (c.reads part)[i]? = some ⟨buffer, 0⟩ →
    Steps c (.readDone part i) ((c.setReads part ((c.reads part).eraseIdx i)).read buffer part)
  | readFails (part : Part) (i : Nat) (op : Read) : (c.reads part)[i]? = some op →
    Steps c (.readFailed part i) (c.setReads part ((c.reads part).eraseIdx i)).close
  | pops (msg : Message T) (rest : List (Message T)) : c.m_messages_in = msg :: rest →
    Steps c .pop { c with m_messages_in := rest, popped := c.popped ++ [msg] }

theorem step_steps {c c' : Connection T} {a : Act T} (step : c.step a = some c') :
    Steps c a c' := by
  cases a with
  | send msg =>
      cases step
      unfold Connection.send
      split
      · rename_i unvalidated
        exact .refused msg (Or.inl unvalidated)
      split
      · rename_i closed
        exact .refused msg (Or.inr closed)
      · rename_i validated isOpen
        exact .accepted msg (eq_true_of_ne_false validated) (eq_true_of_ne_false isOpen)
  | disconnect =>
      cases step
      unfold disconnect
      split
      · rename_i isOpen
        exact .disconnects isOpen
      · rename_i closed
        exact .disconnected (eq_false_of_ne_true closed)
  | disconnectAfterFlush =>
      cases step
      exact .disconnectsAfterFlush
  | runPosted =>
      simp only [Connection.step] at step
      split at step <;> cases step
      rename_i handler later next
      exact .runs handler later next
  | put part i n =>
      simp only [Connection.step] at step
      split at step
      · cases step
      split at step <;> cases step
      rename_i left found isOpen
      exact .puts part i n left found isOpen
  | writeDone part i =>
      simp only [Connection.step] at step
      split at step <;> cases step
      rename_i found
      exact .writes part i found
  | writeFailed part i =>
      simp only [Connection.step] at step
      split at step <;> cases step
      rename_i left found
      exact .writeFails part i left found
  | take part i bytes =>
      simp only [Connection.step] at step
      split at step
      · cases step
      split at step <;> cases step
      rename_i op found fits
      exact .takes part i bytes op found fits.1 fits.2
  | readDone part i =>
      simp only [Connection.step] at step
      split at step <;> cases step
      rename_i buffer found
      exact .reads part i buffer found
  | readFailed part i =>
      simp only [Connection.step] at step
      split at step <;> cases step
      rename_i op found
      exact .readFails part i op found
  | pop =>
      simp only [Connection.step] at step
      split at step <;> cases step
      rename_i msg rest front
      exact .pops msg rest front

/-! ## What a step does to the history -/

/-- The bytes a step takes off the incoming stream. -/
def Act.taken : Act T → List UInt8
  | .take _ _ bytes => bytes
  | _ => []

structure Effect (a : Act T) (c c' : Connection T) : Prop where
  owner : c'.m_owner_type = c.m_owner_type
  validated : c'.m_validated = c.m_validated ∨ c'.m_validated = true
  sent : c'.sent = c.sent ∨ ∃ msg, a = .send msg ∧ c'.sent = c.sent ++ [msg.1]
  popped : c'.popped = c.popped ∨ ∃ msg, c'.popped = c.popped ++ [msg]
  written : ∃ bytes, c'.written = c.written ++ bytes ∧ (c.m_socket_open = false → bytes = [])
  consumed : c'.consumed = c.consumed ++ a.taken
  closed : c.m_socket_open = false → c'.m_socket_open = false
  failed : c'.write_failed = true → c.write_failed = true ∨ c'.m_socket_open = false

omit [TriviallyCopyable T] in
/-- Most steps leave the history alone. -/
theorem Effect.quiet {a : Act T} {c c' : Connection T} (owner : c'.m_owner_type = c.m_owner_type)
    (validated : c'.m_validated = c.m_validated ∨ c'.m_validated = true)
    (same : c'.history = c.history) (taken : a.taken = [])
    (closed : c.m_socket_open = false → c'.m_socket_open = false) : Effect a c c' := by
  obtain ⟨sent, popped, written, consumed, failed⟩ := History.mk.inj same
  refine ⟨owner, validated, Or.inl sent, Or.inl popped, ⟨[], ?_, fun _ => rfl⟩, ?_, closed,
    fun h => ?_⟩
  · rw [List.append_nil, written]
  · rw [taken, List.append_nil, consumed]
  · rw [failed] at h
    exact Or.inl h

theorem step_effect {c c' : Connection T} {a : Act T} (step : c.step a = some c') :
    Effect a c c' := by
  cases step_steps step with
  | refused msg stopped => exact .quiet rfl (Or.inl rfl) rfl rfl id
  | accepted msg validated isOpen =>
      exact ⟨rfl, Or.inl rfl, Or.inr ⟨msg, rfl, rfl⟩, Or.inl rfl,
        ⟨[], (List.append_nil _).symm, fun _ => rfl⟩, (List.append_nil _).symm, id, Or.inl⟩
  | disconnects isOpen => exact .quiet rfl (Or.inl rfl) rfl rfl id
  | disconnected closed => exact .quiet rfl (Or.inl rfl) rfl rfl id
  | disconnectsAfterFlush => exact .quiet rfl (Or.inl rfl) rfl rfl id
  | runs handler later next =>
      have only := runHandler_onlyWrites { c with posted := later } handler
      exact .quiet (congrArg Control.owner only.control)
        (Or.inl (congrArg Control.validated only.control)) only.history rfl only.closed
  | puts part i n left found isOpen =>
      refine ⟨rfl, Or.inl rfl, Or.inl rfl, Or.inl rfl, ⟨left.take n, rfl, fun closed => ?_⟩,
        (List.append_nil _).symm, id, Or.inl⟩
      rw [closed] at isOpen
      cases isOpen
  | writes part i found =>
      cases part with
      | validation =>
          simp only [wrote, validationWritten]
          split
          · exact .quiet rfl (Or.inr rfl) rfl rfl id
          · exact .quiet rfl (Or.inl rfl) rfl rfl id
      | header =>
          have only := headerWritten_onlyWrites
            (c.setWrites .header ((c.writes .header).eraseIdx i))
          exact .quiet (congrArg Control.owner only.control)
            (Or.inl (congrArg Control.validated only.control)) only.history rfl only.closed
      | body =>
          have only := finishMessage_onlyWrites (c.setWrites .body ((c.writes .body).eraseIdx i))
          exact .quiet (congrArg Control.owner only.control)
            (Or.inl (congrArg Control.validated only.control)) only.history rfl only.closed
  | writeFails part i left found =>
      exact ⟨rfl, Or.inl rfl, Or.inl rfl, Or.inl rfl,
        ⟨[], (List.append_nil _).symm, fun _ => rfl⟩, (List.append_nil _).symm, fun _ => rfl,
        fun _ => Or.inr rfl⟩
  | takes part i bytes op found isOpen fits =>
      exact ⟨rfl, Or.inl rfl, Or.inl rfl, Or.inl rfl,
        ⟨[], (List.append_nil _).symm, fun _ => rfl⟩, rfl, id, Or.inl⟩
  | reads part i buffer found =>
      cases part with
      | validation =>
          simp only [read, validationRead]
          split
          · split
            · exact .quiet rfl (Or.inr rfl) rfl rfl id
            · exact .quiet rfl (Or.inl rfl) rfl rfl fun _ => rfl
          · exact .quiet rfl (Or.inl rfl) rfl rfl id
      | header =>
          have only := headerRead_onlyReads
            (c.setReads .header ((c.reads .header).eraseIdx i)) buffer
          exact .quiet (congrArg Control.owner only.control)
            (Or.inl (congrArg Control.validated only.control)) only.history rfl only.closed
      | body => exact .quiet rfl (Or.inl rfl) rfl rfl id
  | readFails part i op found => exact .quiet rfl (Or.inl rfl) rfl rfl fun _ => rfl
  | pops msg rest front =>
      exact ⟨rfl, Or.inl rfl, Or.inl rfl, Or.inr ⟨msg, rfl⟩,
        ⟨[], (List.append_nil _).symm, fun _ => rfl⟩, (List.append_nil _).symm, id, Or.inl⟩

/-! ## Accounting for accepted messages -/

omit [Inhabited T] [TriviallyCopyable T] in
@[simp] theorem unsent_append (xs ys : List (Handler T)) :
    unsent (xs ++ ys) = unsent xs ++ unsent ys := List.filterMap_append

theorem finishMessage_accounted {c : Connection T} (h : c.Accounted) :
    c.finishMessage.Accounted := by
  have whole : c.m_messages_out.take 1 ++ c.m_messages_out.tail = c.m_messages_out := by
    rw [← List.drop_one, List.take_append_drop]
  have moved : c.sent =
      c.flushed ++ c.m_messages_out.take 1 ++ c.m_messages_out.tail ++ unsent c.posted := by
    rw [List.append_assoc c.flushed, whole]
    exact h
  unfold finishMessage
  dsimp only
  split
  · split
    · exact moved
    · exact moved
  · unfold writeHeader
    split
    · exact moved
    · exact moved

theorem headerWritten_accounted {c : Connection T} (h : c.Accounted) :
    c.headerWritten.Accounted := by
  unfold headerWritten
  split
  · split
    · unfold writeBody
      split
      · exact h
      · exact h
    · exact finishMessage_accounted h
  · exact h

theorem runHandler_accounted {c : Connection T} {handler : Handler T} {later : List (Handler T)}
    (next : c.posted = handler :: later) (h : c.Accounted) :
    (runHandler { c with posted := later } handler).Accounted := by
  unfold Accounted at h
  rw [next] at h
  cases handler with
  | send msg =>
      have queued : c.sent = c.flushed ++ (c.m_messages_out ++ [msg]) ++ unsent later := by
        rw [h, ← List.append_assoc c.flushed, List.append_assoc _ [msg]]
        rfl
      simp only [runHandler]
      split
      · exact queued
      · unfold writeHeader
        split
        · exact queued
        · exact queued
  | close => exact h
  | closeAfterFlush =>
      simp only [runHandler]
      split
      · exact h
      · exact h

theorem Accounted.step {c c' : Connection T} (h : c.Accounted) {a : Act T}
    (step : c.step a = some c') : c'.Accounted := by
  have posts : ∀ {handler : Handler T}, Handler.message? handler = none →
      c.sent = c.flushed ++ c.m_messages_out ++ unsent (c.posted ++ [handler]) := by
    intro handler quiet
    have none : unsent [handler] = [] := List.filterMap_cons_none quiet
    rw [unsent_append, none, List.append_nil]
    exact h
  cases step_steps step with
  | accepted msg validated isOpen =>
      change c.sent ++ [msg.1] =
        c.flushed ++ c.m_messages_out ++ unsent (c.posted ++ [.send msg.1])
      rw [unsent_append, ← List.append_assoc, ← h]
      rfl
  | disconnects isOpen => exact posts rfl
  | disconnectsAfterFlush => exact posts rfl
  | runs handler later next => exact runHandler_accounted next h
  | writes part i found =>
      cases part with
      | validation =>
          simp only [wrote, validationWritten]
          split
          · exact h
          · exact h
      | header => exact headerWritten_accounted h
      | body => exact finishMessage_accounted h
  | reads part i buffer found =>
      cases part with
      | validation =>
          simp only [read, validationRead]
          split
          · split
            · exact h
            · exact h
          · exact h
      | header =>
          simp only [read, headerRead]
          split
          · exact h
          · exact h
      | body => exact h
  | refused | disconnected | puts | writeFails | takes | readFails | pops => exact h

/-! ## What the owner sees -/

structure Shows (c : Connection T) (l : Link T) : Prop where
  validated : l.m_validated = c.m_validated
  socket : l.m_socket = if c.m_socket_open then .opened else .closed
  sent : l.sent = c.sent

omit [TriviallyCopyable T] in
theorem Shows.accepts {c : Connection T} {l : Link T} (h : Shows c l) :
    l.accepts = (c.m_validated && c.m_socket_open) := by
  rw [Link.accepts, Link.isConnected, h.validated, h.socket]
  cases c.m_socket_open <;> rfl

omit [TriviallyCopyable T] in
theorem Shows.send {c : Connection T} {l : Link T} (h : Shows c l) (msg : Message T) :
    (c.send msg).1 = (l.send msg).1 ∧ Shows (c.send msg).2 (l.send msg).2 := by
  have accepts := h.accepts
  rw [Link.send_fst]
  unfold Connection.send
  split
  · rename_i notValidated
    have refuses : l.accepts = false := by rw [accepts, notValidated, Bool.false_and]
    rw [Link.send_of_refuses refuses]
    exact ⟨refuses.symm, h⟩
  split
  · rename_i closed
    have refuses : l.accepts = false := by rw [accepts, closed, Bool.and_false]
    rw [Link.send_of_refuses refuses]
    exact ⟨refuses.symm, h⟩
  · rename_i validated isOpen
    have takes : l.accepts = true := by
      rw [accepts, eq_true_of_ne_false validated, eq_true_of_ne_false isOpen,
        Bool.and_self]
    rw [Link.send_of_accepts takes]
    refine ⟨takes.symm, h.validated, h.socket, ?_⟩
    change l.sent ++ [msg] = c.sent ++ [msg]
    rw [h.sent]

omit [TriviallyCopyable T] in
theorem Shows.disconnectAfterFlush {c : Connection T} {l : Link T} (h : Shows c l) :
    Shows c.disconnectAfterFlush l.disconnectAfterFlush := ⟨h.validated, h.socket, h.sent⟩

/-- Nothing but a call of `send` adds to the accepted messages; a connection may become validated,
and may close, at any other step. -/
theorem Shows.step {c c' : Connection T} {l : Link T} (h : Shows c l) {a : Act T}
    (step : c.step a = some c') (quiet : ∀ msg, a ≠ .send msg) :
    ∃ validated socket, (validated = l.m_validated ∨ validated = true) ∧
      (socket = l.m_socket ∨ socket = .closed) ∧
      Shows c' { l with m_validated := validated, m_socket := socket } := by
  have effect := step_effect step
  have sent : c'.sent = c.sent := by
    rcases effect.sent with same | ⟨msg, send, -⟩
    · exact same
    · exact (quiet msg send).elim
  refine ⟨c'.m_validated, if c'.m_socket_open then .opened else .closed, ?_, ?_, rfl, rfl, ?_⟩
  · rw [h.validated]
    exact effect.validated
  · rw [h.socket]
    rcases isOpen : c.m_socket_open with _ | _
    · rw [effect.closed isOpen]
      exact Or.inl rfl
    · rcases c'.m_socket_open with _ | _
      · exact Or.inr rfl
      · exact Or.inl rfl
  · rw [sent]
    exact h.sent

end Connection

end PingPong.Net
