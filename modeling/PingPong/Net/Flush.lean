import PingPong.Lib.Outbox
import PingPong.Net.Delivery

/-!
# Closing after the flush

`disconnectAfterFlush` closes the socket in one of three places: in its own handler, or when the
header or the body of the last queued message has been written.  Here nothing else closes it:
`disconnect` is not called and no transfer fails while the socket is open (`Connection.permits`).

Seen through `Connection.outbox`, such a connection is an `Outbox`, in which closing the socket
after a wrong handshake is giving up one that has accepted nothing.
-/

namespace PingPong.Net

open TriviallyCopyable (width toBytes ofBytes)

namespace Connection

variable {T : Type} [Inhabited T]

/-- No call of `disconnect`, and no failure of a transfer on an open socket. -/
def permits (c : Connection T) : Act T → Bool
  | .disconnect => false
  | .writeFailed _ _ => !c.m_socket_open
  | .readFailed _ _ => !c.m_socket_open
  | _ => true

def Handler.task? : Handler T → Option (Outbox.Task (Message T))
  | .send msg => some (.push msg)
  | .close => none
  | .closeAfterFlush => some .close

def outbox (c : Connection T) : Outbox (Message T) where
  accepted := c.sent
  done := c.flushed
  queue := c.m_messages_out
  tasks := c.posted.filterMap Handler.task?
  pending := c.m_pending_writes
  closing := c.m_close_after_flush
  isOpen := c.m_socket_open

omit [Inhabited T] in
theorem posted_tasks (posted : List (Handler T)) :
    Outbox.posted (posted.filterMap Handler.task?) = unsent posted := by
  induction posted with
  | nil => rfl
  | cons handler later ih =>
      cases handler with
      | send msg => exact congrArg (msg :: ·) ih
      | close => exact ih
      | closeAfterFlush => exact ih

/-- Closing a closed socket changes nothing. -/
theorem close_outbox {c c' : Connection T} (same : c'.outbox = c.outbox)
    (closed : c.m_socket_open = false) : c.outbox.Step c'.close.outbox := by
  have shut : c'.m_socket_open = false := (congrArg Outbox.isOpen same).trans closed
  have still : c'.close.outbox = c'.outbox := by
    unfold close outbox
    rw [shut]
  rw [still, same]
  exact .idle

theorem start_outbox (challenge : UInt64) (o : EOwner) :
    (Connection.start challenge o : Connection T).outbox = {} := by
  cases o <;> rfl

variable [TriviallyCopyable T]

theorem writeHeader_outbox (c : Connection T) : c.writeHeader.outbox = c.outbox := by
  unfold writeHeader
  split <;> rfl

theorem request_outbox {c c' : Connection T} (step : c.step .disconnectAfterFlush = some c') :
    c'.outbox = c.outbox.request := by
  cases step
  simp [outbox, disconnectAfterFlush, Outbox.request, Handler.task?]

/-! ## Steps -/

theorem finishMessage_outbox {c : Connection T} {msg : Message T} {later : List (Message T)}
    (queue : c.m_messages_out = msg :: later) : c.outbox.Step c.finishMessage.outbox := by
  have finishes := Outbox.Step.finish (b := c.outbox) msg later queue
  cases later with
  | nil =>
      cases closing : c.m_close_after_flush with
      | false => simpa [finishMessage, outbox, queue, closing] using finishes
      | true => simpa [finishMessage, outbox, close, queue, closing] using finishes
  | cons next rest =>
      have goesOn : c.finishMessage = writeHeader
          { c with
            m_messages_out := next :: rest
            m_pending_writes := c.m_pending_writes - 1
            flushed := c.flushed ++ [msg] } := by
        simp [finishMessage, queue]
      rw [goesOn, writeHeader_outbox]
      simpa [outbox] using finishes

theorem headerWritten_outbox (c : Connection T) : c.outbox.Step c.headerWritten.outbox := by
  unfold headerWritten
  split
  · rename_i msg later queue
    split
    · unfold writeBody
      split <;> exact .idle
    · exact finishMessage_outbox queue
  · exact .idle

theorem runHandler_outbox {c : Connection T} {handler : Handler T} {later : List (Handler T)}
    (next : c.posted = handler :: later) (quiet : Handler.close ∉ c.posted) :
    c.outbox.Step (runHandler { c with posted := later } handler).outbox := by
  cases handler with
  | send msg =>
      have tasks : c.outbox.tasks = .push msg :: later.filterMap Handler.task? := by
        simp [outbox, next, Handler.task?]
      have pushes := Outbox.Step.push msg _ tasks
      simp only [runHandler]
      split
      · exact pushes
      · rw [writeHeader_outbox]
        exact pushes
  | close =>
      rw [next] at quiet
      exact (quiet List.mem_cons_self).elim
  | closeAfterFlush =>
      have tasks : c.outbox.tasks = .close :: later.filterMap Handler.task? := by
        simp [outbox, next, Handler.task?]
      simp only [runHandler]
      split
      · rename_i empty
        exact .close _ tasks (List.isEmpty_iff.mp empty)
      · rename_i nonempty
        exact .mark _ tasks fun empty => nonempty (List.isEmpty_iff.mpr empty)

/-- A connection is closed by its handshake only before it has accepted a message. -/
theorem validationRead_outbox {c : Connection T} (unsent : c.sent = []) (buffer : List UInt8) :
    c.outbox.Step (c.validationRead buffer).outbox := by
  unfold validationRead
  dsimp only
  split
  · split
    · exact .idle
    · exact .giveUp unsent
  · exact .idle

theorem Inv.queued_of_body {c : Connection T} (h : c.Inv) {i : Nat} {left : List UInt8}
    (found : (c.writes .body)[i]? = some left) : ∃ msg later, c.m_messages_out = msg :: later := by
  have busy : c.writes .body ≠ [] := by
    intro none
    rw [none] at found
    cases found
  rcases h.phase with before | after
  · exact (busy before.body_writes).elim
  · exact after.sending.queued busy

theorem Inv.unsent_of_validation {c : Connection T} (h : c.Inv) {i : Nat} {op : Read}
    (found : (c.reads .validation)[i]? = some op) : c.sent = [] := by
  rcases h.phase with before | after
  · exact before.sent
  · rw [after.validation_reads] at found
    cases found

/-- Between two requests a permitted step is a step of the outbox. -/
theorem step_outbox {c c' : Connection T} (h : c.Inv) (quiet : Handler.close ∉ c.posted) {a : Act T}
    (permitted : c.permits a = true) (other : a ≠ .disconnectAfterFlush)
    (step : c.step a = some c') : c.outbox.Step c'.outbox := by
  cases step_steps step with
  | refused | disconnected | puts | takes | pops => exact .idle
  | accepted msg validated isOpen =>
      have accepts := Outbox.Step.accept (b := c.outbox) msg.1 isOpen
      simpa [outbox, Handler.task?] using accepts
  | disconnects isOpen => cases permitted
  | disconnectsAfterFlush => exact (other rfl).elim
  | runs handler later next => exact runHandler_outbox next quiet
  | writes part i found =>
      cases part with
      | validation =>
          change c.outbox.Step (validationWritten _).outbox
          unfold validationWritten
          split <;> exact .idle
      | header => exact headerWritten_outbox (c.setWrites .header _)
      | body =>
          obtain ⟨msg, later, queue⟩ := h.queued_of_body found
          exact finishMessage_outbox (c := c.setWrites .body _) queue
  | writeFails part i left found =>
      have closed : c.m_socket_open = false := by simpa [permits] using permitted
      exact @close_outbox T _ c ({ c.setWrites part _ with write_failed := true }) rfl closed
  | reads part i buffer found =>
      cases part with
      | validation =>
          exact validationRead_outbox (c := c.setReads .validation _)
            (h.unsent_of_validation found) buffer
      | header =>
          change c.outbox.Step (headerRead _ buffer).outbox
          unfold headerRead
          dsimp only
          split <;> exact .idle
      | body => exact .idle
  | readFails part i op found =>
      have closed : c.m_socket_open = false := by simpa [permits] using permitted
      exact @close_outbox T _ c (c.setReads part _) rfl closed

/-! ## What is posted -/

@[simp] theorem writeHeader_posted (c : Connection T) : c.writeHeader.posted = c.posted := by
  unfold writeHeader
  split <;> rfl

@[simp] theorem finishMessage_posted (c : Connection T) : c.finishMessage.posted = c.posted := by
  unfold finishMessage
  dsimp only
  split
  · split <;> rfl
  · rw [writeHeader_posted]

@[simp] theorem wrote_posted (c : Connection T) (part : Part) :
    (c.wrote part).posted = c.posted := by
  cases part with
  | validation =>
      change (validationWritten c).posted = c.posted
      unfold validationWritten
      split <;> rfl
  | header =>
      change (headerWritten c).posted = c.posted
      unfold headerWritten
      split
      · split
        · unfold writeBody
          split <;> rfl
        · exact finishMessage_posted c
      · rfl
  | body => exact finishMessage_posted c

@[simp] theorem read_posted (c : Connection T) (buffer : List UInt8) (part : Part) :
    (c.read buffer part).posted = c.posted := by
  cases part with
  | validation =>
      change (validationRead c buffer).posted = c.posted
      unfold validationRead
      dsimp only
      split
      · split <;> rfl
      · rfl
  | header =>
      change (headerRead c buffer).posted = c.posted
      unfold headerRead
      dsimp only
      split <;> rfl
  | body => rfl

@[simp] theorem runHandler_posted (c : Connection T) (handler : Handler T) :
    (c.runHandler handler).posted = c.posted := by
  cases handler with
  | send msg =>
      simp only [runHandler]
      split
      · rfl
      · rw [writeHeader_posted]
  | close => rfl
  | closeAfterFlush =>
      simp only [runHandler]
      split <;> rfl

/-- A permitted step posts no handler of `disconnect`. -/
theorem step_quiet {c c' : Connection T} (quiet : Handler.close ∉ c.posted) {a : Act T}
    (permitted : c.permits a = true) (step : c.step a = some c') : Handler.close ∉ c'.posted := by
  have posts : ∀ {handler : Handler T}, handler ≠ .close →
      Handler.close ∉ c.posted ++ [handler] := by
    intro handler other member
    rcases List.mem_append.mp member with old | new
    · exact quiet old
    · exact other (List.mem_singleton.mp new).symm
  cases step_steps step with
  | disconnects isOpen => cases permitted
  | accepted msg validated isOpen => exact posts (nomatch ·)
  | disconnectsAfterFlush => exact posts (nomatch ·)
  | runs handler later next =>
      rw [next] at quiet
      rw [runHandler_posted]
      exact fun member => quiet (List.mem_cons_of_mem _ member)
  | writes part i found =>
      rw [wrote_posted]
      exact quiet
  | reads part i buffer found =>
      rw [read_posted]
      exact quiet
  | refused | disconnected | puts | takes | writeFails | readFails | pops => exact quiet

/-- The frames flushed are written behind the handshake. -/
theorem Inv.flushed_isPrefix {c : Connection T} (h : c.Inv) :
    frames c.flushed <+: c.written.drop 8 := by
  rcases h.phase with before | after
  · rw [(before.unsent h.accounted).1]
    exact List.nil_prefix
  · obtain ⟨rest, written⟩ := after.sending.flushed_isPrefix
    have written : c.greeting ++ frames c.flushed ++ rest = c.written := written
    rw [← written, List.append_assoc, List.drop_left' c.length_greeting]
    exact List.prefix_append _ _

end Connection

/-! ## Runs -/

namespace Wire

open Connection (unsent)

variable {T : Type} [Inhabited T] [TriviallyCopyable T]

def permits (w : Wire T) (o : EOwner) : Event T → Bool
  | .act d a => d ≠ o || (w.conn o).permits a
  | .cut _ _ => true

/-- The wire, as long as only `disconnectAfterFlush` closes the connection of `o`. -/
def flushing (T : Type) [Inhabited T] [TriviallyCopyable T] (challenge : UInt64) (o : EOwner) :
    Lts (Wire T) (Event T) :=
  ⟨(lts T challenge).init, fun w e => if w.permits o e then w.step e else none⟩

section

variable {challenge : UInt64} {o : EOwner} {w w' : Wire T} {e : Event T}

theorem flushing_step (step : (flushing T challenge o).step w e = some w') :
    w.permits o e = true ∧ w.step e = some w' := by
  simp only [flushing] at step
  split at step
  · rename_i permitted
    exact ⟨permitted, step⟩
  · cases step

theorem Reachable.inv_of_flushing [NoPadding T] (h : (flushing T challenge o).Reachable w) :
    w.Inv := by
  have refines : (flushing T challenge o).Refines (lts T challenge) id :=
    ⟨rfl, fun u d u' _ step => Or.inr ⟨d, (flushing_step step).2⟩⟩
  exact Reachable.inv (refines.reachable h)

/-- A step of the wire is a step of the outbox of `o`, or a request to it. -/
theorem flushing_outbox (inv : w.Inv) (quiet : Handler.close ∉ (w.conn o).posted)
    (step : (flushing T challenge o).step w e = some w') :
    Handler.close ∉ (w'.conn o).posted ∧
      ((e ≠ .act o .disconnectAfterFlush ∧ (w.conn o).outbox.Step (w'.conn o).outbox) ∨
        (e = .act o .disconnectAfterFlush ∧ (w'.conn o).outbox = (w.conn o).outbox.request)) := by
  obtain ⟨permitted, step⟩ := flushing_step step
  cases e with
  | cut d keep =>
      cases step
      exact ⟨quiet, Or.inl ⟨(nomatch ·), .idle⟩⟩
  | act d a =>
      have acts := act_acts step
      rcases EOwner.eq_or_peer o d with rfl | rfl
      · have permitted : (w.conn d).permits a = true := by simpa [permits] using permitted
        refine ⟨Connection.step_quiet quiet permitted acts.step, ?_⟩
        by_cases request : a = .disconnectAfterFlush
        · rw [request] at acts ⊢
          exact Or.inr ⟨rfl, Connection.request_outbox acts.step⟩
        · refine Or.inl ⟨fun same => request ?_,
            Connection.step_outbox (inv.endpoint d) quiet permitted request acts.step⟩
          cases same
          rfl
      · have same := acts.peer
        rw [EOwner.peer_peer] at same
        rw [same]
        refine ⟨quiet, Or.inl ⟨fun same => ?_, .idle⟩⟩
        exact o.peer_ne (Event.act.inj same).1

/-- What the outbox of `o` keeps throughout a run. -/
structure Flushes (o : EOwner) (w : Wire T) : Prop where
  quiet : Handler.close ∉ (w.conn o).posted
  balanced : (w.conn o).outbox.Balanced

theorem Reachable.flushes [NoPadding T] (h : (flushing T challenge o).Reachable w) :
    w.Flushes o := by
  refine h.induct (P := Flushes o) ?_ ?_
  · have none : ((lts T challenge).init.conn o).posted = [] := by
      cases o <;> rfl
    refine ⟨?_, ?_⟩
    · change Handler.close ∉ ((lts T challenge).init.conn o).posted
      rw [none]
      exact List.not_mem_nil
    · change (Connection.start challenge o : Connection T).outbox.Balanced
      rw [Connection.start_outbox]
      exact .start
  · intro u d u' reachable ih step
    obtain ⟨quiet, kinds⟩ := flushing_outbox (Reachable.inv_of_flushing reachable) ih.quiet step
    refine ⟨quiet, ?_⟩
    rcases kinds with ⟨-, step⟩ | ⟨-, same⟩
    · exact ih.balanced.step step
    · rw [same]
      exact ih.balanced.request

theorem untouched [NoPadding T] {before : List (Event T)}
    (unrequested : .act o .disconnectAfterFlush ∉ before)
    (run : (flushing T challenge o).run before = some w) : (w.conn o).outbox.Untouched := by
  have visits : (flushing T challenge o).Visits before w := ⟨before, [], by simp, run⟩
  refine visits.induct (P := fun u => (u.conn o).outbox.Untouched)
    (C := fun _ d => d ≠ .act o .disconnectAfterFlush) ?_ ?_ ?_
  · change (Connection.start challenge o : Connection T).outbox.Untouched
    rw [Connection.start_outbox]
    exact .start
  · intro u d u' reachable ih step other
    have flushes := Reachable.flushes reachable
    obtain ⟨-, ⟨-, step⟩ | ⟨request, -⟩⟩ :=
      flushing_outbox (Reachable.inv_of_flushing reachable) flushes.quiet step
    · exact ih.step flushes.balanced step
    · exact (other request).elim
  · intro u d u' taken same
    obtain ⟨front, back, split, -, -⟩ := taken
    rw [split, same] at unrequested
    exact unrequested (List.mem_append_right _ List.mem_cons_self)

theorem promised [NoPadding T] {ms : List (Message T)} {after : List (Event T)}
    (reachable : (flushing T challenge o).Reachable w) (h : (w.conn o).outbox.Promised ms)
    (run : (flushing T challenge o).runFrom w after = some w') :
    (w'.conn o).outbox.Promised ms := by
  have both : (flushing T challenge o).Reachable w' ∧ (w'.conn o).outbox.Promised ms := by
    refine Lts.runFrom_induct (P := fun u =>
      (flushing T challenge o).Reachable u ∧ (u.conn o).outbox.Promised ms) ?_ ⟨reachable, h⟩ run
    intro u d u' inv step
    obtain ⟨reachable, ih⟩ := inv
    have flushes := Reachable.flushes reachable
    refine ⟨reachable.next step, ?_⟩
    rcases (flushing_outbox (Reachable.inv_of_flushing reachable) flushes.quiet step).2 with
      ⟨-, step⟩ | ⟨-, same⟩
    · exact ih.step flushes.balanced step
    · rw [same]
      exact ih.request
  exact both.2

end

/-- **Close only after flush.**  `w₁` is the wire at any point before the first call of
`disconnectAfterFlush` on the connection of `o`. -/
theorem closed_after_flush [NoPadding T] {challenge : UInt64} {o : EOwner}
    {before after : List (Event T)} {w₁ w : Wire T}
    (unrequested : .act o .disconnectAfterFlush ∉ before)
    (run₁ : (flushing T challenge o).run before = some w₁)
    (run : (flushing T challenge o).run (before ++ after) = some w) :
    -- The eight bytes in front are those of the handshake.
    ((w.conn o).m_socket_open = false →
      (w₁.conn o).sent <+: (w.conn o).flushed ∧
      frames (w₁.conn o).sent <+: (w.conn o).written.drop 8) ∧
    (w.conn o).m_pending_writes =
      (unsent (w.conn o).posted).length + (w.conn o).m_messages_out.length ∧
    ((w.conn o).m_close_after_flush = true → (w.conn o).m_messages_out = [] →
      (w.conn o).m_socket_open = false) := by
  have reachable₁ : (flushing T challenge o).Reachable w₁ := ⟨before, run₁⟩
  have reachable : (flushing T challenge o).Reachable w := ⟨before ++ after, run⟩
  have balanced := (Reachable.flushes reachable).balanced
  have rest : (flushing T challenge o).runFrom w₁ after = some w := by
    unfold Lts.run at run run₁
    rw [Lts.runFrom_append, run₁] at run
    exact run
  have kept : (w.conn o).outbox.Promised (w₁.conn o).sent :=
    promised reachable₁ ((untouched unrequested run₁).promised
      (Reachable.flushes reachable₁).balanced) rest
  refine ⟨fun closed => ?_, ?_, balanced.flushed⟩
  · have flushed : (w₁.conn o).sent <+: (w.conn o).flushed := kept.closed closed
    have inv := (Reachable.inv_of_flushing reachable).endpoint o
    exact ⟨flushed, (frames_isPrefix flushed).trans inv.flushed_isPrefix⟩
  · have pending := balanced.pending
    rw [← Connection.posted_tasks]
    exact pending

/-- The server closes behind the message it has just sent: a request that finds it queued. -/
def farewellEvents : List (Event UInt32) :=
  [.act .Server .disconnectAfterFlush, .act .Server .runPosted, .act .Server .runPosted,
    .act .Server (.put .header 0 8), .act .Server (.writeDone .header 0),
    .act .Server (.put .body 0 1), .act .Server (.writeDone .body 0)]

def accepted : Wire UInt32 :=
  ((flushing UInt32 0 .Server).run (helloEvents.take 8)).get (by decide +kernel)

def farewell : Wire UInt32 :=
  ((flushing UInt32 0 .Server).run (helloEvents.take 8 ++ farewellEvents)).get (by decide +kernel)

theorem closed_after_flush_farewell :
    (farewell.conn .Server).m_socket_open = false ∧
      (accepted.conn .Server).sent = [⟨⟨9, 1⟩, [42]⟩] ∧
      (accepted.conn .Server).sent <+: (farewell.conn .Server).flushed := by
  have closed : (farewell.conn .Server).m_socket_open = false := by decide +kernel
  have unrequested : Event.act .Server .disconnectAfterFlush ∉ helloEvents.take 8 := by
    simp [helloEvents]
  refine ⟨closed, by decide +kernel, ?_⟩
  exact ((closed_after_flush unrequested (Option.some_get _).symm
    (Option.some_get _).symm).1 closed).1

end Wire

end PingPong.Net
