import PingPong.Lib.Lts
import PingPong.Lib.Pump
import PingPong.Net.History

/-!
# Waiting for the outgoing queue

`waitForOutgoingQueueEmpty` waits until no write is pending and the queue is empty.  The queue of a
connection is a `Pump`: the header and the body of the front message are the work on it, and what
`send` has counted is posted or queued.  A completion handler of a write that failed closes the
socket and does nothing else; the pump is stuck from there on.
-/

namespace PingPong.Net

open TriviallyCopyable (width toBytes ofBytes)

namespace Connection

variable {T : Type} [Inhabited T]

/-- What `waitForOutgoingQueueEmpty` waits for. -/
def OutgoingQueueEmpty (c : Connection T) : Prop := c.m_pending_writes = 0 ∧ c.m_messages_out = []

/-- No handler is posted and no write is in flight. -/
def Quiescent (c : Connection T) : Prop := c.posted = [] ∧ ∀ part, c.writes part = []

/-- The write of a header or of a body fails. -/
def Act.failsFrame : Act T → Bool
  | .writeFailed .header _ => true
  | .writeFailed .body _ => true
  | _ => false

def pump (c : Connection T) : Pump (Message T) where
  posted := unsent c.posted
  queue := c.m_messages_out
  pending := c.m_pending_writes
  busy := (c.writes .header).length + (c.writes .body).length

theorem Quiescent.pump {c : Connection T} (h : c.Quiescent) :
    c.pump.posted = [] ∧ c.pump.busy = 0 := by
  constructor
  · change unsent c.posted = []
    rw [h.1]
    rfl
  · change (c.writes .header).length + (c.writes .body).length = 0
    rw [h.2, h.2]
    rfl

theorem start_pump (challenge : UInt64) (o : EOwner) :
    (Connection.start challenge o : Connection T).pump = {} := by
  cases o <;> rfl

theorem setWrites_validation_pump (c : Connection T) (ws : List (List UInt8)) :
    (c.setWrites .validation ws).pump = c.pump := by
  simp [Connection.pump, setWrites]

/-- Frame writes are all that is in flight. -/
theorem writes_le_busy (c : Connection T) {part : Part} (frame : part ≠ .validation) :
    (c.writes part).length ≤ c.pump.busy := by
  cases part with
  | validation => exact (frame rfl).elim
  | header => exact Nat.le_add_right _ _
  | body => exact Nat.le_add_left _ _

theorem setWrites_pump (c : Connection T) {part : Part} (frame : part ≠ .validation)
    (ws : List (List UInt8)) :
    (c.setWrites part ws).pump =
      { c.pump with busy := c.pump.busy - (c.writes part).length + ws.length } := by
  cases part with
  | validation => exact (frame rfl).elim
  | header =>
      simp [Connection.pump, setWrites]
      omega
  | body => simp [Connection.pump, setWrites]

/-- A frame write comes to its end. -/
theorem erase_pump {c : Connection T} {part : Part} {i : Nat} {left : List UInt8}
    (frame : part ≠ .validation) (found : (c.writes part)[i]? = some left) :
    0 < c.pump.busy ∧ (c.setWrites part ((c.writes part).eraseIdx i)).pump = c.pump.fail := by
  obtain ⟨bound, -⟩ := List.getElem?_eq_some_iff.mp found
  have busy := writes_le_busy c frame
  have one_less : c.pump.busy - (c.writes part).length + ((c.writes part).length - 1) =
      c.pump.busy - 1 := by omega
  refine ⟨by omega, ?_⟩
  rw [setWrites_pump c frame, List.length_eraseIdx_of_lt bound, one_less]
  rfl

theorem putBytes_pump (c : Connection T) {part : Part} {i n : Nat} {left : List UInt8} :
    (c.putBytes part i left n).pump = c.pump := by
  cases part <;> simp [Connection.pump, putBytes, setWrites]

theorem read_pump [TriviallyCopyable T] (c : Connection T) (buffer : List UInt8) (part : Part) :
    (c.read buffer part).pump = c.pump := by
  cases part with
  | validation =>
      simp only [read, validationRead]
      split
      · split <;> rfl
      · simp [Connection.pump, writeValidation, asyncWrite]
  | header =>
      simp only [read, headerRead]
      split <;> rfl
  | body => rfl

variable [TriviallyCopyable T]

omit [TriviallyCopyable T] in
theorem asyncWrite_pump (c : Connection T) {part : Part} (frame : part ≠ .validation)
    (buffer : List UInt8) :
    (c.asyncWrite part buffer).pump = { c.pump with busy := c.pump.busy + 1 } := by
  have busy := writes_le_busy c frame
  have one_more : c.pump.busy - (c.writes part).length + ((c.writes part).length + 1) =
      c.pump.busy + 1 := by omega
  change (c.setWrites part (c.writes part ++ [buffer])).pump = _
  rw [setWrites_pump c frame, List.length_append, List.length_singleton, one_more]

theorem writeHeader_pump {c : Connection T} (queued : c.m_messages_out ≠ []) :
    c.writeHeader.pump = { c.pump with busy := c.pump.busy + 1 } := by
  unfold writeHeader
  split
  · exact asyncWrite_pump c Part.header_ne_validation _
  · rename_i empty
    exact (queued empty).elim

omit [TriviallyCopyable T] in
theorem writeBody_pump {c : Connection T} (queued : c.m_messages_out ≠ []) :
    c.writeBody.pump = { c.pump with busy := c.pump.busy + 1 } := by
  unfold writeBody
  split
  · exact asyncWrite_pump c Part.body_ne_validation _
  · rename_i empty
    exact (queued empty).elim

theorem finishMessage_pump {c : Connection T} {msg : Message T} {later : List (Message T)}
    (queue : c.m_messages_out = msg :: later) :
    c.finishMessage.pump =
      { c.pump with
        queue := later
        pending := c.pump.pending - 1
        busy := if later.isEmpty then c.pump.busy else c.pump.busy + 1 } := by
  cases later with
  | nil =>
      simp only [finishMessage, queue, List.tail_cons, List.isEmpty_nil, if_true]
      split <;> rfl
  | cons next rest =>
      simp only [finishMessage, queue, List.tail_cons, List.isEmpty_cons]
      rw [if_neg Bool.false_ne_true, if_neg Bool.false_ne_true]
      exact writeHeader_pump (List.cons_ne_nil next rest)

/-! ## Steps -/

/-- A posted message is queued, and written if it is the first. -/
theorem runSend_pump {c : Connection T} {msg : Message T} {later : List (Handler T)}
    (next : c.posted = .send msg :: later) :
    c.pump.Step (runHandler { c with posted := later } (.send msg)).pump := by
  have front : c.pump.posted = msg :: unsent later := by
    change unsent c.posted = _
    rw [next]
    rfl
  have pushes := Pump.Step.push msg _ front
  simp only [runHandler]
  cases empty : c.m_messages_out.isEmpty with
  | true =>
      have starts : c.pump.queue.isEmpty = true := empty
      rw [starts] at pushes
      rw [Bool.not_true, if_neg Bool.false_ne_true,
        writeHeader_pump (List.append_ne_nil_of_right_ne_nil _ (List.cons_ne_nil msg []))]
      exact pushes
  | false =>
      have waits : c.pump.queue.isEmpty = false := empty
      rw [waits] at pushes
      exact pushes

/-- Any handler but that of `send` leaves the pump alone. -/
theorem runOther_pump {c : Connection T} {handler : Handler T} {later : List (Handler T)}
    (next : c.posted = handler :: later) (other : Handler.message? handler = none) :
    (runHandler { c with posted := later } handler).pump = c.pump := by
  have same : unsent later = unsent c.posted := by
    rw [next]
    exact (List.filterMap_cons_none other).symm
  have unposted : ({ c with posted := later } : Connection T).pump = c.pump := by
    simp only [Connection.pump, same]
  cases handler with
  | send msg => cases other
  | close => exact unposted
  | closeAfterFlush =>
      simp only [runHandler]
      split
      · exact unposted
      · exact unposted

/-- The last write of the message at the front ends. -/
theorem finishes_pump {c : Connection T} {part : Part} {i : Nat} (frame : part ≠ .validation)
    (queued : c.m_messages_out ≠ []) (found : (c.writes part)[i]? = some []) :
    c.pump.Step (c.setWrites part ((c.writes part).eraseIdx i)).finishMessage.pump := by
  obtain ⟨busy, erased⟩ := erase_pump frame found
  obtain ⟨msg, later, queue⟩ := List.exists_cons_of_ne_nil queued
  have queue' : (c.setWrites part ((c.writes part).eraseIdx i)).m_messages_out = msg :: later :=
    queue
  have finishes := Pump.Step.finish (p := c.pump) msg later queue busy
  have goesOn : c.pump.busy - 1 + 1 = c.pump.busy := Nat.sub_add_cancel busy
  rw [finishMessage_pump queue', erased]
  simp only [Pump.fail, goesOn]
  exact finishes

/-- The header is followed by the body, and ends the message if there is none. -/
theorem headerWritten_pump {c : Connection T} {i : Nat} (queued : c.m_messages_out ≠ [])
    (found : (c.writes .header)[i]? = some []) :
    c.pump.Step (c.setWrites .header ((c.writes .header).eraseIdx i)).headerWritten.pump := by
  obtain ⟨busy, erased⟩ := erase_pump Part.header_ne_validation found
  have goesOn : c.pump.busy - 1 + 1 = c.pump.busy := Nat.sub_add_cancel busy
  unfold headerWritten
  split
  · split
    · have writes :=
        writeBody_pump (c := c.setWrites .header ((c.writes .header).eraseIdx i)) queued
      rw [writes, erased]
      simp only [Pump.fail, goesOn]
      exact .idle
    · exact finishes_pump Part.header_ne_validation queued found
  · rename_i empty
    exact (queued empty).elim

/-- A step of a connection with a message in the queue of each write is a step of the pump, and the
failure of a header or body is a failure of the pump. -/
theorem step_pump {c c' : Connection T} {a : Act T} (fed : 0 < c.pump.busy → c.m_messages_out ≠ [])
    (step : c.step a = some c') :
    (a.failsFrame = false → c.pump.Step c'.pump) ∧
      (a.failsFrame = true → 0 < c.pump.busy ∧ c'.pump = c.pump.fail) := by
  have posts : ∀ {handler : Handler T}, Handler.message? handler = none →
      unsent (c.posted ++ [handler]) = unsent c.posted := by
    intro handler other
    have none : unsent [handler] = [] := List.filterMap_cons_none other
    rw [unsent_append, none, List.append_nil]
  have keeps : ∀ {d : Connection T}, d.pump = c.pump → c.pump.Step d.pump := by
    intro d same
    rw [same]
    exact .idle
  have goes : a.failsFrame = false → c.pump.Step c'.pump →
      (a.failsFrame = false → c.pump.Step c'.pump) ∧
        (a.failsFrame = true → 0 < c.pump.busy ∧ c'.pump = c.pump.fail) := by
    intro kind steps
    refine ⟨fun _ => steps, fun fails => ?_⟩
    rw [kind] at fails
    cases fails
  have breaks : a.failsFrame = true → 0 < c.pump.busy → c'.pump = c.pump.fail →
      (a.failsFrame = false → c.pump.Step c'.pump) ∧
        (a.failsFrame = true → 0 < c.pump.busy ∧ c'.pump = c.pump.fail) := by
    intro kind busy erased
    refine ⟨fun goes => ?_, fun _ => ⟨busy, erased⟩⟩
    rw [kind] at goes
    cases goes
  cases step_steps step with
  | refused | disconnected => exact goes rfl .idle
  | accepted msg validated isOpen =>
      refine goes rfl ?_
      have accepts := Pump.Step.accept (p := c.pump) msg.1
      simp only [Connection.pump, unsent_append] at accepts ⊢
      exact accepts
  | disconnects isOpen =>
      refine goes rfl (keeps ?_)
      simp only [Connection.pump, @posts .close rfl]
  | disconnectsAfterFlush =>
      refine goes rfl (keeps ?_)
      simp only [Connection.pump, @posts .closeAfterFlush rfl]
  | runs handler later next =>
      refine goes rfl ?_
      cases other : Handler.message? handler with
      | none => exact keeps (runOther_pump next other)
      | some msg =>
          cases handler with
          | send msg => exact runSend_pump next
          | close | closeAfterFlush => cases other
  | puts part i n left found isOpen => exact goes rfl (keeps (putBytes_pump c))
  | writes part i found =>
      refine goes rfl ?_
      cases part with
      | validation =>
          have same := setWrites_validation_pump c ((c.writes .validation).eraseIdx i)
          simp only [wrote, validationWritten]
          split
          · exact keeps same
          · exact keeps same
      | header =>
          obtain ⟨busy, -⟩ := erase_pump Part.header_ne_validation found
          exact headerWritten_pump (fed busy) found
      | body =>
          obtain ⟨busy, -⟩ := erase_pump Part.body_ne_validation found
          exact finishes_pump Part.body_ne_validation (fed busy) found
  | writeFails part i left found =>
      cases part with
      | validation =>
          have same := setWrites_validation_pump c ((c.writes .validation).eraseIdx i)
          exact goes rfl (keeps same)
      | header =>
          obtain ⟨busy, erased⟩ := erase_pump Part.header_ne_validation found
          exact breaks rfl busy erased
      | body =>
          obtain ⟨busy, erased⟩ := erase_pump Part.body_ne_validation found
          exact breaks rfl busy erased
  | takes part i bytes op found isOpen fits => exact goes rfl .idle
  | reads part i buffer found =>
      exact goes rfl (keeps (read_pump (c.setReads part _) buffer part))
  | readFails part i op found => exact goes rfl .idle
  | pops msg rest front => exact goes rfl .idle

/-! ## Runs -/

/-- A connection alone, with anything that can happen to it. -/
def lts (T : Type) [Inhabited T] [TriviallyCopyable T] (challenge : UInt64) (o : EOwner) :
    Lts (Connection T) (Act T) :=
  ⟨Connection.start challenge o, Connection.step⟩

/-- Until a frame write fails the pump is running, and from then on it is stuck. -/
theorem run_pump {challenge : UInt64} {o : EOwner} {acts : List (Act T)} {c : Connection T}
    (run : (lts T challenge o).run acts = some c) :
    ((∀ a ∈ acts, a.failsFrame = false) ∧ c.pump.Running) ∨
      ((∃ a ∈ acts, a.failsFrame = true) ∧ c.pump.Stuck) := by
  refine Lts.run_induct (P := fun acts c => ((∀ a ∈ acts, a.failsFrame = false) ∧ c.pump.Running) ∨
    ((∃ a ∈ acts, a.failsFrame = true) ∧ c.pump.Stuck)) ?_ ?_ run
  · refine Or.inl ⟨fun a member => (List.not_mem_nil member).elim, ?_⟩
    change (Connection.start challenge o : Connection T).pump.Running
    rw [start_pump]
    exact .start
  · rintro acts c a c' - (⟨none, running⟩ | ⟨⟨b, member, failed⟩, stuck⟩) step
    · obtain ⟨steps, fails⟩ := step_pump running.queued step
      cases kind : a.failsFrame with
      | false =>
          refine Or.inl ⟨fun b member => ?_, running.step (steps kind)⟩
          rcases List.mem_append.mp member with before | last
          · exact none b before
          · rw [List.mem_singleton.mp last]
            exact kind
      | true =>
          obtain ⟨busy, same⟩ := fails kind
          refine Or.inr ⟨⟨a, List.mem_append_right _ (List.mem_singleton_self a), kind⟩, ?_⟩
          rw [same]
          exact running.fail busy
    · obtain ⟨steps, fails⟩ := step_pump (fun _ => stuck.queued) step
      refine Or.inr ⟨⟨b, List.mem_append_left _ member, failed⟩, ?_⟩
      cases kind : a.failsFrame with
      | false => exact stuck.step (steps kind)
      | true =>
          obtain ⟨busy, -⟩ := fails kind
          rw [stuck.idle] at busy
          exact absurd busy (Nat.lt_irrefl 0)

/-- **A flush is not stranded** just in the runs in which no write of a header or a body fails. -/
theorem quiescent_empty_iff {challenge : UInt64} {o : EOwner} {acts : List (Act T)}
    {c : Connection T} (run : (lts T challenge o).run acts = some c) (quiet : c.Quiescent) :
    c.OutgoingQueueEmpty ↔ ∀ a ∈ acts, a.failsFrame = false := by
  rcases run_pump run with ⟨none, running⟩ | ⟨⟨a, member, failed⟩, stuck⟩
  · refine iff_of_true ?_ none
    exact running.drained quiet.pump.1 quiet.pump.2
  · refine iff_of_false (fun empty => stuck.queued empty.2) fun none => ?_
    rw [none a member] at failed
    cases failed

/-- A client that answers the challenge and sends a message without a body. -/
def sendActs : List (Act UInt32) :=
  [.take .validation 0 [0, 0, 0, 0, 0, 0, 0, 0], .readDone .validation 0, .put .validation 0 8,
    .writeDone .validation 0, .send ⟨⟨⟨9, 0⟩, []⟩, rfl⟩, .runPosted]

def drained : Connection UInt32 :=
  ((lts UInt32 0 .Client).run (sendActs ++ [.put .header 0 8, .writeDone .header 0])).get
    (by decide +kernel)

def stranded : Connection UInt32 :=
  ((lts UInt32 0 .Client).run (sendActs ++ [.writeFailed .header 0])).get (by decide +kernel)

theorem quiescent_empty_drained : drained.Quiescent ∧ drained.OutgoingQueueEmpty := by
  have quiet : drained.Quiescent := by
    refine ⟨by decide +kernel, fun part => ?_⟩
    cases part <;> decide +kernel
  exact ⟨quiet, (quiescent_empty_iff (Option.some_get _).symm quiet).mpr (by decide)⟩

/-- The write of the only header fails: nothing can happen to the queue any more. -/
theorem quiescent_stranded :
    (lts UInt32 0 .Client).run (sendActs ++ [.writeFailed .header 0]) = some stranded ∧
      stranded.Quiescent ∧ stranded.m_pending_writes = 1 ∧ ¬ stranded.OutgoingQueueEmpty := by
  have pending : stranded.m_pending_writes = 1 := by decide +kernel
  refine ⟨(Option.some_get _).symm, ⟨by decide +kernel, fun part => ?_⟩, pending, fun empty => ?_⟩
  · cases part <;> decide +kernel
  · rw [empty.1] at pending
    cases pending

end Connection

end PingPong.Net
