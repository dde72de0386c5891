import PingPong.Client.Waiting

/-!
# What the receiver reports

A receiver that has asked for the file tells the server how its session ended: `FinishReceive` is
sent by the routine when `mainLoop` has returned true, and `FailedReceive` by the session when it
cannot open its file.  Neither looks at why the loop was left.  A chunk that does not match its hash
makes it return false like an `Abort`, without a report, and a stream that has failed leaves
`op_result` true.

`Receiver.reporting` notes what the routine hands to `send` and what its session consumes.
`reports_outcome_iff`: in exactly the runs whose steps are all `Reportable` the report is the right
one.
-/

namespace PingPong

open Common Net

/-- What a receiver has handed to `send`, and the messages its session has consumed. -/
structure Receiver.Notes where
  handed : List Message := []
  consumed : List Message := []

def Receiver.Notes.add (notes : Receiver.Notes) (handed consumed : List Message) :
    Receiver.Notes :=
  ⟨notes.handed ++ handed, notes.consumed ++ consumed⟩

@[simp] theorem Receiver.Notes.add_nil (notes : Receiver.Notes) : notes.add [] [] = notes := by
  simp only [add, List.append_nil]

/-- A stream is good after its closing flush if it was before and the flush works. -/
theorem Ofstream.close_good_iff (ofs : Ofstream) (failure : Option Nat) :
    (ofs.close failure).good = true ↔ ofs.good = true ∧ failure = none := by
  cases failure with
  | none => exact (and_iff_left rfl).symm
  | some k => exact iff_of_false Bool.false_ne_true fun works => nomatch works.2

namespace ClientReceiverSession

open Receiver (Notes)

variable {sha256_chunk : List UInt8 → Hash}

/-! ## The property -/

def finishes (msgs : List Message) : Nat := msgs.countP (·.header.id = .FinishReceive)

def failures (msgs : List Message) : Nat := msgs.countP (·.header.id = .FailedReceive)

/-- Neither report has been sent. -/
def Unreported (msgs : List Message) : Prop := finishes msgs = 0 ∧ failures msgs = 0

def Aborted (consumed : List Message) : Prop := ∃ msg ∈ consumed, msg.header.id = .Abort

def Mismatched (sha256_chunk : List UInt8 → Hash) (consumed : List Message) : Prop :=
  ∃ msg ∈ consumed, msg.header.id = .Chunk ∧ ¬ Genuine sha256_chunk msg

/-- The file did not open, a write or the closing flush failed, or a control sum did not match. -/
def Failed (sha256_chunk : List UInt8 → Hash) (t : ClientReceiverSession)
    (consumed : List Message) : Prop :=
  t.ofs.good = false ∨ Mismatched sha256_chunk consumed

/-- Success of the loop is reported by one `FinishReceive`, a failure of the receiver's own by one
`FailedReceive`, and nothing is reported only after an `Abort`. -/
structure ReportsOutcome (sha256_chunk : List UInt8 → Hash) (t : ClientReceiverSession)
    (notes : Notes) : Prop where
  success : t.pc = .returned true → finishes notes.handed = 1 ∧ failures notes.handed = 0
  failure : ¬ Aborted notes.consumed → Failed sha256_chunk t notes.consumed →
    finishes notes.handed = 0 ∧ failures notes.handed = 1
  neither : Unreported notes.handed ↔ Aborted notes.consumed

/-- A mismatch is not consumed, and the loop is not left for success with a stream that has failed
or fails to flush. -/
def Reportable (sha256_chunk : List UInt8 → Hash) (t : ClientReceiverSession)
    (m_messages_in : List Message) (disk : Disk) : Prop :=
  match t.pc with
  | .drain => ∀ msg rest, m_messages_in = msg :: rest → msg.header.id = .Chunk →
      Genuine sha256_chunk msg
  | .loop => ¬ t.Going → t.op_result = true → t.ofs.good = true ∧ disk.writes = none
  | _ => True

/-! ## The session -/

/-- No reason to stop has been consumed. -/
structure Clean (sha256_chunk : List UInt8 → Hash) (consumed : List Message) : Prop where
  aborted : ¬ Aborted consumed
  mismatched : ¬ Mismatched sha256_chunk consumed

theorem Clean.nil : Clean sha256_chunk [] := by
  constructor
  · intro aborted
    obtain ⟨msg, member, -⟩ := aborted
    exact List.not_mem_nil member
  · intro mismatched
    obtain ⟨msg, member, -⟩ := mismatched
    exact List.not_mem_nil member

theorem aborted_append (xs ys : List Message) :
    Aborted (xs ++ ys) ↔ Aborted xs ∨ Aborted ys := by
  simp only [Aborted, List.mem_append, or_and_right, exists_or]

theorem mismatched_append (xs ys : List Message) :
    Mismatched sha256_chunk (xs ++ ys) ↔
      Mismatched sha256_chunk xs ∨ Mismatched sha256_chunk ys := by
  simp only [Mismatched, List.mem_append, or_and_right, exists_or]

theorem Clean.consume {consumed : List Message} {msg : Message}
    (h : Clean sha256_chunk consumed) (abort : msg.header.id ≠ .Abort)
    (genuine : msg.header.id = .Chunk → Genuine sha256_chunk msg) :
    Clean sha256_chunk (consumed ++ [msg]) := by
  constructor
  · rw [aborted_append]
    intro aborted
    rcases aborted with before | ⟨last, member, id⟩
    · exact h.aborted before
    · rw [List.mem_singleton.mp member] at id
      exact abort id
  · rw [mismatched_append]
    intro mismatched
    rcases mismatched with before | ⟨last, member, chunk, mismatch⟩
    · exact h.mismatched before
    · rw [List.mem_singleton.mp member] at chunk mismatch
      exact mismatch (genuine chunk)

/-- A session whose steps have all been reportable. -/
def OnCourse (sha256_chunk : List UInt8 → Hash) (t : ClientReceiverSession) (notes : Notes) :
    Prop :=
  match t.pc with
  | .start => t = {} ∧ Unreported notes.handed ∧ notes.consumed = []
  | .loop => Unreported notes.handed ∧
      ((t.op_result = true ∧ Clean sha256_chunk notes.consumed) ∨
        (t.op_result = false ∧ Aborted notes.consumed))
  | .drain => Unreported notes.handed ∧ t.op_result = true ∧ Clean sha256_chunk notes.consumed
  | .returned true =>
      Unreported notes.handed ∧ t.ofs.good = true ∧ Clean sha256_chunk notes.consumed
  | .returned false => ReportsOutcome sha256_chunk t notes

/-- A session with a step that was not. -/
def Astray (sha256_chunk : List UInt8 → Hash) (t : ClientReceiverSession) (notes : Notes) : Prop :=
  match t.pc with
  | .loop => Unreported notes.handed ∧ t.op_result = false ∧ ¬ Aborted notes.consumed ∧
      Mismatched sha256_chunk notes.consumed
  | .returned true => t.ofs.good = false ∧ ¬ Aborted notes.consumed
  | .returned false => ¬ ReportsOutcome sha256_chunk t notes
  | _ => False

theorem finishes_append (xs ys : List Message) :
    finishes (xs ++ ys) = finishes xs + finishes ys := List.countP_append

theorem failures_append (xs ys : List Message) :
    failures (xs ++ ys) = failures xs + failures ys := List.countP_append

theorem unreported_append (xs ys : List Message) :
    Unreported (xs ++ ys) ↔ Unreported xs ∧ Unreported ys := by
  simp only [Unreported, finishes_append, failures_append, Nat.add_eq_zero_iff]
  exact and_and_and_comm

/-- Silence is right after an `Abort`, and the loop has not returned true. -/
theorem ReportsOutcome.of_aborted {t : ClientReceiverSession} {notes : Notes}
    (returned : t.pc = .returned false) (unreported : Unreported notes.handed)
    (aborted : Aborted notes.consumed) : ReportsOutcome sha256_chunk t notes := by
  refine ⟨fun success => ?_, fun spared => (spared aborted).elim, fun _ => aborted,
    fun _ => unreported⟩
  rw [returned] at success
  cases success

/-- Otherwise it is wrong. -/
theorem ReportsOutcome.not_of_unreported {t : ClientReceiverSession} {notes : Notes}
    (unreported : Unreported notes.handed) (spared : ¬ Aborted notes.consumed) :
    ¬ ReportsOutcome sha256_chunk t notes :=
  fun reports => spared (reports.neither.mp unreported)

/-- A session that could not open its file says so. -/
theorem ReportsOutcome.of_locked {t : ClientReceiverSession} {notes : Notes}
    (returned : t.pc = .returned false) (unreported : Unreported notes.handed)
    (unread : notes.consumed = []) :
    ReportsOutcome sha256_chunk t (notes.add [encode .FailedReceive {}] []) := by
  obtain ⟨unfinished, unfailed⟩ := unreported
  have finishes : finishes (notes.handed ++ [encode .FailedReceive {}]) = 0 := by
    rw [finishes_append, unfinished]
    rfl
  have failures : failures (notes.handed ++ [encode .FailedReceive {}]) = 1 := by
    rw [failures_append, unfailed]
    rfl
  refine ⟨fun success => ?_, fun _ _ => ⟨finishes, failures⟩, fun silent => ?_, fun aborted => ?_⟩
  · rw [returned] at success
    cases success
  · have silent := failures.symm.trans silent.2
    cases silent
  · simp only [Notes.add, unread, List.append_nil] at aborted
    obtain ⟨msg, member, -⟩ := aborted
    exact (List.not_mem_nil member).elim

/-- `FinishReceive` is right if the file has been written and nothing has stopped the loop. -/
theorem ReportsOutcome.of_finished {t : ClientReceiverSession} {notes : Notes}
    (unreported : Unreported notes.handed) (good : t.ofs.good = true)
    (clean : Clean sha256_chunk notes.consumed) :
    ReportsOutcome sha256_chunk t (notes.add [encode .FinishReceive {}] []) := by
  obtain ⟨unfinished, unfailed⟩ := unreported
  have finishes : finishes (notes.handed ++ [encode .FinishReceive {}]) = 1 := by
    rw [finishes_append, unfinished]
    rfl
  have failures : failures (notes.handed ++ [encode .FinishReceive {}]) = 0 := by
    rw [failures_append, unfailed]
    rfl
  have spared : ¬ Aborted (notes.consumed ++ []) := by
    rw [List.append_nil]
    exact clean.aborted
  refine ⟨fun _ => ⟨finishes, failures⟩, fun _ failed => ?_, fun silent => ?_, fun aborted => ?_⟩
  · rcases failed with bad | mismatch
    · cases good.symm.trans bad
    · simp only [Notes.add, List.append_nil] at mismatch
      exact (clean.mismatched mismatch).elim
  · cases finishes.symm.trans silent.1
  · exact (spared aborted).elim

/-- With a stream that has failed it is wrong. -/
theorem ReportsOutcome.not_of_finished {t : ClientReceiverSession} {notes : Notes}
    (bad : t.ofs.good = false) (spared : ¬ Aborted notes.consumed) :
    ¬ ReportsOutcome sha256_chunk t (notes.add [encode .FinishReceive {}] []) := by
  intro reports
  have spared : ¬ Aborted (notes.consumed ++ []) := by
    rw [List.append_nil]
    exact spared
  have unfinished := (reports.failure spared (Or.inl bad)).1
  rw [Notes.add, finishes_append] at unfinished
  cases (Nat.add_eq_zero_iff.mp unfinished).2

/-- A reportable step keeps a session on course. -/
theorem OnCourse.step {t t' : ClientReceiverSession} {m_messages_in popped : List Message}
    {disk : Disk} {call : Option Message} {notes : Notes} (h : OnCourse sha256_chunk t notes)
    (steps : Steps sha256_chunk t m_messages_in disk t' popped call)
    (reportable : Reportable sha256_chunk t m_messages_in disk) :
    OnCourse sha256_chunk t' (notes.add call.toList popped) := by
  cases steps with
  | opens pc opens =>
      simp only [OnCourse, pc, Notes.add, Option.toList_none, List.append_nil] at h ⊢
      obtain ⟨fresh, unreported, unread⟩ := h
      rw [fresh, unread]
      exact ⟨unreported, Or.inl ⟨rfl, Clean.nil⟩⟩
  | locked pc locked =>
      simp only [OnCourse, pc] at h
      obtain ⟨-, unreported, unread⟩ := h
      exact ReportsOutcome.of_locked rfl unreported unread
  | wakes pc going some_in =>
      simp only [OnCourse, pc, Notes.add, Option.toList_none, List.append_nil] at h ⊢
      obtain ⟨unreported, ⟨fine, clean⟩ | ⟨failed, -⟩⟩ := h
      · exact ⟨unreported, fine, clean⟩
      · cases failed.symm.trans going.2.2
  | leaves pc stops =>
      simp only [OnCourse, pc] at h
      simp only [Reportable, pc] at reportable
      simp only [Notes.add, Option.toList_none, List.append_nil]
      obtain ⟨unreported, ⟨fine, clean⟩ | ⟨failed, aborted⟩⟩ := h
      · simp only [OnCourse, fine]
        exact ⟨unreported, (t.ofs.close_good_iff _).mpr (reportable stops fine), clean⟩
      · simp only [OnCourse, failed]
        exact .of_aborted rfl unreported aborted
  | drained pc empty =>
      simp only [OnCourse, pc, Option.toList_none, Notes.add_nil] at h ⊢
      exact ⟨h.1, Or.inl h.2⟩
  | aborted msg rest pc front abort =>
      simp only [OnCourse, pc, Notes.add, Option.toList_none, List.append_nil] at h ⊢
      refine ⟨h.1, Or.inr ⟨trivial, (aborted_append _ _).mpr (Or.inr ?_)⟩⟩
      exact ⟨msg, List.mem_singleton_self msg, abort⟩
  | mismatched msg rest pc front chunk long mismatch =>
      simp only [Reportable, pc] at reportable
      exact (mismatch (reportable msg rest front chunk)).elim
  | writes msg rest pc front chunk long genuine =>
      simp only [OnCourse, pc, Notes.add, Option.toList_none, List.append_nil] at h ⊢
      obtain ⟨unreported, fine, clean⟩ := h
      refine ⟨unreported, fine, clean.consume ?_ fun _ => genuine⟩
      rw [chunk]
      exact nofun
  | finishes msg rest pc front final =>
      simp only [OnCourse, pc, Notes.add, Option.toList_none, List.append_nil] at h ⊢
      obtain ⟨unreported, fine, clean⟩ := h
      refine ⟨unreported, Or.inl ⟨fine, clean.consume ?_ fun chunk => ?_⟩⟩
      · rw [final]
        exact nofun
      · cases final.symm.trans chunk
  | skipped msg rest pc front abort chunk final =>
      simp only [OnCourse, pc, Notes.add, Option.toList_none, List.append_nil] at h ⊢
      obtain ⟨unreported, fine, clean⟩ := h
      exact ⟨unreported, fine, clean.consume abort fun id => (chunk id).elim⟩

/-- Any other leads it astray. -/
theorem OnCourse.strays {t t' : ClientReceiverSession} {m_messages_in popped : List Message}
    {disk : Disk} {call : Option Message} {notes : Notes} (h : OnCourse sha256_chunk t notes)
    (steps : Steps sha256_chunk t m_messages_in disk t' popped call)
    (unreportable : ¬ Reportable sha256_chunk t m_messages_in disk) :
    Astray sha256_chunk t' (notes.add call.toList popped) := by
  cases steps with
  | opens pc | locked pc =>
      simp only [Reportable, pc, not_true] at unreportable
  | wakes pc going some_in =>
      simp only [Reportable, pc] at unreportable
      exact (unreportable fun stops => (stops going).elim).elim
  | leaves pc stops =>
      simp only [OnCourse, pc] at h
      simp only [Reportable, pc, not_forall] at unreportable
      obtain ⟨-, fine, fails⟩ := unreportable
      simp only [Notes.add, Option.toList_none, List.append_nil, Astray, fine]
      obtain ⟨unreported, ⟨-, clean⟩ | ⟨failed, -⟩⟩ := h
      · rw [← t.ofs.close_good_iff] at fails
        exact ⟨Bool.eq_false_iff.mpr fails, clean.aborted⟩
      · cases failed.symm.trans fine
  | mismatched msg rest pc front chunk long mismatch =>
      simp only [OnCourse, pc] at h
      simp only [Notes.add, Option.toList_none, List.append_nil, Astray]
      obtain ⟨unreported, fine, clean⟩ := h
      refine ⟨unreported, trivial, ?_, ?_⟩
      · rw [aborted_append]
        intro aborted
        rcases aborted with before | ⟨last, member, abort⟩
        · exact clean.aborted before
        · rw [List.mem_singleton.mp member, chunk] at abort
          cases abort
      · rw [mismatched_append]
        exact Or.inr ⟨msg, List.mem_singleton_self msg, chunk, mismatch⟩
  | drained pc empty =>
      simp only [Reportable, pc] at unreportable
      refine (unreportable fun msg rest front => ?_).elim
      cases empty.symm.trans front
  | aborted msg rest pc front id | finishes msg rest pc front id =>
      simp only [Reportable, pc] at unreportable
      refine (unreportable fun msg' rest' front' chunk => ?_).elim
      cases front.symm.trans front'
      cases id.symm.trans chunk
  | writes msg rest pc front chunk long genuine =>
      simp only [Reportable, pc] at unreportable
      refine (unreportable fun msg' rest' front' _ => ?_).elim
      cases front.symm.trans front'
      exact genuine
  | skipped msg rest pc front abort other final =>
      simp only [Reportable, pc] at unreportable
      refine (unreportable fun msg' rest' front' chunk => ?_).elim
      cases front.symm.trans front'
      exact (other chunk).elim

/-- A session astray only leaves its loop. -/
theorem Astray.step {t t' : ClientReceiverSession} {m_messages_in popped : List Message}
    {disk : Disk} {call : Option Message} {notes : Notes} (h : Astray sha256_chunk t notes)
    (steps : Steps sha256_chunk t m_messages_in disk t' popped call) :
    Astray sha256_chunk t' (notes.add call.toList popped) := by
  cases steps with
  | opens pc | locked pc | drained pc | aborted _ _ pc | mismatched _ _ pc | writes _ _ pc
  | finishes _ _ pc | skipped _ _ pc =>
      simp only [Astray, pc] at h
  | wakes pc going some_in =>
      simp only [Astray, pc] at h
      cases h.2.1.symm.trans going.2.2
  | leaves pc stops =>
      simp only [Astray, pc] at h
      obtain ⟨unreported, failed, spared, -⟩ := h
      simp only [Notes.add, Option.toList_none, List.append_nil, Astray, failed]
      exact ReportsOutcome.not_of_unreported unreported spared

end ClientReceiverSession

/-! ## The routine -/

namespace Receiver

open ClientReceiverSession (Clean ReportsOutcome Steps Unreported failures finishes step_steps
  unreported_append)

variable {sha256_chunk : List UInt8 → Hash} {op : Operation} {unset : Unset}

/-- What a step of the routine hands to `send`. -/
def handed (sha256_chunk : List UInt8 → Hash) (op : Operation) (unset : Unset) (p : Receiver)
    (choice : Choice) : List Message :=
  match p.pc with
  | .requesting => [encode .RequestReceive (request op unset)]
  | .starting => [encode .Receive (codePhrase op.receival_code_phrase)]
  | .session =>
      match p.session.step sha256_chunk p.c.m_messages_in choice.disk with
      | some turn => turn.call.toList
      | none => []
  | .finishing => [encode .FinishReceive {}]
  | _ => []

/-- What its session consumes in a step from `p` to `p'`. -/
def consumed (p p' : Receiver) : List Message :=
  match p.pc with
  | .session => p.c.m_messages_in.take (p.c.m_messages_in.length - p'.c.m_messages_in.length)
  | _ => []

/-- The observer of a step. -/
def note (sha256_chunk : List UInt8 → Hash) (op : Operation) (unset : Unset) (notes : Notes)
    (p : Receiver) (i : FileClient.Input) (p' : Receiver) : Notes :=
  match i with
  | .own choice => notes.add (handed sha256_chunk op unset p choice) (consumed p p')
  | _ => notes

/-- The runs of a receiver, with what it has handed over and consumed. -/
def reporting (sha256_chunk : List UInt8 → Hash) (op : Operation) (unset : Unset) :
    Lts (Receiver × Notes) FileClient.Input :=
  (lts sha256_chunk op unset).observed {} (note sha256_chunk op unset)

def Requested (msgs : List Message) : Prop := ∃ msg ∈ msgs, msg.header.id = .Receive

/-- `Receive` has been sent, and whatever the routine reports as well. -/
structure Ended (p : Receiver) (notes : Notes) : Prop where
  requested : Requested notes.handed
  past : p.pc = .flushing ∨ p.pc = .awaiting ∨ ∃ res, p.pc = .returned res

def Reportable (sha256_chunk : List UInt8 → Hash) (s : Receiver × Notes) :
    FileClient.Input → Prop
  | .own choice => s.1.pc = .session →
      ClientReceiverSession.Reportable sha256_chunk s.1.session s.1.c.m_messages_in choice.disk
  | _ => True

/-- The routine has not asked for the file yet. -/
def Pc.early : Pc → Bool
  | .connecting | .validating | .requesting | .waiting | .establishing | .asking | .starting => true
  | _ => false

/-- What a step does to the routine and its session, hands over and consumes. -/
inductive Turns (sha256_chunk : List UInt8 → Hash) (op : Operation) (unset : Unset)
    (p : Receiver) (disk : Disk) (p' : Receiver) : List Message → List Message → Prop
  | prepares : p.pc.early = true → (p'.pc.early = true ∨ ∃ res, p'.pc = .returned res) →
    p'.session = p.session → Turns sha256_chunk op unset p disk p' [] []
  | requests : p.pc = .requesting → p'.pc = .waiting → p'.session = p.session →
    Turns sha256_chunk op unset p disk p' [encode .RequestReceive (request op unset)] []
  | starts : p.pc = .starting → p'.pc = .session → p'.session = p.session →
    Turns sha256_chunk op unset p disk p'
      [encode .Receive (codePhrase op.receival_code_phrase)] []
  | loops (popped : List Message) (call : Option Message) : p.pc = .session → p'.pc = .session →
    Steps sha256_chunk p.session p.c.m_messages_in disk p'.session popped call →
    Turns sha256_chunk op unset p disk p' call.toList popped
  | succeeds : p.pc = .session → p.session.pc = .returned true → p'.pc = .finishing →
    p'.session = p.session → Turns sha256_chunk op unset p disk p' [] []
  | fails : p.pc = .session → p.session.pc = .returned false → p'.pc = .returned false →
    p'.session = p.session → Turns sha256_chunk op unset p disk p' [] []
  | finishes : p.pc = .finishing → p'.pc = .flushing → p'.session = p.session →
    Turns sha256_chunk op unset p disk p' [encode .FinishReceive {}] []
  | flushes : p.pc = .flushing ∨ p.pc = .awaiting →
    (p'.pc = .awaiting ∨ ∃ res, p'.pc = .returned res) → p'.session = p.session →
    Turns sha256_chunk op unset p disk p' [] []

theorem establish_early {p p' : Receiver} {msg : Message} (step : p.establish msg = some p')
    (early : p.pc.early = true) :
    (p'.pc.early = true ∨ ∃ res, p'.pc = .returned res) ∧ p'.session = p.session ∧ p'.c = p.c := by
  unfold establish at step
  split at step
  · cases step
    exact ⟨Or.inr ⟨false, rfl⟩, rfl, rfl⟩
  split at step
  · obtain ⟨popped, -, step⟩ := Option.bind_eq_some_iff.mp step
    cases step
    exact ⟨Or.inl rfl, rfl, rfl⟩
  · cases step
    exact ⟨Or.inl early, rfl, rfl⟩

/-- In its session the routine steps with it, and goes on once it has returned. -/
theorem step_session_cases {p p' : Receiver} {choice : Choice} (pc : p.pc = .session)
    (step : p.step sha256_chunk op unset choice = some p') :
    (∃ turn, p.session.step sha256_chunk p.c.m_messages_in choice.disk = some turn ∧
        p' = { p with c := p.c.after turn, session := turn.session }) ∨
      ∃ res, p.session.pc = .returned res ∧
        p' = { p with pc := if res then .finishing else .returned false } := by
  by_cases running : ∀ res, p.session.pc ≠ .returned res
  · rw [step_session pc running] at step
    obtain ⟨turn, stepped, same⟩ := Option.map_eq_some_iff.mp step
    exact Or.inl ⟨turn, stepped, same.symm⟩
  · obtain ⟨res, returned⟩ := not_forall.mp running
    have returned := not_not.mp returned
    simp only [Receiver.step, pc, returned] at step
    refine Or.inr ⟨res, returned, ?_⟩
    cases res <;> cases step <;> rfl

theorem step_turns {p p' : Receiver} {choice : Choice}
    (step : p.step sha256_chunk op unset choice = some p') :
    Turns sha256_chunk op unset p choice.disk p' (handed sha256_chunk op unset p choice)
      (consumed p p') := by
  cases pc : p.pc with
  | connecting =>
      simp only [Receiver.step, pc] at step
      simp only [handed, consumed, pc]
      have early : p.pc.early = true := congrArg Pc.early pc
      split at step <;> cases step
      · exact .prepares early (Or.inl rfl) rfl
      · exact .prepares early (Or.inr ⟨false, rfl⟩) rfl
  | validating =>
      simp only [Receiver.step, pc] at step
      simp only [handed, consumed, pc]
      have early : p.pc.early = true := congrArg Pc.early pc
      split at step <;> cases step
      · exact .prepares early (Or.inl rfl) rfl
      · exact .prepares early (Or.inl early) rfl
  | requesting =>
      simp only [Receiver.step, pc] at step
      simp only [handed, consumed, pc]
      cases step
      exact .requests pc rfl rfl
  | waiting =>
      simp only [Receiver.step, pc] at step
      simp only [handed, consumed, pc]
      have early : p.pc.early = true := congrArg Pc.early pc
      split at step
      · cases step
      · cases step
        exact .prepares early (Or.inl rfl) rfl
  | establishing =>
      simp only [Receiver.step, pc] at step
      simp only [handed, consumed, pc]
      have early : p.pc.early = true := congrArg Pc.early pc
      split at step
      · cases step
        exact .prepares early (Or.inl rfl) rfl
      · obtain ⟨next, same, -⟩ := establish_early step early
        exact .prepares early next same
  | asking =>
      simp only [Receiver.step, pc] at step
      simp only [handed, consumed, pc]
      have early : p.pc.early = true := congrArg Pc.early pc
      split at step <;> cases step
      · exact .prepares early (Or.inl rfl) rfl
      · exact .prepares early (Or.inr ⟨true, rfl⟩) rfl
  | starting =>
      simp only [Receiver.step, pc] at step
      simp only [handed, consumed, pc]
      cases step
      exact .starts pc rfl rfl
  | session =>
      simp only [handed, consumed, pc]
      obtain ⟨turn, stepped, rfl⟩ | ⟨res, returned, rfl⟩ := step_session_cases pc step
      · obtain ⟨popped, queue, steps⟩ := step_steps stepped
        simp only [stepped, FileClient.after_messages_in]
        have taken : p.c.m_messages_in.take
            (p.c.m_messages_in.length - turn.m_messages_in.length) = popped := by
          rw [queue, List.length_append, Nat.add_sub_cancel]
          exact List.take_left
        rw [taken]
        exact .loops popped turn.call pc pc steps
      · simp only [ClientReceiverSession.step, returned, Nat.sub_self, List.take_zero]
        cases res with
        | true => exact .succeeds pc returned rfl rfl
        | false => exact .fails pc returned rfl rfl
  | finishing =>
      simp only [Receiver.step, pc] at step
      simp only [handed, consumed, pc]
      cases step
      exact .finishes pc rfl rfl
  | flushing =>
      simp only [Receiver.step, pc] at step
      simp only [handed, consumed, pc]
      split at step <;> cases step
      · exact .flushes (Or.inl pc) (Or.inl rfl) rfl
      · exact .flushes (Or.inl pc) (Or.inr ⟨true, rfl⟩) rfl
  | awaiting =>
      simp only [Receiver.step, pc] at step
      simp only [handed, consumed, pc]
      split at step <;> cases step
      exact .flushes (Or.inr pc) (Or.inr ⟨true, rfl⟩) rfl
  | returned res =>
      simp only [Receiver.step, pc] at step
      cases step

/-- What is handed to `send` is what reaches the connection. -/
theorem step_handed {p p' : Receiver} {choice : Choice}
    (step : p.step sha256_chunk op unset choice = some p') :
    p'.c.m_connection = (handed sha256_chunk op unset p choice).foldl
      (fun link msg => (link.send msg).2) p.c.m_connection := by
  cases pc : p.pc with
  | requesting | starting | finishing =>
      simp only [Receiver.step, pc] at step
      simp only [handed, pc]
      cases step
      exact p.c.post_connection _
  | session =>
      simp only [handed, pc]
      obtain ⟨turn, stepped, rfl⟩ | ⟨res, returned, rfl⟩ := step_session_cases pc step
      · simp only [stepped]
        cases call : turn.call with
        | none =>
            rw [FileClient.after_of_quiet call]
            rfl
        | some msg =>
            rw [FileClient.after_of_called call]
            exact FileClient.post_connection _ msg
      · simp only [ClientReceiverSession.step, returned]
        rfl
  | establishing =>
      simp only [Receiver.step, pc] at step
      simp only [handed, pc]
      split at step
      · cases step
        rfl
      · have early : p.pc.early = true := congrArg Pc.early pc
        obtain ⟨-, -, same⟩ := establish_early step early
        rw [same]
        rfl
  | connecting | validating | waiting | asking | flushing | awaiting =>
      simp only [Receiver.step, pc] at step
      simp only [handed, pc]
      split at step <;> cases step <;> rfl
  | returned res =>
      simp only [Receiver.step, pc] at step
      cases step

/-- Before the file is requested. -/
structure Fresh (session : ClientReceiverSession) (notes : Notes) : Prop where
  unstarted : session = {}
  handed : ∀ msg ∈ notes.handed, msg.header.id = .RequestReceive
  consumed : notes.consumed = []

theorem Fresh.unrequested {session : ClientReceiverSession} {notes : Notes}
    (h : Fresh session notes) :
    ¬ Requested notes.handed := by
  intro requested
  obtain ⟨msg, member, id⟩ := requested
  cases (h.handed msg member).symm.trans id

theorem Fresh.unreported {session : ClientReceiverSession} {notes : Notes}
    (h : Fresh session notes) :
    Unreported notes.handed := by
  unfold Unreported finishes failures
  simp only [List.countP_eq_zero, decide_eq_true_eq]
  constructor
  · intro msg member id
    cases (h.handed msg member).symm.trans id
  · intro msg member id
    cases (h.handed msg member).symm.trans id

/-- A routine whose steps have all been reportable. -/
def OnCourse (sha256_chunk : List UInt8 → Hash) (p : Receiver) (notes : Notes) : Prop :=
  match p.pc with
  | .session => ClientReceiverSession.OnCourse sha256_chunk p.session notes
  | .finishing => p.session.pc = .returned true ∧
      ClientReceiverSession.OnCourse sha256_chunk p.session notes
  | .flushing | .awaiting => ReportsOutcome sha256_chunk p.session notes
  | .returned _ => Requested notes.handed → ReportsOutcome sha256_chunk p.session notes
  | _ => Fresh p.session notes

/-- A routine with a step that was not. -/
def Astray (sha256_chunk : List UInt8 → Hash) (p : Receiver) (notes : Notes) : Prop :=
  match p.pc with
  | .session => ClientReceiverSession.Astray sha256_chunk p.session notes
  | .finishing => p.session.pc = .returned true ∧
      ClientReceiverSession.Astray sha256_chunk p.session notes
  | .flushing | .awaiting | .returned _ => ¬ ReportsOutcome sha256_chunk p.session notes
  | _ => False

theorem onCourse_of_early {p : Receiver} (early : p.pc.early = true) (notes : Notes) :
    OnCourse sha256_chunk p notes ↔ Fresh p.session notes := by
  cases pc : p.pc <;> simp only [OnCourse, pc] <;> rw [pc] at early <;> cases early

theorem not_astray_of_early {p : Receiver} (early : p.pc.early = true) (notes : Notes) :
    ¬ Astray sha256_chunk p notes := by
  cases pc : p.pc <;> simp only [Astray, pc, not_false_eq_true] <;> rw [pc] at early <;>
    cases early

theorem OnCourse.step {p p' : Receiver} {disk : Disk} {handed consumed : List Message}
    {notes : Notes} (h : OnCourse sha256_chunk p notes)
    (turns : Turns sha256_chunk op unset p disk p' handed consumed)
    (reportable : p.pc = .session →
      ClientReceiverSession.Reportable sha256_chunk p.session p.c.m_messages_in disk) :
    OnCourse sha256_chunk p' (notes.add handed consumed) := by
  cases turns with
  | prepares early next same =>
      rw [onCourse_of_early early] at h
      rw [Notes.add_nil]
      rcases next with early' | ⟨res, returned⟩
      · rw [onCourse_of_early early']
        exact ⟨same.trans h.unstarted, h.handed, h.consumed⟩
      · simp only [OnCourse, returned]
        exact fun requested => (h.unrequested requested).elim
  | requests pc pc' same =>
      simp only [OnCourse, pc] at h
      simp only [OnCourse, pc', Notes.add, List.append_nil]
      refine ⟨same.trans h.unstarted, fun msg member => ?_, h.consumed⟩
      rcases List.mem_append.mp member with before | last
      · exact h.handed msg before
      · rw [List.mem_singleton.mp last]
        exact encode_id _ _
  | starts pc pc' same =>
      simp only [OnCourse, pc] at h
      simp only [OnCourse, pc', same, h.unstarted, ClientReceiverSession.OnCourse, Notes.add,
        List.append_nil, true_and]
      have silent : Unreported [encode .Receive (codePhrase op.receival_code_phrase)] := by
        simp only [Unreported, finishes, failures, List.countP_singleton, encode_id]
        exact ⟨rfl, rfl⟩
      exact ⟨(unreported_append _ _).mpr ⟨h.unreported, silent⟩, h.consumed⟩
  | loops popped call pc pc' steps =>
      simp only [OnCourse, pc] at h
      simp only [OnCourse, pc']
      exact h.step steps (reportable pc)
  | succeeds pc returned pc' same =>
      simp only [OnCourse, pc] at h
      simp only [OnCourse, pc', same, Notes.add_nil]
      exact ⟨returned, h⟩
  | fails pc returned pc' same =>
      simp only [OnCourse, pc, ClientReceiverSession.OnCourse, returned] at h
      simp only [OnCourse, pc', same, Notes.add_nil]
      exact fun _ => h
  | finishes pc pc' same =>
      simp only [OnCourse, pc] at h
      obtain ⟨returned, course⟩ := h
      simp only [ClientReceiverSession.OnCourse, returned] at course
      obtain ⟨unreported, good, clean⟩ := course
      simp only [OnCourse, pc', same]
      exact .of_finished unreported good clean
  | flushes pc pc' same =>
      have reports : ReportsOutcome sha256_chunk p'.session notes := by
        rw [same]
        rcases pc with pc | pc <;> simpa only [OnCourse, pc] using h
      rw [Notes.add_nil]
      rcases pc' with pc' | ⟨res, pc'⟩ <;> simp only [OnCourse, pc']
      · exact reports
      · exact fun _ => reports

theorem OnCourse.strays {p p' : Receiver} {disk : Disk} {handed consumed : List Message}
    {notes : Notes} (h : OnCourse sha256_chunk p notes)
    (turns : Turns sha256_chunk op unset p disk p' handed consumed) (session : p.pc = .session)
    (unreportable :
      ¬ ClientReceiverSession.Reportable sha256_chunk p.session p.c.m_messages_in disk) :
    Astray sha256_chunk p' (notes.add handed consumed) := by
  cases turns with
  | prepares early =>
      rw [session] at early
      cases early
  | requests pc | starts pc | finishes pc => cases session.symm.trans pc
  | flushes pc =>
      rcases pc with pc | pc <;> cases session.symm.trans pc
  | loops popped call pc pc' steps =>
      simp only [OnCourse, pc] at h
      simp only [Astray, pc']
      exact h.strays steps unreportable
  | succeeds pc returned | fails pc returned =>
      simp only [ClientReceiverSession.Reportable, returned, not_true] at unreportable

theorem Astray.step {p p' : Receiver} {disk : Disk} {handed consumed : List Message}
    {notes : Notes} (h : Astray sha256_chunk p notes)
    (turns : Turns sha256_chunk op unset p disk p' handed consumed) :
    Astray sha256_chunk p' (notes.add handed consumed) := by
  cases turns with
  | prepares early => exact (not_astray_of_early early notes h).elim
  | requests pc | starts pc => simp only [Astray, pc] at h
  | loops popped call pc pc' steps =>
      simp only [Astray, pc] at h
      simp only [Astray, pc']
      exact h.step steps
  | succeeds pc returned pc' same =>
      simp only [Astray, pc] at h
      simp only [Astray, pc', same, Notes.add_nil]
      exact ⟨returned, h⟩
  | fails pc returned pc' same =>
      simp only [Astray, pc, ClientReceiverSession.Astray, returned] at h
      simp only [Astray, pc', same, Notes.add_nil]
      exact h
  | finishes pc pc' same =>
      simp only [Astray, pc] at h
      obtain ⟨returned, astray⟩ := h
      simp only [ClientReceiverSession.Astray, returned] at astray
      simp only [Astray, pc', same]
      exact ReportsOutcome.not_of_finished astray.1 astray.2
  | flushes pc pc' same =>
      have wrong : ¬ ReportsOutcome sha256_chunk p'.session notes := by
        rw [same]
        rcases pc with pc | pc <;> simpa only [Astray, pc] using h
      rw [Notes.add_nil]
      rcases pc' with pc' | ⟨res, pc'⟩ <;> simpa only [Astray, pc'] using wrong

/-! ## Runs -/

/-- What happens around the routine changes neither it nor its notes. -/
theorem reporting_surroundings {p p' : Receiver} {notes notes' : Notes} {i : FileClient.Input}
    (other : ¬ i.Own)
    (step : (reporting sha256_chunk op unset).step (p, notes) i = some (p', notes')) :
    p'.pc = p.pc ∧ p'.session = p.session ∧ notes' = notes := by
  obtain ⟨moves, noted⟩ := Lts.observed_step.mp step
  cases i with
  | own choice => exact (other ⟨choice, rfl⟩).elim
  | event e =>
      obtain ⟨c, -, rfl⟩ := Option.map_eq_some_iff.mp moves
      exact ⟨rfl, rfl, noted⟩
  | arrive msg =>
      cases moves
      exact ⟨rfl, rfl, noted⟩

/-- A run whose steps are all reportable is on course, and any other is astray. -/
theorem run_onCourse_or_astray {es : List FileClient.Input} {s : Receiver × Notes}
    (run : (reporting sha256_chunk op unset).run es = some s) :
    ((∀ s i t, (reporting sha256_chunk op unset).Takes es s i t → Reportable sha256_chunk s i) ∧
        OnCourse sha256_chunk s.1 s.2) ∨
      ((¬ ∀ s i t, (reporting sha256_chunk op unset).Takes es s i t →
          Reportable sha256_chunk s i) ∧ Astray sha256_chunk s.1 s.2) := by
  have start : OnCourse sha256_chunk ({} : Receiver) {} := ⟨rfl, nofun, rfl⟩
  refine @Lts.run_fork _ _ _ (fun s => OnCourse sha256_chunk s.1 s.2)
    (fun s => Astray sha256_chunk s.1 s.2) _ start ?_ ?_ ?_ es s run
  · intro s i t course step reportable
    obtain ⟨p, notes⟩ := s
    obtain ⟨p', notes'⟩ := t
    by_cases own : i.Own
    · obtain ⟨choice, rfl⟩ := own
      obtain ⟨moves, rfl⟩ := Lts.observed_step.mp step
      exact course.step (step_turns moves) reportable
    · obtain ⟨pc, session, rfl⟩ := reporting_surroundings own step
      simpa only [OnCourse, pc, session] using course
  · intro s i t course step unreportable
    obtain ⟨p, notes⟩ := s
    obtain ⟨p', notes'⟩ := t
    cases i with
    | own choice =>
        obtain ⟨moves, rfl⟩ := Lts.observed_step.mp step
        obtain ⟨session, unreportable⟩ := Classical.not_imp.mp unreportable
        exact course.strays (step_turns moves) session unreportable
    | event e | arrive msg => exact (unreportable trivial).elim
  · intro s i t astray step
    obtain ⟨p, notes⟩ := s
    obtain ⟨p', notes'⟩ := t
    by_cases own : i.Own
    · obtain ⟨choice, rfl⟩ := own
      obtain ⟨moves, rfl⟩ := Lts.observed_step.mp step
      exact astray.step (step_turns moves)
    · obtain ⟨pc, session, rfl⟩ := reporting_surroundings own step
      simpa only [Astray, pc, session] using astray

/-- **The receiver reports its outcome** in exactly the runs whose steps are all reportable. -/
theorem reports_outcome_iff {es : List FileClient.Input} {p : Receiver} {notes : Notes}
    (run : (reporting sha256_chunk op unset).run es = some (p, notes)) (ended : Ended p notes) :
    ReportsOutcome sha256_chunk p.session notes ↔
      ∀ s i t, (reporting sha256_chunk op unset).Takes es s i t → Reportable sha256_chunk s i := by
  obtain ⟨requested, past⟩ := ended
  rcases run_onCourse_or_astray run with ⟨all, course⟩ | ⟨some, astray⟩
  · refine iff_of_true ?_ all
    rcases past with pc | pc | ⟨res, pc⟩ <;> simp only [OnCourse, pc] at course
    · exact course
    · exact course
    · exact course requested
  · refine iff_of_false ?_ some
    rcases past with pc | pc | ⟨res, pc⟩ <;> simpa only [Astray, pc] using astray

/-- The exchange up to the session, and the first message that arrives in it. -/
def exchange (msg : Message) : List FileClient.Input :=
  let accepted : PostMetadata :=
    { payload_type := .File
      max_chunk_size := 512
      code_phrase := codePhrase []
      file_data := { file_size := 0, file_name_size := 0, file_name := [] } }
  [.own {}, .event .opened, .event .validated, .own {}, .own {}, .arrive (encode .Accept accepted),
    .own {}, .own {}, .own {}, .own {}, .arrive msg]

/-- A chunk whose hash does not match ends the session, and nothing is reported. -/
theorem mismatch_unreported : ∃ p notes,
    (reporting (fun _ => Vector.replicate 32 0) {} ⟨0, 0⟩).run
        (exchange ⟨⟨.Chunk, 32⟩, List.replicate 32 1⟩ ++
          [.own {}, .own {}, .own {}, .own {}, .own {}]) = some (p, notes) ∧
      Ended p notes ∧ ¬ ReportsOutcome (fun _ => Vector.replicate 32 0) p.session notes := by
  refine ⟨_, _, rfl, ?_, ?_⟩
  · refine ⟨⟨encode .Receive (codePhrase []), ?_, rfl⟩, Or.inr (Or.inr ⟨false, rfl⟩)⟩
    exact List.mem_cons_of_mem _ List.mem_cons_self
  · refine ReportsOutcome.not_of_unreported ⟨rfl, rfl⟩ ?_
    intro aborted
    obtain ⟨msg, member, abort⟩ := aborted
    rw [List.mem_singleton.mp member] at abort
    cases abort

/-- An empty file, reported with `FinishReceive`. -/
theorem reports_outcome_received : ∃ p notes,
    (reporting (fun _ => Vector.replicate 32 0) {} ⟨0, 0⟩).run
        (exchange (encode .FinalChunk {}) ++
          [.own {}, .own {}, .own {}, .own {}, .own {}, .own {}]) = some (p, notes) ∧
      p.pc = .flushing ∧ p.session.pc = .returned true ∧
      ∀ s i t, (reporting (fun _ => Vector.replicate 32 0) {} ⟨0, 0⟩).Takes
        (exchange (encode .FinalChunk {}) ++
          [.own {}, .own {}, .own {}, .own {}, .own {}, .own {}]) s i t →
        Reportable (fun _ => Vector.replicate 32 0) s i := by
  refine ⟨_, _, rfl, rfl, rfl, (reports_outcome_iff rfl ?_).mp ?_⟩
  · refine ⟨⟨encode .Receive (codePhrase []), ?_, rfl⟩, Or.inl rfl⟩
    exact List.mem_cons_of_mem _ List.mem_cons_self
  · have clean : Clean (fun _ => Vector.replicate 32 0) [encode .FinalChunk {}] :=
      Clean.nil.consume nofun nofun
    exact .of_finished ⟨rfl, rfl⟩ rfl clean

end Receiver

end PingPong
