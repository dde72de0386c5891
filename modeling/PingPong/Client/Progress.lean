import PingPong.Client.Cutting
import PingPong.Client.Routines

/-!
# What the routines have left to do

`Sender.rank` and `Receiver.rank` bound the steps that the two routines have left to take with what
is in the queue.  A step takes from the rank unless the routine waits (`step_rank`), and a routine
that does not wait can take a step (`step_enabled`).
-/

namespace PingPong

open Common Net

/-! ## `sendRoutine` -/

namespace Sender

/-- The routine looks for something that is not there yet. -/
def Waits (p : Sender) : Prop :=
  match p.pc with
  | .validating => p.c.isConnected = false ∨ p.c.isValidated = false
  | .waiting | .confirming | .draining => p.c.m_messages_in = []
  | .returned _ => True
  | _ => False

def rank (op : Operation) (p : Sender) : Nat :=
  match p.pc with
  | .connecting => 2 * p.c.m_messages_in.length + 3 * op.file.length + 14
  | .validating => 2 * p.c.m_messages_in.length + 3 * op.file.length + 13
  | .announcing => 2 * p.c.m_messages_in.length + 3 * op.file.length + 12
  | .waiting => 2 * p.c.m_messages_in.length + 3 * op.file.length + 11
  | .establishing => 2 * p.c.m_messages_in.length + 3 * op.file.length + 10
  | .session => p.session.measure p.c.m_messages_in + p.c.m_messages_in.length + 4
  | .confirming => 2 * p.c.m_messages_in.length + 3
  -- With nothing in the queue the two loops may follow each other for ever.
  | .draining => 2 * p.c.m_messages_in.length + if p.c.m_messages_in = [] then 3 else 2
  | .returned _ => 0

variable {sha256_chunk : List UInt8 → Hash} {op : Operation} {phrase : List UInt8}
  {p p' : Sender} {choice : Choice}

theorem rank_congr {c : FileClient} (same : c.m_messages_in = p.c.m_messages_in) :
    rank op { p with c } = rank op p := by
  unfold rank
  dsimp only
  rw [same]

theorem rank_receive (msg : Message) :
    rank op { p with c := p.c.receive msg } ≤ rank op p + 2 := by
  have length : (p.c.receive msg).m_messages_in.length = p.c.m_messages_in.length + 1 :=
    List.length_append
  unfold rank
  dsimp only
  cases p.pc with
  | session =>
      dsimp only
      unfold ClientSenderSession.measure
      omega
  | draining =>
      have some_in : (p.c.receive msg).m_messages_in ≠ [] := by
        intro none
        rw [none] at length
        cases length
      dsimp only
      rw [if_neg some_in]
      split <;> omega
  | _ =>
      dsimp only
      omega

theorem step_rank (step : p.step sha256_chunk op phrase choice = some p') :
    rank op p' ≤ rank op p ∧ (¬ p.Waits → rank op p' < rank op p) := by
  have lowers : rank op p' < rank op p →
      rank op p' ≤ rank op p ∧ (¬ p.Waits → rank op p' < rank op p) :=
    fun less => ⟨Nat.le_of_lt less, fun _ => less⟩
  have posted : ∀ msg, (p.c.post msg).m_messages_in = p.c.m_messages_in := p.c.post_messages_in
  cases step_transition step with
  | connects pc | unreachable pc | ready pc | missing pc | wakes pc =>
      apply lowers
      simp only [rank, pc]
      omega
  | polls pc unready =>
      refine ⟨Nat.le_refl _, fun awake => (awake ?_).elim⟩
      unfold Waits
      rw [pc]
      exact unready
  | announces pc | unannounced pc =>
      apply lowers
      simp only [rank, pc, posted]
      omega
  | unanswered pc none =>
      apply lowers
      simp only [rank, pc, startSession, ClientSenderSession.measure, none, List.length_nil]
      omega
  | rejected msg rest pc front =>
      apply lowers
      simp only [rank, pc]
      omega
  | accepted msg left rest post pc front =>
      apply lowers
      simp only [rank, pc, startSession, popped, ClientSenderSession.measure, front,
        List.length_cons]
      omega
  | skipped msg rest pc front =>
      apply lowers
      simp only [rank, popped, pc, front, List.length_cons]
      omega
  | sent pc returned | failed pc returned =>
      apply lowers
      simp only [rank, pc, returned, ClientSenderSession.measure]
      omega
  | session turn pc stepped =>
      have taken : (fun msg => (p.c.send msg).1) = fun _ => p.c.m_connection.accepts :=
        funext p.c.send_fst
      rw [taken] at stepped
      obtain ⟨popped, queue, steps⟩ := ClientSenderSession.step_steps stepped
      have less := steps.measure_lt queue
      have length := congrArg List.length queue
      rw [List.length_append] at length
      apply lowers
      simp only [rank, pc, FileClient.after_messages_in]
      omega
  | waits pc connected none =>
      refine ⟨Nat.le_refl _, fun awake => (awake ?_).elim⟩
      unfold Waits
      rw [pc]
      exact none
  | looks pc =>
      by_cases none : p.c.m_messages_in = []
      · refine ⟨?_, fun awake => (awake ?_).elim⟩
        · simp only [rank, pc, none, if_true, List.length_nil]
          omega
        · unfold Waits
          rw [pc]
          exact none
      · apply lowers
        simp only [rank, pc, if_neg none]
        omega
  | emptied pc none =>
      refine ⟨?_, fun awake => (awake ?_).elim⟩
      · simp only [rank, pc, none, if_true, List.length_nil]
        omega
      · unfold Waits
        rw [pc]
        exact none
  | aborted msg rest pc front | confirmed msg rest pc front =>
      apply lowers
      simp only [rank, pc, front, List.length_cons]
      omega
  | passed msg rest pc front =>
      apply lowers
      have some_in : msg :: rest ≠ [] := List.cons_ne_nil msg rest
      simp only [rank, popped, pc, front, if_neg some_in, List.length_cons]
      split <;> omega

theorem step_enabled (awake : ¬ p.Waits)
    (answer : p.pc = .establishing → ∀ msg rest, p.c.m_messages_in = msg :: rest →
      msg.header.id = .Accept → ∃ decoded, decode .Accept msg = some decoded)
    (limit : p.pc = .session →
      p.session.m_max_chunk_size.toNat + SHA256_DIGEST_LENGTH ≤ max_size) :
    ∃ p', p.step sha256_chunk op phrase {} = some p' := by
  unfold Waits at awake
  unfold Sender.step
  cases pc : p.pc with
  | connecting => exact ⟨_, rfl⟩
  | validating =>
      dsimp only
      split <;> exact ⟨_, rfl⟩
  | announcing =>
      dsimp only
      split
      · split <;> exact ⟨_, rfl⟩
      · exact ⟨_, rfl⟩
  | waiting =>
      rw [pc] at awake
      dsimp only
      split
      · rename_i none
        exact (awake none).elim
      · exact ⟨_, rfl⟩
  | establishing =>
      dsimp only
      split
      · exact ⟨_, rfl⟩
      · rename_i msg rest front
        unfold establish
        split
        · exact ⟨_, rfl⟩
        split
        · rename_i accept
          obtain ⟨decoded, decodes⟩ := answer pc msg rest front accept
          rw [decodes]
          exact ⟨_, rfl⟩
        · exact ⟨_, rfl⟩
  | session =>
      dsimp only
      split
      · exact ⟨_, rfl⟩
      · exact ⟨_, rfl⟩
      · rename_i notTrue notFalse
        have running : ∀ res, p.session.pc ≠ .returned res := by
          intro res
          cases res with
          | true => exact notTrue
          | false => exact notFalse
        obtain ⟨turn, stepped⟩ := ClientSenderSession.step_enabled p.c.m_messages_in
          (fun msg => (p.c.send msg).1) {} running fun _ => .of_limit (limit pc)
        exact ⟨_, Option.map_eq_some_iff.mpr ⟨turn, stepped, rfl⟩⟩
  | confirming =>
      dsimp only
      split <;> exact ⟨_, rfl⟩
  | draining =>
      dsimp only
      split <;> exact ⟨_, rfl⟩
  | returned res =>
      rw [pc] at awake
      exact (awake trivial).elim

end Sender

/-! ## `receiveRoutine` -/

namespace Receiver

def Waits (p : Receiver) : Prop :=
  match p.pc with
  | .validating => p.c.isConnected = false ∨ p.c.isValidated = false
  | .waiting => p.c.m_messages_in = []
  | .session => p.session.pc = .loop ∧ p.session.Going ∧ p.c.m_messages_in = []
  | .returned _ => True
  | _ => False

def rank (p : Receiver) : Nat :=
  match p.pc with
  | .connecting => p.session.measure p.c.m_messages_in + 12
  | .validating => p.session.measure p.c.m_messages_in + 11
  | .requesting => p.session.measure p.c.m_messages_in + 10
  | .waiting => p.session.measure p.c.m_messages_in + 9
  | .establishing => p.session.measure p.c.m_messages_in + 8
  | .asking => p.session.measure p.c.m_messages_in + 7
  | .starting => p.session.measure p.c.m_messages_in + 6
  | .session => p.session.measure p.c.m_messages_in + 5
  | .finishing => 4
  | .flushing => 3
  | .awaiting => 2
  | .returned _ => 0

variable {sha256_chunk : List UInt8 → Hash} {op : Operation} {unset : Unset}
  {p p' : Receiver} {choice : Choice}

theorem rank_congr {c : FileClient} (same : c.m_messages_in = p.c.m_messages_in) :
    rank { p with c } = rank p := by
  unfold rank
  dsimp only
  rw [same]

theorem measure_pop (t : ClientReceiverSession) (msg : Message) (rest : List Message) :
    t.measure rest < t.measure (msg :: rest) := by
  unfold ClientReceiverSession.measure
  rw [List.length_cons, if_neg (List.cons_ne_nil msg rest)]
  split
  · omega
  · split <;> omega
  · omega
  · omega

theorem measure_snoc (t : ClientReceiverSession) (queue : List Message) (msg : Message) :
    t.measure (queue ++ [msg]) ≤ t.measure queue + 5 := by
  have some_in : queue ++ [msg] ≠ [] := List.append_ne_nil_of_right_ne_nil _ (by simp)
  unfold ClientReceiverSession.measure
  rw [List.length_append, List.length_singleton, if_neg some_in]
  split
  · omega
  · split <;> omega
  · omega
  · omega

theorem rank_receive (msg : Message) : rank { p with c := p.c.receive msg } ≤ rank p + 5 := by
  have bound := measure_snoc p.session p.c.m_messages_in msg
  unfold rank FileClient.receive
  cases p.pc with
  | _ =>
      dsimp only
      omega

theorem step_rank (step : p.step sha256_chunk op unset choice = some p') :
    rank p' ≤ rank p ∧ (¬ p.Waits → rank p' < rank p) := by
  have lowers : rank p' < rank p → rank p' ≤ rank p ∧ (¬ p.Waits → rank p' < rank p) :=
    fun less => ⟨Nat.le_of_lt less, fun _ => less⟩
  cases step_transition step with
  | polls pc unready =>
      refine ⟨Nat.le_refl _, fun awake => (awake ?_).elim⟩
      unfold Waits
      rw [pc]
      exact unready
  | connects pc | unreachable pc | ready pc | wakes pc | unanswered pc | accepts pc | declines pc
  | received pc | failed pc | flushes pc | disconnected pc | flushed pc =>
      apply lowers
      simp only [rank, pc]
      omega
  | requests pc | starts pc | finishes pc =>
      apply lowers
      simp only [rank, pc, FileClient.post_messages_in]
      omega
  | rejected msg rest pc front =>
      apply lowers
      simp only [rank, pc]
      omega
  | offered msg left rest post pc front | skipped msg rest pc front =>
      have less := measure_pop p.session msg rest
      apply lowers
      simp only [rank, popped, pc, front]
      omega
  | session turn pc stepped =>
      obtain ⟨popped, queue, steps⟩ := ClientReceiverSession.step_steps stepped
      have less := steps.measure_lt queue
      apply lowers
      simp only [rank, pc, FileClient.after_messages_in]
      omega

theorem step_enabled (awake : ¬ p.Waits)
    (answer : p.pc = .establishing → ∀ msg rest, p.c.m_messages_in = msg :: rest →
      msg.header.id = .Accept → ∃ decoded, decode .Accept msg = some decoded)
    (long : p.pc = .session → ∀ msg ∈ p.c.m_messages_in, msg.header.id = .Chunk →
      SHA256_DIGEST_LENGTH ≤ msg.body.length) :
    ∃ p', p.step sha256_chunk op unset {} = some p' := by
  unfold Waits at awake
  unfold Receiver.step
  cases pc : p.pc with
  | connecting | requesting | asking | starting | finishing | awaiting => exact ⟨_, rfl⟩
  | validating | flushing =>
      dsimp only
      split <;> exact ⟨_, rfl⟩
  | waiting =>
      rw [pc] at awake
      dsimp only
      split
      · rename_i none
        exact (awake none).elim
      · exact ⟨_, rfl⟩
  | establishing =>
      dsimp only
      split
      · exact ⟨_, rfl⟩
      · rename_i msg rest front
        unfold establish
        split
        · exact ⟨_, rfl⟩
        split
        · rename_i accept
          obtain ⟨decoded, decodes⟩ := answer pc msg rest front accept
          rw [decodes]
          exact ⟨_, rfl⟩
        · exact ⟨_, rfl⟩
  | session =>
      rw [pc] at awake
      dsimp only
      split
      · exact ⟨_, rfl⟩
      · exact ⟨_, rfl⟩
      · rename_i notTrue notFalse
        have running : ∀ res, p.session.pc ≠ .returned res := by
          intro res
          cases res with
          | true => exact notTrue
          | false => exact notFalse
        obtain ⟨turn, stepped⟩ := ClientReceiverSession.step_enabled {} running
          (fun loop going none => awake ⟨loop, going, none⟩) fun _ msg rest front chunk =>
            long pc msg (by rw [front]; exact List.mem_cons_self) chunk
        exact ⟨_, Option.map_eq_some_iff.mpr ⟨turn, stepped, rfl⟩⟩
  | returned res =>
      rw [pc] at awake
      exact (awake trivial).elim

end Receiver

end PingPong
