import PingPong.Client.Routines
import PingPong.System.Integrity

/-!
# What the two users may conclude

What one side of a transfer knows about the other once its own routine is over.

* `returned_means_received`: when `sendRoutine` has returned true, the receiver has the whole file;
  when `receiveRoutine` has, it has the whole file or its user has declined it.
* `written_in_order`: at every moment, also of a transfer that goes on to fail, what has been
  written at the receiver are the first pieces of the file.
* `consent`: the receiver's user has accepted before anything of the file is sent to it, and before
  the sender is told to begin.
-/

namespace PingPong

open Common Net

/-! ## The receiver by itself -/

namespace ClientReceiverSession

variable {sha256_chunk : List UInt8 → Hash} {m : UInt64} {file : List UInt8}

/-- What has been written are the first pieces of the file. -/
def InOrder (m : UInt64) (file : List UInt8) (t : ClientReceiverSession) : Prop :=
  ∃ ps, ps <+: file.chunks m.toNat ∧ t.ofs.written = ps.flatten

theorem InOrder.step {t : ClientReceiverSession} {consumed m_messages_in : List Message}
    {turn : Turn ClientReceiverSession} (h : InOrder m file t)
    (rebuilds : Rebuilds sha256_chunk m file t consumed) (positive : 0 < m.toNat)
    (stream : fileMessages (consumed ++ m_messages_in) <+:
      ClientSenderSession.pieces sha256_chunk m file)
    (step : t.step sha256_chunk m_messages_in {} = some turn) : InOrder m file turn.session := by
  obtain ⟨-, consumed', -, after⟩ := rebuilds.step positive stream step
  obtain ⟨popped, -, steps⟩ := step_steps step
  generalize turn.session = t' at after steps
  generalize turn.call = call at steps
  cases steps with
  | opens => exact ⟨[], List.nil_prefix, rfl⟩
  | writes msg rest pc =>
      -- The session is still draining, so this was a piece of the file.
      cases after with
      | going ps _ _ _ _ some_pieces _ written => exact ⟨ps, some_pieces, written⟩
      | start pc' | finished pc' | failed pc' | returned pc' =>
          have same : t.pc = _ := pc'
          rw [pc] at same
          cases same
  | locked | wakes | leaves | drained | aborted | mismatched | finishes | skipped => exact h

theorem InOrder.isPrefix {t : ClientReceiverSession} (h : InOrder m file t)
    (positive : 0 < m.toNat) : t.ofs.written <+: file := by
  obtain ⟨ps, ⟨qs, whole⟩, written⟩ := h
  have pieces := List.chunks_flatten positive file
  rw [← whole, List.flatten_append] at pieces
  exact ⟨qs.flatten, by rw [written, pieces]⟩

end ClientReceiverSession

namespace Receiver

variable {sha256_chunk : List UInt8 → Hash} {op : Operation} {unset : Unset} {m : UInt64}
  {file : List UInt8} {p p' : Receiver} {arrived : List Message} {choice : Choice}

open ClientReceiverSession (Done InOrder Rebuilds)

/-- The user has accepted, or at least nothing shows that the routine has gone on. -/
def Asked (p : Receiver) : Prop :=
  p.pc = .starting ∨ p.pc = .session ∨ p.pc = .finishing ∨ 2 ≤ p.c.sent.length

/-- When the routine has returned true, the session has, or it has never begun. -/
def Concluded (file : List UInt8) (p : Receiver) (arrived : List Message) : Prop :=
  p.pc = .flushing ∨ p.pc = .awaiting ∨ p.pc = .returned true →
    Done file p.session arrived ∨ (p.pc = .returned true ∧ p.session = {} ∧ ¬ Asked p)

/-- What the invariant says at each point of the routine. -/
def Phase (sha256_chunk : List UInt8 → Hash) (m : UInt64) (file : List UInt8) (p : Receiver)
    (arrived : List Message) : Prop :=
  match p.pc with
  | .connecting | .validating | .requesting => p.c.sent = []
  | .waiting | .establishing | .asking | .starting => p.c.sent.length ≤ 1 ∧ p.session = {}
  | .session => ∃ consumed, consumed ++ p.c.m_messages_in = arrived ∧
      Rebuilds sha256_chunk m file p.session consumed
  | .finishing => Done file p.session arrived
  | .flushing | .awaiting | .returned _ => True

theorem Inv.phase (h : Inv sha256_chunk op unset m file p arrived) :
    Phase sha256_chunk m file p arrived := by
  unfold Phase
  cases h with
  | before pc sent => rcases pc with pc | pc | ⟨pc, -⟩ <;> rw [pc] <;> exact sent
  | asked pc sends fresh =>
      have length := sends.length_le
      rw [List.length_take] at length
      have few : p.c.sent.length ≤ 1 := by omega
      rcases pc with pc | pc | pc | pc <;> rw [pc] <;> exact ⟨few, fresh⟩
  | rebuilding consumed pc sends queue rebuilds =>
      rw [pc]
      exact ⟨consumed, queue, rebuilds⟩
  | done pc sends done =>
      rw [pc]
      exact done
  | after pc => rcases pc with pc | pc | ⟨res, pc⟩ <;> rw [pc] <;> exact trivial

theorem Concluded.step (h : Concluded file p arrived)
    (inv : Inv sha256_chunk op unset m file p arrived)
    (step : p.step sha256_chunk op unset choice = some p') : Concluded file p' arrived := by
  intro finished
  have phase := inv.phase
  unfold Phase at phase
  cases step_transition step with
  | declines pc =>
      rw [pc] at phase
      obtain ⟨few, fresh⟩ := phase
      refine Or.inr ⟨rfl, fresh, ?_⟩
      intro asked
      rcases asked with pc' | pc' | pc' | many
      · cases pc'
      · cases pc'
      · cases pc'
      · have many : 2 ≤ p.c.sent.length := many
        omega
  | finishes pc =>
      rw [pc] at phase
      exact Or.inl phase
  | flushes pc | disconnected pc =>
      rcases h (Or.inl pc) with done | ⟨pc', -⟩
      · exact Or.inl done
      · rw [pc] at pc'
        cases pc'
  | flushed pc =>
      rcases h (Or.inr (Or.inl pc)) with done | ⟨pc', -⟩
      · exact Or.inl done
      · rw [pc] at pc'
        cases pc'
  | polls pc | skipped _ _ pc | session _ pc =>
      have finished : p.pc = .flushing ∨ p.pc = .awaiting ∨ p.pc = .returned true := finished
      rw [pc] at finished
      rcases finished with pc' | pc' | pc' <;> cases pc'
  | connects | unreachable | ready | requests | wakes | unanswered | rejected | offered | accepts
  | starts | received | failed => rcases finished with pc' | pc' | pc' <;> cases pc'

theorem Concluded.mono {later : List Message} (h : Concluded file p arrived)
    (more : arrived <+: later) : Concluded file p later := fun finished =>
  (h finished).imp_left fun done => ⟨done.returned, done.whole.mono more⟩

theorem Asked.fade {c : FileClient} (fades : FileClient.Fades p.c c) (h : Asked { p with c }) :
    Asked p := by
  unfold Asked at h
  dsimp only at h
  rw [fades.sent] at h
  exact h

theorem Concluded.fade {c : FileClient} (h : Concluded file p arrived)
    (fades : FileClient.Fades p.c c) : Concluded file { p with c } arrived := fun finished =>
  (h finished).imp_right fun declined =>
    ⟨declined.1, declined.2.1, fun asked => declined.2.2 (asked.fade fades)⟩

/-- The only step after which the user may have accepted, and before which not, is the one that
asks. -/
theorem asked_step (inv : Inv sha256_chunk op unset m file p arrived)
    (step : p.step sha256_chunk op unset choice = some p') (now : Asked p') :
    Asked p ∨ (p.pc = .asking ∧ choice.accepts = true) := by
  have phase := inv.phase
  unfold Phase at phase
  have late : ∀ {q : Receiver}, Asked q → q.c.sent = p.c.sent → q.pc ≠ .starting →
      q.pc ≠ .session → q.pc ≠ .finishing → Asked p := by
    intro q asked sent starting session finishing
    rcases asked with pc | pc | pc | many
    · exact (starting pc).elim
    · exact (session pc).elim
    · exact (finishing pc).elim
    · rw [sent] at many
      exact Or.inr (Or.inr (Or.inr many))
  cases step_transition step with
  | accepts pc accepted => exact Or.inr ⟨pc, accepted⟩
  | starts pc => exact Or.inl (Or.inl pc)
  | session _ pc | received pc | failed pc => exact Or.inl (Or.inr (Or.inl pc))
  | finishes pc => exact Or.inl (Or.inr (Or.inr (Or.inl pc)))
  | requests pc =>
      rw [pc] at phase
      have sent := p.c.post_sent (encode .RequestReceive (request op unset))
      rw [phase] at sent
      rcases now with pc' | pc' | pc' | many
      · cases pc'
      · cases pc'
      · cases pc'
      · have many : 2 ≤ (p.c.post (encode .RequestReceive (request op unset))).sent.length := many
        rw [sent] at many
        split at many <;> simp at many
  | polls | skipped => exact Or.inl now
  | connects | unreachable | ready | wakes | unanswered | rejected | offered | declines | flushes
  | disconnected | flushed =>
      exact Or.inl (late now rfl Pc.noConfusion Pc.noConfusion Pc.noConfusion)

end Receiver

/-! ## In a transfer -/

namespace Transfer

variable {κ : Type} [DecidableEq κ] {x : Transfer κ} {sys : State κ}

theorem Reachable.queue (reachable : x.Reachable sys) :
    sys.sender.c.m_messages_in <:+ sys.toSender := by
  refine Lts.Reachable.induct (M := x.lts)
    (P := fun sys => sys.sender.c.m_messages_in <:+ sys.toSender) List.suffix_rfl ?_ reachable
  intro s e t _ queue step
  cases step_steps step with
  | toSender msg rest next =>
      obtain ⟨consumed, whole⟩ := queue
      refine ⟨consumed, ?_⟩
      change consumed ++ (s.sender.c.m_messages_in ++ [msg]) = s.toSender ++ [msg]
      rw [← List.append_assoc, whole]
  | senderLink e c on =>
      change c.m_messages_in <:+ s.toSender
      rw [(FileClient.on_fades on).messages_in]
      exact queue
  | sendRoutine choice sender readable stepped => exact (Sender.step_queue stepped).trans queue
  | server | fromSender | fromReceiver | toReceiver | receiverLink | receiveRoutine => exact queue

/-- A sender that has returned true has got `Success`. -/
theorem Reachable.confirmed (reachable : x.Reachable sys)
    (returned : sys.sender.pc = .returned true) :
    ∃ msg ∈ sys.toSender, msg.header.id = .Success := by
  refine Lts.Reachable.induct (M := x.lts) (P := fun sys => sys.sender.pc = .returned true →
    ∃ msg ∈ sys.toSender, msg.header.id = .Success) (fun pc => by cases pc) ?_ reachable returned
  intro s e t reached confirmed step
  cases step_steps step with
  | toSender msg rest next =>
      intro returned
      obtain ⟨m, member, success⟩ := confirmed returned
      exact ⟨m, List.mem_append_left _ member, success⟩
  | sendRoutine choice sender readable stepped =>
      intro returned
      obtain ⟨msg, member, success⟩ := Sender.step_returned stepped returned
      exact ⟨msg, (Reachable.queue reached).subset member, success⟩
  | server | fromSender | fromReceiver | toReceiver | senderLink | receiverLink
  | receiveRoutine => exact confirmed

theorem Reachable.concluded (reachable : x.Reachable sys) :
    Receiver.Concluded x.file sys.receiver sys.toReceiver := by
  refine Lts.Reachable.induct (M := x.lts)
    (P := fun sys => Receiver.Concluded x.file sys.receiver sys.toReceiver) ?_ ?_ reachable
  · intro finished
    rcases finished with pc | pc | pc <;> cases pc
  · intro s e t reached concluded step
    cases step_steps step with
    | toReceiver msg rest next =>
        exact Receiver.Concluded.mono concluded (List.prefix_append _ [msg])
    | receiverLink e c on => exact concluded.fade (FileClient.on_fades on)
    | receiveRoutine choice receiver writable stepped =>
        exact concluded.step (Reachable.inv reached).receiver stepped
    | server | fromSender | fromReceiver | toSender | senderLink | sendRoutine => exact concluded

/-- Before the receiver has asked for the file, nothing of it is on its way and the sender has not
been told to begin. -/
theorem Reachable.untouched (reachable : x.Reachable sys)
    (few : sys.receiver.c.sent.length ≤ 1) :
    Untouched x sys.server sys.fromSender ∧ sys.sender.c.sent.length ≤ 1 := by
  have delivered := Reachable.delivered reachable
  have processed := delivered.fromReceiver.length_le
  have inv := Reachable.inv reachable
  have untouched := inv.traffic.early (by omega)
  refine ⟨untouched, ?_⟩
  by_contra many
  have arrived := delivered.toSender
  rw [untouched.answers] at arrived
  exact inv.sender.answered (by omega) (List.prefix_nil.mp arrived)

theorem Reachable.reported (reachable : x.Reachable sys)
    (returned : sys.sender.pc = .returned true) :
    ClientReceiverSession.Done x.file sys.receiver.session sys.toReceiver := by
  have inv := Reachable.inv reachable
  have delivered := Reachable.delivered reachable
  obtain ⟨msg, member, success⟩ := Reachable.confirmed reachable returned
  have reported := inv.traffic.success msg (delivered.toSender.subset member) success
  have sent := delivered.fromReceiver.length_le
  exact inv.receiver.rebuilt (by omega)

/-- **What a routine's result means.** -/
theorem returned_means_received (x : Transfer κ) {sys : State κ} (reachable : x.Reachable sys) :
    (sys.sender.pc = .returned true →
      sys.receiver.session.pc = .returned true ∧ sys.receiver.session.ofs.written = x.file) ∧
    (sys.receiver.pc = .returned true →
      (sys.receiver.session.pc = .returned true ∧ sys.receiver.session.ofs.written = x.file) ∨
      -- The user has declined.
      (sys.receiver.session = {} ∧ sys.sender.c.sent.length ≤ 1 ∧ sys.server.sentTo x.s = [] ∧
        fileMessages (sys.server.sentTo x.r) = [])) := by
  constructor
  · intro returned
    have done := Reachable.reported reachable returned
    exact ⟨done.returned, done.whole.written⟩
  · intro returned
    rcases Reachable.concluded reachable (Or.inr (Or.inr returned)) with
      done | ⟨-, fresh, unasked⟩
    · exact Or.inl ⟨done.returned, done.whole.written⟩
    · have few : sys.receiver.c.sent.length ≤ 1 := by
        by_contra many
        exact unasked (Or.inr (Or.inr (Or.inr (by omega))))
      obtain ⟨untouched, unsent⟩ := Reachable.untouched reachable few
      exact Or.inr ⟨fresh, unsent, untouched.answers, untouched.files⟩

/-- `Success` arrives at the sender, and both routines return. -/
def bothReturnedEvents : List (Event Nat) :=
  twoBytesEvents ++
    [.toSender, .sendRoutine {}, .sendRoutine {}, .receiveRoutine {}, .receiveRoutine {}]

def bothReturned : State Nat := (twoBytes.lts.run bothReturnedEvents).get (by decide +kernel)

theorem returned_means_received_twoBytes :
    bothReturned.sender.pc = .returned true ∧ bothReturned.receiver.pc = .returned true ∧
      bothReturned.receiver.session.ofs.written = [1, 2] := by
  have sent : bothReturned.sender.pc = .returned true := by decide +kernel
  refine ⟨sent, by decide +kernel, ?_⟩
  exact ((returned_means_received twoBytes ⟨bothReturnedEvents, (Option.some_get _).symm⟩).1
    sent).2

theorem Reachable.inOrder (reachable : x.Reachable sys) :
    ClientReceiverSession.InOrder m_max_chunk_size x.file sys.receiver.session := by
  have positive : 0 < m_max_chunk_size.toNat := by decide
  refine Lts.Reachable.induct (M := x.lts)
    (P := fun sys => ClientReceiverSession.InOrder m_max_chunk_size x.file sys.receiver.session)
    ⟨[], List.nil_prefix, rfl⟩ ?_ reachable
  intro s e t reached inOrder step
  have inv := Reachable.inv reached
  cases step_steps step with
  | receiveRoutine choice receiver writable stepped =>
      cases Receiver.step_transition stepped with
      | session turn pc turned =>
          have phase := inv.receiver.phase
          unfold Receiver.Phase at phase
          rw [pc] at phase
          obtain ⟨consumed, queue, rebuilds⟩ := phase
          have stream := inv.stream (Reachable.delivered reached)
          rw [← queue] at stream
          rw [writable] at turned
          exact inOrder.step rebuilds positive stream turned
      | _ => exact inOrder
  | _ => exact inOrder

/-- **What is written is in order.**  Also of a transfer that goes on to fail. -/
theorem written_in_order (x : Transfer κ) {sys : State κ} (reachable : x.Reachable sys) :
    (∃ ps, ps <+: x.file.chunks m_max_chunk_size.toNat ∧
      sys.receiver.session.ofs.written = ps.flatten) ∧
    sys.receiver.session.ofs.written <+: x.file := by
  have inOrder := Reachable.inOrder reachable
  exact ⟨inOrder, inOrder.isPrefix (by decide)⟩

/-- The two bytes are one piece. -/
theorem written_in_order_twoBytes : twoBytesSent.receiver.session.ofs.written <+: [1, 2] :=
  (written_in_order twoBytes ⟨twoBytesEvents, (Option.some_get _).symm⟩).2

/-- The run passes the question to the user, who accepts. -/
def Accepts (x : Transfer κ) (es : List (Event κ)) : Prop :=
  ∃ s choice t, x.lts.Takes es s (.receiveRoutine choice) t ∧ s.receiver.pc = .asking ∧
    choice.accepts = true

theorem accepts_of_asked {es : List (Event κ)} (run : x.lts.run es = some sys)
    (asked : Receiver.Asked sys.receiver) : x.Accepts es := by
  refine Lts.run_induct (M := x.lts)
    (P := fun es sys => Receiver.Asked sys.receiver → x.Accepts es) ?_ ?_ run asked
  · intro asked
    rcases asked with pc | pc | pc | many
    · cases pc
    · cases pc
    · cases pc
    · exact (Nat.not_succ_le_zero 1 many).elim
  · intro es s e t run before step asked
    have earlier : Receiver.Asked s.receiver → x.Accepts (es ++ [e]) := by
      intro asked
      obtain ⟨u, choice, v, taken, asking, accepts⟩ := before asked
      exact ⟨u, choice, v, taken.snoc e, asking, accepts⟩
    have inv := Reachable.inv ⟨es, run⟩
    cases step_steps step with
    | receiverLink e c on => exact earlier (asked.fade (FileClient.on_fades on))
    | receiveRoutine choice receiver writable stepped =>
        rcases Receiver.asked_step inv.receiver stepped asked with asked | ⟨asking, accepts⟩
        · exact earlier asked
        · exact ⟨s, choice, _, (Lts.takes_snoc run step).mpr (Or.inr ⟨rfl, rfl, rfl⟩), asking,
            accepts⟩
    | _ => exact earlier asked

/-- **Consent.**  Nothing of the file leaves the sender, and nothing of it is sent to the receiver,
before the receiver's user has accepted. -/
theorem consent (x : Transfer κ) {es : List (Event κ)} {sys : State κ}
    (run : x.lts.run es = some sys)
    (begun : 2 ≤ sys.sender.c.sent.length ∨ sys.server.sentTo x.s ≠ [] ∨
      fileMessages (sys.server.sentTo x.r) ≠ []) : x.Accepts es := by
  apply accepts_of_asked run
  by_contra unasked
  have few : sys.receiver.c.sent.length ≤ 1 := by
    by_contra many
    exact unasked (Or.inr (Or.inr (Or.inr (by omega))))
  obtain ⟨untouched, unsent⟩ := Reachable.untouched ⟨es, run⟩ few
  rcases begun with sent | answered | relayed
  · omega
  · exact answered untouched.answers
  · exact relayed untouched.files

theorem consent_twoBytes : twoBytes.Accepts twoBytesEvents := by
  have run : twoBytes.lts.run twoBytesEvents = some twoBytesSent := (Option.some_get _).symm
  exact consent twoBytes run (Or.inl (by decide +kernel))

end Transfer

end PingPong
