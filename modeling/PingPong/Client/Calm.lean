import PingPong.Client.Reassembly
import PingPong.Client.Routines

/-!
# Routines for which nothing fails

`Sender.Calm` and `Receiver.Calm` are what holds of the two routines, besides `Sender.Inv` and
`Receiver.Inv`, as long as the sockets are open until the last message has been sent and the answers
are those of a transfer.  Neither routine fails, and neither overlooks the message that it is to end
with: `Success` stays in the queue of the sender, and the receiver has got `FinalChunk`.
-/

namespace PingPong

open Common Net

/-! ## `sendRoutine` -/

namespace Sender

open ClientSenderSession (Ahead)

variable {sha256_chunk : List UInt8 → Hash} {op : Operation} {phrase : List UInt8} {m : UInt64}
  {p p' : Sender} {arrived : List Message} {choice : Choice}

/-- What `Inv` says at each point of the routine. -/
def Stage (op : Operation) (phrase : List UInt8) (m : UInt64) (p : Sender)
    (arrived : List Message) : Prop :=
  match p.pc with
  | .connecting | .validating => p.c.sent = []
  | .announcing => p.c.sent = [] ∧ p.c.Live
  | .waiting => p.c.sent = [encode .Send (announcement op phrase)] ∧ p.c.m_messages_in = arrived
  | .establishing => p.c.sent = [encode .Send (announcement op phrase)] ∧
      p.c.m_messages_in = arrived ∧ arrived ≠ []
  | .session => (p.c.Live ∧ p.session.m_max_chunk_size = m) ∨
      p.c.m_connection.m_socket = .closed
  | .confirming | .draining | .returned _ => True

theorem Inv.stage (h : Inv sha256_chunk op phrase m p arrived) : Stage op phrase m p arrived := by
  unfold Stage
  cases h with
  | before pc sent =>
      rcases pc with pc | pc | ⟨pc, live⟩ <;> rw [pc]
      · exact sent
      · exact sent
      · exact ⟨sent, live⟩
  | announced pc live sent queue =>
      rcases pc with pc | ⟨pc, some_arrived⟩ <;> rw [pc]
      · exact ⟨sent, queue⟩
      · exact ⟨sent, queue, some_arrived⟩
  | sending ahead pc live answered limit =>
      rw [pc]
      exact Or.inl ⟨live, limit⟩
  | stopped pc closed =>
      rw [pc]
      exact Or.inr closed
  | after pc => rcases pc with pc | pc | ⟨res, pc⟩ <;> rw [pc] <;> exact trivial

structure Calm (sha256_chunk : List UInt8 → Hash) (op : Operation) (phrase : List UInt8)
    (m : UInt64) (p : Sender) (arrived : List Message) : Prop where
  ok : p.pc ≠ .returned false
  session : p.pc = .session → p.session.m_max_chunk_size = m ∧ p.session.pc ≠ .returned false ∧
    ∃ ahead, Ahead sha256_chunk p.session ahead ∧
      p.c.sent ++ ahead = sendings sha256_chunk op phrase m
  sent : p.pc = .confirming ∨ p.pc = .draining ∨ p.pc = .returned true →
    p.c.sent = sendings sha256_chunk op phrase m
  unread : p.pc ≠ .returned true →
    ∀ msg ∈ arrived, msg.header.id = .Success → msg ∈ p.c.m_messages_in

theorem Calm.start (chunksize : UInt64) : Calm sha256_chunk op phrase m { chunksize } [] where
  ok := Pc.noConfusion
  session := fun pc => by cases pc
  sent := fun pc => by rcases pc with pc | pc | pc <;> cases pc
  unread := fun _ _ member => by cases member

theorem Calm.arrive (h : Calm sha256_chunk op phrase m p arrived) (msg : Message) :
    Calm sha256_chunk op phrase m { p with c := p.c.receive msg } (arrived ++ [msg]) := by
  refine ⟨h.ok, h.session, h.sent, fun running msg' member success => ?_⟩
  rcases List.mem_append.mp member with before | last
  · exact List.mem_append_left _ (h.unread running msg' before success)
  · exact List.mem_append_right _ last

theorem Calm.fade {c : FileClient} (h : Calm sha256_chunk op phrase m p arrived)
    (fades : FileClient.Fades p.c c) : Calm sha256_chunk op phrase m { p with c } arrived := by
  refine ⟨h.ok, fun pc => ?_, fun pc => fades.sent.trans (h.sent pc), fun running => ?_⟩
  · change _ ∧ _ ∧ ∃ ahead, _ ∧ c.sent ++ ahead = _
    rw [fades.sent]
    exact h.session pc
  · change ∀ msg ∈ arrived, _ → msg ∈ c.m_messages_in
    rw [fades.messages_in]
    exact h.unread running

theorem sent_ne_sendings {sent : List Message} (few : sent.length ≤ 1) :
    sent ≠ sendings sha256_chunk op phrase m := by
  intro same
  have length := congrArg List.length same
  unfold sendings ClientSenderSession.pieces at length
  rw [List.length_cons, List.length_append, List.length_singleton] at length
  omega

/-- A session that can take a step has something left to send. -/
theorem ahead_of_step {t : ClientSenderSession} {ahead m_messages_in : List Message}
    {sendcb : Message → Bool} {disk : Disk} {turn : Turn ClientSenderSession}
    (going : Ahead sha256_chunk t ahead)
    (step : t.step sha256_chunk m_messages_in sendcb disk = some turn) :
    ahead ≠ [] ∧ t.op_result = true := by
  have some_pieces : ∀ {m : UInt64} {rest : List UInt8},
      ClientSenderSession.pieces sha256_chunk m rest ≠ [] :=
    List.append_ne_nil_of_right_ne_nil _ (List.cons_ne_nil _ [])
  cases going with
  | start pc fine | loop pc fine | read pc fine => exact ⟨some_pieces, fine⟩
  | final pc fine => exact ⟨List.cons_ne_nil _ [], fine⟩
  | returned pc =>
      simp only [ClientSenderSession.step, pc] at step
      cases step

/-- A step of the session, with a connection that takes every message. -/
theorem session_step {ahead : List Message} {turn : Turn ClientSenderSession}
    (limit : p.session.m_max_chunk_size = m) (positive : 0 < m.toNat)
    (no_abort : ∀ msg ∈ p.c.m_messages_in, msg.header.id ≠ .Abort)
    (takes : p.c.m_connection.accepts = true) (ok : p.session.pc ≠ .returned false)
    (going : Ahead sha256_chunk p.session ahead)
    (whole : p.c.sent ++ ahead = sendings sha256_chunk op phrase m)
    (step : p.session.step sha256_chunk p.c.m_messages_in (fun _ => true) {} = some turn) :
    turn.session.m_max_chunk_size = m ∧ turn.session.pc ≠ .returned false ∧
      ∃ ahead, Ahead sha256_chunk turn.session ahead ∧
        (p.c.after turn).sent ++ ahead = sendings sha256_chunk op phrase m := by
  have running : ∀ res, p.session.pc = .returned res → res = true := by
    intro res pc
    cases res with
    | true => rfl
    | false => exact (ok pc).elim
  obtain ⟨popped, -, steps⟩ := ClientSenderSession.step_steps step
  obtain ⟨-, stays⟩ := steps.stays_fine no_abort (ahead_of_step going step).2 running
  refine ⟨(ClientSenderSession.step_parameters step).1.trans limit,
    fun failed => Bool.false_ne_true (stays false failed), ?_⟩
  obtain ⟨progress, -⟩ := going.step (by rw [limit]; exact positive) no_abort step
  cases progress with
  | quiet quiet going =>
      refine ⟨ahead, going, ?_⟩
      rw [FileClient.after_of_quiet quiet]
      exact whole
  | @called _ msg ahead called succeeds fails =>
      refine ⟨ahead, succeeds rfl, ?_⟩
      rw [FileClient.after_of_called called, FileClient.post_sent, FileClient.send_fst, takes,
        if_pos rfl, List.append_assoc]
      exact whole

theorem Calm.step (h : Calm sha256_chunk op phrase m p arrived)
    (inv : Inv sha256_chunk op phrase m p arrived) (positive : 0 < m.toNat)
    (answers : Answers m arrived) (queue : p.c.m_messages_in <:+ arrived)
    (unclosed : p.c.sent ≠ sendings sha256_chunk op phrase m →
      p.c.m_connection.m_socket ≠ .closed)
    (early : p.c.sent ≠ sendings sha256_chunk op phrase m →
      ∀ msg ∈ arrived, msg.header.id ≠ .Success)
    (readable : choice.disk = {}) (connects : choice.connects = true)
    (step : p.step sha256_chunk op phrase choice = some p') :
    Calm sha256_chunk op phrase m p' arrived := by
  have no_abort : ∀ msg ∈ p.c.m_messages_in, msg.header.id ≠ .Abort :=
    fun msg member => answers.no_abort msg (queue.subset member)
  have stage := inv.stage
  unfold Stage at stage
  cases step_transition step with
  | polls | waits => exact h
  | unreachable pc disconnected => cases connects.symm.trans disconnected
  | missing pc none =>
      rw [readable] at none
      cases none
  | connects pc | ready pc | wakes pc =>
      have unread := h.unread (by rw [pc]; exact Pc.noConfusion)
      exact ⟨Pc.noConfusion, fun pc' => (by cases pc'),
        fun pc' => (by rcases pc' with pc' | pc' | pc' <;> cases pc'), fun _ => unread⟩
  | announces pc =>
      have unread := h.unread (by rw [pc]; exact Pc.noConfusion)
      refine ⟨Pc.noConfusion, fun pc' => (by cases pc'),
        fun pc' => (by rcases pc' with pc' | pc' | pc' <;> cases pc'), fun _ => ?_⟩
      rw [FileClient.post_messages_in]
      exact unread
  | unannounced pc found refused =>
      rw [pc] at stage
      obtain ⟨sent, live⟩ := stage
      have few : p.c.sent.length ≤ 1 := by
        rw [sent]
        exact Nat.zero_le 1
      exact (unclosed (sent_ne_sendings few) (live.closed_of_refused refused)).elim
  | unanswered pc none =>
      rw [pc] at stage
      obtain ⟨-, same, some_arrived⟩ := stage
      exact (some_arrived (same.symm.trans none)).elim
  | rejected msg rest pc front reject =>
      rw [pc] at stage
      obtain ⟨-, same, -⟩ := stage
      cases reject.symm.trans (answers.first msg rest (same.symm.trans front)).1
  | skipped msg rest pc front notReject notAccept =>
      rw [pc] at stage
      obtain ⟨-, same, -⟩ := stage
      exact (notAccept (answers.first msg rest (same.symm.trans front)).1).elim
  | accepted msg left rest post pc front accept decoded =>
      rw [pc] at stage
      obtain ⟨sent, same, -⟩ := stage
      obtain ⟨-, post', left', decoded', limit⟩ :=
        answers.first msg rest (same.symm.trans front)
      cases decoded.symm.trans decoded'
      have few : p.c.sent.length ≤ 1 := by
        rw [sent]
        exact Nat.le_refl 1
      refine ⟨Pc.noConfusion, fun _ => ⟨limit, ClientSenderSession.Pc.noConfusion, _,
        .start rfl rfl, ?_⟩, fun pc' => (by rcases pc' with pc' | pc' | pc' <;> cases pc'),
        fun _ msg' member success => ?_⟩
      · change p.c.sent ++ ClientSenderSession.pieces sha256_chunk post.max_chunk_size _ = _
        rw [sent, limit]
        rfl
      · exact (early (sent_ne_sendings few) msg' member success).elim
  | sent pc returned =>
      obtain ⟨-, -, ahead, going, whole⟩ := h.session pc
      have unread := h.unread (by rw [pc]; exact Pc.noConfusion)
      refine ⟨Pc.noConfusion, fun pc' => (by cases pc'), fun _ => ?_, fun _ => unread⟩
      cases going with
      | returned => rw [← whole, List.append_nil]
      | start pc' | loop pc' | read pc' | final pc' => cases returned.symm.trans pc'
  | failed pc failed => exact ((h.session pc).2.1 failed).elim
  | session turn pc stepped =>
      obtain ⟨-, ok, ahead, going, whole⟩ := h.session pc
      have unsent : p.c.sent ≠ sendings sha256_chunk op phrase m := by
        intro all
        rw [← all] at whole
        exact (ahead_of_step going stepped).1 (List.append_right_eq_self.mp whole)
      rw [pc] at stage
      rcases stage with ⟨live, limit⟩ | closed
      · have accepts : p.c.m_connection.accepts = true := by
          by_contra refused
          have refused := Bool.eq_false_iff.mpr refused
          exact unclosed unsent (Link.closed_of_refuses live.validated live.socket refused)
        have takes : (fun msg => (p.c.send msg).1) = fun _ => true :=
          funext fun msg => (p.c.send_fst msg).trans accepts
        rw [readable, takes] at stepped
        have stepped' := session_step limit positive no_abort accepts ok going whole stepped
        refine ⟨h.ok, fun _ => stepped', fun pc' => ?_, fun _ msg' member success => ?_⟩
        · have pc' : p.pc = .confirming ∨ p.pc = .draining ∨ p.pc = .returned true := pc'
          rw [pc] at pc'
          rcases pc' with pc' | pc' | pc' <;> cases pc'
        · exact (early unsent msg' member success).elim
      · exact (unclosed unsent closed).elim
  | looks pc =>
      have unread := h.unread (by rw [pc]; exact Pc.noConfusion)
      exact ⟨Pc.noConfusion, fun pc' => (by cases pc'), fun _ => h.sent (Or.inl pc),
        fun _ => unread⟩
  | emptied pc =>
      have unread := h.unread (by rw [pc]; exact Pc.noConfusion)
      exact ⟨Pc.noConfusion, fun pc' => (by cases pc'), fun _ => h.sent (Or.inr (Or.inl pc)),
        fun _ => unread⟩
  | aborted msg rest pc front abort =>
      exact (no_abort msg (by rw [front]; exact List.mem_cons_self) abort).elim
  | confirmed msg rest pc =>
      refine ⟨?_, fun pc' => (by cases pc'), fun _ => h.sent (Or.inr (Or.inl pc)),
        fun running => (running rfl).elim⟩
      intro failed
      cases failed
  | passed msg rest pc front notAbort notSuccess =>
      have unread := h.unread (by rw [pc]; exact Pc.noConfusion)
      have pc' : (p.popped rest).pc = .draining := pc
      refine ⟨h.ok, fun session => ?_, h.sent, fun _ msg' member success => ?_⟩
      · cases pc'.symm.trans session
      · have waiting := unread msg' member success
        rw [front] at waiting
        rcases List.mem_cons.mp waiting with rfl | later
        · exact (notSuccess success).elim
        · exact later

end Sender

/-! ## `receiveRoutine` -/

namespace Receiver

open ClientReceiverSession (Rebuilds)

variable {sha256_chunk : List UInt8 → Hash} {op : Operation} {unset : Unset} {m : UInt64}
  {file : List UInt8} {p p' : Receiver} {arrived : List Message} {choice : Choice}

/-- How many requests have been sent at each point of the routine. -/
def Pc.due : Pc → Nat
  | .connecting | .validating | .requesting => 0
  | .waiting | .establishing | .asking | .starting => 1
  | .session | .finishing => 2
  | .flushing | .awaiting | .returned _ => 3

theorem Pc.due_le (pc : Pc) : pc.due ≤ 3 := by
  cases pc <;> exact of_decide_eq_true rfl

/-- The last message of a file. -/
def Concludes (arrived : List Message) : Prop :=
  ∃ msg ∈ arrived, msg.header.id = .FinalChunk

/-- A session that does not fail, and ends with `FinalChunk`. -/
structure Sound (t : ClientReceiverSession) (arrived : List Message) : Prop where
  fine : t.op_result = true
  returned : ∀ res, t.pc = .returned res → res = true ∧ t.finish = true
  concluded : t.finish = true → Concludes arrived

structure Calm (op : Operation) (unset : Unset) (p : Receiver) (arrived : List Message) :
    Prop where
  ok : p.pc ≠ .returned false
  sent : p.c.sent = (requests op unset).take p.pc.due
  unread : p.pc = .waiting ∨ p.pc = .establishing → p.c.m_messages_in = arrived
  answered : p.pc = .establishing → arrived ≠ []
  session : p.pc = .session → Sound p.session arrived
  concluded : p.pc = .finishing ∨ p.pc.due = 3 → Concludes arrived

/-- All requests have been sent only at the end of the routine. -/
theorem Calm.due_of_all (h : Calm op unset p arrived) (all : 3 ≤ p.c.sent.length) :
    p.pc.due = 3 := by
  have most := p.pc.due_le
  rw [h.sent, List.length_take] at all
  omega

theorem Concludes.mono {later : List Message} (h : Concludes arrived) (more : arrived <+: later) :
    Concludes later := by
  obtain ⟨msg, member, final⟩ := h
  exact ⟨msg, more.subset member, final⟩

theorem Sound.mono {t : ClientReceiverSession} {later : List Message} (h : Sound t arrived)
    (more : arrived <+: later) : Sound t later :=
  ⟨h.fine, h.returned, fun finish => (h.concluded finish).mono more⟩

theorem Calm.start : Calm op unset {} [] where
  ok := Pc.noConfusion
  sent := rfl
  unread := fun _ => rfl
  answered := fun pc => by cases pc
  session := fun pc => by cases pc
  concluded := fun pc => by rcases pc with pc | pc <;> cases pc

theorem Calm.arrive (h : Calm op unset p arrived) (msg : Message) :
    Calm op unset { p with c := p.c.receive msg } (arrived ++ [msg]) where
  ok := h.ok
  sent := h.sent
  unread := fun pc => congrArg (· ++ [msg]) (h.unread pc)
  answered := fun _ => List.append_ne_nil_of_right_ne_nil _ (List.cons_ne_nil msg [])
  session := fun pc => (h.session pc).mono (List.prefix_append _ _)
  concluded := fun pc => (h.concluded pc).mono (List.prefix_append _ _)

theorem Calm.fade {c : FileClient} (h : Calm op unset p arrived)
    (fades : FileClient.Fades p.c c) : Calm op unset { p with c } arrived where
  ok := h.ok
  sent := fades.sent.trans h.sent
  unread := fun pc => fades.messages_in.trans (h.unread pc)
  answered := h.answered
  session := h.session
  concluded := h.concluded

/-- What `Inv` says at each point of the routine. -/
def Stage (sha256_chunk : List UInt8 → Hash) (m : UInt64) (file : List UInt8) (p : Receiver)
    (arrived : List Message) : Prop :=
  match p.pc with
  | .connecting | .validating => p.c.m_messages_in = arrived
  | .requesting => p.c.m_messages_in = arrived ∧ p.c.Live
  | .starting => p.c.Live ∧ p.session = {}
  | .session => ∃ consumed, consumed ++ p.c.m_messages_in = arrived ∧
      Rebuilds sha256_chunk m file p.session consumed
  | .finishing => p.c.Live
  | .waiting | .establishing | .asking | .flushing | .awaiting | .returned _ => True

theorem Inv.stage (h : Inv sha256_chunk op unset m file p arrived) :
    Stage sha256_chunk m file p arrived := by
  unfold Stage
  cases h with
  | before pc sent fresh queue =>
      rcases pc with pc | pc | ⟨pc, live⟩ <;> rw [pc]
      · exact queue
      · exact queue
      · exact ⟨queue, live⟩
  | asked pc sends fresh =>
      rcases pc with pc | pc | pc | pc <;> rw [pc]
      · exact trivial
      · exact trivial
      · exact trivial
      · exact ⟨sends.live, fresh⟩
  | rebuilding consumed pc sends queue rebuilds =>
      rw [pc]
      exact ⟨consumed, queue, rebuilds⟩
  | done pc sends =>
      rw [pc]
      exact sends.live
  | after pc => rcases pc with pc | pc | ⟨res, pc⟩ <;> rw [pc] <;> exact trivial

/-- One more request. -/
theorem post_request {c : FileClient} {n : Nat} {msg : Message} (live : c.Live)
    (unclosed : c.m_connection.m_socket ≠ .closed) (sent : c.sent = (requests op unset).take n)
    (next : (requests op unset)[n]? = some msg) :
    (c.post msg).sent = (requests op unset).take (n + 1) := by
  have taken : (c.send msg).1 = true := by
    by_contra refused
    exact unclosed (live.closed_of_refused (Bool.eq_false_iff.mpr refused))
  rw [FileClient.post_sent, taken, if_pos rfl, sent, List.take_add_one, next]
  rfl

/-- A step of the session, fed pieces of a file. -/
theorem Sound.step {t : ClientReceiverSession} {consumed m_messages_in : List Message}
    {turn : Turn ClientReceiverSession} (h : Sound t (consumed ++ m_messages_in))
    (rebuilds : Rebuilds sha256_chunk m file t consumed)
    (no_abort : ∀ msg ∈ m_messages_in, msg.header.id ≠ .Abort)
    (genuine : ∀ msg ∈ m_messages_in, msg.header.id = .Chunk → Genuine sha256_chunk msg)
    (step : t.step sha256_chunk m_messages_in {} = some turn) :
    turn.call = none ∧ Sound turn.session (consumed ++ m_messages_in) := by
  obtain ⟨popped, queue, steps⟩ := ClientReceiverSession.step_steps step
  generalize turn.session = t', turn.call = call at steps
  cases steps with
  | opens pc => exact ⟨rfl, h.fine, fun res pc' => (by cases pc'), h.concluded⟩
  | locked pc locked => cases locked
  | wakes pc | drained pc => exact ⟨rfl, h.fine, fun res pc' => (by cases pc'), h.concluded⟩
  | leaves pc stops =>
      have finish : t.finish = true := by
        cases rebuilds with
        | going ps _ fine _ good =>
            by_contra unfinished
            exact stops ⟨good, Bool.eq_false_iff.mpr unfinished, fine⟩
        | finished _ finish => exact finish
        | failed _ failed => cases h.fine.symm.trans failed
        | start pc' | returned pc' => cases pc.symm.trans pc'
      refine ⟨rfl, h.fine, fun res returned => ?_, h.concluded⟩
      cases returned
      exact ⟨h.fine, finish⟩
  | aborted msg rest pc front abort =>
      exact (no_abort msg (by rw [front]; exact List.mem_cons_self) abort).elim
  | mismatched msg rest pc front chunk long mismatch =>
      have member : msg ∈ m_messages_in := by
        rw [front]
        exact List.mem_cons_self
      exact (mismatch (genuine msg member chunk)).elim
  | writes msg rest pc => exact ⟨rfl, h.fine, h.returned, h.concluded⟩
  | finishes msg rest pc front final =>
      refine ⟨rfl, h.fine, fun res pc' => (by cases pc'), fun _ => ⟨msg, ?_, final⟩⟩
      rw [front]
      exact List.mem_append_right _ List.mem_cons_self
  | skipped msg rest pc => exact ⟨rfl, h⟩

/-- The chunks that have arrived are genuine. -/
theorem genuine_of_stream
    (stream : fileMessages arrived <+: ClientSenderSession.pieces sha256_chunk m file)
    {msg : Message} (member : msg ∈ arrived) (chunk : msg.header.id = .Chunk) :
    SHA256_DIGEST_LENGTH ≤ msg.body.length ∧ Genuine sha256_chunk msg := by
  have carries : carriesFile msg := by
    unfold carriesFile
    rw [decide_eq_true chunk, Bool.true_or]
  have piece := stream.subset (List.mem_filter.mpr ⟨member, carries⟩)
  rcases ClientReceiverSession.mem_pieces piece with ⟨data, rfl⟩ | rfl
  · exact ClientReceiverSession.genuine_chunkMessage data
  · cases chunk

theorem Calm.step (h : Calm op unset p arrived)
    (inv : Inv sha256_chunk op unset m file p arrived)
    (offer : ∀ msg rest, arrived = msg :: rest → msg.header.id = .Accept)
    (no_abort : ∀ msg ∈ arrived, msg.header.id ≠ .Abort)
    (stream : fileMessages arrived <+: ClientSenderSession.pieces sha256_chunk m file)
    (unclosed : p.c.sent ≠ requests op unset → p.c.m_connection.m_socket ≠ .closed)
    (writable : choice.disk = {}) (connects : choice.connects = true)
    (accepts : choice.accepts = true)
    (step : p.step sha256_chunk op unset choice = some p') : Calm op unset p' arrived := by
  have stage := inv.stage
  unfold Stage at stage
  have sent := h.sent
  have unsent : p.pc.due < 3 → p.c.m_connection.m_socket ≠ .closed := by
    intro few
    apply unclosed
    intro all
    rw [sent] at all
    have length := congrArg List.length all
    rw [List.length_take] at length
    have three : (requests op unset).length = 3 := rfl
    omega
  cases step_transition step with
  | polls => exact h
  | unreachable pc disconnected => cases connects.symm.trans disconnected
  | declines pc declined => cases accepts.symm.trans declined
  | connects pc | ready pc =>
      rw [pc] at sent
      exact ⟨Pc.noConfusion, sent, fun pc' => (by rcases pc' with pc' | pc' <;> cases pc'),
        fun pc' => (by cases pc'), fun pc' => (by cases pc'),
        fun pc' => (by rcases pc' with pc' | pc' <;> cases pc')⟩
  | requests pc =>
      rw [pc] at stage sent
      obtain ⟨queue, live⟩ := stage
      have unclosed := unsent (by rw [pc]; decide)
      refine ⟨Pc.noConfusion, post_request live unclosed sent rfl, fun _ => ?_,
        fun pc' => (by cases pc'), fun pc' => (by cases pc'),
        fun pc' => (by rcases pc' with pc' | pc' <;> cases pc')⟩
      rw [FileClient.post_messages_in]
      exact queue
  | wakes pc some_in =>
      rw [pc] at sent
      have queue := h.unread (Or.inl pc)
      refine ⟨Pc.noConfusion, sent, fun _ => queue, fun _ none => some_in (queue.trans none),
        fun pc' => (by cases pc'), fun pc' => (by rcases pc' with pc' | pc' <;> cases pc')⟩
  | unanswered pc none =>
      exact (h.answered pc ((h.unread (Or.inr pc)).symm.trans none)).elim
  | rejected msg rest pc front reject =>
      have accept := offer msg rest ((h.unread (Or.inr pc)).symm.trans front)
      cases reject.symm.trans accept
  | skipped msg rest pc front notReject notAccept =>
      exact (notAccept (offer msg rest ((h.unread (Or.inr pc)).symm.trans front))).elim
  | offered msg left rest post pc | accepts pc =>
      rw [pc] at sent
      exact ⟨Pc.noConfusion, sent, fun pc' => (by rcases pc' with pc' | pc' <;> cases pc'),
        fun pc' => (by cases pc'), fun pc' => (by cases pc'),
        fun pc' => (by rcases pc' with pc' | pc' <;> cases pc')⟩
  | starts pc =>
      rw [pc] at stage sent
      obtain ⟨live, fresh⟩ := stage
      have unclosed := unsent (by rw [pc]; decide)
      refine ⟨Pc.noConfusion, post_request live unclosed sent rfl,
        fun pc' => (by rcases pc' with pc' | pc' <;> cases pc'), fun pc' => (by cases pc'),
        fun _ => ?_, fun pc' => (by rcases pc' with pc' | pc' <;> cases pc')⟩
      change Sound p.session arrived
      rw [fresh]
      exact ⟨rfl, fun res pc' => (by cases pc'), fun finish => (by cases finish)⟩
  | received pc returned =>
      rw [pc] at sent
      have sound := h.session pc
      exact ⟨Pc.noConfusion, sent, fun pc' => (by rcases pc' with pc' | pc' <;> cases pc'),
        fun pc' => (by cases pc'), fun pc' => (by cases pc'),
        fun _ => sound.concluded (sound.returned true returned).2⟩
  | failed pc failed => exact (Bool.false_ne_true ((h.session pc).returned false failed).1).elim
  | session turn pc stepped =>
      rw [pc] at stage
      obtain ⟨consumed, queue, rebuilds⟩ := stage
      have arrives : ∀ {msg}, msg ∈ p.c.m_messages_in → msg ∈ arrived := by
        intro msg member
        rw [← queue]
        exact List.mem_append_right _ member
      have sound := h.session pc
      rw [← queue] at sound
      rw [writable] at stepped
      obtain ⟨quiet, sound⟩ := sound.step rebuilds (fun msg member => no_abort msg (arrives member))
        (fun msg member chunk => (genuine_of_stream stream (arrives member) chunk).2) stepped
      rw [queue] at sound
      have client := FileClient.after_of_quiet (c := p.c) quiet
      refine ⟨h.ok, ?_, fun pc' => ?_, fun pc' => ?_, fun _ => sound, fun pc' => ?_⟩
      · rw [client]
        exact sent
      · have pc' : p.pc = .waiting ∨ p.pc = .establishing := pc'
        rw [pc] at pc'
        rcases pc' with pc' | pc' <;> cases pc'
      · cases pc.symm.trans pc'
      · have pc' : p.pc = .finishing ∨ p.pc.due = 3 := pc'
        rw [pc] at pc'
        rcases pc' with pc' | pc' <;> cases pc'
  | finishes pc =>
      rw [pc] at stage sent
      have unclosed := unsent (by rw [pc]; decide)
      exact ⟨Pc.noConfusion, post_request stage unclosed sent rfl,
        fun pc' => (by rcases pc' with pc' | pc' <;> cases pc'), fun pc' => (by cases pc'),
        fun pc' => (by cases pc'), fun _ => h.concluded (Or.inl pc)⟩
  | flushes pc | disconnected pc | flushed pc =>
      have concluded := h.concluded (Or.inr (by rw [pc]; rfl))
      rw [pc] at sent
      refine ⟨?_, sent, fun pc' => (by rcases pc' with pc' | pc' <;> cases pc'),
        fun pc' => (by cases pc'), fun pc' => (by cases pc'), fun _ => concluded⟩
      intro failed
      cases failed

end Receiver

end PingPong
