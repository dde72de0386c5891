import PingPong.Client.Sender

/-!
# What the sender sends

As long as the file can be read and no `Abort` arrives, the messages the sender has sent and those
it is still to send make up one fixed sequence: the announcement, a `Chunk` for each piece of the
file, and `FinalChunk`.

* `ClientSenderSession.Ahead`: a session whose calls have all succeeded, and what it is still to
  send. A call that fails leaves the session `Stopped`, and by then the socket is closed.
* `Sender.Inv`: where `sendRoutine` stands after the messages `arrived`, and what it has sent.
  `Sender.Inv.sent_isPrefix` is what the rest of the development uses.
-/

namespace PingPong

open Common Net

/-! ## The session -/

namespace ClientSenderSession

variable {sha256_chunk : List UInt8 → Hash}

/-- The messages that carry the bytes `rest`, cut into pieces of at most `m`. -/
def pieces (sha256_chunk : List UInt8 → Hash) (m : UInt64) (rest : List UInt8) : List Message :=
  (rest.chunks m.toNat).map (chunkMessage sha256_chunk) ++ [encode .FinalChunk {}]

theorem pieces_nil (m : UInt64) : pieces sha256_chunk m [] = [encode .FinalChunk {}] := by
  rw [pieces, List.chunks_nil]
  rfl

theorem pieces_eq_cons {m : UInt64} {rest : List UInt8} (positive : 0 < m.toNat)
    (more : rest ≠ []) :
    pieces sha256_chunk m rest =
      chunkMessage sha256_chunk (rest.take m.toNat) ::
        pieces sha256_chunk m (rest.drop m.toNat) := by
  rw [pieces, List.chunks_eq_cons more positive]
  rfl

/-- All calls of the session so far have succeeded, and `ahead` is what it is still to send. -/
inductive Ahead (sha256_chunk : List UInt8 → Hash) : ClientSenderSession → List Message → Prop
  | start {t : ClientSenderSession} : t.pc = .start → t.op_result = true →
    Ahead sha256_chunk t (pieces sha256_chunk t.m_max_chunk_size t.m_file)
  | loop {t : ClientSenderSession} : t.pc = .loop → t.op_result = true →
    (t.ifs.good = false → t.ifs.rest = []) →
    Ahead sha256_chunk t (pieces sha256_chunk t.m_max_chunk_size t.ifs.rest)
  | read {t : ClientSenderSession} : t.pc = .read → t.op_result = true →
    Ahead sha256_chunk t (pieces sha256_chunk t.m_max_chunk_size t.ifs.rest)
  | final {t : ClientSenderSession} : t.pc = .final → t.op_result = true →
    Ahead sha256_chunk t [encode .FinalChunk {}]
  | returned {t : ClientSenderSession} {res : Bool} : t.pc = .returned res →
    Ahead sha256_chunk t []

/-- The session has given up, or has returned. -/
def Stopped (t : ClientSenderSession) : Prop :=
  (t.pc = .final ∧ t.op_result = false) ∨ ∃ res, t.pc = .returned res

/-- What a step of a session with `ahead` to go does: nothing outside, or one call that brings it
ahead by one message if it succeeds and stops the session if it fails. -/
inductive Progress (sha256_chunk : List UInt8 → Hash) (sendcb : Message → Bool) :
    List Message → Turn ClientSenderSession → Prop
  | quiet {turn : Turn ClientSenderSession} {ahead : List Message} : turn.call = none →
    Ahead sha256_chunk turn.session ahead → Progress sha256_chunk sendcb ahead turn
  | called {turn : Turn ClientSenderSession} {msg : Message} {ahead : List Message} :
    turn.call = some msg →
    (sendcb msg = true → Ahead sha256_chunk turn.session ahead) →
    (sendcb msg = false → Stopped turn.session) →
    Progress sha256_chunk sendcb (msg :: ahead) turn

/-- Reading a piece of the file. -/
theorem progress_read {t : ClientSenderSession} {m_messages_in : List Message}
    {sendcb : Message → Bool} {turn : Turn ClientSenderSession} (pc : t.pc = .read)
    (fine : t.op_result = true) (positive : 0 < t.m_max_chunk_size.toNat)
    (step : t.step sha256_chunk m_messages_in sendcb {} = some turn) :
    Progress sha256_chunk sendcb (pieces sha256_chunk t.m_max_chunk_size t.ifs.rest) turn ∧
      turn.m_messages_in = m_messages_in := by
  simp only [ClientSenderSession.step, pc, Ifstream.read_true, List.length_take] at step
  split at step
  · cases step
  rcases Classical.em (t.ifs.rest = []) with exhausted | more
  · have none_read : ¬ 0 < min t.m_max_chunk_size.toNat t.ifs.rest.length := by
      rw [exhausted, List.length_nil]
      omega
    rw [if_neg none_read] at step
    cases step
    rw [exhausted, pieces_nil]
    exact ⟨.quiet rfl (.final rfl fine), rfl⟩
  · have length : 0 < t.ifs.rest.length := List.length_pos_iff.mpr more
    have some_read : 0 < min t.m_max_chunk_size.toNat t.ifs.rest.length := by omega
    rw [pieces_eq_cons positive more]
    rw [if_pos some_read] at step
    split at step
    · cases step
    cases taken : sendcb (chunkMessage sha256_chunk (t.ifs.rest.take t.m_max_chunk_size.toNat)) with
    | true =>
        simp only [taken, if_true] at step
        cases step
        refine ⟨.called rfl (fun _ => .loop rfl fine fun ended => ?_) fun refused => ?_, rfl⟩
        · have short : t.ifs.rest.length < t.m_max_chunk_size.toNat :=
            Nat.lt_of_not_le (of_decide_eq_false ended)
          exact List.drop_eq_nil_of_le (by omega)
        · rw [taken] at refused
          cases refused
    | false =>
        simp only [taken, Bool.false_eq_true, if_false] at step
        cases step
        refine ⟨.called rfl (fun accepted => ?_) fun _ => Or.inl ⟨rfl, rfl⟩, rfl⟩
        rw [taken] at accepted
        cases accepted

/-- **One step of the loop**, with a file that can be read and no `Abort` in the queue. -/
theorem Ahead.step {t : ClientSenderSession} {ahead m_messages_in : List Message}
    {sendcb : Message → Bool} {turn : Turn ClientSenderSession}
    (h : Ahead sha256_chunk t ahead) (positive : 0 < t.m_max_chunk_size.toNat)
    (noAbort : ∀ msg ∈ m_messages_in, msg.header.id ≠ .Abort)
    (step : t.step sha256_chunk m_messages_in sendcb {} = some turn) :
    Progress sha256_chunk sendcb ahead turn ∧ turn.m_messages_in <:+ m_messages_in := by
  cases h with
  | start pc fine =>
      simp only [ClientSenderSession.step, pc] at step
      cases step
      refine ⟨.quiet rfl (.loop rfl fine fun bad => ?_), List.suffix_rfl⟩
      cases bad
  | loop pc fine exhausted =>
      simp only [ClientSenderSession.step, pc, fine, Bool.and_true] at step
      split at step
      · split at step
        · rename_i incoming_msg rest
          rw [if_neg (noAbort incoming_msg List.mem_cons_self)] at step
          cases step
          exact ⟨.quiet rfl (.loop pc fine exhausted), List.suffix_cons incoming_msg rest⟩
        · cases step
          exact ⟨.quiet rfl (.read rfl rfl), List.suffix_rfl⟩
      · rename_i bad
        cases step
        rw [exhausted (Bool.eq_false_iff.mpr bad), pieces_nil]
        exact ⟨.quiet rfl (.final rfl rfl), List.suffix_rfl⟩
  | read pc fine =>
      obtain ⟨progress, same⟩ := progress_read pc fine positive step
      rw [same]
      exact ⟨progress, List.suffix_rfl⟩
  | final pc fine =>
      simp only [ClientSenderSession.step, pc] at step
      cases step
      exact ⟨.called rfl (fun _ => .returned rfl) fun _ => Or.inr ⟨_, rfl⟩, List.suffix_rfl⟩
  | returned pc =>
      simp only [ClientSenderSession.step, pc] at step
      cases step

/-- A stopped session only calls once more, and stays stopped. -/
theorem Stopped.step {t : ClientSenderSession} {m_messages_in : List Message}
    {sendcb : Message → Bool} {turn : Turn ClientSenderSession} (h : t.Stopped)
    (step : t.step sha256_chunk m_messages_in sendcb {} = some turn) :
    turn.session.Stopped ∧ turn.m_messages_in = m_messages_in := by
  rcases h with ⟨pc, -⟩ | ⟨res, pc⟩
  · simp only [ClientSenderSession.step, pc] at step
    cases step
    exact ⟨Or.inr ⟨_, rfl⟩, rfl⟩
  · simp only [ClientSenderSession.step, pc] at step
    cases step

/-- No step touches the parameters of the session. -/
theorem step_parameters {t : ClientSenderSession} {m_messages_in : List Message}
    {sendcb : Message → Bool} {disk : Disk} {turn : Turn ClientSenderSession}
    (step : t.step sha256_chunk m_messages_in sendcb disk = some turn) :
    turn.session.m_max_chunk_size = t.m_max_chunk_size ∧ turn.session.m_file = t.m_file := by
  unfold ClientSenderSession.step at step
  split at step
  · split at step <;> cases step <;> exact ⟨rfl, rfl⟩
  · split at step
    · split at step
      · split at step <;> cases step <;> exact ⟨rfl, rfl⟩
      · cases step
        exact ⟨rfl, rfl⟩
    · cases step
      exact ⟨rfl, rfl⟩
  · split at step
    · cases step
    dsimp only at step
    split at step
    · split at step
      · cases step
      · split at step <;> cases step <;> exact ⟨rfl, rfl⟩
    · cases step
      exact ⟨rfl, rfl⟩
  · cases step
    exact ⟨rfl, rfl⟩
  · cases step

end ClientSenderSession

/-! ## The routine -/

namespace Sender

variable {sha256_chunk : List UInt8 → Hash} {op : Operation} {phrase : List UInt8} {m : UInt64}

/-- All that `sendRoutine` sends under the chunk limit `m`. -/
def sendings (sha256_chunk : List UInt8 → Hash) (op : Operation) (phrase : List UInt8)
    (m : UInt64) : List Message :=
  encode .Send (announcement op phrase) :: ClientSenderSession.pieces sha256_chunk m op.file

/-- What the sender relies on in the server's answers: the first is an `Accept` with the chunk limit
`m`, and none is an `Abort`. -/
structure Answers (m : UInt64) (arrived : List Message) : Prop where
  first : ∀ msg rest, arrived = msg :: rest → msg.header.id = .Accept ∧
    ∃ post left, decode .Accept msg = some (post, left) ∧ post.max_chunk_size = m
  no_abort : ∀ msg ∈ arrived, msg.header.id ≠ .Abort

/-- Where `sendRoutine` stands after the messages `arrived`. -/
inductive Inv (sha256_chunk : List UInt8 → Hash) (op : Operation) (phrase : List UInt8)
    (m : UInt64) : Sender → List Message → Prop
  | before {p : Sender} {arrived : List Message} :
    p.pc = .connecting ∨ p.pc = .validating ∨ (p.pc = .announcing ∧ p.c.Live) →
    p.c.sent = [] → p.c.m_messages_in = arrived → Inv sha256_chunk op phrase m p arrived
  | announced {p : Sender} {arrived : List Message} :
    p.pc = .waiting ∨ (p.pc = .establishing ∧ arrived ≠ []) → p.c.Live →
    p.c.sent = [encode .Send (announcement op phrase)] → p.c.m_messages_in = arrived →
    Inv sha256_chunk op phrase m p arrived
  | sending {p : Sender} {arrived : List Message} (ahead : List Message) :
    p.pc = .session → p.c.Live → arrived ≠ [] → p.session.m_max_chunk_size = m →
    p.c.m_messages_in <:+ arrived → ClientSenderSession.Ahead sha256_chunk p.session ahead →
    p.c.sent ++ ahead = sendings sha256_chunk op phrase m → Inv sha256_chunk op phrase m p arrived
  | stopped {p : Sender} {arrived : List Message} :
    p.pc = .session → p.c.m_connection.m_socket = .closed → arrived ≠ [] → p.session.Stopped →
    p.c.sent <+: sendings sha256_chunk op phrase m → Inv sha256_chunk op phrase m p arrived
  | after {p : Sender} {arrived : List Message} :
    p.pc = .confirming ∨ p.pc = .draining ∨ (∃ res, p.pc = .returned res) →
    (2 ≤ p.c.sent.length → arrived ≠ []) → p.c.sent <+: sendings sha256_chunk op phrase m →
    Inv sha256_chunk op phrase m p arrived

theorem Inv.start (chunksize : UInt64) :
    Inv sha256_chunk op phrase m { chunksize } [] :=
  .before (Or.inl rfl) rfl rfl

/-- **What has been sent is a prefix of one fixed sequence.** -/
theorem Inv.sent_isPrefix {p : Sender} {arrived : List Message}
    (h : Inv sha256_chunk op phrase m p arrived) :
    p.c.sent <+: sendings sha256_chunk op phrase m := by
  cases h with
  | before pc sent queue =>
      rw [sent]
      exact List.nil_prefix
  | announced pc live sent queue =>
      rw [sent]
      exact ⟨_, rfl⟩
  | sending ahead pc live answered limit queue going whole => exact ⟨ahead, whole⟩
  | stopped pc closed answered stopped whole => exact whole
  | after pc answered whole => exact whole

/-- Chunks are only sent after an answer. -/
theorem Inv.answered {p : Sender} {arrived : List Message}
    (h : Inv sha256_chunk op phrase m p arrived) (many : 2 ≤ p.c.sent.length) : arrived ≠ [] := by
  cases h with
  | before pc sent queue =>
      rw [sent, List.length_nil] at many
      omega
  | announced pc live sent queue =>
      rw [sent, List.length_singleton] at many
      omega
  | sending ahead pc live answered limit queue going whole => exact answered
  | stopped pc closed answered stopped whole => exact answered
  | after pc answered whole => exact answered many

/-- A message arrives. -/
theorem Inv.arrive {p : Sender} {arrived : List Message}
    (h : Inv sha256_chunk op phrase m p arrived) (msg : Message) :
    Inv sha256_chunk op phrase m { p with c := p.c.receive msg } (arrived ++ [msg]) := by
  have some_arrived : arrived ++ [msg] ≠ [] := List.append_ne_nil_of_right_ne_nil _ (by simp)
  cases h with
  | before pc sent queue =>
      refine .before ?_ sent (congrArg (· ++ [msg]) queue)
      rcases pc with pc | pc | ⟨pc, live⟩
      · exact Or.inl pc
      · exact Or.inr (Or.inl pc)
      · exact Or.inr (Or.inr ⟨pc, live.validated, live.socket⟩)
  | announced pc live sent queue =>
      refine .announced ?_ ⟨live.validated, live.socket⟩ sent (congrArg (· ++ [msg]) queue)
      rcases pc with pc | ⟨pc, -⟩
      · exact Or.inl pc
      · exact Or.inr ⟨pc, some_arrived⟩
  | sending ahead pc live answered limit queue going whole =>
      obtain ⟨consumed, queue⟩ := queue
      refine .sending ahead pc ⟨live.validated, live.socket⟩ some_arrived limit ⟨consumed, ?_⟩
        going whole
      change consumed ++ (p.c.m_messages_in ++ [msg]) = arrived ++ [msg]
      rw [← List.append_assoc, queue]
  | stopped pc closed answered stopped whole =>
      exact .stopped pc closed some_arrived stopped whole
  | after pc answered whole => exact .after pc (fun _ => some_arrived) whole

/-- Something happens to the connection. -/
theorem Inv.fade {p : Sender} {arrived : List Message} {c : FileClient}
    (h : Inv sha256_chunk op phrase m p arrived) (fades : FileClient.Fades p.c c) :
    Inv sha256_chunk op phrase m { p with c } arrived := by
  cases h with
  | before pc sent queue =>
      refine .before ?_ (fades.sent.trans sent) (fades.messages_in.trans queue)
      rcases pc with pc | pc | ⟨pc, live⟩
      · exact Or.inl pc
      · exact Or.inr (Or.inl pc)
      · exact Or.inr (Or.inr ⟨pc, fades.live live⟩)
  | announced pc live sent queue =>
      exact .announced pc (fades.live live) (fades.sent.trans sent) (fades.messages_in.trans queue)
  | sending ahead pc live answered limit queue going whole =>
      refine .sending ahead pc (fades.live live) answered limit ?_ going ?_
      · change c.m_messages_in <:+ arrived
        rw [fades.messages_in]
        exact queue
      · change c.sent ++ ahead = _
        rw [fades.sent]
        exact whole
  | stopped pc closed answered stopped whole =>
      refine .stopped pc (fades.closed closed) answered stopped ?_
      change c.sent <+: _
      rw [fades.sent]
      exact whole
  | after pc answered whole =>
      refine .after pc ?_ ?_
      · change 2 ≤ c.sent.length → arrived ≠ []
        rw [fades.sent]
        exact answered
      · change c.sent <+: _
        rw [fades.sent]
        exact whole

/-- A step of the session, and what it makes of the client. -/
theorem Inv.session_step {p : Sender} {arrived ahead : List Message}
    {turn : Turn ClientSenderSession} (live : p.c.Live)
    (answered : arrived ≠ []) (limit : p.session.m_max_chunk_size = m) (positive : 0 < m.toNat)
    (queue : p.c.m_messages_in <:+ arrived) (answers : Answers m arrived)
    (going : ClientSenderSession.Ahead sha256_chunk p.session ahead)
    (whole : p.c.sent ++ ahead = sendings sha256_chunk op phrase m)
    (step : p.session.step sha256_chunk p.c.m_messages_in (fun msg => (p.c.send msg).1) {} =
      some turn) :
    Inv sha256_chunk op phrase m
      { p with pc := .session, c := p.c.after turn, session := turn.session } arrived := by
  have no_abort : ∀ msg ∈ p.c.m_messages_in, msg.header.id ≠ .Abort :=
    fun msg member => answers.no_abort msg (queue.subset member)
  obtain ⟨progress, rest⟩ := going.step (by rw [limit]; exact positive) no_abort step
  have limit' : turn.session.m_max_chunk_size = m :=
    (ClientSenderSession.step_parameters step).1.trans limit
  have queue' : (p.c.after turn).m_messages_in <:+ arrived := by
    rw [FileClient.after_messages_in]
    exact rest.trans queue
  cases progress with
  | quiet quiet going =>
      refine .sending ahead rfl (live.after turn) answered limit' queue' going ?_
      change (p.c.after turn).sent ++ ahead = _
      rw [FileClient.after_of_quiet quiet]
      exact whole
  | @called _ msg ahead called succeeds fails =>
      have sent : (p.c.after turn).sent =
          if (p.c.send msg).1 then p.c.sent ++ [msg] else p.c.sent := by
        rw [FileClient.after_of_called called, FileClient.post_sent, FileClient.send_fst,
          FileClient.send_fst]
      cases taken : (p.c.send msg).1 with
      | true =>
          rw [taken, if_pos rfl] at sent
          refine .sending ahead rfl (live.after turn) answered limit' queue' (succeeds taken) ?_
          change (p.c.after turn).sent ++ ahead = _
          rw [sent, List.append_assoc]
          exact whole
      | false =>
          rw [taken, if_neg Bool.false_ne_true] at sent
          have closed : (p.c.after turn).m_connection.m_socket = .closed := by
            rw [FileClient.after_socket]
            exact live.closed_of_refused taken
          refine .stopped rfl closed answered (fails taken) ?_
          change (p.c.after turn).sent <+: _
          rw [sent]
          exact ⟨_, whole⟩

/-- A step up to the announcement. -/
theorem Inv.step_before {p p' : Sender} {arrived : List Message} {choice : Choice}
    (pc : p.pc = .connecting ∨ p.pc = .validating ∨ (p.pc = .announcing ∧ p.c.Live))
    (sent : p.c.sent = []) (queue : p.c.m_messages_in = arrived) (readable : choice.disk = {})
    (step : p.step sha256_chunk op phrase choice = some p') :
    Inv sha256_chunk op phrase m p' arrived := by
  have nothing : ∀ {q : Sender} {res : Bool}, q.pc = .returned res → q.c.sent = [] →
      Inv sha256_chunk op phrase m q arrived := by
    intro q res pc sent
    refine .after (Or.inr (Or.inr ⟨res, pc⟩)) (fun many => ?_) ?_
    · rw [sent, List.length_nil] at many
      omega
    · rw [sent]
      exact List.nil_prefix
  rcases pc with pc | pc | ⟨pc, live⟩
  · simp only [Sender.step, pc] at step
    split at step
    · cases step
      exact .before (Or.inr (Or.inl rfl)) sent queue
    · cases step
      exact nothing rfl sent
  · simp only [Sender.step, pc] at step
    split at step
    · rename_i ready
      obtain ⟨connected, validated⟩ := Bool.and_eq_true_iff.mp ready
      have opened : p.c.m_connection.m_socket = .opened := of_decide_eq_true connected
      cases step
      refine .before (Or.inr (Or.inr ⟨rfl, validated, ?_⟩)) sent queue
      rw [opened]
      exact Socket.noConfusion
    · cases step
      exact .before (Or.inr (Or.inl pc)) sent queue
  · simp only [Sender.step, pc, readable, if_true] at step
    have posted := p.c.post_sent (encode .Send (announcement op phrase))
    rw [sent] at posted
    split at step
    · rename_i taken
      cases step
      rw [taken, if_pos rfl] at posted
      exact .announced (Or.inl rfl) (live.post _) posted
        ((FileClient.post_messages_in _ _).trans queue)
    · rename_i refused
      cases step
      rw [if_neg refused] at posted
      exact nothing rfl posted

/-- A step between the announcement and the session. -/
theorem Inv.step_announced {p p' : Sender} {arrived : List Message} {choice : Choice}
    (pc : p.pc = .waiting ∨ (p.pc = .establishing ∧ arrived ≠ [])) (live : p.c.Live)
    (sent : p.c.sent = [encode .Send (announcement op phrase)])
    (queue : p.c.m_messages_in = arrived) (answers : Answers m arrived)
    (step : p.step sha256_chunk op phrase choice = some p') :
    Inv sha256_chunk op phrase m p' arrived := by
  rcases pc with pc | ⟨pc, some_arrived⟩
  · simp only [Sender.step, pc] at step
    split at step
    · cases step
    · rename_i msg rest nonempty
      cases step
      refine .announced (Or.inr ⟨rfl, ?_⟩) live sent queue
      rw [← queue, nonempty]
      exact List.cons_ne_nil _ _
  · obtain ⟨first, rest, heq⟩ := List.exists_cons_of_ne_nil some_arrived
    obtain ⟨accept, post, left, decoded, limit⟩ := answers.first first rest heq
    simp only [Sender.step, pc, queue, heq, establish, accept, decoded] at step
    cases step
    refine .sending _ rfl ⟨live.validated, live.socket⟩ some_arrived limit ?_
      (.start rfl rfl) ?_
    · rw [heq]
      exact List.suffix_cons first rest
    · change p.c.sent ++ ClientSenderSession.pieces sha256_chunk post.max_chunk_size op.file = _
      rw [sent, limit]
      rfl

/-- Behind the session nothing is sent. -/
theorem Inv.step_after {p p' : Sender} {arrived : List Message} {choice : Choice}
    (pc : p.pc = .confirming ∨ p.pc = .draining ∨ (∃ res, p.pc = .returned res))
    (answered : 2 ≤ p.c.sent.length → arrived ≠ [])
    (whole : p.c.sent <+: sendings sha256_chunk op phrase m)
    (step : p.step sha256_chunk op phrase choice = some p') :
    Inv sha256_chunk op phrase m p' arrived := by
  rcases pc with pc | pc | ⟨res, pc⟩
  · simp only [Sender.step, pc] at step
    split at step <;> cases step
    · exact .after (Or.inl pc) answered whole
    · exact .after (Or.inr (Or.inl rfl)) answered whole
  · simp only [Sender.step, pc] at step
    split at step
    · cases step
      exact .after (Or.inl rfl) answered whole
    · cases step
      unfold confirm
      split
      · exact .after (Or.inr (Or.inr ⟨_, rfl⟩)) answered whole
      · split
        · exact .after (Or.inr (Or.inr ⟨_, rfl⟩)) answered whole
        · exact .after (Or.inr (Or.inl pc)) answered whole
  · simp only [Sender.step, pc] at step
    cases step

/-- **One step of the routine**, with a file that can be read. -/
theorem Inv.step {p p' : Sender} {arrived : List Message} {choice : Choice}
    (h : Inv sha256_chunk op phrase m p arrived) (positive : 0 < m.toNat)
    (answers : Answers m arrived) (readable : choice.disk = {})
    (step : p.step sha256_chunk op phrase choice = some p') :
    Inv sha256_chunk op phrase m p' arrived := by
  cases h with
  | before pc sent queue => exact .step_before pc sent queue readable step
  | announced pc live sent queue => exact .step_announced pc live sent queue answers step
  | sending ahead pc live answered limit queue going whole =>
      simp only [Sender.step, pc] at step
      split at step
      · cases step
        exact .after (Or.inl rfl) (fun _ => answered) ⟨ahead, whole⟩
      · cases step
        exact .after (Or.inr (Or.inr ⟨_, rfl⟩)) (fun _ => answered) ⟨ahead, whole⟩
      · obtain ⟨turn, stepped, rfl⟩ := Option.map_eq_some_iff.mp step
        rw [readable] at stepped
        exact .session_step live answered limit positive queue answers going whole stepped
  | stopped pc closed answered stopped whole =>
      simp only [Sender.step, pc] at step
      split at step
      · cases step
        exact .after (Or.inl rfl) (fun _ => answered) whole
      · cases step
        exact .after (Or.inr (Or.inr ⟨_, rfl⟩)) (fun _ => answered) whole
      · obtain ⟨turn, stepped, rfl⟩ := Option.map_eq_some_iff.mp step
        rw [readable] at stepped
        refine .stopped rfl ?_ answered (stopped.step stepped).1 ?_
        · exact (p.c.after_socket turn).trans closed
        · change (p.c.after turn).sent <+: _
          rw [p.c.after_sent_of_closed turn closed]
          exact whole
  | after pc answered whole => exact .step_after pc answered whole step

end Sender

end PingPong
