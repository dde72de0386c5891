import PingPong.Client.MainLoop
import PingPong.Net.Look

/-!
# The steps of the routines

`Sender.Transition` and `Receiver.Transition` list what one step of `sendRoutine` and of
`receiveRoutine` can do, with everything it has looked at; a step of a session is listed in
`MainLoop`.  No step sends more than one message (`step_sends`).
-/

namespace PingPong

open Common Net

namespace FileClient

theorem post_sends (c : FileClient) (msg : Message) :
    c.m_connection.Sends (c.post msg).m_connection := by
  rw [post_connection]
  exact c.m_connection.sends_send msg

theorem after_sends {σ : Type} (c : FileClient) (turn : Turn σ) :
    c.m_connection.Sends (c.after turn).m_connection := by
  cases call : turn.call with
  | none =>
      rw [after_of_quiet call]
      exact .refl c.m_connection
  | some msg =>
      rw [after_of_called call]
      exact post_sends { c with m_messages_in := turn.m_messages_in } msg

end FileClient

/-! ## `sendRoutine` -/

namespace ClientSenderSession

theorem step_queue {sha256_chunk : List UInt8 → Hash} {t : ClientSenderSession}
    {m_messages_in : List Message} {sendcb : Message → Bool} {disk : Disk}
    {turn : Turn ClientSenderSession}
    (step : t.step sha256_chunk m_messages_in sendcb disk = some turn) :
    turn.m_messages_in <:+ m_messages_in := by
  unfold ClientSenderSession.step at step
  split at step
  · split at step <;> cases step <;> exact List.suffix_rfl
  · split at step
    · split at step
      · split at step <;> cases step <;> exact List.suffix_cons _ _
      · cases step
        exact List.suffix_rfl
    · cases step
      exact List.suffix_rfl
  · split at step
    · cases step
    dsimp only at step
    split at step
    · split at step
      · cases step
      split at step <;> cases step <;> exact List.suffix_rfl
    · cases step
      exact List.suffix_rfl
  · cases step
    exact List.suffix_rfl
  · cases step

end ClientSenderSession

namespace Sender

/-- One step, with what it needs. -/
inductive Transition (sha256_chunk : List UInt8 → Hash) (op : Operation) (phrase : List UInt8)
    (p : Sender) (choice : Choice) : Sender → Prop
  | connects : p.pc = .connecting → choice.connects = true →
    Transition sha256_chunk op phrase p choice { p with pc := .validating }
  | unreachable : p.pc = .connecting → choice.connects = false →
    Transition sha256_chunk op phrase p choice { p with pc := .returned false }
  | ready : p.pc = .validating → p.c.isConnected = true → p.c.isValidated = true →
    Transition sha256_chunk op phrase p choice { p with pc := .announcing }
  | polls : p.pc = .validating → p.c.isConnected = false ∨ p.c.isValidated = false →
    Transition sha256_chunk op phrase p choice p
  | announces : p.pc = .announcing → choice.disk.found = true →
    (p.c.send (encode .Send (announcement op phrase))).1 = true →
    Transition sha256_chunk op phrase p choice
      { p with pc := .waiting, c := p.c.post (encode .Send (announcement op phrase)) }
  | unannounced : p.pc = .announcing → choice.disk.found = true →
    (p.c.send (encode .Send (announcement op phrase))).1 = false →
    Transition sha256_chunk op phrase p choice
      { p with pc := .returned false, c := p.c.post (encode .Send (announcement op phrase)) }
  | missing : p.pc = .announcing → choice.disk.found = false →
    Transition sha256_chunk op phrase p choice { p with pc := .returned false }
  | wakes : p.pc = .waiting → p.c.m_messages_in ≠ [] →
    Transition sha256_chunk op phrase p choice { p with pc := .establishing }
  | unanswered : p.pc = .establishing → p.c.m_messages_in = [] →
    Transition sha256_chunk op phrase p choice (p.startSession op)
  | rejected (msg : Message) (rest : List Message) : p.pc = .establishing →
    p.c.m_messages_in = msg :: rest → msg.header.id = .Reject →
    Transition sha256_chunk op phrase p choice { p.popped rest with pc := .returned false }
  | accepted (msg left : Message) (rest : List Message) (post : PostMetadata) :
    p.pc = .establishing → p.c.m_messages_in = msg :: rest → msg.header.id = .Accept →
    decode .Accept msg = some (post, left) →
    Transition sha256_chunk op phrase p choice
      (startSession { p.popped rest with chunksize := post.max_chunk_size } op)
  | skipped (msg : Message) (rest : List Message) : p.pc = .establishing →
    p.c.m_messages_in = msg :: rest → msg.header.id ≠ .Reject → msg.header.id ≠ .Accept →
    Transition sha256_chunk op phrase p choice (p.popped rest)
  | sent : p.pc = .session → p.session.pc = .returned true →
    Transition sha256_chunk op phrase p choice { p with pc := .confirming }
  | failed : p.pc = .session → p.session.pc = .returned false →
    Transition sha256_chunk op phrase p choice { p with pc := .returned false }
  | session (turn : Turn ClientSenderSession) : p.pc = .session →
    p.session.step sha256_chunk p.c.m_messages_in (fun msg => (p.c.send msg).1) choice.disk =
      some turn →
    Transition sha256_chunk op phrase p choice
      { p with c := p.c.after turn, session := turn.session }
  | waits : p.pc = .confirming → p.c.isConnected = true → p.c.m_messages_in = [] →
    Transition sha256_chunk op phrase p choice p
  | looks : p.pc = .confirming → p.c.isConnected = false ∨ p.c.m_messages_in ≠ [] →
    Transition sha256_chunk op phrase p choice { p with pc := .draining }
  | emptied : p.pc = .draining → p.c.m_messages_in = [] →
    Transition sha256_chunk op phrase p choice { p with pc := .confirming }
  | aborted (msg : Message) (rest : List Message) : p.pc = .draining →
    p.c.m_messages_in = msg :: rest → msg.header.id = .Abort →
    Transition sha256_chunk op phrase p choice { p.popped rest with pc := .returned false }
  | confirmed (msg : Message) (rest : List Message) : p.pc = .draining →
    p.c.m_messages_in = msg :: rest → msg.header.id = .Success →
    Transition sha256_chunk op phrase p choice { p.popped rest with pc := .returned true }
  | passed (msg : Message) (rest : List Message) : p.pc = .draining →
    p.c.m_messages_in = msg :: rest → msg.header.id ≠ .Abort → msg.header.id ≠ .Success →
    Transition sha256_chunk op phrase p choice (p.popped rest)

variable {sha256_chunk : List UInt8 → Hash} {op : Operation} {phrase : List UInt8}
  {p p' : Sender} {choice : Choice}

theorem establish_steps {msg : Message} {rest : List Message} (pc : p.pc = .establishing)
    (front : p.c.m_messages_in = msg :: rest) (step : (p.popped rest).establish op msg = some p') :
    Transition sha256_chunk op phrase p choice p' := by
  unfold establish at step
  split at step
  · rename_i reject
    cases step
    exact .rejected msg rest pc front reject
  rename_i reject
  split at step
  · rename_i accept
    obtain ⟨⟨post, left⟩, decoded, step⟩ := Option.bind_eq_some_iff.mp step
    cases step
    exact .accepted msg left rest post pc front accept decoded
  · rename_i accept
    cases step
    exact .skipped msg rest pc front reject accept

theorem confirm_steps {msg : Message} {rest : List Message} (pc : p.pc = .draining)
    (front : p.c.m_messages_in = msg :: rest) :
    Transition sha256_chunk op phrase p choice ((p.popped rest).confirm msg) := by
  unfold confirm
  split
  · rename_i abort
    exact .aborted msg rest pc front abort
  rename_i abort
  split
  · rename_i success
    exact .confirmed msg rest pc front success
  · rename_i success
    exact .passed msg rest pc front abort success

theorem step_transition (step : p.step sha256_chunk op phrase choice = some p') :
    Transition sha256_chunk op phrase p choice p' := by
  unfold Sender.step at step
  split at step
  · rename_i pc
    split at step <;> cases step
    · rename_i connects
      exact .connects pc connects
    · rename_i connects
      exact .unreachable pc (Bool.eq_false_iff.mpr connects)
  · rename_i pc
    split at step <;> cases step
    · rename_i ready
      obtain ⟨connected, validated⟩ := Bool.and_eq_true_iff.mp ready
      exact .ready pc connected validated
    · rename_i unready
      exact .polls pc (Bool.and_eq_false_iff.mp (Bool.eq_false_iff.mpr unready))
  · rename_i pc
    split at step
    · rename_i found
      dsimp only at step
      split at step <;> cases step
      · rename_i taken
        exact .announces pc found taken
      · rename_i refused
        exact .unannounced pc found (Bool.eq_false_iff.mpr refused)
    · rename_i found
      cases step
      exact .missing pc (Bool.eq_false_iff.mpr found)
  · rename_i pc
    split at step <;> cases step
    rename_i msg rest front
    refine .wakes pc ?_
    rw [front]
    exact List.cons_ne_nil _ _
  · rename_i pc
    split at step
    · rename_i none
      cases step
      exact .unanswered pc none
    · rename_i msg rest front
      exact establish_steps pc front step
  · rename_i pc
    split at step
    · rename_i returned
      cases step
      exact .sent pc returned
    · rename_i returned
      cases step
      exact .failed pc returned
    · obtain ⟨turn, stepped, rfl⟩ := Option.map_eq_some_iff.mp step
      exact .session turn pc stepped
  · rename_i pc
    split at step <;> cases step
    · rename_i quiet
      obtain ⟨connected, empty⟩ := Bool.and_eq_true_iff.mp quiet
      exact .waits pc connected (List.isEmpty_iff.mp empty)
    · rename_i awake
      refine .looks pc ((Bool.and_eq_false_iff.mp (Bool.eq_false_iff.mpr awake)).imp id ?_)
      intro some_in none
      rw [none] at some_in
      cases some_in
  · rename_i pc
    split at step
    · rename_i none
      cases step
      exact .emptied pc none
    · rename_i msg rest front
      cases step
      exact confirm_steps pc front
  · cases step

/-- A step only takes messages off the front of the queue. -/
theorem step_queue (step : p.step sha256_chunk op phrase choice = some p') :
    p'.c.m_messages_in <:+ p.c.m_messages_in := by
  cases step_transition step with
  | announces | unannounced =>
      have kept := p.c.post_messages_in (encode .Send (announcement op phrase))
      exact ⟨[], kept⟩
  | rejected msg rest pc front | accepted msg left rest post pc front | skipped msg rest pc front
  | aborted msg rest pc front | confirmed msg rest pc front | passed msg rest pc front =>
      rw [front]
      exact List.suffix_cons msg rest
  | session turn pc stepped =>
      rw [FileClient.after_messages_in]
      exact ClientSenderSession.step_queue stepped
  | _ => exact List.suffix_rfl

theorem step_sends (step : p.step sha256_chunk op phrase choice = some p') :
    p.c.m_connection.Sends p'.c.m_connection := by
  cases step_transition step with
  | announces | unannounced => exact p.c.post_sends _
  | session turn pc stepped => exact p.c.after_sends turn
  | _ => exact .refl p.c.m_connection

/-- Only `Success` makes `sendRoutine` return true. -/
theorem step_returned (step : p.step sha256_chunk op phrase choice = some p')
    (returned : p'.pc = .returned true) :
    ∃ msg ∈ p.c.m_messages_in, msg.header.id = .Success := by
  cases step_transition step with
  | confirmed msg rest pc front success =>
      refine ⟨msg, ?_, success⟩
      rw [front]
      exact List.mem_cons_self
  | polls pc | waits pc | skipped msg rest pc | session turn pc | passed msg rest pc =>
      have same : p.pc = .returned true := returned
      rw [pc] at same
      cases same
  | _ => cases returned

end Sender

/-! ## `receiveRoutine` -/

namespace Receiver

/-- One step, with what it needs. -/
inductive Transition (sha256_chunk : List UInt8 → Hash) (op : Operation) (unset : Unset)
    (p : Receiver) (choice : Choice) : Receiver → Prop
  | connects : p.pc = .connecting → choice.connects = true →
    Transition sha256_chunk op unset p choice { p with pc := .validating }
  | unreachable : p.pc = .connecting → choice.connects = false →
    Transition sha256_chunk op unset p choice { p with pc := .returned false }
  | ready : p.pc = .validating → p.c.isConnected = true → p.c.isValidated = true →
    Transition sha256_chunk op unset p choice { p with pc := .requesting }
  | polls : p.pc = .validating → p.c.isConnected = false ∨ p.c.isValidated = false →
    Transition sha256_chunk op unset p choice p
  | requests : p.pc = .requesting →
    Transition sha256_chunk op unset p choice
      { p with pc := .waiting, c := p.c.post (encode .RequestReceive (request op unset)) }
  | wakes : p.pc = .waiting → p.c.m_messages_in ≠ [] →
    Transition sha256_chunk op unset p choice { p with pc := .establishing }
  | unanswered : p.pc = .establishing → p.c.m_messages_in = [] →
    Transition sha256_chunk op unset p choice { p with pc := .asking }
  | rejected (msg : Message) (rest : List Message) : p.pc = .establishing →
    p.c.m_messages_in = msg :: rest → msg.header.id = .Reject →
    Transition sha256_chunk op unset p choice { p.popped rest with pc := .returned false }
  | offered (msg left : Message) (rest : List Message) (post : PostMetadata) :
    p.pc = .establishing → p.c.m_messages_in = msg :: rest → msg.header.id = .Accept →
    decode .Accept msg = some (post, left) →
    Transition sha256_chunk op unset p choice { p.popped rest with pc := .asking }
  | skipped (msg : Message) (rest : List Message) : p.pc = .establishing →
    p.c.m_messages_in = msg :: rest → msg.header.id ≠ .Reject → msg.header.id ≠ .Accept →
    Transition sha256_chunk op unset p choice (p.popped rest)
  | accepts : p.pc = .asking → choice.accepts = true →
    Transition sha256_chunk op unset p choice { p with pc := .starting }
  | declines : p.pc = .asking → choice.accepts = false →
    Transition sha256_chunk op unset p choice { p with pc := .returned true }
  | starts : p.pc = .starting →
    Transition sha256_chunk op unset p choice
      { p with
        pc := .session
        c := p.c.post (encode .Receive (codePhrase op.receival_code_phrase)) }
  | received : p.pc = .session → p.session.pc = .returned true →
    Transition sha256_chunk op unset p choice { p with pc := .finishing }
  | failed : p.pc = .session → p.session.pc = .returned false →
    Transition sha256_chunk op unset p choice { p with pc := .returned false }
  | session (turn : Turn ClientReceiverSession) : p.pc = .session →
    p.session.step sha256_chunk p.c.m_messages_in choice.disk = some turn →
    Transition sha256_chunk op unset p choice
      { p with c := p.c.after turn, session := turn.session }
  | finishes : p.pc = .finishing →
    Transition sha256_chunk op unset p choice
      { p with pc := .flushing, c := p.c.post (encode .FinishReceive {}) }
  | flushes : p.pc = .flushing → p.c.isConnected = true →
    Transition sha256_chunk op unset p choice { p with pc := .awaiting }
  | disconnected : p.pc = .flushing → p.c.isConnected = false →
    Transition sha256_chunk op unset p choice { p with pc := .returned true }
  | flushed : p.pc = .awaiting → choice.flushed = true →
    Transition sha256_chunk op unset p choice { p with pc := .returned true }

variable {sha256_chunk : List UInt8 → Hash} {op : Operation} {unset : Unset}
  {p p' : Receiver} {choice : Choice}

theorem establish_steps {msg : Message} {rest : List Message} (pc : p.pc = .establishing)
    (front : p.c.m_messages_in = msg :: rest) (step : (p.popped rest).establish msg = some p') :
    Transition sha256_chunk op unset p choice p' := by
  unfold establish at step
  split at step
  · rename_i reject
    cases step
    exact .rejected msg rest pc front reject
  rename_i reject
  split at step
  · rename_i accept
    obtain ⟨⟨post, left⟩, decoded, step⟩ := Option.bind_eq_some_iff.mp step
    cases step
    exact .offered msg left rest post pc front accept decoded
  · rename_i accept
    cases step
    exact .skipped msg rest pc front reject accept

theorem step_transition (step : p.step sha256_chunk op unset choice = some p') :
    Transition sha256_chunk op unset p choice p' := by
  unfold Receiver.step at step
  split at step
  · rename_i pc
    split at step <;> cases step
    · rename_i connects
      exact .connects pc connects
    · rename_i connects
      exact .unreachable pc (Bool.eq_false_iff.mpr connects)
  · rename_i pc
    split at step <;> cases step
    · rename_i ready
      obtain ⟨connected, validated⟩ := Bool.and_eq_true_iff.mp ready
      exact .ready pc connected validated
    · rename_i unready
      exact .polls pc (Bool.and_eq_false_iff.mp (Bool.eq_false_iff.mpr unready))
  · rename_i pc
    cases step
    exact .requests pc
  · rename_i pc
    split at step <;> cases step
    rename_i msg rest front
    refine .wakes pc ?_
    rw [front]
    exact List.cons_ne_nil _ _
  · rename_i pc
    split at step
    · rename_i none
      cases step
      exact .unanswered pc none
    · rename_i msg rest front
      exact establish_steps pc front step
  · rename_i pc
    split at step <;> cases step
    · rename_i accepts
      exact .accepts pc accepts
    · rename_i accepts
      exact .declines pc (Bool.eq_false_iff.mpr accepts)
  · rename_i pc
    cases step
    exact .starts pc
  · rename_i pc
    split at step
    · rename_i returned
      cases step
      exact .received pc returned
    · rename_i returned
      cases step
      exact .failed pc returned
    · obtain ⟨turn, stepped, rfl⟩ := Option.map_eq_some_iff.mp step
      exact .session turn pc stepped
  · rename_i pc
    cases step
    exact .finishes pc
  · rename_i pc
    split at step <;> cases step
    · rename_i connected
      exact .flushes pc connected
    · rename_i connected
      exact .disconnected pc (Bool.eq_false_iff.mpr connected)
  · rename_i pc
    split at step <;> cases step
    rename_i flushed
    exact .flushed pc flushed
  · cases step

theorem step_sends (step : p.step sha256_chunk op unset choice = some p') :
    p.c.m_connection.Sends p'.c.m_connection := by
  cases step_transition step with
  | requests | starts | finishes => exact p.c.post_sends _
  | session turn pc stepped => exact p.c.after_sends turn
  | _ => exact .refl p.c.m_connection

end Receiver

end PingPong
