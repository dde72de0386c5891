import PingPong.Client.Waiting
import PingPong.Server.Emission
import PingPong.Server.ReceiverAnswers
import PingPong.Server.SenderAnswers

/-!
# The languages of the protocol

`establishSession` of the sender takes the first message to be an answer, and goes on with whatever
chunk size it has if the queue runs empty before an `Accept`.  Among what the server sends to a
sender, an `Accept` comes first, so that does not happen (`Sender.established`).
`protocol_languages` collects what each role is sent.
-/

namespace PingPong

open Common Net

/-! ## The sender's `establishSession` -/

/-- What arrives in a run of a client. -/
def FileClient.arrivals (inputs : List FileClient.Input) : List Message :=
  inputs.filterMap fun
    | .arrive msg => some msg
    | _ => none

namespace Sender

variable {sha256_chunk : List UInt8 → Hash} {op : Operation} {phrase : List UInt8}
  {chunksize m : UInt64}

/-- `establishSession` has returned true. -/
def Pc.Established : Pc → Prop
  | .session => True
  | .confirming => True
  | .draining => True
  | _ => False

/-- Up to the first answer nothing has been taken from the queue; after it, the chunk size is that
of the answer. -/
def Awaits (m : UInt64) (p : Sender) (arrived : List Message) : Prop :=
  match p.pc with
  | .session => p.chunksize = m
  | .confirming => p.chunksize = m
  | .draining => p.chunksize = m
  | .returned _ => True
  | .establishing => p.c.m_messages_in = arrived ∧ arrived ≠ []
  | _ => p.c.m_messages_in = arrived

theorem Awaits.step {p p' : Sender} {arrived : List Message} {choice : Choice}
    (h : Awaits m p arrived) (answers : Answers m arrived)
    (step : p.step sha256_chunk op phrase choice = some p') : Awaits m p' arrived := by
  unfold Awaits at h
  cases pc : p.pc with
  | connecting =>
      simp only [pc] at h
      simp only [Sender.step, pc] at step
      split at step <;> cases step
      · exact h
      · trivial
  | validating =>
      simp only [pc] at h
      simp only [Sender.step, pc] at step
      split at step <;> cases step
      · exact h
      · simpa only [Awaits, pc] using h
  | announcing =>
      simp only [pc] at h
      simp only [Sender.step, pc] at step
      split at step
      · split at step <;> cases step
        · exact (FileClient.post_messages_in _ _).trans h
        · trivial
      · cases step
        trivial
  | waiting =>
      simp only [pc] at h
      simp only [Sender.step, pc] at step
      split at step
      · cases step
      · rename_i nonempty
        cases step
        refine ⟨h, ?_⟩
        rw [← h, nonempty]
        exact List.cons_ne_nil _ _
  | establishing =>
      simp only [pc] at h
      obtain ⟨queue, some_arrived⟩ := h
      obtain ⟨first, rest, heq⟩ := List.exists_cons_of_ne_nil some_arrived
      obtain ⟨accept, post, left, decoded, limit⟩ := answers.first first rest heq
      simp only [Sender.step, pc, queue, heq, establish, accept, decoded] at step
      cases step
      exact limit
  | session =>
      simp only [pc] at h
      simp only [Sender.step, pc] at step
      split at step
      · cases step
        exact h
      · cases step
        trivial
      · obtain ⟨turn, -, rfl⟩ := Option.map_eq_some_iff.mp step
        simpa only [Awaits, pc] using h
  | confirming =>
      simp only [pc] at h
      simp only [Sender.step, pc] at step
      split at step <;> cases step
      · simpa only [Awaits, pc] using h
      · exact h
  | draining =>
      simp only [pc] at h
      simp only [Sender.step, pc] at step
      split at step
      · cases step
        exact h
      · cases step
        unfold confirm
        split
        · trivial
        · split
          · trivial
          · simpa only [Awaits, popped, pc] using h
  | returned res =>
      simp only [Sender.step, pc] at step
      cases step

theorem Awaits.congr {p p' : Sender} {arrived : List Message} (h : Awaits m p arrived)
    (pc : p'.pc = p.pc) (chunksize : p'.chunksize = p.chunksize)
    (queue : p'.c.m_messages_in = p.c.m_messages_in) : Awaits m p' arrived := by
  unfold Awaits at *
  rw [pc, chunksize, queue]
  exact h

theorem Awaits.arrive {p : Sender} {arrived : List Message} (h : Awaits m p arrived)
    (msg : Message) : Awaits m { p with c := p.c.receive msg } (arrived ++ [msg]) := by
  have grows : p.c.m_messages_in = arrived →
      (p.c.receive msg).m_messages_in = arrived ++ [msg] := congrArg (· ++ [msg])
  unfold Awaits at *
  cases pc : p.pc with
  | establishing =>
      simp only [pc] at h ⊢
      exact ⟨grows h.1, List.append_ne_nil_of_left_ne_nil h.2 _⟩
  | connecting | validating | announcing | waiting =>
      simp only [pc] at h ⊢
      exact grows h
  | session | confirming | draining =>
      simp only [pc] at h ⊢
      exact h
  | returned res => trivial

theorem Answers.of_isPrefix {arrived later : List Message} (h : Answers m later)
    (earlier : arrived <+: later) : Answers m arrived := by
  obtain ⟨more, rfl⟩ := earlier
  constructor
  · intro msg rest same
    obtain rfl := same
    exact h.first msg (rest ++ more) rfl
  · intro msg member
    exact h.no_abort msg (List.mem_append_left more member)

/-- **`establishSession` returns with the chunk size of the server's answer.** -/
theorem established {inputs : List FileClient.Input} {p : Sender}
    (run : (lts sha256_chunk op phrase chunksize).run inputs = some p)
    (answers : Answers m (FileClient.arrivals inputs)) (established : p.pc.Established) :
    p.chunksize = m := by
  have awaits : Answers m (FileClient.arrivals inputs) →
      Awaits m p (FileClient.arrivals inputs) := by
    apply Lts.run_induct (M := lts sha256_chunk op phrase chunksize)
      (P := fun inputs p => Answers m (FileClient.arrivals inputs) →
        Awaits m p (FileClient.arrivals inputs)) _ _ run
    · exact fun _ => rfl
    · intro inputs p i p' _ ih step answers
      have append : FileClient.arrivals (inputs ++ [i]) =
          FileClient.arrivals inputs ++ FileClient.arrivals [i] := List.filterMap_append
      rw [append] at answers ⊢
      have before := ih (answers.of_isPrefix (List.prefix_append _ _))
      cases i with
      | own choice =>
          rw [show FileClient.arrivals [.own choice] = [] from rfl, List.append_nil] at answers ⊢
          exact before.step answers step
      | event e =>
          rw [show FileClient.arrivals [.event e] = [] from rfl, List.append_nil]
          obtain ⟨c, happens, rfl⟩ := Option.map_eq_some_iff.mp step
          exact before.congr rfl rfl (FileClient.on_fades happens).messages_in
      | arrive msg =>
          cases step
          exact before.arrive msg
  have awaits := awaits answers
  unfold Awaits at awaits
  cases pc : p.pc with
  | session | confirming | draining =>
      simp only [pc] at awaits
      exact awaits
  | connecting | validating | announcing | waiting | establishing | returned res =>
      rw [pc] at established
      exact established.elim

end Sender

/-! ## The languages -/

namespace FileServer

variable {κ : Type} [DecidableEq κ]

/-- Among the answers to a sender, an `Accept` that can be decoded comes first, and there is no
`Abort`. -/
theorem SenderAnswers.answers {srv : FileServer κ} (reachable : Reachable srv) {c : κ}
    (h : SenderAnswers (srv.idsTo c)) : Sender.Answers m_max_chunk_size (srv.sentTo c) := by
  constructor
  · intro msg rest heq
    have kind : msg.header.id = .Accept := by
      have ids : srv.idsTo c = msg.header.id :: rest.map fun m => m.header.id := by
        rw [idsTo, heq]
        rfl
      rcases h with none | ⟨n, last, told, -⟩
      · rw [ids] at none
        cases none
      · rw [ids, List.replicate_succ] at told
        exact (List.cons.inj told).1
    obtain ⟨post, left, decoded, -, limit, -⟩ := (emits_decodable reachable c msg
      (by rw [heq]; exact List.mem_cons_self)).accept kind
    exact ⟨kind, post, left, decoded, limit⟩
  · intro msg member abort
    have told : .Abort ∈ srv.idsTo c := abort ▸ List.mem_map_of_mem member
    rcases h with none | ⟨n, last, ids, none | success⟩
    · rw [none] at told
      exact List.not_mem_nil told
    · rw [ids, none, List.append_nil] at told
      cases List.eq_of_mem_replicate told
    · rw [ids, success] at told
      rcases List.mem_append.mp told with accept | success
      · cases List.eq_of_mem_replicate accept
      · cases List.mem_singleton.mp success

/-- **The language of each role.**  A sender is told `Accept`, any number of times, and then at most
once `Success`; so `establishSession` leaves it with the server's chunk size, whatever part of that
has arrived.  A receiver gets one answer to its request, unless it has closed, and then a part of a
file and at most one `Abort`. -/
theorem protocol_languages {es : List (Event κ)} {srv : FileServer κ}
    (run : (lts κ).run es = some srv) :
    (∀ c, SenderRole c es → SenderAnswers (srv.idsTo c) ∧
      ∀ sha256_chunk op phrase chunksize inputs p,
        (Sender.lts sha256_chunk op phrase chunksize).run inputs = some p →
        FileClient.arrivals inputs <+: srv.sentTo c →
        p.pc.Established → p.chunksize = m_max_chunk_size) ∧
    ∀ r, ReceiverRole r es → ReceiverAnswers (srv.idsTo r) ∧
      (idsFrom r es = [] → srv.idsTo r = []) ∧
      (idsFrom r es ≠ [] → srv.idsTo r ≠ [] ∨ (srv.conn r).m_socket = .closed) := by
  constructor
  · intro c role
    have language := sender_answers run role
    refine ⟨language, fun sha256_chunk op phrase chunksize inputs p ran arrived established => ?_⟩
    have answers := language.answers ⟨es, run⟩
    exact Sender.established ran (answers.of_isPrefix arrived) established
  · exact fun r role => receiver_answers run role

/-! ## Two clients in their roles -/

/-- Client 0 announces a file, and client 1 asks for it. -/
def offeredEvents : List (Event Nat) :=
  [.accept 0, .validate 0, .accept 1, .validate 1,
    .message 0 ⟨encode .Send ⟨.File, ⟨1, [7]⟩, ⟨3, 1, [8]⟩⟩, send_framed⟩,
    .message 1 ⟨encode .RequestReceive ⟨.File, ⟨1, [7]⟩, ⟨0, 0, []⟩⟩, request_framed⟩]

def offered : FileServer Nat := ((lts Nat).run offeredEvents).get (by decide)

/-- Client 1 then receives it. -/
def acceptedEvents : List (Event Nat) :=
  offeredEvents ++ [.message 1 ⟨encode .Receive ⟨1, [7]⟩, receive_framed⟩]

def accepted : FileServer Nat := ((lts Nat).run acceptedEvents).get (by decide)

theorem accepted_senderRole : SenderRole 0 acceptedEvents := by
  refine ⟨⟨[], ⟨[], by decide⟩, fun id member => (List.not_mem_nil member).elim⟩, ?_⟩
  intro srv msg srv' taken notSend
  obtain ⟨before, after, heq, -⟩ := taken
  have member : Event.message 0 msg ∈ acceptedEvents := by
    rw [heq]
    exact List.mem_append_right before List.mem_cons_self
  simp only [acceptedEvents, offeredEvents, List.cons_append, List.nil_append, List.mem_cons,
    List.not_mem_nil, Event.message.injEq, reduceCtorEq, false_or, or_false] at member
  rcases member with ⟨-, rfl⟩ | ⟨wrong, -⟩ | ⟨wrong, -⟩
  · exact (notSend (encode_id _ _)).elim
  · cases wrong
  · cases wrong

theorem accepted_receiverRole : ReceiverRole 1 acceptedEvents := by
  refine ⟨Or.inl ⟨[.FinishReceive], by decide⟩, ?_⟩
  intro srv msg srv' taken notRequest
  have run : (lts Nat).run offeredEvents = some offered := (Option.some_get _).symm
  have last : (lts Nat).step offered (.message 1 ⟨encode .Receive ⟨1, [7]⟩, receive_framed⟩) =
      some accepted := by
    have whole : (lts Nat).run acceptedEvents = some accepted := (Option.some_get _).symm
    rw [acceptedEvents, Lts.run_snoc, run] at whole
    exact whole
  rcases (Lts.takes_snoc run last).mp taken with ⟨before, after, heq, -⟩ | ⟨rfl, -, -⟩
  · have member : Event.message 1 msg ∈ offeredEvents := by
      rw [heq]
      exact List.mem_append_right before List.mem_cons_self
    simp only [offeredEvents, List.mem_cons, List.not_mem_nil, Event.message.injEq, reduceCtorEq,
      false_or, or_false] at member
    rcases member with ⟨wrong, -⟩ | ⟨-, rfl⟩
    · cases wrong
    · exact (notRequest (encode_id _ _)).elim
  · decide

/-- The session is open: the sender has its `Accept`, and the receiver has had one. -/
theorem protocol_languages_accepted :
    SenderAnswers (accepted.idsTo 0) ∧ ReceiverAnswers (accepted.idsTo 1) ∧
      accepted.idsTo 0 = [.Accept] ∧ accepted.idsTo 1 = [.Accept] := by
  obtain ⟨senders, receivers⟩ :=
    @protocol_languages Nat _ acceptedEvents accepted (Option.some_get _).symm
  exact ⟨(senders 0 accepted_senderRole).1, (receivers 1 accepted_receiverRole).1, by decide,
    by decide⟩

end FileServer

end PingPong
