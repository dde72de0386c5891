import PingPong.Client.Cutting
import PingPong.Client.Receiver

/-!
# What the receiver writes

As long as the output can be written, and the `Chunk` and `FinalChunk` messages that arrive are a
prefix of the pieces of one file, the receiver writes that file.

* `ClientReceiverSession.Rebuilds`: what the session has made of the messages it has consumed.
* `Receiver.Inv`: where `receiveRoutine` stands after the messages `arrived`.  It sends three
  messages in order, the last of them only once `mainLoop` has returned true and the file is whole
  (`Receiver.Inv.rebuilt`).
-/

namespace PingPong

open Common Net

/-! ## Messages that make up a file -/

def carriesFile (msg : Message) : Bool := msg.header.id = .Chunk || msg.header.id = .FinalChunk

def fileMessages (msgs : List Message) : List Message := msgs.filter carriesFile

theorem fileMessages_append (xs ys : List Message) :
    fileMessages (xs ++ ys) = fileMessages xs ++ fileMessages ys := List.filter_append xs ys

theorem fileMessages_of_carries {msg : Message} (h : carriesFile msg) :
    fileMessages [msg] = [msg] := List.filter_cons_of_pos h

theorem fileMessages_of_other {msg : Message} (chunk : msg.header.id ≠ .Chunk)
    (final : msg.header.id ≠ .FinalChunk) : fileMessages [msg] = [] := by
  have other : ¬ carriesFile msg = true := by
    unfold carriesFile
    rw [decide_eq_false chunk, decide_eq_false final]
    exact Bool.false_ne_true
  exact List.filter_cons_of_neg other

theorem fileMessages_ne_nil {msgs : List Message} {msg : Message} (member : msg ∈ msgs)
    (carries : carriesFile msg) : fileMessages msgs ≠ [] :=
  List.ne_nil_of_mem (List.mem_filter.mpr ⟨member, carries⟩)

theorem fileMessages_isPrefix {xs ys : List Message} (h : xs <+: ys) :
    fileMessages xs <+: fileMessages ys := h.filter _

@[simp] theorem chunkMessage_id (sha256_chunk : List UInt8 → Hash) (data : List UInt8) :
    (chunkMessage sha256_chunk data).header.id = .Chunk := by
  unfold chunkMessage
  rw [Net.Message.push1_id]

/-- The receiver pops off a chunk what the sender pushed on it. -/
theorem chunkMessage_pop (sha256_chunk : List UInt8 → Hash) (data : List UInt8) :
    ∃ rest : Message, (chunkMessage sha256_chunk data).pop (ByteStack.Pop.data Hash) =
      some (sha256_chunk data, rest) ∧ rest.body = data := by
  refine ⟨_, Net.Message.pop_of_reads (ByteStack.Pop.Reads.data data (sha256_chunk data))
    (Net.Message.push1_body _ _) (Net.Message.resized_synced _ _), rfl⟩

/-- After the first pieces of a file comes the next piece, or `FinalChunk` after the last. -/
theorem next_of_pieces {sha256_chunk : List UInt8 → Hash} {m : UInt64} {file : List UInt8}
    {ps : List (List UInt8)} {msg : Message} (h : ps <+: file.chunks m.toNat)
    (next : ps.map (chunkMessage sha256_chunk) ++ [msg] <+:
      ClientSenderSession.pieces sha256_chunk m file) :
    (∃ p, msg = chunkMessage sha256_chunk p ∧ ps ++ [p] <+: file.chunks m.toNat) ∨
      (msg.header.id = .FinalChunk ∧ ps = file.chunks m.toNat) := by
  obtain ⟨qs, whole⟩ := h
  rw [ClientSenderSession.pieces, ← whole, List.map_append, List.append_assoc,
    List.prefix_append_right_inj] at next
  cases qs with
  | nil =>
      right
      obtain ⟨rest, heq⟩ := next
      obtain ⟨rfl, -⟩ := List.cons.inj heq
      exact ⟨rfl, by rw [← whole, List.append_nil]⟩
  | cons q qs =>
      left
      obtain ⟨rest, heq⟩ := next
      obtain ⟨rfl, -⟩ := List.cons.inj heq
      refine ⟨q, rfl, qs, ?_⟩
      rw [← whole, List.append_assoc]
      rfl

/-! ## The session -/

namespace ClientReceiverSession

/-- The file has been written, out of messages that have arrived. -/
structure Whole (file : List UInt8) (t : ClientReceiverSession) (arrived : List Message) :
    Prop where
  written : t.ofs.written = file
  arrived : fileMessages arrived ≠ []

theorem Whole.mono {file : List UInt8} {t : ClientReceiverSession} {arrived later : List Message}
    (h : Whole file t arrived) (more : arrived <+: later) : Whole file t later := by
  refine ⟨h.written, fun none => h.arrived ?_⟩
  have isPrefix := fileMessages_isPrefix more
  rw [none] at isPrefix
  exact List.prefix_nil.mp isPrefix

/-- `mainLoop` has returned true with the whole file written. -/
structure Done (file : List UInt8) (t : ClientReceiverSession) (arrived : List Message) :
    Prop where
  returned : t.pc = .returned true
  whole : Whole file t arrived

/-- What the session has made of the messages `consumed`. -/
inductive Rebuilds (sha256_chunk : List UInt8 → Hash) (m : UInt64) (file : List UInt8) :
    ClientReceiverSession → List Message → Prop
  | start {t : ClientReceiverSession} {consumed : List Message} : t.pc = .start →
    t.op_result = true → t.finish = false → fileMessages consumed = [] →
    Rebuilds sha256_chunk m file t consumed
  | going {t : ClientReceiverSession} {consumed : List Message} (ps : List (List UInt8)) :
    t.pc = .loop ∨ t.pc = .drain → t.op_result = true → t.finish = false → t.ofs.good = true →
    ps <+: file.chunks m.toNat → fileMessages consumed = ps.map (chunkMessage sha256_chunk) →
    t.ofs.written = ps.flatten → Rebuilds sha256_chunk m file t consumed
  | finished {t : ClientReceiverSession} {consumed : List Message} : t.pc = .loop →
    t.finish = true → Whole file t consumed → Rebuilds sha256_chunk m file t consumed
  | failed {t : ClientReceiverSession} {consumed : List Message} : t.pc = .loop →
    t.op_result = false → Rebuilds sha256_chunk m file t consumed
  | returned {t : ClientReceiverSession} {consumed : List Message} {res : Bool} :
    t.pc = .returned res → (res = true → Whole file t consumed) →
    Rebuilds sha256_chunk m file t consumed

variable {sha256_chunk : List UInt8 → Hash} {m : UInt64} {file : List UInt8}

/-- One message of the inner loop. -/
theorem Rebuilds.consume {t t' : ClientReceiverSession} {consumed : List Message} {msg : Message}
    {ps : List (List UInt8)} (positive : 0 < m.toNat) (pc : t.pc = .drain)
    (fine : t.op_result = true) (unfinished : t.finish = false) (good : t.ofs.good = true)
    (some_pieces : ps <+: file.chunks m.toNat)
    (so_far : fileMessages consumed = ps.map (chunkMessage sha256_chunk))
    (written : t.ofs.written = ps.flatten)
    (stream : fileMessages (consumed ++ [msg]) <+:
      ClientSenderSession.pieces sha256_chunk m file)
    (step : t.consume sha256_chunk msg {} = some t') :
    Rebuilds sha256_chunk m file t' (consumed ++ [msg]) := by
  unfold ClientReceiverSession.consume at step
  split at step
  · cases step
    exact .failed rfl rfl
  split at step
  · rename_i chunk
    have carries : carriesFile msg := by
      unfold carriesFile
      rw [decide_eq_true chunk, Bool.true_or]
    have more := fileMessages_append consumed [msg]
    rw [so_far, fileMessages_of_carries carries] at more
    rw [more] at stream
    rcases next_of_pieces some_pieces stream with ⟨p, rfl, some_pieces'⟩ | ⟨final, -⟩
    · obtain ⟨rest, popped, body⟩ := chunkMessage_pop sha256_chunk p
      simp only [popped, Option.bind_eq_bind, Option.bind_some, body, ne_eq, not_true,
        if_false] at step
      cases step
      refine .going (ps ++ [p]) (Or.inr pc) fine unfinished ?_ some_pieces' ?_ ?_
      · simp only [Ofstream.write, good, if_true]
      · rw [more, List.map_append]
        rfl
      · simp only [Ofstream.write, good, if_true, written, List.flatten_append,
          List.flatten_singleton]
    · rw [chunk] at final
      cases final
  split at step
  · rename_i final
    have carries : carriesFile msg := by
      unfold carriesFile
      rw [decide_eq_true final, Bool.or_true]
    have more := fileMessages_append consumed [msg]
    rw [so_far, fileMessages_of_carries carries] at more
    rw [more] at stream
    cases step
    rcases next_of_pieces some_pieces stream with ⟨p, rfl, -⟩ | ⟨-, all⟩
    · rw [chunkMessage_id] at final
      cases final
    · have member : msg ∈ consumed ++ [msg] := List.mem_append_right _ List.mem_cons_self
      refine .finished rfl rfl ⟨?_, fileMessages_ne_nil member carries⟩
      change t.ofs.written = file
      rw [written, all]
      exact List.chunks_flatten positive file
  · rename_i chunk final
    cases step
    refine .going ps (Or.inr pc) fine unfinished good some_pieces ?_ written
    rw [fileMessages_append, fileMessages_of_other chunk final, so_far, List.append_nil]

/-- **One step of the loop**, with an output that can be written. -/
theorem Rebuilds.step {t : ClientReceiverSession} {consumed m_messages_in : List Message}
    {turn : Turn ClientReceiverSession} (h : Rebuilds sha256_chunk m file t consumed)
    (positive : 0 < m.toNat)
    (stream : fileMessages (consumed ++ m_messages_in) <+:
      ClientSenderSession.pieces sha256_chunk m file)
    (step : t.step sha256_chunk m_messages_in {} = some turn) :
    turn.call = none ∧ ∃ consumed', consumed' ++ turn.m_messages_in = consumed ++ m_messages_in ∧
      Rebuilds sha256_chunk m file turn.session consumed' := by
  cases h with
  | start pc fine unfinished none =>
      simp only [ClientReceiverSession.step, pc] at step
      cases step
      refine ⟨rfl, consumed, rfl, .going [] (Or.inl rfl) fine unfinished rfl List.nil_prefix ?_ rfl⟩
      rw [none]
      rfl
  | going ps pc fine unfinished good some_pieces so_far written =>
      rcases pc with pc | pc
      · simp only [ClientReceiverSession.step, pc, good, unfinished, fine, Bool.not_false,
          Bool.and_self, if_true] at step
        split at step
        · cases step
        · cases step
          exact ⟨rfl, consumed, rfl,
            .going ps (Or.inr rfl) rfl rfl good some_pieces so_far written⟩
      · simp only [ClientReceiverSession.step, pc] at step
        split at step
        · cases step
          exact ⟨rfl, consumed, rfl,
            .going ps (Or.inl rfl) fine unfinished good some_pieces so_far written⟩
        · rename_i msg rest
          obtain ⟨t', consumes, rfl⟩ := Option.map_eq_some_iff.mp step
          have split : consumed ++ msg :: rest = (consumed ++ [msg]) ++ rest := by
            rw [List.append_assoc]
            rfl
          rw [split] at stream
          have stream' := (fileMessages_isPrefix (List.prefix_append _ rest)).trans stream
          exact ⟨rfl, consumed ++ [msg], split.symm,
            .consume positive pc fine unfinished good some_pieces so_far written stream' consumes⟩
  | finished pc finish whole =>
      simp only [ClientReceiverSession.step, pc, finish, Bool.not_true, Bool.and_false,
        Bool.false_and] at step
      cases step
      exact ⟨rfl, consumed, rfl, .returned rfl fun _ => ⟨whole.written, whole.arrived⟩⟩
  | failed pc failed =>
      simp only [ClientReceiverSession.step, pc, failed, Bool.and_false] at step
      cases step
      refine ⟨rfl, consumed, rfl, .returned rfl fun res => ?_⟩
      cases res
  | returned pc whole =>
      simp only [ClientReceiverSession.step, pc] at step
      cases step

end ClientReceiverSession

/-! ## The routine -/

namespace Receiver

open ClientReceiverSession (Done Rebuilds Whole)

/-- All that `receiveRoutine` sends when nothing goes wrong. -/
def requests (op : Operation) (unset : Unset) : List Message :=
  [encode .RequestReceive (request op unset), encode .Receive (codePhrase op.receival_code_phrase),
    encode .FinishReceive {}]

/-- Where `receiveRoutine` stands after the messages `arrived`. -/
inductive Inv (sha256_chunk : List UInt8 → Hash) (op : Operation) (unset : Unset) (m : UInt64)
    (file : List UInt8) : Receiver → List Message → Prop
  | before {p : Receiver} {arrived : List Message} :
    p.pc = .connecting ∨ p.pc = .validating ∨ (p.pc = .requesting ∧ p.c.Live) → p.c.sent = [] →
    p.session = {} → p.c.m_messages_in = arrived → Inv sha256_chunk op unset m file p arrived
  | asked {p : Receiver} {arrived : List Message} :
    p.pc = .waiting ∨ p.pc = .establishing ∨ p.pc = .asking ∨ p.pc = .starting →
    p.c.Sends ((requests op unset).take 1) → p.session = {} → p.c.m_messages_in <:+ arrived →
    Inv sha256_chunk op unset m file p arrived
  | rebuilding {p : Receiver} {arrived : List Message} (consumed : List Message) :
    p.pc = .session → p.c.Sends ((requests op unset).take 2) →
    consumed ++ p.c.m_messages_in = arrived → Rebuilds sha256_chunk m file p.session consumed →
    Inv sha256_chunk op unset m file p arrived
  | done {p : Receiver} {arrived : List Message} : p.pc = .finishing →
    p.c.Sends ((requests op unset).take 2) → Done file p.session arrived →
    Inv sha256_chunk op unset m file p arrived
  | after {p : Receiver} {arrived : List Message} :
    p.pc = .flushing ∨ p.pc = .awaiting ∨ (∃ res, p.pc = .returned res) →
    p.c.sent <+: requests op unset →
    (3 ≤ p.c.sent.length → Done file p.session arrived) →
    Inv sha256_chunk op unset m file p arrived

variable {sha256_chunk : List UInt8 → Hash} {op : Operation} {unset : Unset} {m : UInt64}
  {file : List UInt8}

theorem Inv.start : Inv sha256_chunk op unset m file {} [] := .before (Or.inl rfl) rfl rfl rfl

theorem Inv.sent_isPrefix {p : Receiver} {arrived : List Message}
    (h : Inv sha256_chunk op unset m file p arrived) : p.c.sent <+: requests op unset := by
  cases h with
  | before pc sent fresh queue =>
      rw [sent]
      exact List.nil_prefix
  | asked pc sends fresh queue => exact sends.isPrefix.trans (List.take_prefix _ _)
  | rebuilding consumed pc sends queue rebuilds =>
      exact sends.isPrefix.trans (List.take_prefix _ _)
  | done pc sends done => exact sends.isPrefix.trans (List.take_prefix _ _)
  | after pc sent done => exact sent

/-- **`FinishReceive` means that the file has been written.** -/
theorem Inv.rebuilt {p : Receiver} {arrived : List Message}
    (h : Inv sha256_chunk op unset m file p arrived) (all : 3 ≤ p.c.sent.length) :
    Done file p.session arrived := by
  have fewer : ∀ {n : Nat}, n ≤ 2 → p.c.Sends ((requests op unset).take n) →
      Done file p.session arrived := by
    intro n bound sends
    have length := sends.length_le
    rw [List.length_take] at length
    omega
  cases h with
  | before pc sent fresh queue =>
      rw [sent, List.length_nil] at all
      omega
  | asked pc sends fresh queue => exact fewer (by omega) sends
  | rebuilding consumed pc sends queue rebuilds => exact fewer (by omega) sends
  | done pc sends done => exact done
  | after pc sent done => exact done all

theorem Inv.arrive {p : Receiver} {arrived : List Message}
    (h : Inv sha256_chunk op unset m file p arrived) (msg : Message) :
    Inv sha256_chunk op unset m file { p with c := p.c.receive msg } (arrived ++ [msg]) := by
  cases h with
  | before pc sent fresh queue =>
      refine .before ?_ sent fresh (congrArg (· ++ [msg]) queue)
      rcases pc with pc | pc | ⟨pc, live⟩
      · exact Or.inl pc
      · exact Or.inr (Or.inl pc)
      · exact Or.inr (Or.inr ⟨pc, live.validated, live.socket⟩)
  | asked pc sends fresh queue =>
      obtain ⟨consumed, queue⟩ := queue
      refine .asked pc (sends.congr rfl) fresh ⟨consumed, ?_⟩
      change consumed ++ (p.c.m_messages_in ++ [msg]) = arrived ++ [msg]
      rw [← List.append_assoc, queue]
  | rebuilding consumed pc sends queue rebuilds =>
      refine .rebuilding consumed pc (sends.congr rfl) ?_ rebuilds
      change consumed ++ (p.c.m_messages_in ++ [msg]) = arrived ++ [msg]
      rw [← List.append_assoc, queue]
  | done pc sends done =>
      exact .done pc (sends.congr rfl) ⟨done.returned, done.whole.mono (List.prefix_append _ _)⟩
  | after pc sent done =>
      refine .after pc sent fun all => ?_
      obtain ⟨returned, whole⟩ := done all
      exact ⟨returned, whole.mono (List.prefix_append _ _)⟩

theorem Inv.fade {p : Receiver} {arrived : List Message} {c : FileClient}
    (h : Inv sha256_chunk op unset m file p arrived) (fades : FileClient.Fades p.c c) :
    Inv sha256_chunk op unset m file { p with c } arrived := by
  cases h with
  | before pc sent fresh queue =>
      refine .before ?_ (fades.sent.trans sent) fresh (fades.messages_in.trans queue)
      rcases pc with pc | pc | ⟨pc, live⟩
      · exact Or.inl pc
      · exact Or.inr (Or.inl pc)
      · exact Or.inr (Or.inr ⟨pc, fades.live live⟩)
  | asked pc sends fresh queue =>
      refine .asked pc (sends.fade fades) fresh ?_
      change c.m_messages_in <:+ arrived
      rw [fades.messages_in]
      exact queue
  | rebuilding consumed pc sends queue rebuilds =>
      refine .rebuilding consumed pc (sends.fade fades) ?_ rebuilds
      change consumed ++ c.m_messages_in = arrived
      rw [fades.messages_in]
      exact queue
  | done pc sends done => exact .done pc (sends.fade fades) done
  | after pc sent done =>
      refine .after pc ?_ ?_
      · change c.sent <+: _
        rw [fades.sent]
        exact sent
      · change 3 ≤ c.sent.length → _
        rw [fades.sent]
        exact done

/-- A step before the first request. -/
theorem Inv.step_before {p p' : Receiver} {arrived : List Message} {choice : Choice}
    (pc : p.pc = .connecting ∨ p.pc = .validating ∨ (p.pc = .requesting ∧ p.c.Live))
    (sent : p.c.sent = []) (fresh : p.session = {}) (queue : p.c.m_messages_in = arrived)
    (step : p.step sha256_chunk op unset choice = some p') :
    Inv sha256_chunk op unset m file p' arrived := by
  rcases pc with pc | pc | ⟨pc, live⟩
  · simp only [Receiver.step, pc] at step
    split at step
    · cases step
      exact .before (Or.inr (Or.inl rfl)) sent fresh queue
    · cases step
      refine .after (Or.inr (Or.inr ⟨_, rfl⟩)) ?_ fun many => ?_
      · change p.c.sent <+: _
        rw [sent]
        exact List.nil_prefix
      · change 3 ≤ p.c.sent.length at many
        rw [sent, List.length_nil] at many
        omega
  · simp only [Receiver.step, pc] at step
    split at step
    · rename_i ready
      obtain ⟨connected, validated⟩ := Bool.and_eq_true_iff.mp ready
      have opened : p.c.m_connection.m_socket = .opened := of_decide_eq_true connected
      cases step
      refine .before (Or.inr (Or.inr ⟨rfl, validated, ?_⟩)) sent fresh queue
      rw [opened]
      exact Socket.noConfusion
    · cases step
      exact .before (Or.inr (Or.inl pc)) sent fresh queue
  · simp only [Receiver.step, pc] at step
    cases step
    have nothing : p.c.Sends [] := ⟨live, ⟨[], by rw [sent, List.append_nil]⟩, Or.inl sent⟩
    exact .asked (Or.inl rfl) (nothing.post _) fresh
      ⟨[], by rw [List.nil_append, FileClient.post_messages_in, queue]⟩

/-- A step between the first request and the second; none of the file has arrived yet. -/
theorem Inv.step_asked {p p' : Receiver} {arrived : List Message} {choice : Choice}
    (pc : p.pc = .waiting ∨ p.pc = .establishing ∨ p.pc = .asking ∨ p.pc = .starting)
    (sends : p.c.Sends ((requests op unset).take 1)) (fresh : p.session = {})
    (queue : p.c.m_messages_in <:+ arrived) (early : fileMessages arrived = [])
    (step : p.step sha256_chunk op unset choice = some p') :
    Inv sha256_chunk op unset m file p' arrived := by
  have stop : ∀ {q : Receiver} {res : Bool}, q.pc = .returned res →
      q.c.Sends ((requests op unset).take 1) → Inv sha256_chunk op unset m file q arrived := by
    intro q res pc sends
    refine .after (Or.inr (Or.inr ⟨res, pc⟩)) (sends.isPrefix.trans (List.take_prefix _ _))
      fun many => ?_
    have length := sends.length_le
    rw [List.length_take] at length
    omega
  rcases pc with pc | pc | pc | pc
  · simp only [Receiver.step, pc] at step
    split at step
    · cases step
    · cases step
      exact .asked (Or.inr (Or.inl rfl)) sends fresh queue
  · simp only [Receiver.step, pc] at step
    split at step
    · cases step
      exact .asked (Or.inr (Or.inr (Or.inl rfl))) sends fresh queue
    · rename_i msg rest nonempty
      have moved : (p.popped rest).c.Sends ((requests op unset).take 1) := sends.congr rfl
      have later : rest <:+ arrived := by
        rw [nonempty] at queue
        exact (List.suffix_cons msg rest).trans queue
      unfold establish at step
      split at step
      · cases step
        exact stop rfl moved
      split at step
      · obtain ⟨popped, -, step⟩ := Option.bind_eq_some_iff.mp step
        cases step
        exact .asked (Or.inr (Or.inr (Or.inl rfl))) moved fresh later
      · cases step
        exact .asked (Or.inr (Or.inl pc)) moved fresh later
  · simp only [Receiver.step, pc] at step
    split at step
    · cases step
      exact .asked (Or.inr (Or.inr (Or.inr rfl))) sends fresh queue
    · cases step
      exact stop rfl sends
  · simp only [Receiver.step, pc] at step
    cases step
    obtain ⟨consumed, whole⟩ := queue
    rw [← whole, fileMessages_append] at early
    refine .rebuilding consumed rfl (sends.post _) ?_ ?_
    · change consumed ++ (p.c.post _).m_messages_in = arrived
      rw [FileClient.post_messages_in]
      exact whole
    · change Rebuilds sha256_chunk m file p.session consumed
      rw [fresh]
      exact .start rfl rfl rfl (List.append_eq_nil_iff.mp early).1

/-- **One step of the routine**, with an output that can be written. -/
theorem Inv.step {p p' : Receiver} {arrived : List Message} {choice : Choice}
    (h : Inv sha256_chunk op unset m file p arrived) (positive : 0 < m.toNat)
    (early : p.c.sent.length ≤ 1 → fileMessages arrived = [])
    (stream : fileMessages arrived <+: ClientSenderSession.pieces sha256_chunk m file)
    (writable : choice.disk = {}) (step : p.step sha256_chunk op unset choice = some p') :
    Inv sha256_chunk op unset m file p' arrived := by
  cases h with
  | before pc sent fresh queue => exact .step_before pc sent fresh queue step
  | asked pc sends fresh queue =>
      have short := sends.length_le
      rw [List.length_take] at short
      exact .step_asked pc sends fresh queue (early (by omega)) step
  | rebuilding consumed pc sends queue rebuilds =>
      simp only [Receiver.step, pc] at step
      split at step
      · rename_i returned
        cases step
        cases rebuilds with
        | start pc' => rw [returned] at pc'; cases pc'
        | going ps pc' => rw [returned] at pc'; rcases pc' with pc' | pc' <;> cases pc'
        | finished pc' => rw [returned] at pc'; cases pc'
        | failed pc' => rw [returned] at pc'; cases pc'
        | returned pc' written =>
            rw [returned] at pc'
            cases pc'
            refine .done rfl sends ⟨returned, (written rfl).mono ?_⟩
            rw [← queue]
            exact List.prefix_append _ _
      · cases step
        refine .after (Or.inr (Or.inr ⟨_, rfl⟩)) (sends.isPrefix.trans (List.take_prefix _ _))
          fun many => ?_
        have length := sends.length_le
        rw [List.length_take] at length
        have many : 3 ≤ p.c.sent.length := many
        omega
      · obtain ⟨turn, stepped, rfl⟩ := Option.map_eq_some_iff.mp step
        rw [writable] at stepped
        rw [← queue] at stream
        obtain ⟨quiet, consumed', same, rebuilds'⟩ := rebuilds.step positive stream stepped
        have client := FileClient.after_of_quiet (c := p.c) quiet
        refine .rebuilding consumed' rfl (sends.congr ?_) ?_ rebuilds'
        · change (p.c.after turn).m_connection = p.c.m_connection
          rw [client]
        · change consumed' ++ (p.c.after turn).m_messages_in = arrived
          rw [FileClient.after_messages_in, same, queue]
  | done pc sends done =>
      simp only [Receiver.step, pc] at step
      cases step
      exact .after (Or.inl rfl) (sends.post _).isPrefix fun _ => done
  | after pc sent done =>
      rcases pc with pc | pc | ⟨res, pc⟩
      · simp only [Receiver.step, pc] at step
        split at step
        · cases step
          exact .after (Or.inr (Or.inl rfl)) sent done
        · cases step
          exact .after (Or.inr (Or.inr ⟨_, rfl⟩)) sent done
      · simp only [Receiver.step, pc] at step
        split at step
        · cases step
          exact .after (Or.inr (Or.inr ⟨_, rfl⟩)) sent done
        · cases step
      · simp only [Receiver.step, pc] at step
        cases step

end Receiver

end PingPong
