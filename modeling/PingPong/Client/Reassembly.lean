import PingPong.Client.MainLoop
import PingPong.Server.FileServer

/-!
# Chunking and reassembly

With reads, writes and sends succeeding, the sender cuts its file into chunks and the receiver puts
it together again, whatever the batches are in which messages arrive.

* `ClientSenderSession.Cuts`: a sender on its way through the file, in terms of `Ahead`.
* `ClientReceiverSession.Feeds`: a receiver fed the first of those messages, in terms of `Rebuilds`.
* `reassembly`: both loops return true, the sender with the file cut and the receiver with the file
  written.
-/

namespace PingPong

open Common Net

/-- The check of `onSessionedMessage` with any limit in place of the server's own. -/
def exceeds (limit : UInt64) (msg : Message) : Bool :=
  limit < UInt64.ofNat msg.size - UInt64.ofNat SHA256_DIGEST_LENGTH

example (msg : Message) :
    FileServer.exceedsChunkSize msg = exceeds m_max_chunk_size msg := rfl

theorem exceeds_chunkMessage {sha256_chunk : List UInt8 → Hash} {m : UInt64} {data : List UInt8}
    (fits : data.length ≤ m.toNat) : exceeds m (chunkMessage sha256_chunk data) = false := by
  have body : (chunkMessage sha256_chunk data).body =
      data ++ TriviallyCopyable.toBytes (sha256_chunk data) := Net.Message.push1_body _ _
  have width : (TriviallyCopyable.toBytes (sha256_chunk data)).length = 32 :=
    TriviallyCopyable.length_toBytes _
  have size : (chunkMessage sha256_chunk data).size = data.length + 32 := by
    rw [Net.Message.size, body, List.length_append, width]
  have bound := m.toNat_lt
  unfold exceeds
  apply decide_eq_false
  rw [size, UInt64.lt_iff_toNat_lt, UInt64.toNat_sub]
  simp only [UInt64.toNat_ofNat', SHA256_DIGEST_LENGTH]
  omega

/-- Reads, writes and sends succeed. -/
def MainLoop.Event.Works : MainLoop.Event → Prop
  | .arrive _ => True
  | .step sendcb disk => sendcb = true ∧ disk = {}

/-- The file cut into chunks, and `FinalChunk` behind them; the check of the server accepts all. -/
def Chunked (sha256_chunk : List UInt8 → Hash) (file : List UInt8) (m : UInt64)
    (msgs : List Message) : Prop :=
  ∃ ps : List (List UInt8), msgs = ps.map (chunkMessage sha256_chunk) ++ [encode .FinalChunk {}] ∧
    ps.flatten = file ∧ (∀ p ∈ ps, 1 ≤ p.length ∧ p.length ≤ m.toNat) ∧
    (∀ p ∈ ps.dropLast, p.length = m.toNat) ∧
    ∀ p ∈ ps, exceeds m (chunkMessage sha256_chunk p) = false

theorem chunked_pieces {sha256_chunk : List UInt8 → Hash} {file : List UInt8} {m : UInt64}
    (positive : 0 < m.toNat) :
    Chunked sha256_chunk file m (ClientSenderSession.pieces sha256_chunk m file) := by
  refine ⟨file.chunks m.toNat, rfl, List.chunks_flatten positive file, ?_, ?_, ?_⟩
  · exact fun p member => List.length_of_mem_chunks member
  · exact fun p member => List.length_of_mem_dropLast_chunks member
  · exact fun p member => exceeds_chunkMessage (List.length_of_mem_chunks member).2

variable {sha256_chunk : List UInt8 → Hash} {file : List UInt8} {m : UInt64}

/-! ## The sender -/

namespace ClientSenderSession

structure Cuts (sha256_chunk : List UInt8 → Hash) (m : UInt64) (file : List UInt8)
    (p : MainLoop ClientSenderSession) : Prop where
  limit : p.session.m_max_chunk_size = m
  m_file : p.session.m_file = file
  left : p.session.ifs.rest.length ≤ p.session.m_file.length
  no_abort : ∀ msg ∈ p.m_messages_in, msg.header.id ≠ .Abort
  fine : p.session.op_result = true
  returned : ∀ res, p.session.pc = .returned res → res = true
  ahead : ∃ ahead, Ahead sha256_chunk p.session ahead ∧
    p.calls ++ ahead.map (·, true) = (pieces sha256_chunk m file).map (·, true)

theorem Cuts.start : Cuts sha256_chunk m file (mainLoop sha256_chunk file m).init :=
  ⟨rfl, rfl, Nat.zero_le _, nofun, rfl, nofun, pieces sha256_chunk m file, .start rfl rfl, rfl⟩

/-- With nothing failing, the session never turns to failure. -/
theorem Steps.stays_fine {t t' : ClientSenderSession} {m_messages_in popped : List Message}
    {call : Option Message}
    (steps : Steps sha256_chunk t m_messages_in true {} t' popped call)
    (no_abort : ∀ msg ∈ m_messages_in, msg.header.id ≠ .Abort) (fine : t.op_result = true)
    (running : ∀ res, t.pc = .returned res → res = true) :
    t'.op_result = true ∧ ∀ res, t'.pc = .returned res → res = true := by
  cases steps with
  | missing pc found => cases found
  | aborted msg rest pc going front abort =>
      rw [front] at no_abort
      exact (no_abort msg List.mem_cons_self abort).elim
  | refused pc some_read refused => cases refused
  | finishes pc =>
      refine ⟨fine, ?_⟩
      rintro _ ⟨⟩
      exact fine
  | skipped msg rest pc => exact ⟨fine, running⟩
  | opens pc | drained pc | leaves pc | sends pc | exhausted pc => exact ⟨fine, nofun⟩

theorem Steps.left_le {t t' : ClientSenderSession} {m_messages_in popped : List Message}
    {sendcb : Bool} {disk : Disk} {call : Option Message}
    (steps : Steps sha256_chunk t m_messages_in sendcb disk t' popped call)
    (left : t.ifs.rest.length ≤ t.m_file.length) : t'.ifs.rest.length ≤ t'.m_file.length := by
  cases steps with
  | opens pc => exact Nat.le_refl _
  | sends pc | refused pc | exhausted pc =>
      have whole := congrArg List.length (t.next_append disk)
      rw [List.length_append] at whole
      dsimp only
      omega
  | missing pc | aborted msg rest pc | skipped msg rest pc | drained pc | leaves pc
  | finishes pc => exact left

theorem Cuts.step {p p' : MainLoop ClientSenderSession} (h : Cuts sha256_chunk m file p)
    (positive : 0 < m.toNat)
    (step : (mainLoop sha256_chunk file m).step p (.step true {}) = some p') :
    Cuts sha256_chunk m file p' := by
  obtain ⟨turn, stepped, rfl⟩ := Option.map_eq_some_iff.mp step
  obtain ⟨ahead, going, whole⟩ := h.ahead
  obtain ⟨progress, rest⟩ := going.step (by rw [h.limit]; exact positive) h.no_abort stepped
  obtain ⟨popped, queue, steps⟩ := step_steps stepped
  obtain ⟨fine, returned⟩ := steps.stays_fine h.no_abort h.fine h.returned
  have limit : turn.session.m_max_chunk_size = m := (step_parameters stepped).1.trans h.limit
  have m_file : turn.session.m_file = file := (step_parameters stepped).2.trans h.m_file
  have no_abort : ∀ msg ∈ turn.m_messages_in, msg.header.id ≠ .Abort :=
    fun msg member => h.no_abort msg (rest.subset member)
  refine ⟨limit, m_file, steps.left_le h.left, no_abort, fine, returned, ?_⟩
  have calls := (@MainLoop.after_moved _ p turn popped true queue).calls
  cases progress with
  | quiet quiet going' =>
      refine ⟨ahead, going', ?_⟩
      rw [calls, quiet]
      simpa using whole
  | @called _ msg ahead called succeeds fails =>
      refine ⟨ahead, succeeds rfl, ?_⟩
      rw [calls, called]
      simpa using whole

/-- **The sender**, when nothing fails and no `Abort` arrives. -/
theorem cuts_of_run (positive : 0 < m.toNat) {es : List MainLoop.Event}
    {p : MainLoop ClientSenderSession} (run : (mainLoop sha256_chunk file m).run es = some p)
    (works : ∀ e ∈ es, e.Works) (no_abort : ∀ msg ∈ MainLoop.arrivals es, msg.header.id ≠ .Abort) :
    Cuts sha256_chunk m file p := by
  refine Lts.run_induct (P := fun es p => (∀ e ∈ es, e.Works) →
    (∀ msg ∈ MainLoop.arrivals es, msg.header.id ≠ .Abort) → Cuts sha256_chunk m file p)
    (fun _ _ => .start) ?_ run works no_abort
  intro es s e t _ ih step works no_abort
  rw [MainLoop.arrivals_append] at no_abort
  have cuts : Cuts sha256_chunk m file s :=
    ih (fun e member => works e (List.mem_append_left _ member))
      fun msg member => no_abort msg (List.mem_append_left _ member)
  have last : e.Works := works e (List.mem_append_right _ List.mem_cons_self)
  cases e with
  | arrive msg =>
      cases step
      refine ⟨cuts.limit, cuts.m_file, cuts.left, fun msg' member => ?_, cuts.fine,
        cuts.returned, cuts.ahead⟩
      rcases List.mem_append.mp member with before | new
      · exact cuts.no_abort msg' before
      · exact no_abort msg' (List.mem_append_right _ new)
  | step sendcb disk =>
      obtain ⟨rfl, rfl⟩ := last
      exact cuts.step positive step

theorem Cuts.calls_eq {p : MainLoop ClientSenderSession} {res : Bool}
    (h : Cuts sha256_chunk m file p) (returned : p.session.pc = .returned res) :
    p.calls = (pieces sha256_chunk m file).map (·, true) := by
  obtain ⟨ahead, going, whole⟩ := h.ahead
  cases going with
  | start pc | loop pc | read pc | final pc =>
      rw [returned] at pc
      cases pc
  | returned pc => simpa using whole

/-- No chunk is longer than the limit, nor than the file. -/
theorem Cuts.fits {p : MainLoop ClientSenderSession} (h : Cuts sha256_chunk m file p)
    (buffer : m.toNat ≤ max_size)
    (chunk : min m.toNat file.length + SHA256_DIGEST_LENGTH ≤ max_size) : p.session.Fits {} := by
  have left := h.left
  have bound := p.session.next_length_le {}
  rw [h.m_file] at left
  rw [h.limit] at bound
  refine ⟨by rw [h.limit]; exact buffer, fun _ => ?_⟩
  omega

/-- The loop comes to its end by its own steps. -/
theorem Cuts.inevitable (positive : 0 < m.toNat) (buffer : m.toNat ≤ max_size)
    (chunk : min m.toNat file.length + SHA256_DIGEST_LENGTH ≤ max_size)
    {p : MainLoop ClientSenderSession} (h : Cuts sha256_chunk m file p) :
    (mainLoop sha256_chunk file m).Inevitable (· = .step true {})
      (fun p => p.session.pc = .returned true) p := by
  refine Lts.Inevitable.of_measure (fun p => p.session.measure p.m_messages_in) ?_ ?_ h
  · intro s _ cuts running same
    obtain rfl := same
    have going : ∀ res, s.session.pc ≠ .returned res := by
      intro res returned
      rw [cuts.returned res returned] at returned
      exact running returned
    obtain ⟨turn, stepped⟩ := step_enabled s.m_messages_in (fun _ => true) {} going
      fun _ => cuts.fits buffer chunk
    exact ⟨_, Option.map_eq_some_iff.mpr ⟨turn, stepped, rfl⟩⟩
  · intro s _ t cuts _ same step
    obtain rfl := same
    obtain ⟨popped, call, moved, steps⟩ := mainLoop_step step
    exact Or.inr ⟨cuts.step positive step, steps.measure_lt moved.queue⟩

end ClientSenderSession

/-! ## The receiver -/

namespace ClientReceiverSession

open ClientSenderSession (pieces)

theorem mem_pieces {msg : Message} (member : msg ∈ pieces sha256_chunk m file) :
    (∃ data, msg = chunkMessage sha256_chunk data) ∨ msg = encode .FinalChunk {} := by
  rcases List.mem_append.mp member with chunk | final
  · obtain ⟨data, -, rfl⟩ := List.mem_map.mp chunk
    exact Or.inl ⟨data, rfl⟩
  · exact Or.inr (List.mem_singleton.mp final)

theorem fileMessages_eq {msgs : List Message} (some : msgs <+: pieces sha256_chunk m file) :
    fileMessages msgs = msgs := by
  refine List.filter_eq_self.mpr fun msg member => ?_
  rcases mem_pieces (some.subset member) with ⟨data, rfl⟩ | rfl
  · unfold carriesFile
    rw [chunkMessage_id, decide_eq_true rfl, Bool.true_or]
  · rfl

theorem genuine_chunkMessage (data : List UInt8) :
    SHA256_DIGEST_LENGTH ≤ (chunkMessage sha256_chunk data).body.length ∧
      Genuine sha256_chunk (chunkMessage sha256_chunk data) := by
  obtain ⟨rest, popped, -⟩ := chunkMessage_pop sha256_chunk data
  by_cases long : SHA256_DIGEST_LENGTH ≤ (chunkMessage sha256_chunk data).body.length
  · rw [pop_hash long] at popped
    have hash : hashOf (chunkMessage sha256_chunk data) = sha256_chunk data :=
      (Prod.mk.inj (Option.some.inj popped)).1
    refine ⟨long, ?_⟩
    rw [Genuine, payload_chunkMessage]
    exact hash
  · rw [pop_hash_short long] at popped
    cases popped

structure Feeds (sha256_chunk : List UInt8 → Hash) (m : UInt64) (file : List UInt8)
    (p : MainLoop ClientReceiverSession) : Prop where
  stream : p.consumed ++ p.m_messages_in <+: pieces sha256_chunk m file
  fine : p.session.op_result = true
  returned : ∀ res, p.session.pc = .returned res → res = true
  rebuilds : Rebuilds sha256_chunk m file p.session p.consumed

theorem Feeds.start : Feeds sha256_chunk m file (mainLoop sha256_chunk).init :=
  ⟨List.nil_prefix, rfl, nofun, .start rfl rfl rfl rfl⟩

theorem Steps.stays_fine {t t' : ClientReceiverSession} {m_messages_in popped : List Message}
    {call : Option Message} (steps : Steps sha256_chunk t m_messages_in {} t' popped call)
    (some : ∀ msg ∈ m_messages_in, msg ∈ pieces sha256_chunk m file)
    (fine : t.op_result = true) (running : ∀ res, t.pc = .returned res → res = true) :
    t'.op_result = true ∧ ∀ res, t'.pc = .returned res → res = true := by
  cases steps with
  | locked pc locked => cases locked
  | leaves pc stops =>
      refine ⟨fine, ?_⟩
      rintro _ ⟨⟩
      exact fine
  | aborted msg rest pc front abort =>
      rw [front] at some
      rcases mem_pieces (some msg List.mem_cons_self) with ⟨data, rfl⟩ | rfl
      · rw [chunkMessage_id] at abort
        cases abort
      · cases abort
  | mismatched msg rest pc front chunk long mismatch =>
      rw [front] at some
      rcases mem_pieces (some msg List.mem_cons_self) with ⟨data, rfl⟩ | rfl
      · exact (mismatch (genuine_chunkMessage data).2).elim
      · cases chunk
  | writes msg rest pc | skipped msg rest pc => exact ⟨fine, running⟩
  | finishes msg rest pc => exact ⟨fine, nofun⟩
  | opens pc | wakes pc | drained pc => exact ⟨fine, nofun⟩

theorem Feeds.step {p p' : MainLoop ClientReceiverSession} (h : Feeds sha256_chunk m file p)
    (positive : 0 < m.toNat)
    (step : (mainLoop sha256_chunk).step p (.step true {}) = some p') :
    Feeds sha256_chunk m file p' := by
  obtain ⟨turn, stepped, rfl⟩ := Option.map_eq_some_iff.mp step
  obtain ⟨popped, queue, steps⟩ := step_steps stepped
  have some : ∀ msg ∈ p.m_messages_in, msg ∈ pieces sha256_chunk m file :=
    fun msg member => h.stream.subset (List.mem_append_right _ member)
  obtain ⟨fine, returned⟩ := steps.stays_fine some h.fine h.returned
  have moved := @MainLoop.after_moved _ p turn popped true queue
  have stream := h.stream
  rw [← fileMessages_eq stream] at stream
  obtain ⟨-, consumed, same, rebuilds⟩ := h.rebuilds.step positive stream stepped
  have all : (p.after turn true).consumed = consumed := by
    rw [moved.consumed]
    rw [queue, ← List.append_assoc] at same
    exact (List.append_cancel_right same).symm
  refine ⟨?_, fine, returned, ?_⟩
  · rw [moved.consumed, List.append_assoc, ← moved.queue]
    exact h.stream
  · rw [all]
    exact rebuilds

/-- **The receiver**, when nothing fails and it is fed the first of the pieces of a file. -/
theorem feeds_of_run (positive : 0 < m.toNat) {es : List MainLoop.Event}
    {p : MainLoop ClientReceiverSession} (run : (mainLoop sha256_chunk).run es = some p)
    (works : ∀ e ∈ es, e.Works) (fed : MainLoop.arrivals es <+: pieces sha256_chunk m file) :
    Feeds sha256_chunk m file p := by
  have arrived : ∀ {es p}, (mainLoop sha256_chunk).run es = some p →
      p.consumed ++ p.m_messages_in = MainLoop.arrivals es := by
    refine MainLoop.arrivals_eq fun p p' sendcb disk step => ?_
    obtain ⟨popped, call, moved, -⟩ := mainLoop_step step
    exact ⟨popped, call, moved⟩
  refine Lts.run_induct (P := fun es p => (∀ e ∈ es, e.Works) →
    MainLoop.arrivals es <+: pieces sha256_chunk m file → Feeds sha256_chunk m file p)
    (fun _ _ => .start) ?_ run works fed
  intro es s e t run ih step works fed
  have whole := arrived (Lts.run_snoc_some run step)
  have before := fed
  rw [MainLoop.arrivals_append] at before
  have feeds : Feeds sha256_chunk m file s :=
    ih (fun e member => works e (List.mem_append_left _ member))
      ((List.prefix_append _ _).trans before)
  have last : e.Works := works e (List.mem_append_right _ List.mem_cons_self)
  cases e with
  | arrive msg =>
      cases step
      refine ⟨?_, feeds.fine, feeds.returned, feeds.rebuilds⟩
      rw [whole]
      exact fed
  | step sendcb disk =>
      obtain ⟨rfl, rfl⟩ := last
      exact feeds.step positive step

theorem Feeds.written {p : MainLoop ClientReceiverSession} {res : Bool}
    (h : Feeds sha256_chunk m file p) (returned : p.session.pc = .returned res) :
    res = true ∧ p.session.ofs.written = file := by
  obtain rfl := h.returned res returned
  refine ⟨rfl, ?_⟩
  cases h.rebuilds with
  | start pc | finished pc | failed pc =>
      rw [returned] at pc
      cases pc
  | going ps pc =>
      rw [returned] at pc
      rcases pc with pc | pc <;> cases pc
  | returned pc whole =>
      rw [returned] at pc
      cases pc
      exact (whole rfl).written

/-- Once it has been fed all of the pieces, the loop comes to its end by its own steps. -/
theorem Feeds.inevitable (positive : 0 < m.toNat) {p : MainLoop ClientReceiverSession}
    (h : Feeds sha256_chunk m file p)
    (all : p.consumed ++ p.m_messages_in = pieces sha256_chunk m file) :
    (mainLoop sha256_chunk).Inevitable (· = .step true {})
      (fun p => p.session.pc = .returned true ∧ p.session.ofs.written = file) p := by
  refine @Lts.Inevitable.of_measure _ _ _ _ _
    (fun p => Feeds sha256_chunk m file p ∧
      p.consumed ++ p.m_messages_in = pieces sha256_chunk m file)
    (fun p => p.session.measure p.m_messages_in) ?_ ?_ _ ⟨h, all⟩
  · intro s _ fed running same
    obtain ⟨feeds, all⟩ := fed
    obtain rfl := same
    have going : ∀ res, s.session.pc ≠ .returned res := by
      intro res returned
      obtain ⟨rfl, written⟩ := feeds.written returned
      exact running ⟨returned, written⟩
    have awake : s.session.pc = .loop → s.session.Going → s.m_messages_in ≠ [] := by
      -- With the queue empty the `FinalChunk` has been consumed, and ends the loop.
      intro pc going empty
      obtain ⟨good, unfinished, fine⟩ := going
      rw [empty, List.append_nil] at all
      cases feeds.rebuilds with
      | start pc' | returned pc' =>
          rw [pc] at pc'
          cases pc'
      | finished pc' finish =>
          rw [unfinished] at finish
          cases finish
      | failed pc' failed =>
          rw [fine] at failed
          cases failed
      | going ps pc' fine' unfinished' good' some so_far written =>
          rw [all, fileMessages_eq ⟨[], List.append_nil _⟩] at so_far
          have final : encode .FinalChunk {} ∈ ps.map (chunkMessage sha256_chunk) := by
            rw [← so_far]
            exact List.mem_append_right _ List.mem_cons_self
          obtain ⟨data, -, same⟩ := List.mem_map.mp final
          have id := congrArg (fun msg => msg.header.id) same
          rw [chunkMessage_id] at id
          cases id
    have long : s.session.pc = .drain → ∀ msg rest, s.m_messages_in = msg :: rest →
        msg.header.id = .Chunk → SHA256_DIGEST_LENGTH ≤ msg.body.length := by
      intro _ msg rest front chunk
      have member : msg ∈ s.m_messages_in := by
        rw [front]
        exact List.mem_cons_self
      rcases mem_pieces (feeds.stream.subset (List.mem_append_right _ member)) with
        ⟨data, rfl⟩ | rfl
      · exact (genuine_chunkMessage data).1
      · cases chunk
    obtain ⟨turn, stepped⟩ := step_enabled {} going awake long
    exact ⟨_, Option.map_eq_some_iff.mpr ⟨turn, stepped, rfl⟩⟩
  · intro s _ t fed _ same step
    obtain ⟨feeds, all⟩ := fed
    obtain rfl := same
    obtain ⟨popped, call, moved, steps⟩ := mainLoop_step step
    refine Or.inr ⟨⟨feeds.step positive step, ?_⟩, steps.measure_lt moved.queue⟩
    rw [moved.consumed, List.append_assoc, ← moved.queue]
    exact all

end ClientReceiverSession

/-! ## Both ends -/

/-- **Chunking and reassembly are inverse.** -/
theorem reassembly (positive : 0 < m.toNat) (buffer : m.toNat ≤ max_size)
    (chunk : min m.toNat file.length + SHA256_DIGEST_LENGTH ≤ max_size)
    {es : List MainLoop.Event} {p : MainLoop ClientSenderSession}
    (run : (ClientSenderSession.mainLoop sha256_chunk file m).run es = some p)
    (works : ∀ e ∈ es, e.Works) (no_abort : ∀ msg ∈ MainLoop.arrivals es, msg.header.id ≠ .Abort) :
    (ClientSenderSession.mainLoop sha256_chunk file m).Inevitable (· = .step true {})
      (fun p => p.session.pc = .returned true) p ∧
    ∀ res, p.session.pc = .returned res →
      res = true ∧ Chunked sha256_chunk file m (p.calls.map Prod.fst) ∧
      -- The receiver, fed these messages in any batches.
      ∀ fs q, (ClientReceiverSession.mainLoop sha256_chunk).run fs = some q →
        (∀ e ∈ fs, e.Works) → MainLoop.arrivals fs <+: p.calls.map Prod.fst →
        (∀ res, q.session.pc = .returned res → res = true ∧ q.session.ofs.written = file) ∧
        (MainLoop.arrivals fs = p.calls.map Prod.fst →
          (ClientReceiverSession.mainLoop sha256_chunk).Inevitable (· = .step true {})
            (fun q => q.session.pc = .returned true ∧ q.session.ofs.written = file) q) := by
  have cuts := ClientSenderSession.cuts_of_run positive run works no_abort
  refine ⟨cuts.inevitable positive buffer chunk, fun res returned => ?_⟩
  have calls : p.calls.map Prod.fst = ClientSenderSession.pieces sha256_chunk m file := by
    rw [cuts.calls_eq returned, List.map_map]
    exact List.map_id _
  rw [calls]
  refine ⟨cuts.returned res returned, chunked_pieces positive, fun fs q run works fed => ?_⟩
  have feeds := ClientReceiverSession.feeds_of_run positive run works fed
  refine ⟨fun res returned => feeds.written returned, fun all => feeds.inevitable positive ?_⟩
  rw [← all]
  refine MainLoop.arrivals_eq (fun p p' sendcb disk step => ?_) run
  obtain ⟨popped, call, moved, -⟩ := ClientReceiverSession.mainLoop_step step
  exact ⟨popped, call, moved⟩

/-- No buffer of 2 ^ 63 bytes can be made, and the loop ends before its first chunk. -/
theorem no_buffer_for_chunk : ∃ p,
    (ClientSenderSession.mainLoop (fun _ => Vector.replicate 32 0) [7] 0x8000000000000000).run
        [.step true {}, .step true {}] = some p ∧
      p.calls = [] ∧
      (ClientSenderSession.mainLoop (fun _ => Vector.replicate 32 0) [7] 0x8000000000000000).step p
        (.step true {}) = none ∧
      ¬ (ClientSenderSession.mainLoop (fun _ => Vector.replicate 32 0) [7]
        0x8000000000000000).Inevitable (· = .step true {})
          (fun p => p.session.pc = .returned true) p := by
  let stuck : MainLoop ClientSenderSession :=
    { session :=
        { m_file := [7]
          m_max_chunk_size := 0x8000000000000000
          pc := .read
          ifs := ⟨[7], true⟩ } }
  have thrown : (ClientSenderSession.mainLoop (fun _ => Vector.replicate 32 0) [7]
      0x8000000000000000).step stuck (.step true {}) = none := rfl
  refine ⟨stuck, rfl, rfl, thrown, ?_⟩
  refine @Lts.not_inevitable _ _ _ _ _ (· = stuck) ?_ ?_ _ rfl
  · rintro _ rfl ⟨⟩
  · rintro _ rfl
    refine ⟨.step true {}, rfl, fun t step => ?_⟩
    rw [thrown] at step
    cases step

/-- A file of five bytes, sent in three chunks and received in two batches. -/
theorem reassembly_five : ∃ q : MainLoop ClientReceiverSession,
    (ClientReceiverSession.mainLoop fun _ => Vector.replicate 32 0).run
        [.arrive (chunkMessage (fun _ => Vector.replicate 32 0) [1, 2]),
          .arrive (chunkMessage (fun _ => Vector.replicate 32 0) [3, 4]), .step true {},
          .step true {}, .step true {}, .step true {}, .step true {},
          .arrive (chunkMessage (fun _ => Vector.replicate 32 0) [5]),
          .arrive (encode .FinalChunk {}), .step true {}, .step true {}, .step true {},
          .step true {}] = some q ∧
      q.session.pc = .returned true ∧ q.session.ofs.written = [1, 2, 3, 4, 5] := by
  have run : (ClientSenderSession.mainLoop (fun _ => Vector.replicate 32 0) [1, 2, 3, 4, 5] 2).run
      (.arrive (encode .Success {}) :: List.replicate 10 (.step true {})) =
        some
          { session :=
              { m_file := [1, 2, 3, 4, 5]
                m_max_chunk_size := 2
                pc := .returned true
                ifs := ⟨[], false⟩ }
            consumed := [encode .Success {}]
            calls :=
              [(chunkMessage (fun _ => Vector.replicate 32 0) [1, 2], true),
                (chunkMessage (fun _ => Vector.replicate 32 0) [3, 4], true),
                (chunkMessage (fun _ => Vector.replicate 32 0) [5], true),
                (encode .FinalChunk {}, true)] } := rfl
  have works : ∀ e ∈ .arrive (encode .Success {}) :: List.replicate 10 (.step true {}),
      MainLoop.Event.Works e := by
    simp [MainLoop.Event.Works]
  have no_abort : ∀ msg ∈ MainLoop.arrivals
      (.arrive (encode .Success {}) :: List.replicate 10 (.step true {})),
      msg.header.id ≠ .Abort := by
    intro msg member
    obtain rfl : msg = encode .Success {} := List.mem_singleton.mp member
    decide
  have sent := (reassembly (by decide) (by decide) (by decide) run works no_abort).2 true rfl
  have fed : (ClientReceiverSession.mainLoop fun _ => Vector.replicate 32 0).run
      [.arrive (chunkMessage (fun _ => Vector.replicate 32 0) [1, 2]),
        .arrive (chunkMessage (fun _ => Vector.replicate 32 0) [3, 4]), .step true {},
        .step true {}, .step true {}, .step true {}, .step true {},
        .arrive (chunkMessage (fun _ => Vector.replicate 32 0) [5]),
        .arrive (encode .FinalChunk {}), .step true {}, .step true {}, .step true {},
        .step true {}] =
        some
          { session := { pc := .returned true, ofs := ⟨[1, 2, 3, 4, 5], true⟩, finish := true }
            consumed :=
              [chunkMessage (fun _ => Vector.replicate 32 0) [1, 2],
                chunkMessage (fun _ => Vector.replicate 32 0) [3, 4],
                chunkMessage (fun _ => Vector.replicate 32 0) [5],
                encode .FinalChunk {}] } := rfl
  have received := (sent.2.2 _ _ fed (by simp [MainLoop.Event.Works]) (List.prefix_refl _)).1
  exact ⟨_, fed, rfl, (received true rfl).2⟩

end PingPong
