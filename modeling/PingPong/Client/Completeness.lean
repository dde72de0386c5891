import PingPong.Client.MainLoop

/-!
# What `FinalChunk` means

The loop of the sender has four exits, and all of them lead to the call for `FinalChunk`.

* `ClientSenderSession.FinalMeansWhole`: that call comes after calls that all succeeded, of chunks
  that carry the whole file, and with no `Abort` consumed; and only then is true returned.
* `Smooth` is the condition on a step that keeps it so.  `Intact.step` keeps a smooth run intact;
  the first step that is not smooth leaves it `Truncated`, and it never recovers.
* `final_means_whole_iff`: a run ends with a whole file just when all its steps are smooth.
-/

namespace PingPong

open Common Net

namespace ClientSenderSession

variable {sha256_chunk : List UInt8 → Hash} {m_file : List UInt8} {m : UInt64}

/-! ## The property -/

/-- The calls `earlier` all succeeded and carry the whole file, and no `Abort` was consumed. -/
structure Whole (m_file : List UInt8) (consumed : List Message)
    (earlier : List (Message × Bool)) : Prop where
  accepted : ∀ call ∈ earlier, call.2 = true
  no_abort : ∀ msg ∈ consumed, msg.header.id ≠ .Abort
  file : payloads (earlier.map Prod.fst) = m_file

structure FinalMeansWhole (m_file : List UInt8) (p : MainLoop ClientSenderSession) : Prop where
  emitted : ∀ earlier call later, p.calls = earlier ++ call :: later →
    call.1.header.id = .FinalChunk → Whole m_file p.consumed earlier
  returned : p.session.pc = .returned true → ∃ earlier call,
    p.calls = earlier ++ [call] ∧ call.1.header.id = .FinalChunk ∧
      Whole m_file p.consumed earlier

/-! ## The condition -/

/-- A file that is found can be opened, no `Abort` is taken off the queue, and with bytes of the
file left neither the read fails nor the call that follows it. -/
def Smooth (p : MainLoop ClientSenderSession) : MainLoop.Event → Prop
  | .arrive _ => True
  | .step sendcb disk =>
      match p.session.pc with
      | .start => disk.found = true → disk.opens = true ∨ p.session.m_file = []
      | .loop => p.session.Going →
          ∀ msg rest, p.m_messages_in = msg :: rest → msg.header.id ≠ .Abort
      | .read => p.session.ifs.rest ≠ [] → disk.reads = true ∧ sendcb = true
      | _ => True

theorem next_of_failure {t : ClientSenderSession} {disk : Disk} (fails : disk.reads = false) :
    (t.next disk).1 = [] := by
  unfold next
  rw [fails]
  rfl

/-- A read that delivers something has not failed, and leaves nothing in a stream no longer good. -/
theorem next_of_some_read {t : ClientSenderSession} {disk : Disk}
    (some_read : (t.next disk).1 ≠ []) :
    disk.reads = true ∧ ((t.next disk).2.good = false → (t.next disk).2.rest = []) := by
  cases reads : disk.reads with
  | false => exact (some_read (next_of_failure reads)).elim
  | true =>
      refine ⟨rfl, fun bad => ?_⟩
      unfold next at bad ⊢
      rw [reads] at bad ⊢
      have short : decide (t.m_max_chunk_size.toNat ≤ t.ifs.rest.length) = false := bad
      have short := of_decide_eq_false short
      exact List.drop_eq_nil_of_le (by omega)

theorem rest_of_some_read {t : ClientSenderSession} {disk : Disk}
    (some_read : (t.next disk).1 ≠ []) : t.ifs.rest ≠ [] := by
  intro empty
  have whole := t.next_append disk
  rw [empty] at whole
  exact some_read (List.append_eq_nil_iff.mp whole).1

/-- A read that does not fail delivers nothing only at the end of the file. -/
theorem rest_of_none_read {t : ClientSenderSession} {disk : Disk}
    (positive : 0 < t.m_max_chunk_size.toNat) (reads : disk.reads = true)
    (none_read : (t.next disk).1 = []) : t.ifs.rest = [] := by
  unfold next at none_read
  rw [reads, Ifstream.read_true] at none_read
  rcases List.take_eq_nil_iff.mp none_read with zero | empty
  · omega
  · exact empty

/-! ## Runs without a fault -/

/-- Only chunks have been sent, and they carry the file up to `rest`. -/
structure Carried (m_file : List UInt8) (consumed : List Message) (calls : List (Message × Bool))
    (rest : List UInt8) : Prop where
  accepted : ∀ call ∈ calls, call.2 = true
  chunks : ∀ call ∈ calls, call.1.header.id = .Chunk
  no_abort : ∀ msg ∈ consumed, msg.header.id ≠ .Abort
  split : payloads (calls.map Prod.fst) ++ rest = m_file

/-- The last call is the one for `FinalChunk`, behind calls for chunks. -/
structure Ended (calls chunks : List (Message × Bool)) : Prop where
  last : ∃ res, calls = chunks ++ [(encode .FinalChunk {}, res)]
  chunks : ∀ call ∈ chunks, call.1.header.id = .Chunk

def Intact (m_file : List UInt8) (p : MainLoop ClientSenderSession) : Prop :=
  match p.session.pc with
  | .start => p.session.op_result = true ∧ p.session.m_file = m_file ∧
      Carried m_file p.consumed p.calls m_file ∧ p.calls = []
  | .loop => p.session.op_result = true ∧
      Carried m_file p.consumed p.calls p.session.ifs.rest ∧
      (p.session.ifs.good = false → p.session.ifs.rest = [])
  | .read => p.session.op_result = true ∧ Carried m_file p.consumed p.calls p.session.ifs.rest
  | .final => p.session.op_result = true ∧ Carried m_file p.consumed p.calls []
  | .returned true => ∃ chunks, Ended p.calls chunks ∧ Whole m_file p.consumed chunks
  | .returned false => p.calls = []

/-- What a loop that can only end with `FinalChunk` has behind it. -/
def Truncated (m_file : List UInt8) (p : MainLoop ClientSenderSession) : Prop :=
  match p.session.pc with
  | .loop => ¬ p.session.Going ∧ (∀ call ∈ p.calls, call.1.header.id = .Chunk) ∧
      ¬ Whole m_file p.consumed p.calls
  | .final => (∀ call ∈ p.calls, call.1.header.id = .Chunk) ∧ ¬ Whole m_file p.consumed p.calls
  | .returned _ => ∃ chunks, Ended p.calls chunks ∧ ¬ Whole m_file p.consumed chunks
  | _ => False

theorem Carried.whole {consumed : List Message} {calls : List (Message × Bool)}
    (h : Carried m_file consumed calls []) : Whole m_file consumed calls := by
  refine ⟨h.accepted, h.no_abort, ?_⟩
  have split := h.split
  rw [List.append_nil] at split
  exact split

/-- A file is not whole with a part of it left. -/
theorem Carried.not_whole {consumed : List Message} {calls : List (Message × Bool)}
    {rest : List UInt8} (h : Carried m_file consumed calls rest) (more : rest ≠ []) :
    ¬ Whole m_file consumed calls := by
  intro whole
  have split := h.split
  rw [whole.file] at split
  exact more (List.append_right_eq_self.mp split)

theorem chunks_snoc {calls : List (Message × Bool)} (data : List UInt8) (res : Bool)
    (chunks : ∀ call ∈ calls, call.1.header.id = .Chunk) :
    ∀ call ∈ calls ++ [(chunkMessage sha256_chunk data, res)], call.1.header.id = .Chunk := by
  intro call member
  rcases List.mem_append.mp member with before | last
  · exact chunks call before
  · rw [List.mem_singleton.mp last]
    exact chunkMessage_id sha256_chunk data

theorem Carried.send {consumed : List Message} {calls : List (Message × Bool)}
    {data rest : List UInt8} (h : Carried m_file consumed calls (data ++ rest)) :
    Carried m_file consumed (calls ++ [(chunkMessage sha256_chunk data, true)]) rest := by
  refine ⟨?_, chunks_snoc data true h.chunks, h.no_abort, ?_⟩
  · intro call member
    rcases List.mem_append.mp member with before | last
    · exact h.accepted call before
    · rw [List.mem_singleton.mp last]
  · rw [List.map_append, List.map_singleton, payloads_append,
      payloads_chunk (chunkMessage_id sha256_chunk data), payload_chunkMessage, List.append_assoc]
    exact h.split

/-- A message other than `Abort` is skipped. -/
theorem Carried.skip {consumed : List Message} {calls : List (Message × Bool)}
    {rest : List UInt8} {msg : Message} (h : Carried m_file consumed calls rest)
    (other : msg.header.id ≠ .Abort) : Carried m_file (consumed ++ [msg]) calls rest := by
  refine ⟨h.accepted, h.chunks, ?_, h.split⟩
  intro msg' member
  rcases List.mem_append.mp member with before | last
  · exact h.no_abort msg' before
  · rw [List.mem_singleton.mp last]
    exact other

/-- The next read of a file that has been carried so far. -/
theorem Carried.read {t : ClientSenderSession} {disk : Disk} {consumed : List Message}
    {calls : List (Message × Bool)} (h : Carried m_file consumed calls t.ifs.rest) :
    Carried m_file consumed calls ((t.next disk).1 ++ (t.next disk).2.rest) := by
  rw [t.next_append disk]
  exact h

/-! ## Steps -/

/-- **A smooth step** keeps a run intact, and any other leaves the file truncated. -/
theorem Intact.step {p p' : MainLoop ClientSenderSession} {sendcb : Bool} {disk : Disk}
    {popped : List Message} {call : Option Message} (h : Intact m_file p)
    (positive : 0 < p.session.m_max_chunk_size.toNat)
    (moved : MainLoop.Moved p p' popped call sendcb)
    (steps : Steps sha256_chunk p.session p.m_messages_in sendcb disk p'.session popped call) :
    (Smooth p (.step sendcb disk) → Intact m_file p') ∧
      (¬ Smooth p (.step sendcb disk) → Truncated m_file p') := by
  obtain ⟨session', queue', consumed', calls'⟩ := p'
  obtain ⟨queue, consumed, calls⟩ := moved
  obtain rfl : consumed' = p.consumed ++ popped := consumed
  obtain rfl : calls' = p.calls ++ (call.map fun msg => (msg, sendcb)).toList := calls
  cases steps with
  | missing pc found =>
      simp only [Intact, pc] at h
      have smooth : Smooth p (.step sendcb disk) := by
        simp only [Smooth, pc]
        intro found'
        rw [found] at found'
        cases found'
      refine ⟨fun _ => ?_, fun rough => (rough smooth).elim⟩
      simpa [Intact] using h.2.2.2
  | opens pc found =>
      simp only [Intact, pc] at h
      obtain ⟨fine, file, carried, none_called⟩ := h
      simp only [Smooth, pc, found, true_implies]
      simp only [Intact, Truncated, List.append_nil, Option.map_none, Option.toList_none, file]
      refine ⟨fun smooth => ⟨fine, carried, fun bad => ?_⟩, fun rough => ?_⟩
      · rcases smooth with opens | empty
        · rw [opens] at bad
          cases bad
        · exact empty
      · obtain ⟨locked, more⟩ := not_or.mp rough
        refine ⟨fun going => locked going.1, carried.chunks, carried.not_whole more⟩
  | aborted msg rest pc going front abort =>
      simp only [Intact, pc] at h
      have rough : ¬ Smooth p (.step sendcb disk) := by
        simp only [Smooth, pc]
        exact fun smooth => smooth going msg rest front abort
      refine ⟨fun smooth => (rough smooth).elim, fun _ => ?_⟩
      simp only [Truncated, Option.map_none, Option.toList_none, List.append_nil]
      refine ⟨h.2.1.chunks, fun whole => ?_⟩
      exact whole.no_abort msg (List.mem_append_right _ List.mem_cons_self) abort
  | skipped msg rest pc going front other =>
      simp only [Intact, pc] at h
      obtain ⟨fine, carried, exhausted⟩ := h
      have smooth : Smooth p (.step sendcb disk) := by
        simp only [Smooth, pc, front]
        rintro - _ _ ⟨rfl, -⟩
        exact other
      refine ⟨fun _ => ?_, fun rough => (rough smooth).elim⟩
      simp only [Intact, pc, Option.map_none, Option.toList_none, List.append_nil]
      exact ⟨fine, carried.skip other, exhausted⟩
  | drained pc going empty =>
      simp only [Intact, pc] at h
      have smooth : Smooth p (.step sendcb disk) := by
        simp only [Smooth, pc, empty]
        rintro - _ _ ⟨⟩
      refine ⟨fun _ => ?_, fun rough => (rough smooth).elim⟩
      simp only [Intact, Option.map_none, Option.toList_none, List.append_nil]
      exact ⟨h.1, h.2.1⟩
  | leaves pc stops =>
      simp only [Intact, pc] at h
      obtain ⟨fine, carried, exhausted⟩ := h
      have smooth : Smooth p (.step sendcb disk) := by
        simp only [Smooth, pc]
        exact fun going => (stops going).elim
      refine ⟨fun _ => ?_, fun rough => (rough smooth).elim⟩
      have bad : p.session.ifs.good = false := by
        rw [← Bool.not_eq_true]
        exact fun good => stops ⟨good, fine⟩
      rw [exhausted bad] at carried
      simp only [Intact, Option.map_none, Option.toList_none, List.append_nil]
      exact ⟨fine, carried⟩
  | sends pc some_read taken =>
      simp only [Intact, pc] at h
      obtain ⟨fine, carried⟩ := h
      have sent : Carried m_file p.consumed
          (p.calls ++ [(chunkMessage sha256_chunk (p.session.next disk).1, true)])
          (p.session.next disk).2.rest := carried.read.send
      obtain ⟨reads, exhausted⟩ := next_of_some_read some_read
      have smooth : Smooth p (.step sendcb disk) := by
        simp only [Smooth, pc]
        exact fun _ => ⟨reads, taken⟩
      refine ⟨fun _ => ?_, fun rough => (rough smooth).elim⟩
      simp only [Intact, taken, Option.map_some, Option.toList_some, List.append_nil]
      exact ⟨fine, sent, exhausted⟩
  | refused pc some_read refused =>
      simp only [Intact, pc] at h
      have rough : ¬ Smooth p (.step sendcb disk) := by
        simp only [Smooth, pc]
        intro smooth
        have taken := (smooth (rest_of_some_read some_read)).2
        rw [refused] at taken
        cases taken
      refine ⟨fun smooth => (rough smooth).elim, fun _ => ?_⟩
      simp only [Truncated, Option.map_some, Option.toList_some, List.append_nil]
      refine ⟨chunks_snoc _ _ h.2.chunks, fun whole => ?_⟩
      have accepted := whole.accepted _ (List.mem_append_right _ List.mem_cons_self)
      rw [refused] at accepted
      cases accepted
  | exhausted pc none_read =>
      simp only [Intact, pc] at h
      obtain ⟨fine, carried⟩ := h
      simp only [Smooth, pc]
      simp only [Intact, Truncated, Option.map_none, Option.toList_none, List.append_nil]
      refine ⟨fun smooth => ⟨fine, ?_⟩, fun rough => ⟨carried.chunks, ?_⟩⟩
      · have exhausted : p.session.ifs.rest = [] := by
          by_contra more
          exact more (rest_of_none_read positive (smooth more).1 none_read)
        rw [exhausted] at carried
        exact carried
      · exact carried.not_whole fun empty => rough fun more => (more empty).elim
  | finishes pc =>
      simp only [Intact, pc] at h
      obtain ⟨fine, carried⟩ := h
      have smooth : Smooth p (.step sendcb disk) := by
        simp only [Smooth, pc]
      refine ⟨fun _ => ?_, fun rough => (rough smooth).elim⟩
      simp only [Intact, fine, Option.map_some, Option.toList_some, List.append_nil]
      exact ⟨p.calls, ⟨⟨sendcb, rfl⟩, carried.chunks⟩, carried.whole⟩

/-- A truncated file stays truncated. -/
theorem Truncated.step {p p' : MainLoop ClientSenderSession} {sendcb : Bool} {disk : Disk}
    {popped : List Message} {call : Option Message} (h : Truncated m_file p)
    (moved : MainLoop.Moved p p' popped call sendcb)
    (steps : Steps sha256_chunk p.session p.m_messages_in sendcb disk p'.session popped call) :
    Truncated m_file p' := by
  obtain ⟨session', queue', consumed', calls'⟩ := p'
  obtain ⟨queue, consumed, calls⟩ := moved
  obtain rfl : consumed' = p.consumed ++ popped := consumed
  obtain rfl : calls' = p.calls ++ (call.map fun msg => (msg, sendcb)).toList := calls
  cases steps with
  | leaves pc stops =>
      simp only [Truncated, pc] at h
      simp only [Truncated, Option.map_none, Option.toList_none, List.append_nil]
      exact h.2
  | finishes pc =>
      simp only [Truncated, pc] at h
      simp only [Truncated, Option.map_some, Option.toList_some, List.append_nil]
      exact ⟨p.calls, ⟨⟨sendcb, rfl⟩, h.1⟩, h.2⟩
  | missing pc | opens pc | sends pc | refused pc | exhausted pc =>
      simp only [Truncated, pc] at h
  | aborted msg rest pc going | skipped msg rest pc going | drained pc going =>
      simp only [Truncated, pc] at h
      exact (h.1 going).elim

theorem Steps.limit_eq {t t' : ClientSenderSession} {m_messages_in popped : List Message}
    {sendcb : Bool} {disk : Disk} {call : Option Message}
    (steps : Steps sha256_chunk t m_messages_in sendcb disk t' popped call) :
    t'.m_max_chunk_size = t.m_max_chunk_size := by
  cases steps <;> rfl

/-! ## Runs -/

theorem Intact.start : Intact m_file (mainLoop sha256_chunk m_file m).init :=
  ⟨rfl, rfl, ⟨nofun, nofun, nofun, rfl⟩, rfl⟩

/-- A run is intact if all its steps are smooth, and truncated if not. -/
theorem run_intact_or_truncated (positive : 0 < m.toNat) {es : List MainLoop.Event}
    {p : MainLoop ClientSenderSession} (run : (mainLoop sha256_chunk m_file m).run es = some p) :
    ((∀ s e t, (mainLoop sha256_chunk m_file m).Takes es s e t → Smooth s e) ∧
        p.session.m_max_chunk_size = m ∧ Intact m_file p) ∨
      ((¬ ∀ s e t, (mainLoop sha256_chunk m_file m).Takes es s e t → Smooth s e) ∧
        Truncated m_file p) := by
  refine @Lts.run_fork _ _ _ (fun p => p.session.m_max_chunk_size = m ∧ Intact m_file p)
    (Truncated m_file) Smooth ⟨rfl, Intact.start⟩ ?_ ?_ ?_ _ _ run
  · intro s e t inv step smooth
    obtain ⟨limit, intact⟩ := inv
    cases e with
    | arrive msg =>
        cases step
        exact ⟨limit, intact⟩
    | step sendcb disk =>
        obtain ⟨popped, call, moved, steps⟩ := mainLoop_step step
        have positive : 0 < s.session.m_max_chunk_size.toNat := by rw [limit]; exact positive
        exact ⟨steps.limit_eq.trans limit, (intact.step positive moved steps).1 smooth⟩
  · intro s e t inv step rough
    obtain ⟨limit, intact⟩ := inv
    cases e with
    | arrive msg => exact (rough trivial).elim
    | step sendcb disk =>
        obtain ⟨popped, call, moved, steps⟩ := mainLoop_step step
        have positive : 0 < s.session.m_max_chunk_size.toNat := by rw [limit]; exact positive
        exact (intact.step positive moved steps).2 rough
  · intro s e t truncated step
    cases e with
    | arrive msg =>
        cases step
        exact truncated
    | step sendcb disk =>
        obtain ⟨popped, call, moved, steps⟩ := mainLoop_step step
        exact truncated.step moved steps

/-! ## What the calls show -/

/-- No call but the last is one for `FinalChunk`. -/
theorem Ended.earlier_eq {calls chunks earlier later : List (Message × Bool)}
    {call : Message × Bool} (h : Ended calls chunks) (split : calls = earlier ++ call :: later)
    (final : call.1.header.id = .FinalChunk) : earlier = chunks := by
  obtain ⟨res, whole⟩ := h.last
  rw [whole] at split
  rcases List.eq_nil_or_concat later with rfl | ⟨init, last, rfl⟩
  · exact (List.append_inj' split rfl).1.symm
  · rw [List.concat_eq_append, ← List.cons_append, ← List.append_assoc] at split
    obtain ⟨same, -⟩ := List.append_inj' split rfl
    have member : call ∈ chunks := by
      rw [same]
      exact List.mem_append_right _ List.mem_cons_self
    have chunk := h.chunks call member
    rw [final] at chunk
    cases chunk

/-- Where only chunks have been sent, nothing is claimed. -/
theorem finalMeansWhole_of_chunks {p : MainLoop ClientSenderSession}
    (chunks : ∀ call ∈ p.calls, call.1.header.id = .Chunk)
    (going : p.session.pc ≠ .returned true) : FinalMeansWhole m_file p := by
  refine ⟨fun earlier call later split final => ?_, fun returned => (going returned).elim⟩
  have member : call ∈ p.calls := by
    rw [split]
    exact List.mem_append_right _ List.mem_cons_self
  have chunk := chunks call member
  rw [final] at chunk
  cases chunk

theorem Intact.finalMeansWhole {p : MainLoop ClientSenderSession} (h : Intact m_file p) :
    FinalMeansWhole m_file p := by
  unfold Intact at h
  split at h
  · rename_i pc
    exact finalMeansWhole_of_chunks h.2.2.1.chunks (by rw [pc]; exact nofun)
  · rename_i pc
    exact finalMeansWhole_of_chunks h.2.1.chunks (by rw [pc]; exact nofun)
  · rename_i pc
    exact finalMeansWhole_of_chunks h.2.chunks (by rw [pc]; exact nofun)
  · rename_i pc
    exact finalMeansWhole_of_chunks h.2.chunks (by rw [pc]; exact nofun)
  · obtain ⟨chunks, ended, whole⟩ := h
    refine ⟨fun earlier call later split final => ?_, fun _ => ?_⟩
    · rw [ended.earlier_eq split final]
      exact whole
    · obtain ⟨res, last⟩ := ended.last
      exact ⟨chunks, _, last, rfl, whole⟩
  · rename_i pc
    refine finalMeansWhole_of_chunks ?_ (by rw [pc]; exact nofun)
    rw [h]
    exact nofun

theorem Truncated.finalMeansWhole_iff {p : MainLoop ClientSenderSession}
    (h : Truncated m_file p) :
    FinalMeansWhole m_file p ↔ ¬ ∃ res, p.session.pc = .returned res := by
  unfold Truncated at h
  split at h
  · rename_i pc
    rw [pc]
    exact ⟨fun _ => nofun, fun _ => finalMeansWhole_of_chunks h.2.1 (by rw [pc]; exact nofun)⟩
  · rename_i pc
    rw [pc]
    exact ⟨fun _ => nofun, fun _ => finalMeansWhole_of_chunks h.1 (by rw [pc]; exact nofun)⟩
  · rename_i res pc
    obtain ⟨chunks, ended, broken⟩ := h
    refine ⟨fun means => ?_, fun going => (going ⟨res, pc⟩).elim⟩
    obtain ⟨taken, last⟩ := ended.last
    exact (broken (means.emitted chunks _ [] last rfl)).elim
  · exact h.elim

/-- **`FinalChunk` means the whole file was sent** in exactly the runs that only take smooth steps
until they return. -/
theorem final_means_whole_iff (positive : 0 < m.toNat) {es : List MainLoop.Event}
    {p : MainLoop ClientSenderSession} (run : (mainLoop sha256_chunk m_file m).run es = some p) :
    FinalMeansWhole m_file p ↔
      ((∃ res, p.session.pc = .returned res) →
        ∀ s e t, (mainLoop sha256_chunk m_file m).Takes es s e t → Smooth s e) := by
  rcases run_intact_or_truncated positive run with ⟨smooth, -, intact⟩ | ⟨rough, truncated⟩
  · exact ⟨fun _ _ => smooth, fun _ => intact.finalMeansWhole⟩
  · rw [truncated.finalMeansWhole_iff]
    exact ⟨fun going returned => (going returned).elim,
      fun implies returned => rough (implies returned)⟩

/-- A file of one byte that cannot be read is reported as sent. -/
theorem unread_file_reported : ∃ p,
    (mainLoop (fun _ => Vector.replicate 32 0) [7] 512).run
        [.step true {}, .step true {}, .step true { reads := false }, .step true {}] = some p ∧
      p.session.pc = .returned true ∧ ¬ FinalMeansWhole [7] p := by
  refine ⟨{
    session :=
      { m_file := [7], m_max_chunk_size := 512, pc := .returned true, ifs := ⟨[7], false⟩ }
    calls := [(encode .FinalChunk {}, true)] }, rfl, rfl, fun means => ?_⟩
  have whole := means.emitted [] _ [] rfl rfl
  cases whole.file

/-- A run without messages in which nothing fails is smooth. -/
theorem smooth_of_faultless {es : List MainLoop.Event}
    (faultless : ∀ e ∈ es, e = .step true {}) :
    ∀ s e t, (mainLoop sha256_chunk m_file m).Takes es s e t → Smooth s e := by
  intro s e t taken
  obtain ⟨before, after, rfl, run, -⟩ := taken
  obtain rfl := faultless e (List.mem_append_right before List.mem_cons_self)
  have none_arrived : MainLoop.arrivals before = [] := by
    refine List.filterMap_eq_nil_iff.mpr fun e member => ?_
    rw [faultless e (List.mem_append_left _ member)]
  have queue : s.consumed ++ s.m_messages_in = MainLoop.arrivals before := by
    refine MainLoop.arrivals_eq (fun p p' sendcb disk step => ?_) run
    have step : (mainLoop sha256_chunk m_file m).step p (.step sendcb disk) = some p' := step
    obtain ⟨popped, call, moved, -⟩ := mainLoop_step step
    exact ⟨popped, call, moved⟩
  have empty := (List.append_eq_nil_iff.mp (queue.trans none_arrived)).2
  unfold Smooth
  cases s.session.pc with
  | start => exact fun _ => Or.inl rfl
  | loop =>
      intro _ msg rest front
      cases empty.symm.trans front
  | read => exact fun _ => ⟨rfl, rfl⟩
  | final | returned res => exact trivial

/-- A file of five bytes read and sent in three chunks. -/
theorem final_means_whole_sent : ∃ p,
    (mainLoop (fun _ => Vector.replicate 32 0) [1, 2, 3, 4, 5] 2).run
        (List.replicate 9 (.step true {})) = some p ∧
      p.session.pc = .returned true ∧ FinalMeansWhole [1, 2, 3, 4, 5] p := by
  let sent : MainLoop ClientSenderSession :=
    { session :=
        { m_file := [1, 2, 3, 4, 5]
          m_max_chunk_size := 2
          pc := .returned true
          ifs := ⟨[], false⟩ }
      calls :=
        [(chunkMessage (fun _ => Vector.replicate 32 0) [1, 2], true),
          (chunkMessage (fun _ => Vector.replicate 32 0) [3, 4], true),
          (chunkMessage (fun _ => Vector.replicate 32 0) [5], true),
          (encode .FinalChunk {}, true)] }
  have run : (mainLoop (fun _ => Vector.replicate 32 0) [1, 2, 3, 4, 5] 2).run
      (List.replicate 9 (.step true {})) = some sent := rfl
  have positive : 0 < (2 : UInt64).toNat := by decide
  refine ⟨sent, run, rfl, (final_means_whole_iff positive run).mpr fun _ => ?_⟩
  exact smooth_of_faultless fun e member => List.eq_of_mem_replicate member

end ClientSenderSession

end PingPong
