import PingPong.Client.MainLoop

/-!
# What the receiver's success means

* `ClientReceiverSession.Verified`: a `FinalChunk` was consumed before any `Abort` and any chunk
  whose control sums do not match, and the file holds the payloads of the chunks before it.
* `Lossless` is the condition on a step that keeps it so: the loop looks at the output stream only
  before it waits, so a stream that fails ends it without a change to `op_result`.
* `success_means_verified_iff`: a run that returns true is verified just when no step loses bytes.
-/

namespace PingPong

open Common Net

/-- The stream accepts all of `data`. -/
def Ofstream.Keeps (ofs : Ofstream) (data : List UInt8) (failure : Option Nat) : Prop :=
  if ofs.good then ∀ k, failure = some k → ofs.written.length + data.length ≤ k else data = []

theorem Ofstream.write_of_keeps {ofs : Ofstream} {data : List UInt8} {failure : Option Nat}
    (keeps : ofs.Keeps data failure) : (ofs.write data failure).written = ofs.written ++ data := by
  unfold Keeps at keeps
  unfold write
  split at keeps
  · rename_i good
    rw [if_pos good]
    cases failure with
    | none => rfl
    | some k =>
        apply List.take_of_length_le
        rw [List.length_append]
        exact keeps k rfl
  · rename_i bad
    rw [if_neg bad, keeps, List.append_nil]

/-- A stream that does not accept all of `data` has failed for good. -/
theorem Ofstream.write_of_loses {ofs : Ofstream} {data : List UInt8} {failure : Option Nat}
    (loses : ¬ ofs.Keeps data failure) :
    (ofs.write data failure).good = false ∧
      (ofs.write data failure).written.length < ofs.written.length + data.length := by
  unfold Keeps at loses
  unfold write
  split at loses
  · rename_i good
    rw [if_pos good]
    obtain ⟨k, loses⟩ := not_forall.mp loses
    obtain ⟨rfl, short⟩ := Classical.not_imp.mp loses
    refine ⟨rfl, ?_⟩
    dsimp only
    rw [List.length_take, List.length_append]
    omega
  · rename_i bad
    rw [if_neg bad]
    have length : 0 < data.length := List.length_pos_iff.mpr loses
    exact ⟨Bool.eq_false_iff.mpr bad, by omega⟩

theorem Ofstream.write_of_bad {ofs : Ofstream} {data : List UInt8} {failure : Option Nat}
    (bad : ofs.good = false) : ofs.write data failure = ofs := by
  unfold write
  rw [if_neg (by rw [bad]; exact Bool.false_ne_true)]

theorem Ofstream.close_of_keeps {ofs : Ofstream} {failure : Option Nat}
    (flushed : ∀ k, failure = some k → ofs.written.length ≤ k) :
    (ofs.close failure).written = ofs.written := by
  cases failure with
  | none => rfl
  | some k => exact List.take_of_length_le (flushed k rfl)

theorem Ofstream.close_length_le (ofs : Ofstream) (failure : Option Nat) :
    (ofs.close failure).written.length ≤ ofs.written.length := by
  cases failure with
  | none => exact Nat.le_refl _
  | some k => exact List.length_take_le' k ofs.written

namespace ClientReceiverSession

variable {sha256_chunk : List UInt8 → Hash}

/-! ## The property -/

/-- Neither the end of the transmission nor a reason to stop. -/
def Harmless (sha256_chunk : List UInt8 → Hash) (msg : Message) : Prop :=
  msg.header.id ≠ .Abort ∧ msg.header.id ≠ .FinalChunk ∧
    (msg.header.id = .Chunk → Genuine sha256_chunk msg)

structure Verified (sha256_chunk : List UInt8 → Hash) (consumed : List Message)
    (written : List UInt8) : Prop where
  file : ∃ before final, consumed = before ++ [final] ∧ final.header.id = .FinalChunk ∧
    (∀ msg ∈ before, Harmless sha256_chunk msg) ∧ written = payloads before

/-- Success is only reported for a verified file. -/
def SuccessMeansVerified (sha256_chunk : List UInt8 → Hash) (p : MainLoop ClientReceiverSession) :
    Prop :=
  p.session.pc = .returned true → Verified sha256_chunk p.consumed p.session.ofs.written

theorem Verified.written_eq {consumed : List Message} {written : List UInt8}
    (h : Verified sha256_chunk consumed written) : written = payloads consumed := by
  obtain ⟨before, final, rfl, id, -, rfl⟩ := h.file
  have other : final.header.id ≠ .Chunk := by
    rw [id]
    exact nofun
  rw [payloads_append, payloads_other other, List.append_nil]

/-! ## The condition -/

/-- No genuine chunk is lost on its way to the file, and unless it fails the loop is left behind a
`FinalChunk`, with all that is buffered. -/
def Lossless (sha256_chunk : List UInt8 → Hash) (p : MainLoop ClientReceiverSession) :
    MainLoop.Event → Prop
  | .arrive _ => True
  | .step _ disk =>
      match p.session.pc with
      | .drain => ∀ msg rest, p.m_messages_in = msg :: rest → msg.header.id = .Chunk →
          Genuine sha256_chunk msg → p.session.ofs.Keeps (payload msg) disk.writes
      | .loop => p.session.op_result = true →
          (p.session.finish = true ∧
            ∀ k, disk.writes = some k → p.session.ofs.written.length ≤ k) ∨
          (p.session.finish = false ∧ p.session.ofs.good = true)
      | _ => True

/-- With a message in front, a step is lossless if it keeps what a genuine chunk carries. -/
theorem lossless_iff_of_front {p : MainLoop ClientReceiverSession} {sendcb : Bool} {disk : Disk}
    {msg : Message} {rest : List Message} (pc : p.session.pc = .drain)
    (front : p.m_messages_in = msg :: rest) :
    Lossless sha256_chunk p (.step sendcb disk) ↔
      (msg.header.id = .Chunk → Genuine sha256_chunk msg →
        p.session.ofs.Keeps (payload msg) disk.writes) := by
  simp only [Lossless, pc, front]
  constructor
  · intro lossless
    exact lossless msg rest rfl
  · intro keeps msg' rest' same
    obtain ⟨rfl, rfl⟩ := List.cons.inj same
    exact keeps

/-! ## Runs that lose nothing, and runs that do -/

/-- Only harmless messages have been consumed, and the file holds what they carry. -/
structure Written (sha256_chunk : List UInt8 → Hash) (consumed : List Message)
    (written : List UInt8) : Prop where
  harmless : ∀ msg ∈ consumed, Harmless sha256_chunk msg
  file : written = payloads consumed

def Intact (sha256_chunk : List UInt8 → Hash) (p : MainLoop ClientReceiverSession) : Prop :=
  match p.session.pc with
  | .start => p.session.op_result = true ∧ p.session.finish = false ∧ p.consumed = []
  | .loop => p.session.op_result = true →
      (p.session.finish = true ∧ Verified sha256_chunk p.consumed p.session.ofs.written) ∨
      (p.session.finish = false ∧ Written sha256_chunk p.consumed p.session.ofs.written)
  | .drain => p.session.op_result = true ∧ p.session.finish = false ∧
      Written sha256_chunk p.consumed p.session.ofs.written
  | .returned res => res = true → Verified sha256_chunk p.consumed p.session.ofs.written

/-- Some bytes are missing from the file, and its stream has failed. -/
structure Short (ofs : Ofstream) (consumed : List Message) : Prop where
  bad : ofs.good = false
  missing : ofs.written.length < (payloads consumed).length

def Lost (sha256_chunk : List UInt8 → Hash) (p : MainLoop ClientReceiverSession) : Prop :=
  match p.session.pc with
  | .start => False
  | .loop => p.session.op_result = true → Short p.session.ofs p.consumed
  | .drain => p.session.op_result = true ∧ Short p.session.ofs p.consumed
  | .returned res => res = true → ¬ Verified sha256_chunk p.consumed p.session.ofs.written

theorem Verified.not_short {consumed : List Message} {written : List UInt8}
    (h : Verified sha256_chunk consumed written) :
    ¬ written.length < (payloads consumed).length := by
  rw [h.written_eq]
  omega

theorem Written.not_verified {consumed : List Message} {written' written : List UInt8}
    (h : Written sha256_chunk consumed written) : ¬ Verified sha256_chunk consumed written' := by
  intro verified
  obtain ⟨before, final, rfl, id, -, -⟩ := verified.file
  exact (h.harmless final (List.mem_append_right _ List.mem_cons_self)).2.1 id

theorem Written.consume {consumed : List Message} {written : List UInt8} {msg : Message}
    (h : Written sha256_chunk consumed written) (harmless : Harmless sha256_chunk msg)
    {written' : List UInt8} (more : written' = written ++ payloads [msg]) :
    Written sha256_chunk (consumed ++ [msg]) written' := by
  constructor
  · intro msg' member
    rcases List.mem_append.mp member with before | last
    · exact h.harmless msg' before
    · rw [List.mem_singleton.mp last]
      exact harmless
  · rw [more, h.file, payloads_append]

theorem Short.consume {ofs : Ofstream} {consumed : List Message} (h : Short ofs consumed)
    (popped : List Message) : Short ofs (consumed ++ popped) := by
  have missing := h.missing
  refine ⟨h.bad, ?_⟩
  rw [payloads_append, List.length_append]
  omega

/-! ## Steps -/

/-- A lossless step out of the loop closes a verified file. -/
theorem Intact.closed_verified {p : MainLoop ClientReceiverSession} {sendcb : Bool} {disk : Disk}
    (h : Intact sha256_chunk p) (pc : p.session.pc = .loop) (stops : ¬ p.session.Going)
    (lossless : Lossless sha256_chunk p (.step sendcb disk)) (fine : p.session.op_result = true) :
    Verified sha256_chunk p.consumed (p.session.ofs.close disk.writes).written := by
  simp only [Intact, pc] at h
  simp only [Lossless, pc] at lossless
  rcases lossless fine with ⟨finished, flushed⟩ | ⟨unfinished, good⟩
  · rw [Ofstream.close_of_keeps flushed]
    rcases h fine with ⟨-, verified⟩ | ⟨unfinished, -⟩
    · exact verified
    · rw [finished] at unfinished
      cases unfinished
  · exact (stops ⟨good, unfinished, fine⟩).elim

/-- Any other leaves the loop behind a failed write, or fails to flush. -/
theorem Intact.closed_unverified {p : MainLoop ClientReceiverSession} {sendcb : Bool} {disk : Disk}
    (h : Intact sha256_chunk p) (pc : p.session.pc = .loop)
    (loses : ¬ Lossless sha256_chunk p (.step sendcb disk)) (fine : p.session.op_result = true) :
    ¬ Verified sha256_chunk p.consumed (p.session.ofs.close disk.writes).written := by
  simp only [Intact, pc] at h
  simp only [Lossless, pc] at loses
  intro verified
  rcases h fine with ⟨finished, whole⟩ | ⟨-, written⟩
  · refine loses fun _ => Or.inl ⟨finished, fun k failure => ?_⟩
    have length : (p.session.ofs.written.take k).length = p.session.ofs.written.length := by
      rw [failure] at verified
      have same : p.session.ofs.written.take k = _ := verified.written_eq
      rw [same, whole.written_eq]
    rw [List.length_take] at length
    omega
  · exact written.not_verified verified

/-- **A lossless step** keeps a run intact, and any other loses some of the file. -/
theorem Intact.step {p p' : MainLoop ClientReceiverSession} {sendcb : Bool} {disk : Disk}
    {popped : List Message} {call : Option Message} (h : Intact sha256_chunk p)
    (moved : MainLoop.Moved p p' popped call sendcb)
    (steps : Steps sha256_chunk p.session p.m_messages_in disk p'.session popped call) :
    (Lossless sha256_chunk p (.step sendcb disk) → Intact sha256_chunk p') ∧
      (¬ Lossless sha256_chunk p (.step sendcb disk) → Lost sha256_chunk p') := by
  obtain ⟨session', queue', consumed', calls'⟩ := p'
  have consumed : consumed' = p.consumed ++ popped := moved.consumed
  cases steps with
  | opens pc opens =>
      simp only [Intact, pc] at h
      obtain ⟨fine, unfinished, none_consumed⟩ := h
      rw [none_consumed] at consumed
      simp only [Lossless, Intact, pc, not_true, false_implies, and_true, true_implies]
      intro _
      refine Or.inr ⟨unfinished, ?_, ?_⟩
      · rw [consumed]
        exact nofun
      · rw [consumed]
        rfl
  | locked pc locked =>
      simp only [Lossless, Intact, pc, not_true, false_implies, and_true]
      exact fun _ => nofun
  | wakes pc going some_in =>
      obtain ⟨good, unfinished, fine⟩ := going
      simp only [Intact, pc, fine, unfinished, true_implies] at h
      have lossless : Lossless sha256_chunk p (.step sendcb disk) := by
        simp only [Lossless, pc]
        exact fun _ => Or.inr ⟨unfinished, good⟩
      refine ⟨fun _ => ?_, fun loses => (loses lossless).elim⟩
      rcases h with ⟨finished, -⟩ | ⟨-, written⟩
      · cases finished
      · rw [List.append_nil] at consumed
        simp only [Intact, consumed]
        exact ⟨fine, unfinished, written⟩
  | leaves pc stops =>
      rw [List.append_nil] at consumed
      simp only [Intact, Lost, consumed]
      refine ⟨fun lossless fine => ?_, fun loses fine verified => ?_⟩
      · exact h.closed_verified pc stops lossless fine
      · exact h.closed_unverified pc loses fine verified
  | drained pc empty =>
      simp only [Intact, pc] at h
      rw [List.append_nil] at consumed
      have lossless : Lossless sha256_chunk p (.step sendcb disk) := by
        simp only [Lossless, pc, empty]
        exact nofun
      refine ⟨fun _ => ?_, fun loses => (loses lossless).elim⟩
      simp only [Intact, consumed]
      exact fun _ => Or.inr h.2
  | aborted msg rest pc front abort =>
      have lossless : Lossless sha256_chunk p (.step sendcb disk) := by
        rw [lossless_iff_of_front pc front, abort]
        exact nofun
      refine ⟨fun _ => ?_, fun loses => (loses lossless).elim⟩
      simp only [Intact]
      exact nofun
  | mismatched msg rest pc front chunk long mismatch =>
      have lossless : Lossless sha256_chunk p (.step sendcb disk) :=
        (lossless_iff_of_front pc front).mpr fun _ genuine => (mismatch genuine).elim
      refine ⟨fun _ => ?_, fun loses => (loses lossless).elim⟩
      simp only [Intact]
      exact nofun
  | writes msg rest pc front chunk long genuine =>
      simp only [Intact, pc] at h
      obtain ⟨fine, unfinished, written⟩ := h
      have harmless : Harmless sha256_chunk msg := by
        refine ⟨?_, ?_, fun _ => genuine⟩ <;> rw [chunk] <;> exact nofun
      rw [lossless_iff_of_front pc front, imp_iff_right chunk, imp_iff_right genuine]
      refine ⟨fun keeps => ?_, fun loses => ?_⟩
      · simp only [Intact, pc, consumed]
        refine ⟨fine, unfinished, written.consume harmless ?_⟩
        rw [Ofstream.write_of_keeps keeps, payloads_chunk chunk]
      · simp only [Lost, pc]
        obtain ⟨bad, short⟩ := Ofstream.write_of_loses loses
        refine ⟨fine, bad, ?_⟩
        rw [consumed, payloads_append, payloads_chunk chunk, List.length_append, ← written.file]
        exact short
  | finishes msg rest pc front final =>
      simp only [Intact, pc] at h
      have lossless : Lossless sha256_chunk p (.step sendcb disk) := by
        rw [lossless_iff_of_front pc front, final]
        exact nofun
      refine ⟨fun _ => ?_, fun loses => (loses lossless).elim⟩
      simp only [Intact, consumed]
      exact fun _ => Or.inl ⟨trivial, p.consumed, msg, rfl, final, h.2.2.harmless, h.2.2.file⟩
  | skipped msg rest pc front abort chunk final =>
      simp only [Intact, pc] at h
      obtain ⟨fine, unfinished, written⟩ := h
      have lossless : Lossless sha256_chunk p (.step sendcb disk) :=
        (lossless_iff_of_front pc front).mpr fun chunk' => (chunk chunk').elim
      refine ⟨fun _ => ?_, fun loses => (loses lossless).elim⟩
      simp only [Intact, pc, consumed]
      refine ⟨fine, unfinished, written.consume ⟨abort, final, fun id => (chunk id).elim⟩ ?_⟩
      rw [payloads_other chunk, List.append_nil]

/-- What is lost stays lost. -/
theorem Lost.step {p p' : MainLoop ClientReceiverSession} {sendcb : Bool} {disk : Disk}
    {popped : List Message} {call : Option Message} (h : Lost sha256_chunk p)
    (moved : MainLoop.Moved p p' popped call sendcb)
    (steps : Steps sha256_chunk p.session p.m_messages_in disk p'.session popped call) :
    Lost sha256_chunk p' := by
  obtain ⟨session', queue', consumed', calls'⟩ := p'
  have consumed : consumed' = p.consumed ++ popped := moved.consumed
  cases steps with
  | opens pc | locked pc =>
      simp only [Lost, pc] at h
  | wakes pc going some_in =>
      obtain ⟨good, -, fine⟩ := going
      simp only [Lost, pc] at h
      have bad := (h fine).bad
      rw [good] at bad
      cases bad
  | leaves pc stops =>
      simp only [Lost, pc] at h ⊢
      intro fine verified
      have short := (h fine).missing
      have kept := p.session.ofs.close_length_le disk.writes
      rw [List.append_nil] at consumed
      rw [consumed] at verified
      exact verified.not_short (by omega)
  | drained pc empty =>
      simp only [Lost, pc] at h ⊢
      rw [consumed]
      exact fun _ => h.2.consume []
  | aborted msg rest pc front abort | mismatched msg rest pc front chunk long mismatch =>
      simp only [Lost]
      exact nofun
  | writes msg rest pc front chunk long genuine =>
      simp only [Lost, pc] at h ⊢
      obtain ⟨fine, short⟩ := h
      rw [Ofstream.write_of_bad short.bad, consumed]
      exact ⟨fine, short.consume [msg]⟩
  | finishes msg rest pc front final =>
      simp only [Lost, pc] at h ⊢
      rw [consumed]
      exact fun _ => h.2.consume [msg]
  | skipped msg rest pc front abort chunk final =>
      simp only [Lost, pc] at h ⊢
      rw [consumed]
      exact ⟨h.1, h.2.consume [msg]⟩

/-! ## Runs -/

theorem Intact.start : Intact sha256_chunk (mainLoop sha256_chunk).init := ⟨rfl, rfl, rfl⟩

/-- A run is intact if no step loses anything, and has lost something if one does. -/
theorem run_intact_or_lost {es : List MainLoop.Event} {p : MainLoop ClientReceiverSession}
    (run : (mainLoop sha256_chunk).run es = some p) :
    ((∀ s e t, (mainLoop sha256_chunk).Takes es s e t → Lossless sha256_chunk s e) ∧
        Intact sha256_chunk p) ∨
      ((¬ ∀ s e t, (mainLoop sha256_chunk).Takes es s e t → Lossless sha256_chunk s e) ∧
        Lost sha256_chunk p) := by
  refine Lts.run_fork Intact.start ?_ ?_ ?_ run
  · intro s e t intact step lossless
    cases e with
    | arrive msg =>
        cases step
        exact intact
    | step sendcb disk =>
        obtain ⟨popped, call, moved, steps⟩ := mainLoop_step step
        exact (intact.step moved steps).1 lossless
  · intro s e t intact step loses
    cases e with
    | arrive msg => exact (loses trivial).elim
    | step sendcb disk =>
        obtain ⟨popped, call, moved, steps⟩ := mainLoop_step step
        exact (intact.step moved steps).2 loses
  · intro s e t lost step
    cases e with
    | arrive msg =>
        cases step
        exact lost
    | step sendcb disk =>
        obtain ⟨popped, call, moved, steps⟩ := mainLoop_step step
        exact lost.step moved steps

/-- **Success means a complete verified file** in exactly the runs that lose nothing before they
return true. -/
theorem success_means_verified_iff {es : List MainLoop.Event} {p : MainLoop ClientReceiverSession}
    (run : (mainLoop sha256_chunk).run es = some p) :
    SuccessMeansVerified sha256_chunk p ↔
      (p.session.pc = .returned true →
        ∀ s e t, (mainLoop sha256_chunk).Takes es s e t → Lossless sha256_chunk s e) := by
  unfold SuccessMeansVerified
  rcases run_intact_or_lost run with ⟨lossless, intact⟩ | ⟨loses, lost⟩
  · refine ⟨fun _ _ => lossless, fun _ returned => ?_⟩
    simp only [Intact, returned] at intact
    exact intact trivial
  · refine forall_congr' fun returned => ?_
    simp only [Lost, returned] at lost
    exact iff_of_false (lost trivial) loses

/-- A full disk ends the loop with success, and nothing in the file. -/
theorem unwritten_file_reported : ∃ p,
    (mainLoop fun _ => Vector.replicate 32 0).run
        [.arrive (chunkMessage (fun _ => Vector.replicate 32 0) [7]), .step true {},
          .step true {}, .step true { writes := some 0 }, .step true {}, .step true {}] = some p ∧
      ¬ SuccessMeansVerified (fun _ => Vector.replicate 32 0) p := by
  refine ⟨{
    session := { pc := .returned true, ofs := ⟨[], false⟩ }
    consumed := [chunkMessage (fun _ => Vector.replicate 32 0) [7]] }, rfl, fun means => ?_⟩
  have written := (means rfl).written_eq
  rw [payloads_chunk (chunkMessage_id _ _), payload_chunkMessage] at written
  cases written

/-- The same chunk and a `FinalChunk` behind it, in one batch. -/
theorem success_means_verified_received : ∃ p,
    (mainLoop fun _ => Vector.replicate 32 0).run
        [.arrive (chunkMessage (fun _ => Vector.replicate 32 0) [7]),
          .arrive (encode .FinalChunk {}), .step true {}, .step true {}, .step true {},
          .step true {}, .step true {}] = some p ∧
      p.session.pc = .returned true ∧
      SuccessMeansVerified (fun _ => Vector.replicate 32 0) p := by
  let received : MainLoop ClientReceiverSession :=
    { session := { pc := .returned true, ofs := ⟨[7], true⟩, finish := true }
      consumed :=
        [chunkMessage (fun _ => Vector.replicate 32 0) [7], encode .FinalChunk {}] }
  have run : (mainLoop fun _ => Vector.replicate 32 0).run
      [.arrive (chunkMessage (fun _ => Vector.replicate 32 0) [7]),
        .arrive (encode .FinalChunk {}), .step true {}, .step true {}, .step true {},
        .step true {}, .step true {}] = some received := rfl
  refine ⟨received, run, rfl, (success_means_verified_iff run).mpr fun _ s e t taken => ?_⟩
  obtain ⟨before, after, split, run, -⟩ := taken
  match before with
  | [] | [_] | [_, _] =>
      cases split
      cases run
      exact trivial
  | [_, _, _] =>
      cases split
      cases run
      exact fun _ => Or.inr ⟨rfl, rfl⟩
  | [_, _, _, _] | [_, _, _, _, _] =>
      cases split
      cases run
      exact fun _ _ _ _ _ => nofun
  | [_, _, _, _, _, _] =>
      cases split
      cases run
      exact fun _ => Or.inl ⟨rfl, nofun⟩
  | _ :: _ :: _ :: _ :: _ :: _ :: _ :: _ => simp at split

end ClientReceiverSession

end PingPong
