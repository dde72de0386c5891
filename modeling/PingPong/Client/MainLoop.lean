import PingPong.Lib.Inevitable
import PingPong.Client.Rebuilding

/-!
# Runs of a session

`MainLoop` is a session on its own: the queue its messages arrive in, what it has consumed from it,
and the calls of `sendcb` with their results.  Messages arrive between any two steps, so a run
fixes the batches they arrive in, the result of each call and each answer of the file system.

`ClientSenderSession.Steps` and `ClientReceiverSession.Steps` list what one step can do.
-/

namespace PingPong

open Common Net
open TriviallyCopyable (ofBytes toBytes)

/-! ## Chunks -/

/-- The body of a chunk without its hash. -/
def payload (msg : Message) : List UInt8 := msg.body.take (msg.body.length - SHA256_DIGEST_LENGTH)

/-- The hash on top of a chunk. -/
def hashOf (msg : Message) : Hash :=
  ofBytes (msg.body.drop (msg.body.length - SHA256_DIGEST_LENGTH))

/-- The control sums match. -/
def Genuine (sha256_chunk : List UInt8 → Hash) (msg : Message) : Prop :=
  hashOf msg = sha256_chunk (payload msg)

/-- The payloads of the chunks of a sequence, one after another. -/
def payloads (msgs : List Message) : List UInt8 :=
  (msgs.filter fun msg => msg.header.id = .Chunk).flatMap payload

theorem payloads_append (xs ys : List Message) :
    payloads (xs ++ ys) = payloads xs ++ payloads ys := by
  unfold payloads
  rw [List.filter_append, List.flatMap_append]

theorem payloads_chunk {msg : Message} (chunk : msg.header.id = .Chunk) :
    payloads [msg] = payload msg := by
  simp [payloads, chunk]

theorem payloads_other {msg : Message} (other : msg.header.id ≠ .Chunk) : payloads [msg] = [] := by
  simp [payloads, other]

theorem payload_chunkMessage (sha256_chunk : List UInt8 → Hash) (data : List UInt8) :
    payload (chunkMessage sha256_chunk data) = data := by
  have body : (chunkMessage sha256_chunk data).body =
      data ++ toBytes (sha256_chunk data) := Net.Message.push1_body _ _
  have width : (toBytes (sha256_chunk data)).length = SHA256_DIGEST_LENGTH :=
    TriviallyCopyable.length_toBytes _
  unfold payload
  rw [body, List.length_append, width, Nat.add_sub_cancel, List.take_left]

theorem pop_hash {msg : Message} (long : SHA256_DIGEST_LENGTH ≤ msg.body.length) :
    msg.pop (ByteStack.Pop.data Hash) = some (hashOf msg, msg.resized (payload msg)) := by
  have fits : TriviallyCopyable.width Hash ≤ msg.size := long
  unfold ByteStack.Pop.data
  rw [Net.Message.pop_fixed_of_le fits]
  rfl

theorem pop_hash_short {msg : Message} (short : ¬ SHA256_DIGEST_LENGTH ≤ msg.body.length) :
    msg.pop (ByteStack.Pop.data Hash) = none := Net.Message.pop_fixed_of_lt short

/-! ## Runs -/

structure MainLoop (σ : Type) where
  session : σ
  m_messages_in : List Message := []
  consumed : List Message := []
  calls : List (Message × Bool) := []

namespace MainLoop

variable {σ : Type}

inductive Event where
  | arrive (msg : Message)
  | step (sendcb : Bool) (disk : Disk)

/-- The body of a session's `mainLoop`. -/
abbrev Body (σ : Type) : Type :=
  σ → List Message → (Message → Bool) → Disk → Option (Turn σ)

/-- The session after a step, where a call of `sendcb` returned `sendcb`. -/
def after (p : MainLoop σ) (turn : Turn σ) (sendcb : Bool) : MainLoop σ where
  session := turn.session
  m_messages_in := turn.m_messages_in
  consumed :=
    p.consumed ++ p.m_messages_in.take (p.m_messages_in.length - turn.m_messages_in.length)
  calls := p.calls ++ (turn.call.map fun msg => (msg, sendcb)).toList

def step (body : Body σ) (p : MainLoop σ) : Event → Option (MainLoop σ)
  | .arrive msg => some { p with m_messages_in := p.m_messages_in ++ [msg] }
  | .step sendcb disk =>
      (body p.session p.m_messages_in (fun _ => sendcb) disk).map fun turn => p.after turn sendcb

/-- What a step took off the queue and called. -/
structure Moved (p p' : MainLoop σ) (popped : List Message) (call : Option Message)
    (sendcb : Bool) : Prop where
  queue : p.m_messages_in = popped ++ p'.m_messages_in
  consumed : p'.consumed = p.consumed ++ popped
  calls : p'.calls = p.calls ++ (call.map fun msg => (msg, sendcb)).toList

theorem after_moved {p : MainLoop σ} {turn : Turn σ} {popped : List Message} {sendcb : Bool}
    (queue : p.m_messages_in = popped ++ turn.m_messages_in) :
    Moved p (p.after turn sendcb) popped turn.call sendcb := by
  refine ⟨queue, ?_, rfl⟩
  unfold after
  rw [queue, List.length_append, Nat.add_sub_cancel, List.take_left]

/-- The messages that arrive in a run. -/
def arrivals (es : List Event) : List Message :=
  es.filterMap fun
    | .arrive msg => some msg
    | .step _ _ => none

theorem arrivals_append (es fs : List Event) : arrivals (es ++ fs) = arrivals es ++ arrivals fs :=
  List.filterMap_append

/-- Whatever has arrived is consumed or still in the queue. -/
theorem arrivals_eq {body : Body σ} {session : σ}
    (moves : ∀ p p' sendcb disk, step body p (.step sendcb disk) = some p' →
      ∃ popped call, Moved p p' popped call sendcb)
    {es : List Event} {p : MainLoop σ}
    (run : (⟨{ session }, step body⟩ : Lts (MainLoop σ) Event).run es = some p) :
    p.consumed ++ p.m_messages_in = arrivals es := by
  refine Lts.run_induct (P := fun es p => p.consumed ++ p.m_messages_in = arrivals es) rfl ?_ run
  intro es s e t _ ih step
  rw [arrivals_append, ← ih]
  cases e with
  | arrive msg =>
      cases step
      exact (List.append_assoc _ _ _).symm
  | step sendcb disk =>
      obtain ⟨popped, call, moved⟩ := moves s t sendcb disk step
      rw [moved.queue, moved.consumed, List.append_assoc]
      exact (List.append_nil _).symm

end MainLoop

/-! ## The steps of the sender -/

namespace ClientSenderSession

/-- `mainLoop` over a file, with nothing in the queue yet. -/
def mainLoop (sha256_chunk : List UInt8 → Hash) (m_file : List UInt8) (m_max_chunk_size : UInt64) :
    Lts (MainLoop ClientSenderSession) MainLoop.Event :=
  ⟨{ session := { m_file, m_max_chunk_size } },
    MainLoop.step fun t m_messages_in sendcb disk => t.step sha256_chunk m_messages_in sendcb disk⟩

/-- The head of the outer loop. -/
def Going (t : ClientSenderSession) : Prop := t.ifs.good = true ∧ t.op_result = true

/-- The bytes of the next read, and the stream after it. -/
def next (t : ClientSenderSession) (disk : Disk) : List UInt8 × Ifstream :=
  t.ifs.read t.m_max_chunk_size.toNat disk.reads

/-- The buffer for the next read, and the chunk made of it, are no longer than a vector can be. -/
structure Fits (t : ClientSenderSession) (disk : Disk) : Prop where
  buffer : t.m_max_chunk_size.toNat ≤ max_size
  chunk : (t.next disk).1 ≠ [] → (t.next disk).1.length + SHA256_DIGEST_LENGTH ≤ max_size

/-- What a step does to the session, and what it consumes and calls. -/
inductive Steps (sha256_chunk : List UInt8 → Hash) (t : ClientSenderSession)
    (m_messages_in : List Message) (sendcb : Bool) (disk : Disk) :
    ClientSenderSession → List Message → Option Message → Prop
  | missing : t.pc = .start → disk.found = false →
    Steps sha256_chunk t m_messages_in sendcb disk { t with pc := .returned false } [] none
  | opens : t.pc = .start → disk.found = true →
    Steps sha256_chunk t m_messages_in sendcb disk
      { t with pc := .loop, ifs := ⟨t.m_file, disk.opens⟩ } [] none
  | aborted (msg : Message) (rest : List Message) : t.pc = .loop → t.Going →
    m_messages_in = msg :: rest → msg.header.id = .Abort →
    Steps sha256_chunk t m_messages_in sendcb disk
      { t with pc := .final, op_result := false } [msg] none
  | skipped (msg : Message) (rest : List Message) : t.pc = .loop → t.Going →
    m_messages_in = msg :: rest → msg.header.id ≠ .Abort →
    Steps sha256_chunk t m_messages_in sendcb disk t [msg] none
  | drained : t.pc = .loop → t.Going → m_messages_in = [] →
    Steps sha256_chunk t m_messages_in sendcb disk { t with pc := .read } [] none
  | leaves : t.pc = .loop → ¬ t.Going →
    Steps sha256_chunk t m_messages_in sendcb disk { t with pc := .final } [] none
  | sends : t.pc = .read → (t.next disk).1 ≠ [] → sendcb = true → t.Fits disk →
    Steps sha256_chunk t m_messages_in sendcb disk
      { t with pc := .loop, ifs := (t.next disk).2 } []
      (some (chunkMessage sha256_chunk (t.next disk).1))
  | refused : t.pc = .read → (t.next disk).1 ≠ [] → sendcb = false → t.Fits disk →
    Steps sha256_chunk t m_messages_in sendcb disk
      { t with pc := .final, ifs := (t.next disk).2, op_result := false } []
      (some (chunkMessage sha256_chunk (t.next disk).1))
  | exhausted : t.pc = .read → (t.next disk).1 = [] → t.Fits disk →
    Steps sha256_chunk t m_messages_in sendcb disk
      { t with pc := .final, ifs := (t.next disk).2 } [] none
  | finishes : t.pc = .final →
    Steps sha256_chunk t m_messages_in sendcb disk
      { t with pc := .returned t.op_result } [] (some (encode .FinalChunk {}))

theorem step_steps {sha256_chunk : List UInt8 → Hash} {t : ClientSenderSession}
    {m_messages_in : List Message} {sendcb : Bool} {disk : Disk} {turn : Turn ClientSenderSession}
    (step : t.step sha256_chunk m_messages_in (fun _ => sendcb) disk = some turn) :
    ∃ popped, m_messages_in = popped ++ turn.m_messages_in ∧
      Steps sha256_chunk t m_messages_in sendcb disk turn.session popped turn.call := by
  have going : (t.ifs.good && t.op_result) = true ↔ t.Going := Bool.and_eq_true_iff
  unfold ClientSenderSession.step at step
  split at step
  · rename_i pc
    split at step
    · rename_i found
      cases step
      exact ⟨[], rfl, .opens pc found⟩
    · rename_i missing
      cases step
      exact ⟨[], rfl, .missing pc (Bool.eq_false_iff.mpr missing)⟩
  · rename_i pc
    split at step
    · rename_i goes
      split at step
      · rename_i msg rest
        split at step
        · rename_i abort
          cases step
          exact ⟨[msg], rfl, .aborted msg rest pc (going.mp goes) rfl abort⟩
        · rename_i other
          cases step
          exact ⟨[msg], rfl, .skipped msg rest pc (going.mp goes) rfl other⟩
      · cases step
        exact ⟨[], rfl, .drained pc (going.mp goes) rfl⟩
    · rename_i stops
      cases step
      exact ⟨[], rfl, .leaves pc fun goes => stops (going.mpr goes)⟩
  · rename_i pc
    split at step
    · cases step
    rename_i buffer
    have buffer := Nat.le_of_not_lt buffer
    dsimp only at step
    split at step
    · rename_i some_read
      have nonempty : (t.next disk).1 ≠ [] := List.length_pos_iff.mp some_read
      split at step
      · cases step
      rename_i chunk
      have fits : t.Fits disk := ⟨buffer, fun _ => Nat.le_of_not_lt chunk⟩
      split at step
      · rename_i taken
        cases step
        exact ⟨[], rfl, .sends pc nonempty taken fits⟩
      · rename_i refused
        cases step
        exact ⟨[], rfl, .refused pc nonempty (Bool.eq_false_iff.mpr refused) fits⟩
    · rename_i none_read
      have empty : (t.next disk).1 = [] := by
        apply List.eq_nil_of_length_eq_zero
        exact Nat.eq_zero_of_not_pos none_read
      cases step
      exact ⟨[], rfl, .exhausted pc empty ⟨buffer, fun nonempty => (nonempty empty).elim⟩⟩
  · rename_i pc
    cases step
    exact ⟨[], rfl, .finishes pc⟩
  · cases step

theorem mainLoop_step {sha256_chunk : List UInt8 → Hash} {m_file : List UInt8} {m : UInt64}
    {p p' : MainLoop ClientSenderSession} {sendcb : Bool} {disk : Disk}
    (step : (mainLoop sha256_chunk m_file m).step p (.step sendcb disk) = some p') :
    ∃ popped call, MainLoop.Moved p p' popped call sendcb ∧
      Steps sha256_chunk p.session p.m_messages_in sendcb disk p'.session popped call := by
  obtain ⟨turn, stepped, rfl⟩ := Option.map_eq_some_iff.mp step
  obtain ⟨popped, queue, steps⟩ := step_steps stepped
  exact ⟨popped, turn.call, MainLoop.after_moved queue, steps⟩

/-- What is left to do before `mainLoop` returns, if nothing more arrives. -/
def measure (t : ClientSenderSession) (m_messages_in : List Message) : Nat :=
  m_messages_in.length +
    match t.pc with
    | .start => 3 * t.m_file.length + 4
    | .loop => 3 * t.ifs.rest.length + 3
    | .read => 3 * t.ifs.rest.length + 2
    | .final => 1
    | .returned _ => 0

/-- A read takes off what it delivers. -/
theorem next_append (t : ClientSenderSession) (disk : Disk) :
    (t.next disk).1 ++ (t.next disk).2.rest = t.ifs.rest := by
  unfold next Ifstream.read
  split
  · exact List.take_append_drop _ _
  · rfl

/-- No read delivers more than the buffer takes, or than is left. -/
theorem next_length_le (t : ClientSenderSession) (disk : Disk) :
    (t.next disk).1.length ≤ min t.m_max_chunk_size.toNat t.ifs.rest.length := by
  unfold next Ifstream.read
  split
  · exact Nat.le_of_eq List.length_take
  · exact Nat.zero_le _

theorem Fits.of_limit {t : ClientSenderSession} {disk : Disk}
    (limit : t.m_max_chunk_size.toNat + SHA256_DIGEST_LENGTH ≤ max_size) : t.Fits disk := by
  have bound := t.next_length_le disk
  exact ⟨by omega, fun _ => by omega⟩

theorem next_rest_lt {t : ClientSenderSession} {disk : Disk} (some_read : (t.next disk).1 ≠ []) :
    (t.next disk).2.rest.length < t.ifs.rest.length := by
  have whole := t.next_append disk
  have length : 0 < (t.next disk).1.length := List.length_pos_iff.mpr some_read
  rw [← whole, List.length_append]
  omega

theorem Steps.measure_lt {sha256_chunk : List UInt8 → Hash} {t t' : ClientSenderSession}
    {m_messages_in popped rest : List Message} {sendcb : Bool} {disk : Disk}
    {call : Option Message}
    (steps : Steps sha256_chunk t m_messages_in sendcb disk t' popped call)
    (queue : m_messages_in = popped ++ rest) : t'.measure rest < t.measure m_messages_in := by
  rw [queue, measure, measure, List.length_append]
  cases steps with
  | aborted msg rest pc going front abort =>
      rw [pc, List.length_singleton]
      dsimp only
      omega
  | skipped msg rest pc going front other =>
      rw [List.length_singleton]
      omega
  | sends pc some_read taken =>
      have less := next_rest_lt some_read
      rw [pc, List.length_nil]
      dsimp only
      omega
  | missing pc | opens pc | drained pc | leaves pc | refused pc | exhausted pc | finishes pc =>
      rw [pc, List.length_nil]
      dsimp only
      omega

/-- The loop only faults at a chunk that is too long. -/
theorem step_enabled {sha256_chunk : List UInt8 → Hash} {t : ClientSenderSession}
    (m_messages_in : List Message) (sendcb : Message → Bool) (disk : Disk)
    (running : ∀ res, t.pc ≠ .returned res) (fits : t.pc = .read → t.Fits disk) :
    ∃ turn, t.step sha256_chunk m_messages_in sendcb disk = some turn := by
  unfold ClientSenderSession.step
  split
  · split <;> exact ⟨_, rfl⟩
  · split
    · split
      · split <;> exact ⟨_, rfl⟩
      · exact ⟨_, rfl⟩
    · exact ⟨_, rfl⟩
  · rename_i pc
    obtain ⟨buffer, chunk⟩ := fits pc
    rw [if_neg (Nat.not_lt.mpr buffer)]
    dsimp only
    split
    · rename_i some_read
      have chunk := chunk (List.length_pos_iff.mp some_read)
      unfold next at chunk
      rw [if_neg (Nat.not_lt.mpr chunk)]
      split <;> exact ⟨_, rfl⟩
    · exact ⟨_, rfl⟩
  · exact ⟨_, rfl⟩
  · rename_i res pc
    exact (running res pc).elim

end ClientSenderSession

/-! ## The steps of the receiver -/

namespace ClientReceiverSession

def mainLoop (sha256_chunk : List UInt8 → Hash) :
    Lts (MainLoop ClientReceiverSession) MainLoop.Event :=
  ⟨{ session := {} },
    MainLoop.step fun t m_messages_in _ disk => t.step sha256_chunk m_messages_in disk⟩

/-- The head of the outer loop. -/
def Going (t : ClientReceiverSession) : Prop :=
  t.ofs.good = true ∧ t.finish = false ∧ t.op_result = true

inductive Steps (sha256_chunk : List UInt8 → Hash) (t : ClientReceiverSession)
    (m_messages_in : List Message) (disk : Disk) :
    ClientReceiverSession → List Message → Option Message → Prop
  | opens : t.pc = .start → disk.opens = true →
    Steps sha256_chunk t m_messages_in disk { t with pc := .loop, ofs := ⟨[], true⟩ } [] none
  | locked : t.pc = .start → disk.opens = false →
    Steps sha256_chunk t m_messages_in disk { t with pc := .returned false } []
      (some (encode .FailedReceive {}))
  | wakes : t.pc = .loop → t.Going → m_messages_in ≠ [] →
    Steps sha256_chunk t m_messages_in disk { t with pc := .drain } [] none
  | leaves : t.pc = .loop → ¬ t.Going →
    Steps sha256_chunk t m_messages_in disk
      { t with pc := .returned t.op_result, ofs := t.ofs.close disk.writes } [] none
  | drained : t.pc = .drain → m_messages_in = [] →
    Steps sha256_chunk t m_messages_in disk { t with pc := .loop } [] none
  | aborted (msg : Message) (rest : List Message) : t.pc = .drain → m_messages_in = msg :: rest →
    msg.header.id = .Abort →
    Steps sha256_chunk t m_messages_in disk { t with pc := .loop, op_result := false } [msg] none
  | mismatched (msg : Message) (rest : List Message) : t.pc = .drain →
    m_messages_in = msg :: rest → msg.header.id = .Chunk →
    SHA256_DIGEST_LENGTH ≤ msg.body.length → ¬ Genuine sha256_chunk msg →
    Steps sha256_chunk t m_messages_in disk { t with pc := .loop, op_result := false } [msg] none
  | writes (msg : Message) (rest : List Message) : t.pc = .drain →
    m_messages_in = msg :: rest → msg.header.id = .Chunk →
    SHA256_DIGEST_LENGTH ≤ msg.body.length → Genuine sha256_chunk msg →
    Steps sha256_chunk t m_messages_in disk
      { t with ofs := t.ofs.write (payload msg) disk.writes } [msg] none
  | finishes (msg : Message) (rest : List Message) : t.pc = .drain →
    m_messages_in = msg :: rest → msg.header.id = .FinalChunk →
    Steps sha256_chunk t m_messages_in disk { t with pc := .loop, finish := true } [msg] none
  | skipped (msg : Message) (rest : List Message) : t.pc = .drain →
    m_messages_in = msg :: rest → msg.header.id ≠ .Abort → msg.header.id ≠ .Chunk →
    msg.header.id ≠ .FinalChunk → Steps sha256_chunk t m_messages_in disk t [msg] none

theorem consume_steps {sha256_chunk : List UInt8 → Hash} {t t' : ClientReceiverSession}
    {msg : Message} {rest : List Message} {disk : Disk} (pc : t.pc = .drain)
    (step : t.consume sha256_chunk msg disk = some t') :
    Steps sha256_chunk t (msg :: rest) disk t' [msg] none := by
  unfold ClientReceiverSession.consume at step
  split at step
  · rename_i abort
    cases step
    exact .aborted msg rest pc rfl abort
  rename_i abort
  split at step
  · rename_i chunk
    by_cases long : SHA256_DIGEST_LENGTH ≤ msg.body.length
    · rw [pop_hash long] at step
      dsimp only [Option.bind_eq_bind, Option.bind_some] at step
      split at step
      · rename_i mismatch
        cases step
        exact .mismatched msg rest pc rfl chunk long mismatch
      · rename_i genuine
        cases step
        exact .writes msg rest pc rfl chunk long (not_not.mp genuine)
    · rw [pop_hash_short long] at step
      cases step
  rename_i chunk
  split at step
  · rename_i final
    cases step
    exact .finishes msg rest pc rfl final
  · rename_i final
    cases step
    exact .skipped msg rest pc rfl abort chunk final

theorem step_steps {sha256_chunk : List UInt8 → Hash} {t : ClientReceiverSession}
    {m_messages_in : List Message} {disk : Disk} {turn : Turn ClientReceiverSession}
    (step : t.step sha256_chunk m_messages_in disk = some turn) :
    ∃ popped, m_messages_in = popped ++ turn.m_messages_in ∧
      Steps sha256_chunk t m_messages_in disk turn.session popped turn.call := by
  have going : (t.ofs.good && !t.finish && t.op_result) = true ↔ t.Going := by
    simp [Going, and_assoc]
  unfold ClientReceiverSession.step at step
  split at step
  · rename_i pc
    split at step
    · rename_i opens
      cases step
      exact ⟨[], rfl, .opens pc opens⟩
    · rename_i locked
      cases step
      exact ⟨[], rfl, .locked pc (Bool.eq_false_iff.mpr locked)⟩
  · rename_i pc
    split at step
    · rename_i goes
      split at step
      · cases step
      · cases step
        exact ⟨[], rfl, .wakes pc (going.mp goes) (List.cons_ne_nil _ _)⟩
    · rename_i stops
      cases step
      exact ⟨[], rfl, .leaves pc fun goes => stops (going.mpr goes)⟩
  · rename_i pc
    split at step
    · cases step
      exact ⟨[], rfl, .drained pc rfl⟩
    · rename_i msg rest
      obtain ⟨t', consumes, rfl⟩ := Option.map_eq_some_iff.mp step
      exact ⟨[msg], rfl, consume_steps pc consumes⟩
  · cases step

theorem mainLoop_step {sha256_chunk : List UInt8 → Hash} {p p' : MainLoop ClientReceiverSession}
    {sendcb : Bool} {disk : Disk}
    (step : (mainLoop sha256_chunk).step p (.step sendcb disk) = some p') :
    ∃ popped call, MainLoop.Moved p p' popped call sendcb ∧
      Steps sha256_chunk p.session p.m_messages_in disk p'.session popped call := by
  obtain ⟨turn, stepped, rfl⟩ := Option.map_eq_some_iff.mp step
  obtain ⟨popped, queue, steps⟩ := step_steps stepped
  exact ⟨popped, turn.call, MainLoop.after_moved queue, steps⟩

def measure (t : ClientReceiverSession) (m_messages_in : List Message) : Nat :=
  3 * m_messages_in.length +
    match t.pc with
    | .start => 4
    | .loop => if m_messages_in = [] then 1 else 3
    | .drain => 2
    | .returned _ => 0

theorem Steps.measure_lt {sha256_chunk : List UInt8 → Hash} {t t' : ClientReceiverSession}
    {m_messages_in popped rest : List Message} {disk : Disk} {call : Option Message}
    (steps : Steps sha256_chunk t m_messages_in disk t' popped call)
    (queue : m_messages_in = popped ++ rest) : t'.measure rest < t.measure m_messages_in := by
  have head : 1 ≤ (if rest = [] then 1 else 3) ∧ (if rest = [] then 1 else 3) ≤ 3 := by
    split <;> omega
  rw [measure, measure]
  cases steps with
  | opens pc | locked pc | leaves pc =>
      obtain rfl : m_messages_in = rest := queue
      rw [pc]
      dsimp only
      omega
  | wakes pc going some_in =>
      obtain rfl : m_messages_in = rest := queue
      rw [pc, if_neg some_in]
      dsimp only
      omega
  | drained pc empty =>
      obtain rfl : m_messages_in = rest := queue
      rw [pc, if_pos empty]
      dsimp only
      omega
  | aborted msg _ pc | mismatched msg _ pc | writes msg _ pc | finishes msg _ pc
  | skipped msg _ pc =>
      rw [queue, pc, List.length_append, List.length_singleton]
      dsimp only
      omega

/-- The loop only waits for a message, and only faults at a chunk too short for a hash. -/
theorem step_enabled {sha256_chunk : List UInt8 → Hash} {t : ClientReceiverSession}
    {m_messages_in : List Message} (disk : Disk) (running : ∀ res, t.pc ≠ .returned res)
    (awake : t.pc = .loop → t.Going → m_messages_in ≠ [])
    (long : t.pc = .drain → ∀ msg rest, m_messages_in = msg :: rest →
      msg.header.id = .Chunk → SHA256_DIGEST_LENGTH ≤ msg.body.length) :
    ∃ turn, t.step sha256_chunk m_messages_in disk = some turn := by
  unfold ClientReceiverSession.step
  split
  · split <;> exact ⟨_, rfl⟩
  · rename_i pc
    split
    · rename_i goes
      have going : t.Going := by simpa [Going, and_assoc] using goes
      split
      · exact (awake pc going rfl).elim
      · exact ⟨_, rfl⟩
    · exact ⟨_, rfl⟩
  · rename_i pc
    split
    · exact ⟨_, rfl⟩
    · rename_i msg rest
      unfold ClientReceiverSession.consume
      split
      · exact ⟨_, rfl⟩
      split
      · rename_i chunk
        rw [pop_hash (long pc msg rest rfl chunk)]
        dsimp only [Option.bind_eq_bind, Option.bind_some]
        split <;> exact ⟨_, rfl⟩
      split <;> exact ⟨_, rfl⟩
  · rename_i res pc
    exact (running res pc).elim

end ClientReceiverSession

end PingPong
