import PingPong.Client.Verification

/-!
# Waiting on a closed connection

Once the connection of a client is closed, or has failed to open, nothing more arrives: a routine
has to come to its end by its own steps, with what is in the queue and what its surroundings answer.

* `FileClient.Input` is everything that can happen to a client; `Sender.lts` and `Receiver.lts` are
  its runs.
* `Sender.Settled` and `Receiver.Settled` say, for each routine that waits on the network, what the
  queue has to hold for it to return, or the surroundings to answer.
* `routines_return_iff`: with the connection closed, a routine returns just when it is settled.
-/

namespace PingPong

open Common Net

inductive FileClient.Input where
  | own (choice : Choice)
  | event (e : FileClient.Event)
  | arrive (msg : Message)

/-- A step of the routine itself. -/
def FileClient.Input.Own (i : FileClient.Input) : Prop := ∃ choice, i = .own choice

/-- The routines of `sendRoutine` and `receiveRoutine` that wait on the network. -/
inductive Routine where
  | waitForConnection
  | establishSession
  | waitForConfirmation
  | mainLoop
deriving DecidableEq

/-- The program point behind a routine is in none that waits. -/
theorem Routine.left {r : Routine} {now : Option Routine} (behind : now = none) : now ≠ some r := by
  rw [behind]
  exact (Option.some_ne_none r).symm

/-- The loops of both `establishSession`s get to an answer they can decode, or past the queue. -/
def Answerable : List Message → Prop
  | [] => True
  | msg :: rest =>
      msg.header.id = .Reject ∨
      (msg.header.id = .Accept ∧ ∃ popped, decode .Accept msg = some popped) ∨
      (msg.header.id ≠ .Reject ∧ msg.header.id ≠ .Accept ∧ Answerable rest)

/-- What the loops of both `establishSession`s make of a message. -/
def answered {σ : Type} (msg : Message) (reject : σ) (accept : PostMetadata → σ) (skip : σ) :
    Option σ :=
  if msg.header.id = .Reject then some reject
  else if msg.header.id = .Accept then (decode .Accept msg).map fun popped => accept popped.1
  else some skip

/-- At the head of an answerable queue, the loop ends or goes on with the rest. -/
theorem answered_of_answerable {σ : Type} {msg : Message} {rest : List Message}
    (h : Answerable (msg :: rest)) (reject : σ) (accept : PostMetadata → σ) (skip : σ) :
    ∃ q, answered msg reject accept skip = some q ∧
      (q = reject ∨ (∃ post, q = accept post) ∨ (q = skip ∧ Answerable rest)) := by
  unfold answered
  rcases h with rejected | ⟨accepted, ⟨popped, decodes⟩⟩ | ⟨rejected, accepted, later⟩
  · rw [if_pos rejected]
    exact ⟨reject, rfl, Or.inl rfl⟩
  · have rejected : msg.header.id ≠ .Reject := by
      rw [accepted]
      exact nofun
    rw [if_neg rejected, if_pos accepted, decodes]
    exact ⟨accept popped.1, rfl, Or.inr (Or.inl ⟨popped.1, rfl⟩)⟩
  · rw [if_neg rejected, if_neg accepted]
    exact ⟨skip, rfl, Or.inr (Or.inr ⟨rfl, later⟩)⟩

/-- At the head of any other queue, it can only go on. -/
theorem answered_of_unanswerable {σ : Type} {msg : Message} {rest : List Message} {reject q : σ}
    {accept : PostMetadata → σ} {skip : σ} (h : ¬ Answerable (msg :: rest))
    (step : answered msg reject accept skip = some q) : q = skip ∧ ¬ Answerable rest := by
  unfold answered at step
  split at step
  · rename_i rejected
    exact (h (Or.inl rejected)).elim
  rename_i rejected
  split at step
  · rename_i accepted
    obtain ⟨popped, decodes, -⟩ := Option.map_eq_some_iff.mp step
    exact (h (Or.inr (Or.inl ⟨accepted, popped, decodes⟩))).elim
  · rename_i accepted
    cases step
    exact ⟨rfl, fun later => h (Or.inr (Or.inr ⟨rejected, accepted, later⟩))⟩

/-! ## The sender -/

namespace Sender

variable {sha256_chunk : List UInt8 → Hash} {op : Operation} {phrase : List UInt8}
  {chunksize : UInt64}

def lts (sha256_chunk : List UInt8 → Hash) (op : Operation) (phrase : List UInt8)
    (chunksize : UInt64) : Lts Sender FileClient.Input :=
  ⟨{ chunksize }, fun p i =>
    match i with
    | .own choice => p.step sha256_chunk op phrase choice
    | .event e => (p.c.on e).map fun c => { p with c }
    | .arrive msg => some { p with c := p.c.receive msg }⟩

def Pc.routine : Pc → Option Routine
  | .connecting => some .waitForConnection
  | .validating => some .waitForConnection
  | .announcing => some .establishSession
  | .waiting => some .establishSession
  | .establishing => some .establishSession
  | .confirming => some .waitForConfirmation
  | .draining => some .waitForConfirmation
  | _ => none

def Settled (choices : Stream' Choice) (p : Sender) : Prop :=
  match p.pc with
  | .connecting => choices.head.connects = false
  | .validating => False
  | .waiting => p.c.m_messages_in ≠ [] ∧ Answerable p.c.m_messages_in
  | .establishing => Answerable p.c.m_messages_in
  | .confirming => ∃ msg ∈ p.c.m_messages_in, msg.header.id = .Abort ∨ msg.header.id = .Success
  | .draining => ∃ msg ∈ p.c.m_messages_in, msg.header.id = .Abort ∨ msg.header.id = .Success
  | _ => True

/-- The routine ends by its own steps, its surroundings choosing `choices`. -/
def Returns (sha256_chunk : List UInt8 → Hash) (op : Operation) (phrase : List UInt8)
    (chunksize : UInt64) (choices : Stream' Choice) (r : Routine) (p : Sender) : Prop :=
  (lts sha256_chunk op phrase chunksize).Attains FileClient.Input.own
    (fun q => q.pc.routine ≠ some r) choices p

/-- What a routine has left to do. -/
def measure (p : Sender) : Nat :=
  p.c.m_messages_in.length +
    match p.pc with
    | .announcing => 3
    | .waiting => 2
    | .confirming => 2
    | _ => 1

/-- With the connection closed, in routine `r`. -/
structure Within (r : Routine) (p : Sender) : Prop where
  closed : p.c.isConnected = false
  routine : p.pc.routine = some r

theorem establish_eq (p : Sender) (op : Operation) (msg : Message) :
    p.establish op msg = answered msg { p with pc := .returned false }
      (fun post => startSession { p with chunksize := post.max_chunk_size } op) p := by
  unfold establish answered
  cases decode .Accept msg <;> rfl

/-- A settled routine is not stuck, and each step ends it or brings it nearer to its end. -/
theorem Settled.step {r : Routine} {p : Sender} {choices : Stream' Choice}
    (h : p.Settled choices) (within : Within r p) :
    ∃ q, p.step sha256_chunk op phrase choices.head = some q ∧
      (q.pc.routine ≠ some r ∨
        ((Within r q ∧ q.Settled choices.tail) ∧ q.measure < p.measure)) := by
  obtain ⟨closed, routine⟩ := within
  cases pc : p.pc with
  | connecting =>
      rw [pc] at routine
      cases routine
      simp only [Settled, pc] at h
      simp only [Sender.step, pc, h, Bool.false_eq_true, if_false]
      exact ⟨_, rfl, Or.inl (Routine.left rfl)⟩
  | validating => simp only [Settled, pc] at h
  | session | returned res =>
      rw [pc] at routine
      cases routine
  | announcing =>
      rw [pc] at routine
      cases routine
      have refused := p.c.send_fst_of_disconnected closed (encode .Send (announcement op phrase))
      simp only [Sender.step, pc, refused, Bool.false_eq_true, if_false]
      split <;> exact ⟨_, rfl, Or.inl (Routine.left rfl)⟩
  | waiting =>
      rw [pc] at routine
      simp only [Settled, pc] at h
      obtain ⟨msg, rest, queue⟩ := List.exists_cons_of_ne_nil h.1
      simp only [Sender.step, pc, queue]
      refine ⟨_, rfl, Or.inr ⟨⟨⟨closed, routine⟩, h.2⟩, ?_⟩⟩
      simp only [measure, pc]
      omega
  | establishing =>
      rw [pc] at routine
      cases routine
      simp only [Settled, pc] at h
      cases queue : p.c.m_messages_in with
      | nil =>
          simp only [Sender.step, pc, queue]
          exact ⟨_, rfl, Or.inl (Routine.left rfl)⟩
      | cons msg rest =>
          rw [queue] at h
          simp only [Sender.step, pc, queue, establish_eq]
          obtain ⟨q, step, rfl | ⟨post, rfl⟩ | ⟨rfl, later⟩⟩ := answered_of_answerable h
            { p.popped rest with pc := .returned false }
            (fun post => startSession { p.popped rest with chunksize := post.max_chunk_size } op)
            (p.popped rest)
          · exact ⟨_, step, Or.inl (Routine.left rfl)⟩
          · exact ⟨_, step, Or.inl (Routine.left rfl)⟩
          · refine ⟨_, step, Or.inr ⟨⟨⟨closed, ?_⟩, ?_⟩, ?_⟩⟩
            · simp only [popped, pc]
              rfl
            · simp only [Settled, popped, pc]
              exact later
            · simp only [measure, popped, pc, queue, List.length_cons]
              omega
  | confirming =>
      rw [pc] at routine
      simp only [Settled, pc] at h
      simp only [Sender.step, pc, closed, Bool.false_and, Bool.false_eq_true, if_false]
      refine ⟨_, rfl, Or.inr ⟨⟨⟨closed, routine⟩, h⟩, ?_⟩⟩
      simp only [measure, pc]
      omega
  | draining =>
      rw [pc] at routine
      cases routine
      simp only [Settled, pc] at h
      obtain ⟨answer, member, stops⟩ := h
      obtain ⟨msg, rest, queue⟩ := List.exists_cons_of_ne_nil (List.ne_nil_of_mem member)
      simp only [Sender.step, pc, queue, confirm]
      refine ⟨_, rfl, ?_⟩
      split
      · exact Or.inl (Routine.left rfl)
      split
      · exact Or.inl (Routine.left rfl)
      · rename_i abort success
        refine Or.inr ⟨⟨⟨closed, ?_⟩, ?_⟩, ?_⟩
        · simp only [popped, pc]
          rfl
        · simp only [Settled, popped, pc]
          rw [queue] at member
          rcases List.mem_cons.mp member with rfl | later
          · exact (stops.elim abort success).elim
          · exact ⟨answer, later, stops⟩
        · simp only [measure, popped, pc, queue, List.length_cons]
          omega

/-- A routine that is not settled makes no step, or one after which it is not settled either. -/
theorem unsettled_step {r : Routine} {p q : Sender} {choices : Stream' Choice}
    (h : ¬ p.Settled choices) (within : Within r p)
    (step : p.step sha256_chunk op phrase choices.head = some q) :
    Within r q ∧ ¬ q.Settled choices.tail := by
  obtain ⟨closed, routine⟩ := within
  cases pc : p.pc with
  | connecting =>
      rw [pc] at routine
      simp only [Settled, pc, Bool.not_eq_false] at h
      simp only [Sender.step, pc, h, if_true] at step
      cases step
      exact ⟨⟨closed, routine⟩, id⟩
  | validating =>
      simp only [Sender.step, pc, closed, Bool.false_and, Bool.false_eq_true, if_false] at step
      cases step
      refine ⟨⟨closed, routine⟩, ?_⟩
      simp only [Settled, pc]
      exact id
  | announcing | session | returned res => simp only [Settled, pc, not_true] at h
  | waiting =>
      rw [pc] at routine
      simp only [Settled, pc] at h
      simp only [Sender.step, pc] at step
      split at step
      · cases step
      · rename_i msg rest queue
        cases step
        refine ⟨⟨closed, routine⟩, fun answerable => h ⟨?_, answerable⟩⟩
        rw [queue]
        exact List.cons_ne_nil msg rest
  | establishing =>
      simp only [Settled, pc] at h
      simp only [Sender.step, pc] at step
      split at step
      · rename_i queue
        rw [queue] at h
        exact (h trivial).elim
      · rename_i msg rest queue
        rw [queue] at h
        rw [establish_eq] at step
        obtain ⟨rfl, later⟩ := answered_of_unanswerable h step
        refine ⟨⟨closed, routine⟩, ?_⟩
        simp only [Settled, popped, pc]
        exact later
  | confirming =>
      rw [pc] at routine
      simp only [Settled, pc] at h
      simp only [Sender.step, pc, closed, Bool.false_and, Bool.false_eq_true, if_false] at step
      cases step
      exact ⟨⟨closed, routine⟩, h⟩
  | draining =>
      simp only [Settled, pc] at h
      simp only [Sender.step, pc] at step
      split at step
      · rename_i queue
        cases step
        refine ⟨⟨closed, by rw [← routine, pc]; rfl⟩, ?_⟩
        simp only [Settled]
        exact h
      · rename_i msg rest queue
        rw [queue] at h
        cases step
        unfold confirm
        split
        · rename_i abort
          exact (h ⟨msg, List.mem_cons_self, Or.inl abort⟩).elim
        split
        · rename_i success
          exact (h ⟨msg, List.mem_cons_self, Or.inr success⟩).elim
        · refine ⟨⟨closed, routine⟩, ?_⟩
          simp only [Settled, popped, pc]
          intro awaited
          obtain ⟨answer, later, stops⟩ := awaited
          exact h ⟨answer, List.mem_cons_of_mem msg later, stops⟩

theorem returns_iff_settled {r : Routine} {p : Sender} {choices : Stream' Choice}
    (within : Within r p) :
    Returns sha256_chunk op phrase chunksize choices r p ↔ p.Settled choices := by
  refine Lts.attains_iff measure ?_ ?_ within
  · intro choices q within settled _
    exact settled.step within
  · intro choices q within unsettled
    exact ⟨fun left => left within.routine, fun t step => unsettled_step unsettled within step⟩

end Sender

/-! ## The loop of the receiver -/

namespace ClientReceiverSession

variable {sha256_chunk : List UInt8 → Hash}

/-- The inner loop stops at this message. -/
def HaltsAt (sha256_chunk : List UInt8 → Hash) (msg : Message) : Prop :=
  msg.header.id = .Abort ∨ msg.header.id = .FinalChunk ∨
    (msg.header.id = .Chunk ∧ SHA256_DIGEST_LENGTH ≤ msg.body.length ∧ ¬ Genuine sha256_chunk msg)

/-- The inner loop goes on behind this message; at a chunk too short for a hash it faults. -/
def Passes (sha256_chunk : List UInt8 → Hash) (msg : Message) : Prop :=
  Harmless sha256_chunk msg ∧
    (msg.header.id = .Chunk → SHA256_DIGEST_LENGTH ≤ msg.body.length)

/-- The inner loop gets to a message that stops it. -/
def Halts (sha256_chunk : List UInt8 → Hash) : List Message → Prop
  | [] => False
  | msg :: rest => HaltsAt sha256_chunk msg ∨ (Passes sha256_chunk msg ∧ Halts sha256_chunk rest)

/-- The write of a chunk fails. -/
def Breaks (answers : Stream' Disk) : List Message → Prop
  | [] => False
  | msg :: rest =>
      (msg.header.id = .Chunk ∧ answers.head.writes ≠ none) ∨ Breaks answers.tail rest

/-- The inner loop is the last: a message stops it, or it gets past all of them, and with `stops` or
after a write that fails the outer loop ends. -/
def Ends (sha256_chunk : List UInt8 → Hash) (stops : Prop) (answers : Stream' Disk)
    (m_messages_in : List Message) : Prop :=
  Halts sha256_chunk m_messages_in ∨
    ((stops ∨ Breaks answers m_messages_in) ∧ ∀ msg ∈ m_messages_in, Passes sha256_chunk msg)

/-- The loop comes to its end with the messages in the queue. -/
def Awake (sha256_chunk : List UInt8 → Hash) (answers : Stream' Disk) (t : ClientReceiverSession)
    (m_messages_in : List Message) : Prop :=
  match t.pc with
  | .start => answers.head.opens = true → t.finish = false → t.op_result = true →
      Ends sha256_chunk False answers.tail.tail m_messages_in
  | .loop => t.Going → Ends sha256_chunk False answers.tail m_messages_in
  | .drain => Ends sha256_chunk (¬ t.Going) answers m_messages_in
  | .returned _ => True

theorem passes_of_genuine {msg : Message} (chunk : msg.header.id = .Chunk)
    (long : SHA256_DIGEST_LENGTH ≤ msg.body.length) (genuine : Genuine sha256_chunk msg) :
    Passes sha256_chunk msg := by
  refine ⟨⟨?_, ?_, fun _ => genuine⟩, fun _ => long⟩
  · rw [chunk]
    exact nofun
  · rw [chunk]
    exact nofun

/-- No message both stops the loop and lets it go on. -/
theorem Passes.not_haltsAt {msg : Message} (h : Passes sha256_chunk msg) :
    ¬ HaltsAt sha256_chunk msg := by
  intro halts
  rcases halts with abort | final | ⟨chunk, -, mismatch⟩
  · exact h.1.1 abort
  · exact h.1.2.1 final
  · exact mismatch (h.1.2.2 chunk)

/-- Behind a message the loop passes, all is as before. -/
theorem halts_cons_iff {msg : Message} {rest : List Message} (passes : Passes sha256_chunk msg) :
    Halts sha256_chunk (msg :: rest) ↔ Halts sha256_chunk rest := by
  constructor
  · intro halts
    rcases halts with halts | ⟨-, later⟩
    · exact (passes.not_haltsAt halts).elim
    · exact later
  · exact fun later => Or.inr ⟨passes, later⟩

theorem Ends.of_haltsAt {stops : Prop} {answers : Stream' Disk} {msg : Message}
    {rest : List Message} (halts : HaltsAt sha256_chunk msg) :
    Ends sha256_chunk stops answers (msg :: rest) := Or.inl (Or.inl halts)

theorem ends_nil_iff {stops : Prop} {answers : Stream' Disk} :
    Ends sha256_chunk stops answers [] ↔ stops := by
  simp [Ends, Halts, Breaks]

/-- A message the loop goes on behind decides nothing, unless it is a chunk that is not written. -/
theorem ends_cons_iff {stops stops' : Prop} {answers : Stream' Disk} {msg : Message}
    {rest : List Message} (passes : Passes sha256_chunk msg)
    (same : stops' ↔ stops ∨ (msg.header.id = .Chunk ∧ answers.head.writes ≠ none)) :
    Ends sha256_chunk stops answers (msg :: rest) ↔
      Ends sha256_chunk stops' answers.tail rest := by
  unfold Ends
  rw [halts_cons_iff passes, Breaks, ← or_assoc, ← same, List.forall_mem_cons,
    and_iff_right passes]

/-- At the head of the queue, the loop does not fault. -/
theorem Ends.long {stops : Prop} {answers : Stream' Disk} {msg : Message} {rest : List Message}
    (h : Ends sha256_chunk stops answers (msg :: rest)) (chunk : msg.header.id = .Chunk) :
    SHA256_DIGEST_LENGTH ≤ msg.body.length := by
  rcases h with (halts | ⟨passes, -⟩) | ⟨-, passes⟩
  · rcases halts with abort | final | ⟨-, long, -⟩
    · rw [abort] at chunk
      cases chunk
    · rw [final] at chunk
      cases chunk
    · exact long
  · exact passes.2 chunk
  · exact (passes msg List.mem_cons_self).2 chunk

theorem Awake.enabled {answers : Stream' Disk} {t : ClientReceiverSession}
    {m_messages_in : List Message} (h : Awake sha256_chunk answers t m_messages_in)
    (running : ∀ res, t.pc ≠ .returned res) :
    ∃ turn, t.step sha256_chunk m_messages_in answers.head = some turn := by
  apply step_enabled answers.head running
  · intro pc going same
    obtain rfl := same
    simp only [Awake, pc] at h
    exact ends_nil_iff.mp (h going)
  · intro pc msg rest same chunk
    obtain rfl := same
    simp only [Awake, pc] at h
    exact h.long chunk

/-- A write that fails ends the loop, and any other leaves it as it was. -/
theorem going_write_iff {t : ClientReceiverSession} {data : List UInt8} {failure : Option Nat} :
    Going { t with ofs := t.ofs.write data failure } ↔ t.Going ∧ failure = none := by
  unfold Going Ofstream.write
  cases failure with
  | none => split <;> simp_all
  | some k => split <;> simp_all

/-- **One step of the loop** decides nothing. -/
theorem awake_step_iff {answers : Stream' Disk} {t t' : ClientReceiverSession}
    {m_messages_in popped rest : List Message} {call : Option Message}
    (steps : Steps sha256_chunk t m_messages_in answers.head t' popped call)
    (queue : m_messages_in = popped ++ rest) :
    Awake sha256_chunk answers t m_messages_in ↔ Awake sha256_chunk answers.tail t' rest := by
  have ended : ∀ {t' : ClientReceiverSession}, t'.pc = .loop → ¬ t'.Going →
      Awake sha256_chunk answers.tail t' rest := by
    intro t' pc stops
    simp only [Awake, pc]
    exact fun going => (stops going).elim
  cases steps with
  | opens pc opens =>
      obtain rfl : m_messages_in = rest := queue
      simp only [Awake, pc]
      constructor
      · exact fun awake going => awake opens going.2.1 going.2.2
      · exact fun awake _ unfinished fine => awake ⟨rfl, unfinished, fine⟩
  | locked pc locked =>
      refine iff_of_true ?_ trivial
      simp only [Awake, pc]
      intro opens
      cases opens.symm.trans locked
  | wakes pc going some_in =>
      obtain rfl : m_messages_in = rest := queue
      have goes : (¬ t.Going) = False := eq_false (not_not_intro going)
      simp only [Awake, pc]
      change (t.Going → _) ↔ Ends sha256_chunk (¬ t.Going) _ _
      rw [goes]
      exact forall_prop_of_true going
  | leaves pc stops =>
      refine iff_of_true ?_ trivial
      simp only [Awake, pc]
      exact fun going => (stops going).elim
  | drained pc empty =>
      obtain rfl : m_messages_in = rest := queue
      subst empty
      simp only [Awake, pc, ends_nil_iff]
      exact Iff.rfl
  | aborted msg later pc front abort =>
      refine iff_of_true ?_ (ended rfl fun going => nomatch going.2.2)
      simp only [Awake, pc, front]
      exact .of_haltsAt (Or.inl abort)
  | mismatched msg later pc front chunk long mismatch =>
      refine iff_of_true ?_ (ended rfl fun going => nomatch going.2.2)
      simp only [Awake, pc, front]
      exact .of_haltsAt (Or.inr (Or.inr ⟨chunk, long, mismatch⟩))
  | finishes msg later pc front final =>
      refine iff_of_true ?_ (ended rfl fun going => nomatch going.2.1)
      simp only [Awake, pc, front]
      exact .of_haltsAt (Or.inr (Or.inl final))
  | writes msg later pc front chunk long genuine =>
      obtain rfl : m_messages_in = msg :: rest := queue
      simp only [Awake, pc]
      refine ends_cons_iff (passes_of_genuine chunk long genuine) ?_
      refine (not_congr going_write_iff).trans ?_
      rw [not_and_or, and_iff_right chunk]
  | skipped msg later pc front abort chunk final =>
      obtain rfl : m_messages_in = msg :: rest := queue
      have passes : Passes sha256_chunk msg :=
        ⟨⟨abort, final, fun id => (chunk id).elim⟩, fun id => (chunk id).elim⟩
      simp only [Awake, pc]
      exact ends_cons_iff passes (or_iff_left fun breaks => chunk breaks.1).symm

end ClientReceiverSession

/-! ## The receiver -/

namespace Receiver

open ClientReceiverSession (Awake awake_step_iff step_steps)

variable {sha256_chunk : List UInt8 → Hash} {op : Operation} {unset : Unset}

def lts (sha256_chunk : List UInt8 → Hash) (op : Operation) (unset : Unset) :
    Lts Receiver FileClient.Input :=
  ⟨{}, fun p i =>
    match i with
    | .own choice => p.step sha256_chunk op unset choice
    | .event e => (p.c.on e).map fun c => { p with c }
    | .arrive msg => some { p with c := p.c.receive msg }⟩

def Pc.routine : Pc → Option Routine
  | .connecting => some .waitForConnection
  | .validating => some .waitForConnection
  | .requesting => some .establishSession
  | .waiting => some .establishSession
  | .establishing => some .establishSession
  | .session => some .mainLoop
  | _ => none

def Settled (sha256_chunk : List UInt8 → Hash) (choices : Stream' Choice) (p : Receiver) : Prop :=
  match p.pc with
  | .connecting => choices.head.connects = false
  | .validating => False
  | .requesting => p.c.m_messages_in ≠ [] ∧ Answerable p.c.m_messages_in
  | .waiting => p.c.m_messages_in ≠ [] ∧ Answerable p.c.m_messages_in
  | .establishing => Answerable p.c.m_messages_in
  | .session => Awake sha256_chunk (choices.map Choice.disk) p.session p.c.m_messages_in
  | _ => True

def Returns (sha256_chunk : List UInt8 → Hash) (op : Operation) (unset : Unset)
    (choices : Stream' Choice) (r : Routine) (p : Receiver) : Prop :=
  (lts sha256_chunk op unset).Attains FileClient.Input.own (fun q => q.pc.routine ≠ some r)
    choices p

def measure (p : Receiver) : Nat :=
  match p.pc with
  | .requesting => p.c.m_messages_in.length + 3
  | .waiting => p.c.m_messages_in.length + 2
  | .session => p.session.measure p.c.m_messages_in
  | _ => p.c.m_messages_in.length + 1

structure Within (r : Routine) (p : Receiver) : Prop where
  closed : p.c.isConnected = false
  routine : p.pc.routine = some r

/-- A step of a session that has not returned. -/
theorem step_session {p : Receiver} (pc : p.pc = .session)
    (running : ∀ res, p.session.pc ≠ .returned res) (choice : Choice) :
    p.step sha256_chunk op unset choice =
      (p.session.step sha256_chunk p.c.m_messages_in choice.disk).map fun turn =>
        { p with c := p.c.after turn, session := turn.session } := by
  simp only [Receiver.step, pc]
  split
  · rename_i returned
    exact (running true returned).elim
  · rename_i returned
    exact (running false returned).elim
  · rfl

theorem Within.after {r : Routine} {p : Receiver} (h : Within r p)
    (turn : Turn ClientReceiverSession) :
    Within r { p with c := p.c.after turn, session := turn.session } := by
  refine ⟨?_, h.routine⟩
  change (p.c.after turn).m_connection.isConnected = false
  rw [Link.isConnected, FileClient.after_socket]
  exact h.closed

theorem establish_eq (p : Receiver) (msg : Message) :
    p.establish msg = answered msg { p with pc := .returned false }
      (fun _ => { p with pc := .asking }) p := by
  unfold establish answered
  cases decode .Accept msg <;> rfl

theorem Settled.step {r : Routine} {p : Receiver} {choices : Stream' Choice}
    (h : Settled sha256_chunk choices p) (within : Within r p) :
    ∃ q, p.step sha256_chunk op unset choices.head = some q ∧
      (q.pc.routine ≠ some r ∨
        ((Within r q ∧ Settled sha256_chunk choices.tail q) ∧ q.measure < p.measure)) := by
  have whole := within
  obtain ⟨closed, routine⟩ := within
  cases pc : p.pc with
  | connecting =>
      rw [pc] at routine
      cases routine
      simp only [Settled, pc] at h
      simp only [Receiver.step, pc, h, Bool.false_eq_true, if_false]
      exact ⟨_, rfl, Or.inl (Routine.left rfl)⟩
  | validating => simp only [Settled, pc] at h
  | asking | starting | finishing | flushing | awaiting | returned res =>
      rw [pc] at routine
      cases routine
  | requesting =>
      rw [pc] at routine
      simp only [Settled, pc] at h
      simp only [Receiver.step, pc]
      refine ⟨_, rfl, Or.inr ⟨⟨⟨?_, routine⟩, ?_⟩, ?_⟩⟩
      · change (p.c.post _).m_connection.isConnected = false
        rw [Link.isConnected, FileClient.post_socket]
        exact closed
      · simp only [Settled, FileClient.post_messages_in]
        exact h
      · simp only [measure, pc, FileClient.post_messages_in]
        omega
  | waiting =>
      rw [pc] at routine
      simp only [Settled, pc] at h
      obtain ⟨msg, rest, queue⟩ := List.exists_cons_of_ne_nil h.1
      simp only [Receiver.step, pc, queue]
      refine ⟨_, rfl, Or.inr ⟨⟨⟨closed, routine⟩, h.2⟩, ?_⟩⟩
      simp only [measure, pc]
      omega
  | establishing =>
      rw [pc] at routine
      cases routine
      simp only [Settled, pc] at h
      cases queue : p.c.m_messages_in with
      | nil =>
          simp only [Receiver.step, pc, queue]
          exact ⟨_, rfl, Or.inl (Routine.left rfl)⟩
      | cons msg rest =>
          rw [queue] at h
          simp only [Receiver.step, pc, queue, establish_eq]
          obtain ⟨q, step, rfl | ⟨post, rfl⟩ | ⟨rfl, later⟩⟩ := answered_of_answerable h
            { p.popped rest with pc := .returned false }
            (fun _ => { p.popped rest with pc := .asking }) (p.popped rest)
          · exact ⟨_, step, Or.inl (Routine.left rfl)⟩
          · exact ⟨_, step, Or.inl (Routine.left rfl)⟩
          · refine ⟨_, step, Or.inr ⟨⟨⟨closed, ?_⟩, ?_⟩, ?_⟩⟩
            · simp only [popped, pc]
              rfl
            · simp only [Settled, popped, pc]
              exact later
            · simp only [measure, popped, pc, queue, List.length_cons]
              omega
  | session =>
      simp only [Settled, pc] at h
      by_cases running : ∀ res, p.session.pc ≠ .returned res
      · rw [step_session pc running]
        obtain ⟨turn, stepped⟩ := h.enabled running
        obtain ⟨popped, queue, steps⟩ := step_steps stepped
        have stepped : p.session.step sha256_chunk p.c.m_messages_in choices.head.disk =
          some turn := stepped
        rw [stepped]
        refine ⟨_, rfl, Or.inr ⟨⟨whole.after turn, ?_⟩, ?_⟩⟩
        · simp only [Settled, pc, FileClient.after_messages_in]
          exact (awake_step_iff steps queue).mp h
        · simp only [measure, pc, FileClient.after_messages_in]
          exact steps.measure_lt queue
      · obtain ⟨res, returned⟩ := not_forall.mp running
        have returned := not_not.mp returned
        rw [pc] at routine
        cases routine
        simp only [Receiver.step, pc, returned]
        cases res <;> exact ⟨_, rfl, Or.inl (Routine.left rfl)⟩

theorem unsettled_step {r : Routine} {p q : Receiver} {choices : Stream' Choice}
    (h : ¬ Settled sha256_chunk choices p) (within : Within r p)
    (step : p.step sha256_chunk op unset choices.head = some q) :
    Within r q ∧ ¬ Settled sha256_chunk choices.tail q := by
  have whole := within
  obtain ⟨closed, routine⟩ := within
  cases pc : p.pc with
  | connecting =>
      rw [pc] at routine
      simp only [Settled, pc, Bool.not_eq_false] at h
      simp only [Receiver.step, pc, h, if_true] at step
      cases step
      exact ⟨⟨closed, routine⟩, id⟩
  | validating =>
      simp only [Receiver.step, pc, closed, Bool.false_and, Bool.false_eq_true, if_false] at step
      cases step
      refine ⟨⟨closed, routine⟩, ?_⟩
      simp only [Settled, pc]
      exact id
  | asking | starting | finishing | flushing | awaiting | returned res =>
      simp only [Settled, pc, not_true] at h
  | requesting =>
      rw [pc] at routine
      simp only [Settled, pc] at h
      simp only [Receiver.step, pc] at step
      cases step
      refine ⟨⟨?_, routine⟩, ?_⟩
      · change (p.c.post _).m_connection.isConnected = false
        rw [Link.isConnected, FileClient.post_socket]
        exact closed
      · simp only [Settled, FileClient.post_messages_in]
        exact h
  | waiting =>
      rw [pc] at routine
      simp only [Settled, pc] at h
      simp only [Receiver.step, pc] at step
      split at step
      · cases step
      · rename_i msg rest queue
        cases step
        refine ⟨⟨closed, routine⟩, fun answerable => h ⟨?_, answerable⟩⟩
        rw [queue]
        exact List.cons_ne_nil msg rest
  | establishing =>
      simp only [Settled, pc] at h
      simp only [Receiver.step, pc] at step
      split at step
      · rename_i queue
        rw [queue] at h
        exact (h trivial).elim
      · rename_i msg rest queue
        rw [queue] at h
        rw [establish_eq] at step
        obtain ⟨rfl, later⟩ := answered_of_unanswerable h step
        refine ⟨⟨closed, routine⟩, ?_⟩
        simp only [Settled, popped, pc]
        exact later
  | session =>
      simp only [Settled, pc] at h
      have running : ∀ res, p.session.pc ≠ .returned res := by
        intro res returned
        apply h
        simp only [Awake, returned]
      rw [step_session pc running] at step
      obtain ⟨turn, stepped, rfl⟩ := Option.map_eq_some_iff.mp step
      obtain ⟨popped, queue, steps⟩ := step_steps stepped
      refine ⟨whole.after turn, ?_⟩
      simp only [Settled, pc, FileClient.after_messages_in]
      exact fun awake => h ((awake_step_iff steps queue).mpr awake)

theorem returns_iff_settled {r : Routine} {p : Receiver} {choices : Stream' Choice}
    (within : Within r p) :
    Returns sha256_chunk op unset choices r p ↔ Settled sha256_chunk choices p := by
  refine Lts.attains_iff measure ?_ ?_ within
  · intro choices q within settled _
    exact settled.step within
  · intro choices q within unsettled
    exact ⟨fun left => left within.routine, fun t step => unsettled_step unsettled within step⟩

end Receiver

/-! ## Both clients -/

/-- **Routines on a closed connection.**  Each returns just when it is settled. -/
theorem routines_return_iff {sha256_chunk : List UInt8 → Hash} {op : Operation}
    {phrase : List UInt8} {chunksize : UInt64} {unset : Receiver.Unset} (r : Routine)
    (choices : Stream' Choice) :
    (∀ p : Sender, p.c.isConnected = false → p.pc.routine = some r →
      (Sender.Returns sha256_chunk op phrase chunksize choices r p ↔ p.Settled choices)) ∧
    ∀ p : Receiver, p.c.isConnected = false → p.pc.routine = some r →
      (Receiver.Returns sha256_chunk op unset choices r p ↔ p.Settled sha256_chunk choices) :=
  ⟨fun _ closed routine => Sender.returns_iff_settled ⟨closed, routine⟩,
    fun _ closed routine => Receiver.returns_iff_settled ⟨closed, routine⟩⟩

/-- A sender whose connection closes after its announcement, before any answer. -/
theorem unanswered_sender_hangs : ∃ p,
    (Sender.lts (fun _ => Vector.replicate 32 0) {} [] 0).run
        [.own {}, .event .opened, .event .validated, .own {}, .own {}, .event .closed] = some p ∧
      p.c.isConnected = false ∧ p.pc.routine = some .establishSession ∧
      ¬ Sender.Returns (fun _ => Vector.replicate 32 0) {} [] 0 (Stream'.const {})
        .establishSession p := by
  refine ⟨_, rfl, rfl, rfl, fun returns => ?_⟩
  have settled := (Sender.returns_iff_settled ⟨rfl, rfl⟩).mp returns
  exact settled.1 rfl

/-- A sender that cannot connect, and one whose connection closes behind the answer it waits for. -/
theorem routines_return_confirmed :
    Sender.Returns (fun _ => Vector.replicate 32 0) {} [] 0 (Stream'.const { connects := false })
      .waitForConnection { chunksize := 512 } ∧
    Sender.Returns (fun _ => Vector.replicate 32 0) {} [] 0 (Stream'.const {}) .waitForConfirmation
      { pc := .confirming
        c := { m_connection := { m_socket := .closed }, m_messages_in := [encode .Success {}] }
        chunksize := 512 } := by
  constructor
  · exact ((@routines_return_iff _ _ _ _ ⟨0, 0⟩ .waitForConnection _).1 _ rfl rfl).mpr rfl
  · refine ((@routines_return_iff _ _ _ _ ⟨0, 0⟩ .waitForConfirmation _).1 _ rfl rfl).mpr ?_
    exact ⟨encode .Success {}, List.mem_cons_self, Or.inr rfl⟩

end PingPong
