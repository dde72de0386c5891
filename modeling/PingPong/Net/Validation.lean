import Mathlib.Data.Nat.Bitwise
import PingPong.Net.Draining

/-!
# Which challenges a reply answers

A server expects the obfuscated challenge as its reply.  `obfuscate` moves the bits of one mask four
places down onto those of the other, which it leaves where they are: the shift in the other
direction is behind a comma.  Two bits of the challenge end up in one bit of the reply, and those
outside both masks in none.

* `obfuscate_ne_iff`: two challenges have different replies just when they are `Distinguished`.
* `validates_iff`: a server connection is validated by the reply to its challenge and no other.
* `own_replies_iff` puts them together.
-/

namespace PingPong.Net

open TriviallyCopyable (width toBytes ofBytes)

/-! ## The bits of a reply -/

/-- The mask whose bits stay where they are; the other one is four places up. -/
def keptMask : Nat := 0x0C0A0C0A0B0B0B

/-- What is masked. -/
def mixed (challenge : UInt64) : Nat := (challenge ^^^ 0xBABA15ACAB0011FF).toNat

/-- What becomes of bit `i` and of bit `i + 4`. -/
def merged (challenge : UInt64) (i : Nat) : Bool :=
  (mixed challenge).testBit i || (mixed challenge).testBit (i + 4)

/-- Some bit that is kept tells the challenges apart. -/
def Distinguished (a b : UInt64) : Prop :=
  ∃ i < 64, keptMask.testBit i = true ∧ merged a i ≠ merged b i

instance (a b : UInt64) : Decidable (Distinguished a b) :=
  inferInstanceAs (Decidable (∃ i < 64, keptMask.testBit i = true ∧ merged a i ≠ merged b i))

theorem testBit_obfuscate (challenge : UInt64) (i : Nat) :
    (obfuscate challenge).toNat.testBit i =
      ((keptMask.testBit i && merged challenge i) ^^ Nat.testBit 0xBABA15FACE1EE788 i) := by
  have shifted : Nat.testBit 0xC0A0C0A0B0B0B0 (4 + i) = keptMask.testBit i := by
    rw [← Nat.testBit_shiftRight]
    rfl
  have upper : (((challenge ^^^ 0xBABA15ACAB0011FF) &&& 0xC0A0C0A0B0B0B0) >>> 4).toNat.testBit i =
      (keptMask.testBit i && (mixed challenge).testBit (i + 4)) := by
    rw [UInt64.toNat_shiftRight, UInt64.toNat_and, Nat.add_comm i 4, Bool.and_comm, ← shifted]
    exact (Nat.testBit_shiftRight _).trans (Nat.testBit_and _ _ _)
  have lower : ((challenge ^^^ 0xBABA15ACAB0011FF) &&& 0x0C0A0C0A0B0B0B).toNat.testBit i =
      (keptMask.testBit i && (mixed challenge).testBit i) := by
    rw [UInt64.toNat_and, Bool.and_comm]
    exact Nat.testBit_and _ _ _
  unfold obfuscate merged
  rw [UInt64.toNat_xor, Nat.testBit_xor, UInt64.toNat_or, Nat.testBit_or, upper, lower,
    ← Bool.and_or_distrib_left, Bool.or_comm]
  rfl

/-- No two challenges have one reply if and only if they are distinguished. -/
theorem obfuscate_ne_iff (a b : UInt64) : obfuscate a ≠ obfuscate b ↔ Distinguished a b := by
  constructor
  · intro differ
    apply Decidable.by_contra
    intro alike
    apply differ
    apply UInt64.toNat_inj.mp
    apply Nat.eq_of_testBit_eq
    intro i
    rw [testBit_obfuscate, testBit_obfuscate]
    cases kept : keptMask.testBit i with
    | false => rfl
    | true =>
        have small : i < 64 := by
          by_contra large
          have bound : keptMask < 2 ^ i :=
            Nat.lt_of_lt_of_le (by decide : keptMask < 2 ^ 64)
              (Nat.pow_le_pow_right (by decide) (Nat.le_of_not_lt large))
          rw [Nat.testBit_lt_two_pow bound] at kept
          cases kept
        have same : merged a i = merged b i := by
          by_contra apart
          exact alike ⟨i, small, kept, apart⟩
        rw [same]
  · intro distinguished same
    obtain ⟨i, -, kept, apart⟩ := distinguished
    have bits := congrArg (fun reply => reply.toNat.testBit i) same
    simp only [testBit_obfuscate, kept, Bool.true_and, Bool.xor_left_inj] at bits
    exact apart bits

/-! ## A server connection and the replies it reads -/

namespace Connection

variable {T : Type} [Inhabited T]

/-- What the check of a reply works on. -/
structure Checking where
  owner : EOwner
  validated : Bool
  crypted : UInt64
  reads : Part → List Read
  consumed : List UInt8

def checking (c : Connection T) : Checking :=
  ⟨c.m_owner_type, c.m_validated, c.m_handshake_crypted, c.reads, c.consumed⟩

/-- The connection of a server that has not been validated.  It reads the reply, or nothing. -/
structure Unchecked (challenge : UInt64) (k : Checking) : Prop where
  owner : k.owner = .Server
  not_validated : k.validated = false
  crypted : k.crypted = obfuscate challenge
  header_reads : k.reads .header = []
  body_reads : k.reads .body = []
  reply : k.reads .validation = [] ∨
    ∃ op, k.reads .validation = [op] ∧ k.consumed = op.got ∧ op.got.length + op.missing = 8

/-- The one reply has been read first, or the connection is not validated. -/
def Checked (challenge : UInt64) (c : Connection T) : Prop :=
  Unchecked challenge c.checking ∨
    (c.m_validated = true ∧ toBytes (obfuscate challenge) <+: c.consumed)

theorem Unchecked.start (challenge : UInt64) :
    Unchecked challenge (Connection.start challenge .Server : Connection T).checking :=
  ⟨rfl, rfl, rfl, rfl, rfl, Or.inr ⟨⟨[], 8⟩, rfl, rfl, rfl⟩⟩

/-- Before validation only the reply is being read. -/
theorem Unchecked.read_part {challenge : UInt64} {c : Connection T}
    (h : Unchecked challenge c.checking) {part : Part} {i : Nat} {op : Read}
    (found : (c.reads part)[i]? = some op) :
    part = .validation ∧ i = 0 ∧ c.reads .validation = [op] ∧ c.consumed = op.got ∧
      op.got.length + op.missing = 8 := by
  cases part with
  | header =>
      have none : c.reads .header = [] := h.header_reads
      rw [none] at found
      cases found
  | body =>
      have none : c.reads .body = [] := h.body_reads
      rw [none] at found
      cases found
  | validation =>
      rcases h.reply with none | ⟨op', reads, consumed, size⟩
      · have none : c.reads .validation = [] := none
        rw [none] at found
        cases found
      · have reads : c.reads .validation = [op'] := reads
        rw [reads] at found
        obtain ⟨rfl, rfl⟩ := eq_of_get_singleton found
        exact ⟨rfl, rfl, reads, consumed, size⟩

/-- The reads of the handshake move on. -/
theorem Unchecked.setReads {challenge : UInt64} {c c' : Connection T}
    (h : Unchecked challenge c.checking) {rs : List Read}
    (same : c'.checking =
      { c.checking with
        reads := Function.update c.reads .validation rs
        consumed := c'.consumed })
    (reply : rs = [] ∨
      ∃ op, rs = [op] ∧ c'.consumed = op.got ∧ op.got.length + op.missing = 8) :
    Unchecked challenge c'.checking := by
  rw [same]
  refine ⟨h.owner, h.not_validated, h.crypted, ?_, ?_, ?_⟩
  · change Function.update c.reads .validation rs .header = []
    rw [Function.update_of_ne Part.header_ne_validation]
    exact h.header_reads
  · change Function.update c.reads .validation rs .body = []
    rw [Function.update_of_ne Part.body_ne_validation]
    exact h.body_reads
  · simp only [Function.update_self]
    exact reply

theorem writeBody_checking (c : Connection T) : c.writeBody.checking = c.checking := by
  unfold writeBody
  split <;> rfl

variable [TriviallyCopyable T]

theorem writeHeader_checking (c : Connection T) : c.writeHeader.checking = c.checking := by
  unfold writeHeader
  split <;> rfl

theorem finishMessage_checking (c : Connection T) : c.finishMessage.checking = c.checking := by
  unfold finishMessage
  dsimp only
  split
  · split <;> rfl
  · exact writeHeader_checking _

theorem headerWritten_checking (c : Connection T) : c.headerWritten.checking = c.checking := by
  unfold headerWritten
  split
  · split
    · exact writeBody_checking c
    · exact finishMessage_checking c
  · rfl

theorem runHandler_checking (c : Connection T) (handler : Handler T) :
    (c.runHandler handler).checking = c.checking := by
  cases handler with
  | send msg =>
      simp only [runHandler]
      split
      · rfl
      · exact writeHeader_checking _
  | close => rfl
  | closeAfterFlush =>
      simp only [runHandler]
      split <;> rfl

/-- A server is not validated by a write. -/
theorem wrote_checking {c : Connection T} (server : c.m_owner_type = .Server) (part : Part) :
    (c.wrote part).checking = c.checking := by
  cases part with
  | validation =>
      simp only [wrote, validationWritten, server]
  | header => exact headerWritten_checking c
  | body => exact finishMessage_checking c

theorem validationRead_server {c : Connection T} (server : c.m_owner_type = .Server)
    (buffer : List UInt8) :
    c.validationRead buffer =
      if ofBytes buffer = c.m_handshake_crypted then
        readHeader { c with m_handshake_in := ofBytes buffer, m_validated := true }
      else close { c with m_handshake_in := ofBytes buffer } := by
  unfold validationRead
  dsimp only
  rw [server]

/-- The check of a whole reply. -/
theorem Unchecked.validationRead {challenge : UInt64} {c : Connection T}
    (h : Unchecked challenge c.checking) {buffer : List UInt8} (consumed : c.consumed = buffer)
    (whole : buffer.length = 8) :
    Checked challenge ((c.setReads .validation []).validationRead buffer) := by
  have server : (c.setReads .validation []).m_owner_type = .Server := h.owner
  have crypted : c.m_handshake_crypted = obfuscate challenge := h.crypted
  rw [validationRead_server server]
  split
  · rename_i matched
    have matched : ofBytes buffer = c.m_handshake_crypted := matched
    have whole : toBytes (obfuscate challenge) = c.consumed := by
      rw [← crypted, ← matched, NoPadding.toBytes_ofBytes buffer whole, consumed]
    exact Or.inr ⟨rfl, whole ▸ List.prefix_rfl⟩
  · exact Or.inl (h.setReads rfl (Or.inl rfl))

theorem Unchecked.step {challenge : UInt64} {c c' : Connection T}
    (h : Unchecked challenge c.checking) {a : Act T} (step : c.step a = some c') :
    Checked challenge c' := by
  cases step_steps step with
  | accepted msg validated isOpen => cases h.not_validated.symm.trans validated
  | refused | disconnects | disconnected | disconnectsAfterFlush | puts | writeFails | pops =>
      exact Or.inl h
  | runs handler later next =>
      left
      rw [runHandler_checking]
      exact h
  | writes part i found =>
      left
      have server : (c.setWrites part ((c.writes part).eraseIdx i)).m_owner_type = .Server :=
        h.owner
      rw [wrote_checking server]
      exact h
  | takes part i bytes op found isOpen fits =>
      obtain ⟨rfl, rfl, reads, consumed, size⟩ := h.read_part found
      refine Or.inl (h.setReads rfl (Or.inr ⟨⟨op.got ++ bytes, op.missing - bytes.length⟩, ?_⟩))
      refine ⟨?_, ?_, ?_⟩
      · rw [reads]
        rfl
      · change c.consumed ++ bytes = op.got ++ bytes
        rw [consumed]
      · change (op.got ++ bytes).length + (op.missing - bytes.length) = 8
        rw [List.length_append]
        omega
  | reads part i buffer found =>
      obtain ⟨rfl, rfl, reads, consumed, size⟩ := h.read_part found
      rw [reads]
      exact h.validationRead consumed size
  | readFails part i op found =>
      obtain ⟨rfl, rfl, reads, consumed, size⟩ := h.read_part found
      rw [reads]
      exact Or.inl (h.setReads rfl (Or.inl rfl))

theorem Checked.step {challenge : UInt64} {c c' : Connection T} (h : Checked challenge c)
    {a : Act T} (step : c.step a = some c') : Checked challenge c' := by
  rcases h with unchecked | ⟨validated, replied⟩
  · exact unchecked.step step
  · have effect := step_effect step
    refine Or.inr ⟨effect.validated.elim (·.trans validated) id, ?_⟩
    rw [effect.consumed]
    exact replied.trans (List.prefix_append _ _)

theorem run_checked {challenge : UInt64} {acts : List (Act T)} {c : Connection T}
    (run : (lts T challenge .Server).run acts = some c) : Checked challenge c := by
  refine Lts.run_induct (P := fun _ c => Checked challenge c) (Or.inl (.start challenge)) ?_ run
  intro acts c a c' run ih step
  exact ih.step step

/-- The eight bytes `reply`, read first by a server connection with this challenge, validate it. -/
def Validates (T : Type) [Inhabited T] [TriviallyCopyable T] (challenge : UInt64)
    (reply : List UInt8) : Prop :=
  ∃ acts c, (lts T challenge .Server).run acts = some c ∧ c.m_validated = true ∧
    reply.length = 8 ∧ reply <+: c.consumed

theorem validationRead_matched {c : Connection T} {buffer : List UInt8}
    (server : c.m_owner_type = .Server) (matched : ofBytes buffer = c.m_handshake_crypted) :
    (c.validationRead buffer).m_validated = true ∧
      (c.validationRead buffer).consumed = c.consumed := by
  rw [validationRead_server server, if_pos matched]
  exact ⟨rfl, rfl⟩

/-- The reply validates the connection by arriving in one piece. -/
theorem validates_reply (challenge : UInt64) :
    Validates T challenge (toBytes (obfuscate challenge)) := by
  let reply : List UInt8 := toBytes (obfuscate challenge)
  let started : Connection T := Connection.start challenge .Server
  let arrived : Connection T := started.takeBytes .validation 0 ⟨[], 8⟩ reply
  have eight : reply.length = 8 := TriviallyCopyable.length_toBytes (obfuscate challenge)
  have reading : (started.reads .validation)[0]? = some ⟨[], 8⟩ := rfl
  have whole : (arrived.reads .validation)[0]? = some ⟨reply, 0⟩ := by
    change some (⟨reply, 8 - reply.length⟩ : Read) = _
    rw [eight]
  have takes : (lts T challenge .Server).step started (.take .validation 0 reply) =
      some arrived := by
    simp only [lts, Connection.step, reading]
    exact if_pos ⟨rfl, Nat.le_of_eq eight⟩
  have reads : (lts T challenge .Server).step arrived (.readDone .validation 0) =
      some ((arrived.setReads .validation []).validationRead reply) := by
    simp only [lts, Connection.step, whole]
    rfl
  have matched : ofBytes reply = (arrived.setReads .validation []).m_handshake_crypted :=
    TriviallyCopyable.ofBytes_toBytes (obfuscate challenge)
  obtain ⟨validated, consumed⟩ := validationRead_matched rfl matched
  have run : (lts T challenge .Server).run ([] ++ [.take .validation 0 reply]) = some arrived :=
    Lts.run_snoc_some rfl takes
  refine ⟨_, _, Lts.run_snoc_some run reads, validated, eight, ?_⟩
  rw [consumed]
  exact List.prefix_rfl

/-- **The reply to a challenge** is the only one that validates the connection. -/
theorem validates_iff (challenge : UInt64) (reply : List UInt8) :
    Validates T challenge reply ↔ reply = toBytes (obfuscate challenge) := by
  constructor
  · intro validates
    obtain ⟨acts, c, run, validated, eight, front⟩ := validates
    rcases run_checked run with unchecked | ⟨-, replied⟩
    · cases unchecked.not_validated.symm.trans validated
    · have lengths : reply.length = (toBytes (obfuscate challenge)).length := by
        rw [eight, TriviallyCopyable.length_toBytes]
        rfl
      exact (List.prefix_of_prefix_length_le front replied (Nat.le_of_eq lengths)).eq_of_length
        lengths
  · intro same
    rw [same]
    exact validates_reply challenge

/-- No reply validates server connections of both challenges. -/
structure OwnReplies (T : Type) [Inhabited T] [TriviallyCopyable T] (a b : UInt64) : Prop where
  apart : ∀ reply, Validates T a reply → ¬ Validates T b reply
  obfuscated : obfuscate a ≠ obfuscate b

/-- **A reply validates only its own challenge** just when the challenges are distinguished. -/
theorem own_replies_iff (a b : UInt64) : OwnReplies T a b ↔ Distinguished a b := by
  rw [← obfuscate_ne_iff]
  constructor
  · exact OwnReplies.obfuscated
  · intro differ
    refine ⟨fun reply validatesA validatesB => differ ?_, differ⟩
    have same : toBytes (obfuscate a) = toBytes (obfuscate b) :=
      ((validates_iff a reply).mp validatesA).symm.trans ((validates_iff b reply).mp validatesB)
    rw [← TriviallyCopyable.ofBytes_toBytes (obfuscate a), same,
      TriviallyCopyable.ofBytes_toBytes]

/-- Two connections accepted within a nanosecond: the bits 0 and 4 of what is masked are both set in
the one and only bit 4 in the other. -/
theorem replies_shared : ¬ ∀ a b : UInt64, a ≠ b → OwnReplies UInt32 a b := by
  intro always
  have own := always 1700000000000000000 1700000000000000001 (by decide)
  exact own.obfuscated (by decide)

end Connection

end PingPong.Net
