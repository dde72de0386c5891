import PingPong.Net.Handshake
import PingPong.Net.History

/-!
# Invariant of one endpoint

`Connection.Inv` joins the write chain, the read chain and the handshake before them: until a
connection is validated no frame is read or written.  `Inv.step`: every step keeps it.  One fact
about the peer is needed, that a server which has read a whole reply has written its whole
challenge.
-/

namespace PingPong.Net

open TriviallyCopyable (width toBytes ofBytes)

namespace Connection

variable {T : Type} [Inhabited T] [TriviallyCopyable T]

structure Unvalidated (c : Connection T) : Prop where
  not_validated : c.m_validated = false
  sent : c.sent = []
  header_writes : c.writes .header = []
  body_writes : c.writes .body = []
  header_reads : c.reads .header = []
  body_reads : c.reads .body = []
  parsed : c.parsed = []
  fresh : c.m_forming_in_message.body = []
  handshake : Handshake c.shaking

structure Validated (c : Connection T) : Prop where
  validated : c.m_validated = true
  validation_writes : c.writes .validation = [] ∨
    (c.m_owner_type = .Server ∧ c.writes .validation = [[]])
  validation_reads : c.reads .validation = []
  sending : Sending c.greeting c.outgoing
  parsing : ∃ hs, hs.length = 8 ∧ Parsing hs c

structure Inv (c : Connection T) : Prop where
  accounted : c.Accounted
  framed : ∀ msg ∈ c.sent, msg.Framed
  phase : Unvalidated c ∨ Validated c

theorem Inv.start (challenge : UInt64) (o : EOwner) :
    Inv (Connection.start challenge o : Connection T) := by
  cases o with
  | Server =>
      have waits : Handshake (Connection.start challenge .Server : Connection T).shaking :=
        .challenging ⟨[], 8⟩ rfl rfl rfl rfl (Or.inl ⟨toBytes challenge, rfl, rfl⟩)
      exact ⟨rfl, fun msg member => (List.not_mem_nil member).elim,
        Or.inl ⟨rfl, rfl, rfl, rfl, rfl, rfl, rfl, rfl, waits⟩⟩
  | Client =>
      have waits : Handshake (Connection.start challenge .Client : Connection T).shaking :=
        .waiting ⟨[], 8⟩ rfl rfl rfl rfl rfl rfl
      exact ⟨rfl, fun msg member => (List.not_mem_nil member).elim,
        Or.inl ⟨rfl, rfl, rfl, rfl, rfl, rfl, rfl, rfl, waits⟩⟩

/-! ## Before validation -/

/-- What closing the socket and posting handlers leave alone. -/
def core (c : Connection T) : Connection T :=
  { c with
    m_socket_open := true
    m_pending_writes := 0
    m_close_after_flush := false
    posted := []
    write_failed := false }

omit [TriviallyCopyable T] in
theorem Unvalidated.congr {c c' : Connection T} (h : Unvalidated c) (same : c'.core = c.core) :
    Unvalidated c' := by
  have core : Unvalidated c.core :=
    ⟨h.1, h.2, h.3, h.4, h.5, h.6, h.7, h.8, h.handshake⟩
  rw [← same] at core
  exact ⟨core.1, core.2, core.3, core.4, core.5, core.6, core.7, core.8, core.handshake⟩

omit [TriviallyCopyable T] in
/-- No message is queued or posted before validation. -/
theorem Unvalidated.unsent {c : Connection T} (h : Unvalidated c) (accounted : c.Accounted) :
    c.flushed = [] ∧ c.m_messages_out = [] ∧ unsent c.posted = [] := by
  unfold Accounted at accounted
  rw [h.sent] at accounted
  obtain ⟨rest, posted⟩ := List.append_eq_nil_iff.mp accounted.symm
  obtain ⟨flushed, queue⟩ := List.append_eq_nil_iff.mp rest
  exact ⟨flushed, queue, posted⟩

theorem runHandler_core {c : Connection T} {handler : Handler T}
    (quiet : Handler.message? handler = none) : (c.runHandler handler).core = c.core := by
  cases handler with
  | send msg => cases quiet
  | close => rfl
  | closeAfterFlush =>
      simp only [runHandler]
      split <;> rfl

/-- A server that has read a whole reply has written its whole challenge. -/
def Answered (c : Connection T) : Prop :=
  c.m_owner_type = .Server → 8 ≤ c.consumed.length → 8 ≤ c.written.length

/-- The connection is validated with all handshake bytes of both directions through. -/
theorem Unvalidated.validate {c : Connection T} (h : Unvalidated c) (accounted : c.Accounted)
    (writes : c.writes .validation = [] ∨ (c.m_owner_type = .Server ∧ c.writes .validation = [[]]))
    (reads : c.reads .validation = []) (written : c.written = c.greeting)
    (consumed : c.consumed.length = 8) :
    Validated (readHeader { c with m_validated := true }) := by
  obtain ⟨flushed, queue, -⟩ := h.unsent accounted
  have parsed : c.parsed = [] := h.parsed
  refine ⟨rfl, writes, reads, .idle queue h.header_writes h.body_writes ?_,
    c.consumed, consumed, .readHeader ?_ h.header_reads h.body_reads h.fresh ?_⟩
  · change c.written = c.greeting ++ frames c.flushed
    rw [flushed, frames_nil, List.append_nil, written]
  · intro msg member
    have member : msg ∈ c.parsed := member
    rw [parsed] at member
    cases member
  · change c.consumed = c.consumed ++ frames c.parsed
    rw [parsed, frames_nil, List.append_nil]

/-- The challenge or the reply has been read. -/
theorem Unvalidated.validationRead {c : Connection T} (h : Unvalidated c) (accounted : c.Accounted)
    (answered : Answered c) {i : Nat} {buffer : List UInt8}
    (found : (c.reads .validation)[i]? = some ⟨buffer, 0⟩) :
    Unvalidated
        ((c.setReads .validation ((c.reads .validation).eraseIdx i)).validationRead buffer) ∨
      Validated
        ((c.setReads .validation ((c.reads .validation).eraseIdx i)).validationRead buffer) := by
  have ended : Unvalidated (c.setReads .validation ((c.reads .validation).eraseIdx i)) :=
    ⟨h.1, h.2, h.3, h.4, h.5, h.6, h.7, h.8, h.handshake.unread found⟩
  unfold Connection.validationRead
  dsimp only
  split
  · rename_i owner
    obtain ⟨reads, consumed, written, writes⟩ :=
      h.handshake.answeredBack owner found c.length_greeting (answered owner)
    split
    · have read : Unvalidated { c.setReads .validation ((c.reads .validation).eraseIdx i) with
          m_handshake_in := ofBytes buffer } :=
        ⟨ended.1, ended.2, ended.3, ended.4, ended.5, ended.6, ended.7, ended.8, ended.handshake⟩
      exact Or.inr
        (read.validate accounted (writes.imp id fun one => ⟨owner, one⟩) reads written consumed)
    · exact Or.inl
        ⟨ended.1, ended.2, ended.3, ended.4, ended.5, ended.6, ended.7, ended.8, ended.handshake⟩
  · rename_i owner
    obtain ⟨reads, consumed, writes, written⟩ := h.handshake.challenged owner found
    have writes : c.writes .validation = [] := writes
    have written : c.written = [] := written
    refine Or.inl ⟨ended.1, ended.2, ended.3, ended.4, ended.5, ended.6, ended.7, ended.8,
      .answering (toBytes (obfuscate (ofBytes buffer))) owner reads consumed ?_ ?_⟩
    · simp [shaking, writeValidation, asyncWrite, setReads, writes]
    · change c.written ++ toBytes (obfuscate (ofBytes buffer)) =
        toBytes (obfuscate (ofBytes buffer))
      rw [written, List.nil_append]

/-- A write of the challenge or the reply has completed. -/
theorem Unvalidated.validationWritten {c : Connection T} (h : Unvalidated c)
    (accounted : c.Accounted) {i : Nat} (found : (c.writes .validation)[i]? = some []) :
    Unvalidated ((c.setWrites .validation ((c.writes .validation).eraseIdx i)).wrote
        .validation) ∨
      Validated ((c.setWrites .validation ((c.writes .validation).eraseIdx i)).wrote
        .validation) := by
  have ended : Unvalidated (c.setWrites .validation ((c.writes .validation).eraseIdx i)) :=
    ⟨h.1, h.2, h.3, h.4, h.5, h.6, h.7, h.8, h.handshake.unwritten found⟩
  cases owner : c.m_owner_type with
  | Server =>
      have same : (c.setWrites .validation ((c.writes .validation).eraseIdx i)).wrote
          .validation = c.setWrites .validation ((c.writes .validation).eraseIdx i) := by
        simp [wrote, Connection.validationWritten, setWrites, owner]
      rw [same]
      exact Or.inl ended
  | Client =>
      obtain ⟨writes, reads, written, consumed⟩ := h.handshake.replied owner found
      have next : (c.setWrites .validation ((c.writes .validation).eraseIdx i)).wrote
          .validation = readHeader
            { c.setWrites .validation ((c.writes .validation).eraseIdx i) with
              m_validated := true } := by
        simp [wrote, Connection.validationWritten, setWrites, owner]
      rw [next]
      exact Or.inr (ended.validate accounted (Or.inl writes) reads written consumed)

omit [TriviallyCopyable T] in
/-- Before validation only the challenge and the reply are on their way. -/
theorem Unvalidated.write_part {c : Connection T} (h : Unvalidated c) {part : Part} {i : Nat}
    {left : List UInt8} (found : (c.writes part)[i]? = some left) : part = .validation := by
  cases part with
  | validation => rfl
  | header =>
      rw [h.header_writes] at found
      cases found
  | body =>
      rw [h.body_writes] at found
      cases found

omit [TriviallyCopyable T] in
theorem Unvalidated.read_part {c : Connection T} (h : Unvalidated c) {part : Part} {i : Nat}
    {op : Read} (found : (c.reads part)[i]? = some op) : part = .validation := by
  cases part with
  | validation => rfl
  | header =>
      rw [h.header_reads] at found
      cases found
  | body =>
      rw [h.body_reads] at found
      cases found

theorem Unvalidated.step [NoPadding T] {c c' : Connection T} (h : Unvalidated c)
    (accounted : c.Accounted) (answered : Answered c) {a : Act T} (step : c.step a = some c') :
    Unvalidated c' ∨ Validated c' := by
  obtain ⟨flushed, queue, posted⟩ := h.unsent accounted
  cases step_steps step with
  | refused msg stopped => exact Or.inl h
  | accepted msg validated isOpen =>
      rw [h.not_validated] at validated
      cases validated
  | disconnects isOpen => exact Or.inl (h.congr rfl)
  | disconnected closed => exact Or.inl h
  | disconnectsAfterFlush => exact Or.inl (h.congr rfl)
  | runs handler later next =>
      have quiet : Handler.message? handler = none := by
        rw [next] at posted
        exact List.filterMap_eq_nil_iff.mp posted handler List.mem_cons_self
      exact Or.inl (h.congr (runHandler_core quiet))
  | puts part i n left found isOpen =>
      obtain rfl := h.write_part found
      exact Or.inl ⟨h.1, h.2, h.3, h.4, h.5, h.6, h.7, h.8, h.handshake.put found n⟩
  | writes part i found =>
      obtain rfl := h.write_part found
      exact h.validationWritten accounted found
  | writeFails part i left found =>
      obtain rfl := h.write_part found
      exact Or.inl ⟨h.1, h.2, h.3, h.4, h.5, h.6, h.7, h.8, h.handshake.unwritten found⟩
  | takes part i bytes op found isOpen fits =>
      obtain rfl := h.read_part found
      exact Or.inl ⟨h.1, h.2, h.3, h.4, h.5, h.6, h.7, h.8, h.handshake.take found fits⟩
  | reads part i buffer found =>
      obtain rfl := h.read_part found
      exact h.validationRead accounted answered found
  | readFails part i op found =>
      obtain rfl := h.read_part found
      exact Or.inl ⟨h.1, h.2, h.3, h.4, h.5, h.6, h.7, h.8, h.handshake.unread found⟩
  | pops msg rest front =>
      have empty : c.m_messages_in = [] := (List.append_eq_nil_iff.mp h.parsed).2
      rw [empty] at front
      cases front

/-! ## After validation -/

/-- A step of one chain. -/
theorem Validated.update {c c' : Connection T} (h : Validated c) (same : c'.control = c.control)
    (sending : Sending c.greeting c'.outgoing) (parsing : ∀ hs, Parsing hs c → Parsing hs c') :
    Validated c' := by
  obtain ⟨owner, validated, greeting, writes, reads⟩ := Control.mk.inj same
  constructor
  · rw [validated]
    exact h.validated
  · rw [owner, writes]
    exact h.validation_writes
  · rw [reads]
    exact h.validation_reads
  · rw [Connection.greeting, greeting]
    exact sending
  · obtain ⟨hs, eight, before⟩ := h.parsing
    exact ⟨hs, eight, parsing hs before⟩

theorem Parsing.congr {hs : List UInt8} {c c' : Connection T}
    (h : Parsing hs c) (same : c'.incoming = c.incoming) : Parsing hs c' := by
  have parsed : c'.parsed = c.parsed := congrArg Incoming.parsed same
  refine ⟨?_, ?_⟩
  · rw [parsed]
    exact h.framed
  · rw [same]
    exact h.chain

theorem Validated.runHandler {c : Connection T} (h : Validated c) (handler : Handler T) :
    Validated (c.runHandler handler) := by
  obtain ⟨control, -, incoming, -⟩ := runHandler_onlyWrites c handler
  refine h.update control ?_ fun hs before => before.congr incoming
  cases handler with
  | send msg => exact h.sending.runSend msg
  | close => exact h.sending
  | closeAfterFlush =>
      have same : (c.runHandler .closeAfterFlush).outgoing = c.outgoing := by
        simp only [Connection.runHandler]
        split <;> rfl
      rw [same]
      exact h.sending

/-- After validation nothing of the handshake is left to read. -/
theorem Validated.read_part {c : Connection T} (h : Validated c) {part : Part} {i : Nat}
    {op : Read} (found : (c.reads part)[i]? = some op) : part ≠ .validation := by
  intro same
  obtain rfl := same
  rw [h.validation_reads] at found
  cases found

/-- At most one write of the handshake has still to complete, and nothing is left to put of it. -/
theorem Validated.validation_write {c : Connection T} (h : Validated c) {i : Nat}
    {left : List UInt8} (found : (c.writes .validation)[i]? = some left) :
    c.m_owner_type = .Server ∧ c.writes .validation = [[]] ∧ i = 0 ∧ left = [] := by
  rcases h.validation_writes with none | ⟨server, one⟩
  · rw [none] at found
    cases found
  · have found' := found
    rw [one] at found'
    obtain ⟨first, rest⟩ := eq_of_get_singleton found'
    exact ⟨server, one, first, rest⟩

theorem Validated.step [NoPadding T] {c c' : Connection T} (h : Validated c) {a : Act T}
    (step : c.step a = some c') : Validated c' := by
  cases step_steps step with
  | refused msg stopped => exact h
  | accepted msg validated isOpen =>
      exact h.update rfl h.sending fun hs before => before.congr rfl
  | disconnects isOpen => exact h.update rfl h.sending fun hs before => before.congr rfl
  | disconnected closed => exact h
  | disconnectsAfterFlush => exact h.update rfl h.sending fun hs before => before.congr rfl
  | runs handler later next =>
      have rest : Validated { c with posted := later } :=
        h.update rfl h.sending fun hs before => before.congr rfl
      exact rest.runHandler handler
  | puts part i n left found isOpen =>
      cases part with
      | header =>
          exact h.update rfl (h.sending.put Part.header_ne_validation found n)
            fun hs before => before.congr rfl
      | body =>
          exact h.update rfl (h.sending.put Part.body_ne_validation found n)
            fun hs before => before.congr rfl
      | validation =>
          -- The whole challenge is through, so nothing is left to put.
          obtain ⟨server, one, rfl, rfl⟩ := h.validation_write found
          have unset : (c.writes .validation).set 0 [] = c.writes .validation := by
            rw [one]
            rfl
          have same : c.putBytes .validation 0 [] n = c := by
            simp only [putBytes, setWrites, List.drop_nil, List.take_nil, List.append_nil,
              unset, Function.update_eq_self]
          rw [same]
          exact h
  | writes part i found =>
      cases part with
      | header =>
          have only := headerWritten_onlyWrites
            (c.setWrites .header ((c.writes .header).eraseIdx i))
          exact h.update only.control (h.sending.wrote Part.header_ne_validation found)
            fun hs before => before.congr only.incoming
      | body =>
          have only := finishMessage_onlyWrites
            (c.setWrites .body ((c.writes .body).eraseIdx i))
          exact h.update only.control (h.sending.wrote Part.body_ne_validation found)
            fun hs before => before.congr only.incoming
      | validation =>
          obtain ⟨server, one, rfl, -⟩ := h.validation_write found
          have ended : (c.setWrites .validation ((c.writes .validation).eraseIdx 0)).wrote
              .validation = c.setWrites .validation [] := by
            simp [wrote, validationWritten, setWrites, server, one]
          rw [ended]
          exact ⟨h.validated, Or.inl rfl, h.validation_reads, h.sending,
            h.parsing.imp fun hs before => ⟨before.1, before.2.congr rfl⟩⟩
  | writeFails part i left found =>
      cases part with
      | header =>
          exact h.update rfl (h.sending.writeFailed Part.header_ne_validation found)
            fun hs before => before.congr rfl
      | body =>
          exact h.update rfl (h.sending.writeFailed Part.body_ne_validation found)
            fun hs before => before.congr rfl
      | validation =>
          obtain ⟨server, one, rfl, -⟩ := h.validation_write found
          have none : (c.writes .validation).eraseIdx 0 = [] := by
            rw [one]
            rfl
          exact ⟨h.validated, Or.inl none, h.validation_reads, h.sending,
            h.parsing.imp fun hs before => ⟨before.1, before.2.congr rfl⟩⟩
  | takes part i bytes op found isOpen fits =>
      cases part with
      | header =>
          exact h.update rfl h.sending
            fun hs before => before.take Part.header_ne_validation found fits
      | body =>
          exact h.update rfl h.sending
            fun hs before => before.take Part.body_ne_validation found fits
      | validation => exact (h.read_part found rfl).elim
  | reads part i buffer found =>
      cases part with
      | header =>
          have only := headerRead_onlyReads
            (c.setReads .header ((c.reads .header).eraseIdx i)) buffer
          refine h.update only.control ?_
            fun hs before => before.read Part.header_ne_validation found
          rw [Connection.read, only.outgoing]
          exact h.sending
      | body =>
          exact h.update rfl h.sending
            fun hs before => before.read Part.body_ne_validation found
      | validation => exact (h.read_part found rfl).elim
  | readFails part i op found =>
      cases part with
      | header =>
          exact h.update rfl h.sending
            fun hs before => (before.readFailed Part.header_ne_validation found).congr rfl
      | body =>
          exact h.update rfl h.sending
            fun hs before => (before.readFailed Part.body_ne_validation found).congr rfl
      | validation => exact (h.read_part found rfl).elim
  | pops msg rest front =>
      have same : ({ c with m_messages_in := rest, popped := c.popped ++ [msg] } :
          Connection T).incoming = c.incoming := by
        simp [incoming, parsed, front]
      exact h.update rfl h.sending fun hs before => before.congr same

/-! ## The invariant -/

theorem Inv.step [NoPadding T] {c c' : Connection T} (h : c.Inv) (answered : Answered c) {a : Act T}
    (step : c.step a = some c') : c'.Inv := by
  refine ⟨h.accounted.step step, ?_, ?_⟩
  · rcases (step_effect step).sent with same | ⟨msg, -, grown⟩
    · rw [same]
      exact h.framed
    · intro m member
      rw [grown] at member
      rcases List.mem_append.mp member with before | new
      · exact h.framed m before
      · rw [List.mem_singleton.mp new]
        exact msg.2
  · rcases h.phase with before | after
    · exact before.step h.accounted answered step
    · exact Or.inr (after.step step)

/-! ## What the invariant says about the bytes -/

/-- What an endpoint has written is the start of its handshake and frames of what it accepted. -/
theorem Inv.written_isPrefix {c : Connection T} (h : c.Inv) :
    c.written <+: c.greeting ++ frames c.sent := by
  rcases h.phase with before | after
  · rw [before.sent, frames_nil, List.append_nil]
    exact before.handshake.written_isPrefix
  · obtain ⟨part, written, cut⟩ := after.sending.written_eq
    have written : c.written = c.greeting ++ part := written
    have queued : frames (c.flushed ++ c.m_messages_out) <+: frames c.sent := by
      rw [h.accounted]
      exact frames_isPrefix (List.prefix_append _ _)
    rw [written]
    exact (List.prefix_append_right_inj _).mpr (cut.trans queued)

theorem Inv.one_frame_write {c : Connection T} (h : c.Inv) :
    (c.writes .header).length + (c.writes .body).length ≤ 1 := by
  rcases h.phase with before | after
  · rw [before.header_writes, before.body_writes]
    exact Nat.zero_le 1
  · exact after.sending.one_in_flight

/-- A frame is only written after the whole handshake. -/
theorem Inv.greeting_first {c : Connection T} (h : c.Inv)
    (frame : c.writes .header ≠ [] ∨ c.writes .body ≠ []) : c.greeting <+: c.written := by
  rcases h.phase with before | after
  · exact (frame.elim (· before.header_writes) (· before.body_writes)).elim
  · obtain ⟨part, written, -⟩ := after.sending.written_eq
    exact ⟨part, written.symm⟩

/-- What has been parsed is what was read after eight bytes of handshake. -/
theorem Inv.parsed_isPrefix {c : Connection T} (h : c.Inv) :
    (c.reads .header = [] ∧ c.reads .body = [] ∧ c.parsed = []) ∨
      ∃ hs, hs.length = 8 ∧ hs ++ frames c.parsed <+: c.consumed := by
  rcases h.phase with before | after
  · exact Or.inl ⟨before.header_reads, before.body_reads, before.parsed⟩
  · obtain ⟨hs, eight, parsing⟩ := after.parsing
    exact Or.inr ⟨hs, eight, parsing.chain.parsed_isPrefix⟩

theorem Inv.parsed_framed {c : Connection T} (h : c.Inv) : ∀ msg ∈ c.parsed, msg.Framed := by
  rcases h.phase with before | after
  · rw [before.parsed]
    intro msg member
    cases member
  · obtain ⟨hs, -, parsing⟩ := after.parsing
    exact parsing.framed

/-- A client has read the whole challenge before it writes anything. -/
theorem Inv.client_answers {c : Connection T} (h : c.Inv) (client : c.m_owner_type = .Client)
    (some : c.written ≠ []) : 8 ≤ c.consumed.length := by
  rcases h.phase with before | after
  · exact before.handshake.answered client some
  · obtain ⟨hs, eight, parsing⟩ := after.parsing
    have length := parsing.chain.parsed_isPrefix.length_le
    have consumed : c.incoming.consumed.length = c.consumed.length := rfl
    rw [List.length_append] at length
    omega

end Connection

end PingPong.Net
