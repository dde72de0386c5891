import PingPong.Net.Writing

/-!
# The read chain

`Receiving hs r` describes the chain of frame reads of a validated connection: a header is being
read, or the body of the message whose header has been read, or a read has failed and the chain is
over.  The bytes consumed are `hs`, the frames of the messages put in the incoming queue, and a part
of one more.
-/

namespace PingPong.Net

open TriviallyCopyable (width toBytes ofBytes)

namespace Connection

variable {T : Type} [TriviallyCopyable T]

/-- What the chain of frame reads works on. -/
structure Incoming (T : Type) where
  forming : Message T
  parsed : List (Message T)
  headers : List Read
  bodies : List Read
  consumed : List UInt8

inductive Receiving (hs : List UInt8) (r : Incoming T) : Prop
  | header (op : Read) :
    r.headers = [op] → r.bodies = [] → r.forming.body = [] →
    r.consumed = hs ++ frames r.parsed ++ op.got →
    op.got.length + op.missing = width (MessageHeader T) → Receiving hs r
  | body (op : Read) :
    r.headers = [] → r.bodies = [op] →
    r.consumed = hs ++ frames r.parsed ++ toBytes r.forming.header ++ op.got →
    op.got.length + op.missing = r.forming.header.size.toNat → Receiving hs r
  | stopped :
    r.headers = [] → r.bodies = [] → hs ++ frames r.parsed <+: r.consumed → Receiving hs r

theorem Receiving.parsed_isPrefix {hs : List UInt8} {r : Incoming T} (h : Receiving hs r) :
    hs ++ frames r.parsed <+: r.consumed := by
  cases h with
  | header op headers bodies fresh consumed size =>
      rw [consumed]
      exact List.prefix_append _ _
  | body op headers bodies consumed size =>
      rw [consumed, List.append_assoc _ (toBytes _)]
      exact List.prefix_append _ _
  | stopped headers bodies consumed => exact consumed

/-- A header being read is the only read, and nothing else of its message has been. -/
theorem Receiving.header_found {hs : List UInt8} {r : Incoming T} (h : Receiving hs r) {i : Nat}
    {op : Read} (found : r.headers[i]? = some op) :
    i = 0 ∧ r.headers = [op] ∧ r.bodies = [] ∧ r.forming.body = [] ∧
      r.consumed = hs ++ frames r.parsed ++ op.got ∧
      op.got.length + op.missing = width (MessageHeader T) := by
  cases h with
  | header reading headers bodies fresh consumed size =>
      rw [headers] at found
      obtain ⟨rfl, rfl⟩ := eq_of_get_singleton found
      exact ⟨rfl, headers, bodies, fresh, consumed, size⟩
  | body _ headers _ _ _ | stopped headers _ _ =>
      rw [headers] at found
      cases found

/-- And so is a body, whose size has been announced. -/
theorem Receiving.body_found {hs : List UInt8} {r : Incoming T} (h : Receiving hs r) {i : Nat}
    {op : Read} (found : r.bodies[i]? = some op) :
    i = 0 ∧ r.headers = [] ∧ r.bodies = [op] ∧
      r.consumed = hs ++ frames r.parsed ++ toBytes r.forming.header ++ op.got ∧
      op.got.length + op.missing = r.forming.header.size.toNat := by
  cases h with
  | body reading headers bodies consumed size =>
      rw [bodies] at found
      obtain ⟨rfl, rfl⟩ := eq_of_get_singleton found
      exact ⟨rfl, headers, bodies, consumed, size⟩
  | header _ _ bodies _ _ _ | stopped _ bodies _ =>
      rw [bodies] at found
      cases found

/-! ## Steps of the chain -/

variable [Inhabited T]

/-- The messages that have been put in the incoming queue. -/
def parsed (c : Connection T) : List (Message T) := c.popped ++ c.m_messages_in

def incoming (c : Connection T) : Incoming T :=
  ⟨c.m_forming_in_message, c.parsed, c.reads .header, c.reads .body, c.consumed⟩

/-- The read chain of a validated connection, whose parsed messages announce their own sizes. -/
structure Parsing (hs : List UInt8) (c : Connection T) : Prop where
  framed : ∀ msg ∈ c.parsed, msg.Framed
  chain : Receiving hs c.incoming

/-- A connection without a read in flight starts on the next header. -/
theorem Parsing.readHeader {hs : List UInt8} {c : Connection T}
    (framed : ∀ msg ∈ c.parsed, msg.Framed) (headers : c.reads .header = [])
    (bodies : c.reads .body = []) (fresh : c.m_forming_in_message.body = [])
    (consumed : c.consumed = hs ++ frames c.parsed) : Parsing hs c.readHeader := by
  refine ⟨framed, .header ⟨[], width (MessageHeader T)⟩ ?_ bodies fresh ?_ (Nat.zero_add _)⟩
  · simp [incoming, Connection.readHeader, asyncRead, headers]
  · rw [List.append_nil]
    exact consumed

/-- The message being formed is complete. -/
theorem Parsing.addToIncomingMessageQueue {hs : List UInt8} {c : Connection T}
    (framed : ∀ msg ∈ c.parsed, msg.Framed) (complete : c.m_forming_in_message.Framed)
    (headers : c.reads .header = []) (bodies : c.reads .body = [])
    (consumed : c.consumed = hs ++ frames c.parsed ++ c.m_forming_in_message.frame) :
    Parsing hs c.addToIncomingMessageQueue := by
  have grown : c.addToIncomingMessageQueue.parsed = c.parsed ++ [c.m_forming_in_message] :=
    (List.append_assoc _ _ _).symm
  refine .readHeader ?_ headers bodies rfl ?_
  · intro msg member
    have member : msg ∈ c.parsed ++ [c.m_forming_in_message] := by
      rw [← grown]
      exact member
    rcases List.mem_append.mp member with before | new
    · exact framed msg before
    · rw [List.mem_singleton.mp new]
      exact complete
  · change c.consumed = hs ++ frames c.addToIncomingMessageQueue.parsed
    rw [grown, frames_append, frames_singleton, consumed, Message.frame]
    simp only [List.append_assoc]

/-- Bytes arrive in the header or body in flight. -/
theorem Parsing.take {hs : List UInt8} {c : Connection T} (h : Parsing hs c) {part : Part}
    {i : Nat} {op : Read} {bytes : List UInt8} (frame : part ≠ .validation)
    (found : (c.reads part)[i]? = some op) (fits : bytes.length ≤ op.missing) :
    Parsing hs (c.takeBytes part i op bytes) := by
  have moves : ∀ {total : Nat}, op.got.length + op.missing = total →
      (op.got ++ bytes).length + (op.missing - bytes.length) = total := by
    intro total size
    rw [List.length_append]
    omega
  refine ⟨h.framed, ?_⟩
  cases part with
  | validation => exact (frame rfl).elim
  | header =>
      obtain ⟨rfl, headers, bodies, fresh, consumed, size⟩ := h.chain.header_found found
      have headers : c.reads .header = [op] := headers
      refine .header ⟨op.got ++ bytes, op.missing - bytes.length⟩ ?_ bodies fresh ?_ (moves size)
      · simp [incoming, takeBytes, setReads, headers]
      · rw [← List.append_assoc]
        exact congrArg (· ++ bytes) consumed
  | body =>
      obtain ⟨rfl, headers, bodies, consumed, size⟩ := h.chain.body_found found
      have bodies : c.reads .body = [op] := bodies
      refine .body ⟨op.got ++ bytes, op.missing - bytes.length⟩ headers ?_ ?_ (moves size)
      · simp [incoming, takeBytes, setReads, bodies]
      · rw [← List.append_assoc]
        exact congrArg (· ++ bytes) consumed

/-- A header has been read; what it announces is read next, or the message is complete. -/
theorem Parsing.headerRead [NoPadding T] {hs : List UInt8} {c : Connection T} {buffer : List UInt8}
    (framed : ∀ msg ∈ c.parsed, msg.Framed) (headers : c.reads .header = [])
    (bodies : c.reads .body = []) (fresh : c.m_forming_in_message.body = [])
    (consumed : c.consumed = hs ++ frames c.parsed ++ buffer)
    (size : buffer.length = width (MessageHeader T)) : Parsing hs (c.headerRead buffer) := by
  have back : toBytes (ofBytes buffer : MessageHeader T) = buffer :=
    NoPadding.toBytes_ofBytes buffer size
  unfold Connection.headerRead
  dsimp only
  split
  · rename_i announced
    refine ⟨framed, .body ⟨[], (ofBytes buffer : MessageHeader T).size.toNat⟩ headers ?_ ?_
      (Nat.zero_add _)⟩
    · simp [incoming, readBody, asyncRead, bodies]
    · change c.consumed = hs ++ frames c.parsed ++ toBytes (ofBytes buffer : MessageHeader T) ++ []
      rw [back, List.append_nil, consumed]
  · rename_i empty
    have zero : (ofBytes buffer : MessageHeader T).size.toNat = 0 := by
      have notPos : ¬ 0 < (ofBytes buffer : MessageHeader T).size := empty
      rw [UInt32.lt_iff_toNat_lt] at notPos
      have least : (0 : UInt32).toNat = 0 := rfl
      omega
    refine .addToIncomingMessageQueue framed ?_ headers bodies ?_
    · change (ofBytes buffer : MessageHeader T).size.toNat = c.m_forming_in_message.body.length
      rw [zero, fresh]
      rfl
    · change c.consumed = hs ++ frames c.parsed ++
        (toBytes (ofBytes buffer : MessageHeader T) ++ c.m_forming_in_message.body)
      rw [back, fresh, List.append_nil, consumed]

/-- A header or body whose buffer is full completes. -/
theorem Parsing.read [NoPadding T] {hs : List UInt8} {c : Connection T} (h : Parsing hs c)
    {part : Part} {i : Nat} {buffer : List UInt8} (frame : part ≠ .validation)
    (found : (c.reads part)[i]? = some ⟨buffer, 0⟩) :
    Parsing hs ((c.setReads part ((c.reads part).eraseIdx i)).read buffer part) := by
  cases part with
  | validation => exact (frame rfl).elim
  | header =>
      obtain ⟨rfl, headers, bodies, fresh, consumed, size⟩ := h.chain.header_found found
      have headers : c.reads .header = [⟨buffer, 0⟩] := headers
      rw [headers]
      refine .headerRead h.framed ?_ bodies fresh consumed size
      simp [setReads]
  | body =>
      obtain ⟨rfl, headers, bodies, consumed, size⟩ := h.chain.body_found found
      have bodies : c.reads .body = [⟨buffer, 0⟩] := bodies
      rw [bodies]
      refine .addToIncomingMessageQueue h.framed size.symm headers ?_ ?_
      · simp [setReads]
      · rw [Message.frame, ← List.append_assoc]
        exact consumed

/-- A header or body fails, and no other read is started. -/
theorem Parsing.readFailed {hs : List UInt8} {c : Connection T} (h : Parsing hs c) {part : Part}
    {i : Nat} {op : Read} (frame : part ≠ .validation)
    (found : (c.reads part)[i]? = some op) :
    Parsing hs (c.setReads part ((c.reads part).eraseIdx i)) := by
  refine ⟨h.framed, ?_⟩
  have parsed := h.chain.parsed_isPrefix
  cases part with
  | validation => exact (frame rfl).elim
  | header =>
      obtain ⟨rfl, headers, bodies, -⟩ := h.chain.header_found found
      have headers : c.reads .header = [op] := headers
      rw [headers]
      refine .stopped ?_ bodies parsed
      simp [incoming, setReads]
  | body =>
      obtain ⟨rfl, headers, bodies, -⟩ := h.chain.body_found found
      have bodies : c.reads .body = [op] := bodies
      rw [bodies]
      refine .stopped headers ?_ parsed
      simp [incoming, setReads]

end Connection

end PingPong.Net
