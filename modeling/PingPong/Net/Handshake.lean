import PingPong.Net.Reading

/-!
# The handshake

The server writes its challenge and reads the reply, the client reads the challenge and writes the
reply.  `Handshake s` describes a connection that has not been validated; what it has written is
always a start of its own handshake bytes, and a client writes nothing before it has read the
challenge (`Handshake.answered`).
-/

namespace PingPong.Net

open TriviallyCopyable (width toBytes ofBytes)

namespace Connection

variable {T : Type} [Inhabited T]

/-- The handshake bytes this endpoint writes. -/
def greeting (c : Connection T) : List UInt8 := toBytes c.m_handshake_out

theorem length_greeting (c : Connection T) : c.greeting.length = 8 :=
  TriviallyCopyable.length_toBytes c.m_handshake_out

/-- What the handshake works on. -/
structure Shaking where
  owner : EOwner
  greeting : List UInt8
  writes : List (List UInt8)
  reads : List Read
  written : List UInt8
  consumed : List UInt8

def shaking (c : Connection T) : Shaking :=
  ⟨c.m_owner_type, c.greeting, c.writes .validation, c.reads .validation, c.written, c.consumed⟩

/-- The handshake write is in flight, or it has ended, by success or failure. -/
def Shaking.Greeted (s : Shaking) : Prop :=
  (∃ left, s.writes = [left] ∧ s.written ++ left = s.greeting) ∨
    (s.writes = [] ∧ s.written <+: s.greeting)

/-- The handshake of a connection that is not validated. -/
inductive Handshake (s : Shaking) : Prop
  | challenging (op : Read) :
    s.owner = .Server → s.reads = [op] → s.consumed = op.got → op.got.length + op.missing = 8 →
    s.Greeted → Handshake s
  | waiting (op : Read) :
    s.owner = .Client → s.reads = [op] → s.consumed = op.got → op.got.length + op.missing = 8 →
    s.writes = [] → s.written = [] → Handshake s
  | answering (left : List UInt8) :
    s.owner = .Client → s.reads = [] → s.consumed.length = 8 → s.writes = [left] →
    s.written ++ left = s.greeting → Handshake s
  | ended :
    s.reads = [] → (s.owner = .Client → s.writes = []) →
    (s.owner = .Client → s.written ≠ [] → 8 ≤ s.consumed.length) → s.Greeted → Handshake s

theorem Shaking.Greeted.written_isPrefix {s : Shaking} (h : s.Greeted) :
    s.written <+: s.greeting := by
  rcases h with ⟨left, -, split⟩ | ⟨-, cut⟩
  · exact ⟨left, split⟩
  · exact cut

theorem Handshake.written_isPrefix {s : Shaking} (h : Handshake s) : s.written <+: s.greeting := by
  cases h with
  | challenging op owner reads consumed size greeted => exact greeted.written_isPrefix
  | waiting op owner reads consumed size writes written =>
      rw [written]
      exact List.nil_prefix
  | answering left owner reads consumed writes split => exact ⟨left, split⟩
  | ended reads writes answered greeted => exact greeted.written_isPrefix

/-- A client has written nothing before it has read the whole challenge. -/
theorem Handshake.answered {s : Shaking} (h : Handshake s) (client : s.owner = .Client)
    (some : s.written ≠ []) : 8 ≤ s.consumed.length := by
  cases h with
  | challenging op owner reads consumed size greeted =>
      rw [owner] at client
      cases client
  | waiting op owner reads consumed size writes written => exact (some written).elim
  | answering left owner reads consumed writes split => omega
  | ended reads writes answered greeted => exact answered client some

/-! ## Which side has a write or a read in flight -/

theorem Shaking.Greeted.writing_found {s : Shaking} (h : s.Greeted) {i : Nat} {left : List UInt8}
    (found : s.writes[i]? = some left) :
    i = 0 ∧ s.writes = [left] ∧ s.written ++ left = s.greeting := by
  rcases h with ⟨whole, writes, split⟩ | ⟨writes, -⟩
  · rw [writes] at found
    obtain ⟨rfl, rfl⟩ := eq_of_get_singleton found
    exact ⟨rfl, writes, split⟩
  · rw [writes] at found
    cases found

/-- The read in flight, of the reply or of the challenge. -/
theorem Handshake.reading_found {s : Shaking} (h : Handshake s) {i : Nat} {op : Read}
    (found : s.reads[i]? = some op) :
    i = 0 ∧ s.reads = [op] ∧ s.consumed = op.got ∧ op.got.length + op.missing = 8 ∧
      ((s.owner = .Server ∧ s.Greeted) ∨
        (s.owner = .Client ∧ s.writes = [] ∧ s.written = [])) := by
  cases h with
  | challenging reading owner reads consumed size greeted =>
      rw [reads] at found
      obtain ⟨rfl, rfl⟩ := eq_of_get_singleton found
      exact ⟨rfl, reads, consumed, size, Or.inl ⟨owner, greeted⟩⟩
  | waiting reading owner reads consumed size writes written =>
      rw [reads] at found
      obtain ⟨rfl, rfl⟩ := eq_of_get_singleton found
      exact ⟨rfl, reads, consumed, size, Or.inr ⟨owner, writes, written⟩⟩
  | answering _ _ reads _ _ _ | ended reads _ _ _ =>
      rw [reads] at found
      cases found

/-- The write in flight: a client has read the challenge before it, a server may be reading. -/
theorem Handshake.writing_found {s : Shaking} (h : Handshake s) {i : Nat} {left : List UInt8}
    (found : s.writes[i]? = some left) :
    i = 0 ∧ s.writes = [left] ∧ s.written ++ left = s.greeting ∧
      ((s.owner = .Client ∧ s.reads = [] ∧ s.consumed.length = 8) ∨
        (s.owner = .Server ∧ (s.reads = [] ∨
          ∃ op, s.reads = [op] ∧ s.consumed = op.got ∧ op.got.length + op.missing = 8))) := by
  cases h with
  | challenging op owner reads consumed size greeted =>
      obtain ⟨front, writes, split⟩ := greeted.writing_found found
      exact ⟨front, writes, split, Or.inr ⟨owner, Or.inr ⟨op, reads, consumed, size⟩⟩⟩
  | waiting op owner reads consumed size writes written =>
      rw [writes] at found
      cases found
  | answering whole owner reads consumed writes split =>
      rw [writes] at found
      obtain ⟨rfl, rfl⟩ := eq_of_get_singleton found
      exact ⟨rfl, writes, split, Or.inl ⟨owner, reads, consumed⟩⟩
  | ended reads writes answered greeted =>
      obtain ⟨front, same, split⟩ := greeted.writing_found found
      cases owner : s.owner with
      | Server => exact ⟨front, same, split, Or.inr ⟨rfl, Or.inl reads⟩⟩
      | Client =>
          rw [writes owner] at found
          cases found

/-- A server that has sent its challenge, as far as it could, and reads the reply or does not. -/
theorem Handshake.of_server {s : Shaking} (server : s.owner = .Server)
    (reads : s.reads = [] ∨
      ∃ op, s.reads = [op] ∧ s.consumed = op.got ∧ op.got.length + op.missing = 8)
    (greeted : s.Greeted) : Handshake s := by
  have notClient : ∀ {P : Prop}, s.owner = .Client → P := by
    intro P client
    rw [server] at client
    cases client
  rcases reads with reads | ⟨op, reads, consumed, size⟩
  · exact .ended reads notClient notClient greeted
  · exact .challenging op server reads consumed size greeted

/-! ## Steps of the handshake -/

/-- Bytes of the handshake enter the stream. -/
theorem Handshake.put {s : Shaking} (h : Handshake s) {i : Nat} {left : List UInt8}
    (found : s.writes[i]? = some left) (n : Nat) :
    Handshake { s with
      writes := s.writes.set i (left.drop n), written := s.written ++ left.take n } := by
  obtain ⟨rfl, writes, split, asked⟩ := h.writing_found found
  have remains : s.writes.set 0 (left.drop n) = [left.drop n] := by
    rw [writes]
    rfl
  have splits : (s.written ++ left.take n) ++ left.drop n = s.greeting := by
    rw [List.append_assoc, List.take_append_drop]
    exact split
  rcases asked with ⟨client, reads, consumed⟩ | ⟨server, reads⟩
  · exact .answering (left.drop n) client reads consumed remains splits
  · exact .of_server server reads (Or.inl ⟨left.drop n, remains, splits⟩)

/-- The handshake write has ended. -/
theorem Handshake.unwritten {s : Shaking} (h : Handshake s) {i : Nat} {left : List UInt8}
    (found : s.writes[i]? = some left) : Handshake { s with writes := s.writes.eraseIdx i } := by
  obtain ⟨rfl, writes, split, asked⟩ := h.writing_found found
  have erased : s.writes.eraseIdx 0 = [] := by
    rw [writes]
    rfl
  have greeted : Shaking.Greeted { s with writes := s.writes.eraseIdx 0 } :=
    Or.inr ⟨erased, ⟨left, split⟩⟩
  rcases asked with ⟨client, reads, consumed⟩ | ⟨server, reads⟩
  · exact .ended reads (fun _ => erased) (fun _ _ => Nat.le_of_eq consumed.symm) greeted
  · exact .of_server server reads greeted

/-- Bytes of the peer's handshake arrive. -/
theorem Handshake.take {s : Shaking} (h : Handshake s) {i : Nat} {op : Read} {bytes : List UInt8}
    (found : s.reads[i]? = some op) (fits : bytes.length ≤ op.missing) :
    Handshake { s with
      reads := s.reads.set i ⟨op.got ++ bytes, op.missing - bytes.length⟩
      consumed := s.consumed ++ bytes } := by
  obtain ⟨rfl, reads, consumed, size, side⟩ := h.reading_found found
  have grows : s.reads.set 0 ⟨op.got ++ bytes, op.missing - bytes.length⟩ =
      [⟨op.got ++ bytes, op.missing - bytes.length⟩] := by
    rw [reads]
    rfl
  have arrived : s.consumed ++ bytes = op.got ++ bytes := by rw [consumed]
  have eight : (op.got ++ bytes).length + (op.missing - bytes.length) = 8 := by
    rw [List.length_append]
    omega
  rcases side with ⟨server, greeted⟩ | ⟨client, writes, written⟩
  · exact .challenging _ server grows arrived eight greeted
  · exact .waiting _ client grows arrived eight writes written

/-- The peer's handshake is not read, or not accepted. -/
theorem Handshake.unread {s : Shaking} (h : Handshake s) {i : Nat} {op : Read}
    (found : s.reads[i]? = some op) : Handshake { s with reads := s.reads.eraseIdx i } := by
  obtain ⟨rfl, reads, consumed, size, side⟩ := h.reading_found found
  have erased : s.reads.eraseIdx 0 = [] := by
    rw [reads]
    rfl
  rcases side with ⟨server, greeted⟩ | ⟨client, writes, written⟩
  · exact .of_server server (Or.inl erased) greeted
  · exact .ended erased (fun _ => writes) (fun _ some => (some written).elim)
      (Or.inr ⟨writes, by rw [written]; exact List.nil_prefix⟩)

/-- When the reply of a client is written, both directions of the handshake are through. -/
theorem Handshake.replied {s : Shaking} (h : Handshake s) (client : s.owner = .Client) {i : Nat}
    (found : s.writes[i]? = some []) :
    s.writes.eraseIdx i = [] ∧ s.reads = [] ∧ s.written = s.greeting ∧ s.consumed.length = 8 := by
  obtain ⟨rfl, writes, split, ⟨-, reads, consumed⟩ | ⟨server, -⟩⟩ := h.writing_found found
  · rw [List.append_nil] at split
    rw [writes]
    exact ⟨rfl, reads, split, consumed⟩
  · rw [server] at client
    cases client

/-- When a client has read the challenge, it has written nothing yet. -/
theorem Handshake.challenged {s : Shaking} (h : Handshake s) (client : s.owner = .Client) {i : Nat}
    {buffer : List UInt8} (found : s.reads[i]? = some ⟨buffer, 0⟩) :
    s.reads.eraseIdx i = [] ∧ s.consumed.length = 8 ∧ s.writes = [] ∧ s.written = [] := by
  obtain ⟨rfl, reads, consumed, size, ⟨server, -⟩ | ⟨-, writes, written⟩⟩ :=
    h.reading_found found
  · rw [server] at client
    cases client
  · rw [reads, consumed]
    exact ⟨rfl, size, writes, written⟩

/-- When a server has read the reply, both directions of the handshake are through. -/
theorem Handshake.answeredBack {s : Shaking} (h : Handshake s) (server : s.owner = .Server)
    {i : Nat} {buffer : List UInt8} (found : s.reads[i]? = some ⟨buffer, 0⟩)
    (eight : s.greeting.length = 8) (answered : 8 ≤ s.consumed.length → 8 ≤ s.written.length) :
    s.reads.eraseIdx i = [] ∧ s.consumed.length = 8 ∧ s.written = s.greeting ∧
      (s.writes = [] ∨ s.writes = [[]]) := by
  obtain ⟨rfl, reads, consumed, size, ⟨-, greeted⟩ | ⟨client, -⟩⟩ := h.reading_found found
  · have whole : s.consumed.length = 8 := by
      rw [consumed]
      exact size
    have long : 8 ≤ s.written.length := answered (Nat.le_of_eq whole.symm)
    have written : s.written = s.greeting :=
      greeted.written_isPrefix.eq_of_length_le (by omega)
    refine ⟨by rw [reads]; rfl, whole, written, ?_⟩
    rcases greeted with ⟨left, writes, split⟩ | ⟨writes, -⟩
    · rw [written] at split
      have empty : left = [] := List.append_right_eq_self.mp split
      rw [empty] at writes
      exact Or.inr writes
    · exact Or.inl writes
  · rw [server] at client
    cases client

end Connection

end PingPong.Net
