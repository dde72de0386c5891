import PingPong.Lib.Channel
import PingPong.Net.Connection

/-!
# The write chain

`Sending hs o` describes every state of the chain of frame writes on a validated connection: either
nothing is queued and nothing is in flight, or exactly one header or body of the message at the
front is in flight, or a write has failed, and then the queue stays nonempty for good, which is what
keeps `send` from starting another write.  In all of them the bytes written are `hs`, the frames
flushed, and a part of one more frame.
-/

namespace PingPong.Net

open TriviallyCopyable (width toBytes ofBytes)

section Frames

variable {T : Type} [TriviallyCopyable T]

/-- The bytes of a sequence of messages, one after another. -/
def frames (msgs : List (Message T)) : List UInt8 := msgs.flatMap Message.frame

@[simp] theorem frames_nil : frames ([] : List (Message T)) = [] := rfl

@[simp] theorem frames_append (xs ys : List (Message T)) :
    frames (xs ++ ys) = frames xs ++ frames ys := List.flatMap_append

@[simp] theorem frames_singleton (msg : Message T) :
    frames [msg] = toBytes msg.header ++ msg.body := List.flatMap_singleton _ _

theorem frames_isPrefix {xs ys : List (Message T)} (h : xs <+: ys) : frames xs <+: frames ys := by
  obtain ⟨rest, rfl⟩ := h
  rw [frames_append]
  exact List.prefix_append _ _

/-- The header has a fixed width and tells how long the body is. -/
theorem frame_selfDelimiting : SelfDelimiting (α := Message T) Message.Framed Message.frame := by
  constructor
  · intro msg _ empty
    have length : (toBytes msg.header).length = width T + width UInt32 :=
      TriviallyCopyable.length_toBytes msg.header
    have headers : toBytes msg.header = [] := (List.append_eq_nil_iff.mp empty).1
    have four : width UInt32 = 4 := rfl
    rw [headers, List.length_nil, four] at length
    omega
  · intro x y u v framedX framedY heq
    unfold Message.frame at heq
    rw [List.append_assoc, List.append_assoc] at heq
    obtain ⟨headers, rests⟩ := List.append_inj heq
      ((TriviallyCopyable.length_toBytes x.header).trans
        (TriviallyCopyable.length_toBytes y.header).symm)
    have header : x.header = y.header := by
      rw [← TriviallyCopyable.ofBytes_toBytes x.header, headers,
        TriviallyCopyable.ofBytes_toBytes]
    have size : x.body.length = y.body.length := by
      unfold Message.Framed Message.size at framedX framedY
      rw [← framedX, ← framedY, header]
    have body : x.body = y.body := (List.append_inj rests size).1
    obtain ⟨hx, bx⟩ := x
    obtain ⟨hy, bY⟩ := y
    obtain rfl : hx = hy := header
    obtain rfl : bx = bY := body
    rfl

end Frames

namespace Connection

variable {T : Type} [TriviallyCopyable T]

/-- What the chain of frame writes works on. -/
structure Outgoing (T : Type) where
  queue : List (Message T)
  flushed : List (Message T)
  headers : List (List UInt8)
  bodies : List (List UInt8)
  written : List UInt8

inductive Sending (hs : List UInt8) (o : Outgoing T) : Prop
  | idle :
    o.queue = [] → o.headers = [] → o.bodies = [] → o.written = hs ++ frames o.flushed →
    Sending hs o
  | header (msg : Message T) (later : List (Message T)) (part left : List UInt8) :
    o.queue = msg :: later → o.headers = [left] → o.bodies = [] →
    o.written = hs ++ frames o.flushed ++ part → part ++ left = toBytes msg.header →
    Sending hs o
  | body (msg : Message T) (later : List (Message T)) (part left : List UInt8) :
    o.queue = msg :: later → o.headers = [] → o.bodies = [left] →
    o.written = hs ++ frames o.flushed ++ toBytes msg.header ++ part → part ++ left = msg.body →
    Sending hs o
  | failed (msg : Message T) (later : List (Message T)) (part : List UInt8) :
    o.queue = msg :: later → o.headers = [] → o.bodies = [] →
    o.written = hs ++ frames o.flushed ++ part → part <+: msg.frame → Sending hs o

/-- At most one frame write is in flight. -/
theorem Sending.one_in_flight {hs : List UInt8} {o : Outgoing T} (h : Sending hs o) :
    o.headers.length + o.bodies.length ≤ 1 := by
  cases h with
  | idle queue headers bodies written => simp [headers, bodies]
  | header msg later part left queue headers bodies written split => simp [headers, bodies]
  | body msg later part left queue headers bodies written split => simp [headers, bodies]
  | failed msg later part queue headers bodies written cut => simp [headers, bodies]

/-- The only operation in flight is the one at index 0. -/
theorem eq_of_get_singleton {α : Type} {a b : α} {i : Nat} (h : [a][i]? = some b) :
    i = 0 ∧ b = a := by
  cases i with
  | zero => exact ⟨rfl, (Option.some.inj h).symm⟩
  | succ i => cases h

/-- A header in flight is that of the front message. -/
theorem Sending.header_found {hs : List UInt8} {o : Outgoing T} (h : Sending hs o) {i : Nat}
    {left : List UInt8} (found : o.headers[i]? = some left) :
    ∃ msg later done, i = 0 ∧ o.queue = msg :: later ∧ o.headers = [left] ∧ o.bodies = [] ∧
      o.written = hs ++ frames o.flushed ++ done ∧ done ++ left = toBytes msg.header := by
  cases h with
  | header msg later done whole queue headers bodies written split =>
      rw [headers] at found
      obtain ⟨rfl, rfl⟩ := eq_of_get_singleton found
      exact ⟨msg, later, done, rfl, queue, headers, bodies, written, split⟩
  | idle _ headers _ _ | body _ _ _ _ _ headers _ _ _ | failed _ _ _ _ headers _ _ _ =>
      rw [headers] at found
      cases found

/-- And so is a body. -/
theorem Sending.body_found {hs : List UInt8} {o : Outgoing T} (h : Sending hs o) {i : Nat}
    {left : List UInt8} (found : o.bodies[i]? = some left) :
    ∃ msg later done, i = 0 ∧ o.queue = msg :: later ∧ o.headers = [] ∧ o.bodies = [left] ∧
      o.written = hs ++ frames o.flushed ++ toBytes msg.header ++ done ∧
      done ++ left = msg.body := by
  cases h with
  | body msg later done whole queue headers bodies written split =>
      rw [bodies] at found
      obtain ⟨rfl, rfl⟩ := eq_of_get_singleton found
      exact ⟨msg, later, done, rfl, queue, headers, bodies, written, split⟩
  | idle _ _ bodies _ | header _ _ _ _ _ _ bodies _ _ | failed _ _ _ _ _ bodies _ _ =>
      rw [bodies] at found
      cases found

/-- What is written is the whole handshake and the start of the frames of the queued messages. -/
theorem Sending.written_eq {hs : List UInt8} {o : Outgoing T} (h : Sending hs o) :
    ∃ part, o.written = hs ++ part ∧ part <+: frames (o.flushed ++ o.queue) := by
  have front : ∀ {msg : Message T} {later : List (Message T)} {part : List UInt8},
      o.queue = msg :: later → part <+: msg.frame →
      frames o.flushed ++ part <+: frames (o.flushed ++ o.queue) := by
    intro msg later part queue cut
    rw [queue, frames_append]
    exact (List.prefix_append_right_inj _).mpr (cut.trans (List.prefix_append _ _))
  cases h with
  | idle queue headers bodies written =>
      refine ⟨frames o.flushed, written, ?_⟩
      exact ⟨[], by rw [queue, List.append_nil, List.append_nil]⟩
  | header msg later part left queue headers bodies written split =>
      refine ⟨_, by rw [written, List.append_assoc], front queue ?_⟩
      rw [Message.frame, ← split, List.append_assoc]
      exact List.prefix_append _ _
  | body msg later part left queue headers bodies written split =>
      refine ⟨_, by rw [written, List.append_assoc, List.append_assoc], front queue ?_⟩
      rw [Message.frame, ← split, ← List.append_assoc]
      exact List.prefix_append _ _
  | failed msg later part queue headers bodies written cut =>
      exact ⟨_, by rw [written, List.append_assoc], front queue cut⟩

/-- The handshake and the frames flushed are written. -/
theorem Sending.flushed_isPrefix {hs : List UInt8} {o : Outgoing T} (h : Sending hs o) :
    hs ++ frames o.flushed <+: o.written := by
  cases h with
  | idle queue headers bodies written => exact ⟨[], by rw [written, List.append_nil]⟩
  | header msg later part left queue headers bodies written split => exact ⟨part, written.symm⟩
  | body msg later part left queue headers bodies written split =>
      exact ⟨toBytes msg.header ++ part, by rw [written, List.append_assoc _ _ part]⟩
  | failed msg later part queue headers bodies written cut => exact ⟨part, written.symm⟩

/-- A body is only in flight for a message in the queue. -/
theorem Sending.queued {hs : List UInt8} {o : Outgoing T} (h : Sending hs o)
    (busy : o.bodies ≠ []) : ∃ msg later, o.queue = msg :: later := by
  cases h with
  | idle queue headers bodies written => exact (busy bodies).elim
  | header msg later part left queue headers bodies written split => exact (busy bodies).elim
  | body msg later part left queue headers bodies written split => exact ⟨msg, later, queue⟩
  | failed msg later part queue headers bodies written cut => exact (busy bodies).elim

/-! ## Steps of the chain -/

variable [Inhabited T]

def outgoing (c : Connection T) : Outgoing T :=
  ⟨c.m_messages_out, c.flushed, c.writes .header, c.writes .body, c.written⟩

/-- A posted `send` starts a write just when the queue is empty, and then none is in flight. -/
theorem Sending.runSend {hs : List UInt8} {c : Connection T} (h : Sending hs c.outgoing)
    (msg : Message T) : Sending hs (c.runHandler (.send msg)).outgoing := by
  have busy : ∀ {front : Message T} {later : List (Message T)},
      c.m_messages_out = front :: later →
      (c.runHandler (.send msg)).outgoing =
        { c.outgoing with queue := front :: (later ++ [msg]) } := by
    intro front later queue
    simp [runHandler, outgoing, queue]
  cases h with
  | idle queue headers bodies written =>
      have queue : c.m_messages_out = [] := queue
      have headers : c.writes .header = [] := headers
      have start : (c.runHandler (.send msg)).outgoing =
          { c.outgoing with queue := [msg], headers := [toBytes msg.header] } := by
        simp [runHandler, outgoing, queue, writeHeader, asyncWrite, headers]
      rw [start]
      refine .header msg [] [] (toBytes msg.header) rfl rfl bodies ?_ rfl
      rw [List.append_nil]
      exact written
  | header front later part left queue headers bodies written split =>
      rw [busy queue]
      exact .header front _ part left rfl headers bodies written split
  | body front later part left queue headers bodies written split =>
      rw [busy queue]
      exact .body front _ part left rfl headers bodies written split
  | failed front later part queue headers bodies written cut =>
      rw [busy queue]
      exact .failed front _ part rfl headers bodies written cut

/-- Once the message at the front is written, the chain goes on with the next or ends. -/
theorem Sending.finishMessage {hs : List UInt8} {c : Connection T} {msg : Message T}
    {later : List (Message T)} (queue : c.m_messages_out = msg :: later)
    (headers : c.writes .header = []) (bodies : c.writes .body = [])
    (written : c.written = hs ++ frames (c.flushed ++ [msg])) :
    Sending hs c.finishMessage.outgoing := by
  rcases later with _ | ⟨next, rest⟩
  · have ended : c.finishMessage.outgoing =
        { c.outgoing with queue := [], flushed := c.flushed ++ [msg] } := by
      simp only [Connection.finishMessage, queue, List.tail_cons, List.isEmpty_nil, if_true]
      split <;> rfl
    rw [ended]
    exact .idle rfl headers bodies written
  · have goesOn : c.finishMessage.outgoing =
        { c.outgoing with
          queue := next :: rest
          flushed := c.flushed ++ [msg]
          headers := [toBytes next.header] } := by
      simp [Connection.finishMessage, outgoing, queue, writeHeader, asyncWrite, headers]
    rw [goesOn]
    refine .header next rest [] (toBytes next.header) rfl rfl bodies ?_ rfl
    rw [List.append_nil]
    exact written

theorem Sending.headerWritten {hs : List UInt8} {c : Connection T} {msg : Message T}
    {later : List (Message T)} (queue : c.m_messages_out = msg :: later)
    (headers : c.writes .header = []) (bodies : c.writes .body = [])
    (written : c.written = hs ++ frames c.flushed ++ toBytes msg.header) :
    Sending hs c.headerWritten.outgoing := by
  rcases Nat.eq_zero_or_pos msg.body.length with empty | nonempty
  · have same : c.headerWritten = c.finishMessage := by
      simp [Connection.headerWritten, queue, empty]
    rw [same]
    refine .finishMessage queue headers bodies ?_
    rw [written, frames_append, frames_singleton, List.eq_nil_of_length_eq_zero empty]
    simp only [List.append_assoc, List.append_nil]
  · have goesOn : c.headerWritten.outgoing = { c.outgoing with bodies := [msg.body] } := by
      simp [Connection.headerWritten, outgoing, queue, nonempty, writeBody, asyncWrite, bodies]
    rw [goesOn]
    refine .body msg later [] msg.body queue headers rfl ?_ rfl
    rw [List.append_nil]
    exact written

/-- Some bytes of the header or body in flight enter the stream. -/
theorem Sending.put {hs : List UInt8} {c : Connection T} (h : Sending hs c.outgoing) {part : Part}
    {i : Nat} {left : List UInt8} (frame : part ≠ .validation)
    (found : (c.writes part)[i]? = some left) (n : Nat) :
    Sending hs (c.putBytes part i left n).outgoing := by
  have splits : ∀ {done whole : List UInt8}, done ++ left = whole →
      (done ++ left.take n) ++ left.drop n = whole := by
    intro done whole split
    rw [List.append_assoc, List.take_append_drop, split]
  cases part with
  | validation => exact (frame rfl).elim
  | header =>
      obtain ⟨msg, later, done, rfl, queue, headers, bodies, written, split⟩ := h.header_found found
      have headers : c.writes .header = [left] := headers
      refine .header msg later (done ++ left.take n) (left.drop n) queue ?_ bodies ?_ (splits split)
      · simp [outgoing, putBytes, setWrites, headers]
      · rw [← List.append_assoc]
        exact congrArg (· ++ left.take n) written
  | body =>
      obtain ⟨msg, later, done, rfl, queue, headers, bodies, written, split⟩ := h.body_found found
      have bodies : c.writes .body = [left] := bodies
      refine .body msg later (done ++ left.take n) (left.drop n) queue headers ?_ ?_ (splits split)
      · simp [outgoing, putBytes, setWrites, bodies]
      · rw [← List.append_assoc]
        exact congrArg (· ++ left.take n) written

/-- A header or body that has been written completes. -/
theorem Sending.wrote {hs : List UInt8} {c : Connection T} (h : Sending hs c.outgoing) {part : Part}
    {i : Nat} (frame : part ≠ .validation) (found : (c.writes part)[i]? = some []) :
    Sending hs ((c.setWrites part ((c.writes part).eraseIdx i)).wrote part).outgoing := by
  cases part with
  | validation => exact (frame rfl).elim
  | header =>
      obtain ⟨msg, later, done, rfl, queue, headers, bodies, written, split⟩ := h.header_found found
      have headers : c.writes .header = [[]] := headers
      rw [headers]
      refine .headerWritten queue ?_ bodies ?_
      · simp [setWrites]
      · rw [← split, List.append_nil]
        exact written
  | body =>
      obtain ⟨msg, later, done, rfl, queue, headers, bodies, written, split⟩ := h.body_found found
      have bodies : c.writes .body = [[]] := bodies
      rw [bodies]
      refine .finishMessage queue headers ?_ ?_
      · simp [setWrites]
      · rw [frames_append, frames_singleton, ← split, List.append_nil, ← List.append_assoc,
          ← List.append_assoc]
        exact written

/-- A header or body fails: its message stays at the front of the queue. -/
theorem Sending.writeFailed {hs : List UInt8} {c : Connection T} (h : Sending hs c.outgoing)
    {part : Part} {i : Nat} {left : List UInt8} (frame : part ≠ .validation)
    (found : (c.writes part)[i]? = some left) :
    Sending hs (c.setWrites part ((c.writes part).eraseIdx i)).outgoing := by
  cases part with
  | validation => exact (frame rfl).elim
  | header =>
      obtain ⟨msg, later, done, rfl, queue, headers, bodies, written, split⟩ := h.header_found found
      have headers : c.writes .header = [left] := headers
      rw [headers]
      refine .failed msg later done queue ?_ bodies written ?_
      · simp [outgoing, setWrites]
      · rw [Message.frame, ← split, List.append_assoc]
        exact List.prefix_append _ _
  | body =>
      obtain ⟨msg, later, done, rfl, queue, headers, bodies, written, split⟩ := h.body_found found
      have bodies : c.writes .body = [left] := bodies
      rw [bodies]
      refine .failed msg later (toBytes msg.header ++ done) queue headers ?_ ?_ ?_
      · simp [outgoing, setWrites]
      · rw [← List.append_assoc]
        exact written
      · rw [Message.frame, ← split, ← List.append_assoc]
        exact List.prefix_append _ _

end Connection

end PingPong.Net
