import PingPong.Client.Session
import PingPong.Lib.Channel
import PingPong.Net.Link

/-!
# The client and what its routines share

`FileClient` of `client.hpp`: the connection to the server and the queue its messages arrive in.
The connection changes while a routine runs, by the events of `FileClient.Event`; everything else a
routine depends on is in its `Operation` and, step by step, in a `Choice`.
-/

namespace PingPong

open Common Net

structure FileClient where
  m_connection : Link EMessageType := {}
  m_messages_in : List Message := []

namespace FileClient

abbrev isConnected (c : FileClient) : Bool := c.m_connection.isConnected

abbrev isValidated (c : FileClient) : Bool := c.m_connection.m_validated

/-- The messages `send` accepted, oldest first. -/
abbrev sent (c : FileClient) : List Message := c.m_connection.sent

def send (c : FileClient) (msg : Message) : Bool × FileClient :=
  if c.isConnected then
    let sent := c.m_connection.send msg
    (sent.1, { c with m_connection := sent.2 })
  else (false, c)

/-- `c.send(msg)` with its result ignored. -/
abbrev post (c : FileClient) (msg : Message) : FileClient := (c.send msg).2

/-- What a step of a session leaves of its client. -/
def after {σ : Type} (c : FileClient) (turn : Turn σ) : FileClient :=
  let c := { c with m_messages_in := turn.m_messages_in }
  match turn.call with
  | some msg => c.post msg
  | none => c

/-- What happens to the connection while a routine runs. -/
inductive Event where
  | opened
  | validated
  | closed

def on (c : FileClient) : Event → Option FileClient
  | .opened =>
      if c.m_connection.m_socket = .absent then
        some { c with m_connection := { c.m_connection with m_socket := .opened } }
      else none
  | .validated =>
      if c.m_connection.m_socket ≠ .absent then
        some { c with m_connection := { c.m_connection with m_validated := true } }
      else none
  | .closed =>
      if c.m_connection.m_socket ≠ .absent then
        some { c with m_connection := { c.m_connection with m_socket := .closed } }
      else none

/-- A message from the server is put into the queue. -/
def receive (c : FileClient) (msg : Message) : FileClient :=
  { c with m_messages_in := c.m_messages_in ++ [msg] }

/-- The handshake is over; the socket may have closed since. -/
structure Live (c : FileClient) : Prop where
  validated : c.isValidated
  socket : c.m_connection.m_socket ≠ .absent

theorem send_fst (c : FileClient) (msg : Message) : (c.send msg).1 = c.m_connection.accepts := by
  unfold send
  split
  · exact c.m_connection.send_fst msg
  · rename_i disconnected
    have disconnected : c.m_connection.isConnected = false := Bool.eq_false_iff.mpr disconnected
    rw [Link.accepts, disconnected, Bool.and_false]

theorem send_fst_of_disconnected (c : FileClient) (disconnected : c.isConnected = false)
    (msg : Message) : (c.send msg).1 = false := by
  unfold send
  rw [if_neg (by rw [disconnected]; exact Bool.false_ne_true)]

theorem post_connection (c : FileClient) (msg : Message) :
    (c.post msg).m_connection = (c.m_connection.send msg).2 := by
  unfold post send
  split
  · rfl
  · rename_i disconnected
    have disconnected : c.m_connection.isConnected = false := Bool.eq_false_iff.mpr disconnected
    have refuses : c.m_connection.accepts = false := by
      rw [Link.accepts, disconnected, Bool.and_false]
    rw [Link.send_of_refuses refuses]

@[simp] theorem post_messages_in (c : FileClient) (msg : Message) :
    (c.post msg).m_messages_in = c.m_messages_in := by
  unfold post send
  split <;> rfl

theorem post_sent (c : FileClient) (msg : Message) :
    (c.post msg).sent = if (c.send msg).1 then c.sent ++ [msg] else c.sent := by
  rw [sent, post_connection, Link.send_sent, send_fst]

@[simp] theorem post_socket (c : FileClient) (msg : Message) :
    (c.post msg).m_connection.m_socket = c.m_connection.m_socket := by
  rw [post_connection, Link.send_socket]

@[simp] theorem post_validated (c : FileClient) (msg : Message) :
    (c.post msg).isValidated = c.isValidated := by
  rw [isValidated, post_connection, Link.send_validated]

theorem Live.post {c : FileClient} (h : c.Live) (msg : Message) : (c.post msg).Live :=
  ⟨by rw [post_validated]; exact h.validated, by rw [post_socket]; exact h.socket⟩

/-- After the handshake, only a closed socket makes `send` fail. -/
theorem Live.closed_of_refused {c : FileClient} (h : c.Live) {msg : Message}
    (refused : (c.send msg).1 = false) : c.m_connection.m_socket = .closed := by
  rw [send_fst] at refused
  exact Link.closed_of_refuses h.validated h.socket refused

theorem refuses_of_closed {c : FileClient} (closed : c.m_connection.m_socket = .closed)
    (msg : Message) : (c.send msg).1 = false := by
  rw [send_fst]
  exact Link.refuses_of_closed closed

/-- Nothing gets through a closed socket. -/
theorem post_sent_of_closed {c : FileClient} (closed : c.m_connection.m_socket = .closed)
    (msg : Message) : (c.post msg).sent = c.sent := by
  rw [post_sent, refuses_of_closed closed]
  exact if_neg Bool.false_ne_true

/-- A step of a session that sends nothing. -/
theorem after_of_quiet {σ : Type} {c : FileClient} {turn : Turn σ} (quiet : turn.call = none) :
    c.after turn = { c with m_messages_in := turn.m_messages_in } := by
  unfold after
  rw [quiet]

theorem after_of_called {σ : Type} {c : FileClient} {turn : Turn σ} {msg : Message}
    (called : turn.call = some msg) :
    c.after turn = { c with m_messages_in := turn.m_messages_in }.post msg := by
  unfold after
  rw [called]

@[simp] theorem after_messages_in {σ : Type} (c : FileClient) (turn : Turn σ) :
    (c.after turn).m_messages_in = turn.m_messages_in := by
  cases call : turn.call with
  | none => rw [after_of_quiet call]
  | some msg => rw [after_of_called call, post_messages_in]

theorem after_socket {σ : Type} (c : FileClient) (turn : Turn σ) :
    (c.after turn).m_connection.m_socket = c.m_connection.m_socket := by
  cases call : turn.call with
  | none => rw [after_of_quiet call]
  | some msg => rw [after_of_called call, post_socket]

theorem Live.after {σ : Type} {c : FileClient} (h : c.Live) (turn : Turn σ) :
    (c.after turn).Live := by
  cases call : turn.call with
  | none =>
      rw [after_of_quiet call]
      exact ⟨h.validated, h.socket⟩
  | some msg =>
      rw [after_of_called call]
      have moved : Live { c with m_messages_in := turn.m_messages_in } := ⟨h.validated, h.socket⟩
      exact moved.post msg

theorem after_sent_of_closed {σ : Type} {c : FileClient} (turn : Turn σ)
    (closed : c.m_connection.m_socket = .closed) : (c.after turn).sent = c.sent := by
  cases call : turn.call with
  | none => rw [after_of_quiet call]
  | some msg =>
      rw [after_of_called call]
      exact post_sent_of_closed (c := { c with m_messages_in := turn.m_messages_in }) closed msg

/-- At most one message is sent at a time. -/
theorem post_extends (c : FileClient) (msg : Message) :
    Channel.Extends c.sent (c.post msg).sent := by
  rw [post_sent]
  split
  · exact Or.inr ⟨msg, rfl⟩
  · exact Or.inl rfl

theorem after_extends {σ : Type} (c : FileClient) (turn : Turn σ) :
    Channel.Extends c.sent (c.after turn).sent := by
  cases call : turn.call with
  | none =>
      left
      rw [after_of_quiet call]
  | some msg =>
      rw [after_of_called call]
      exact post_extends { c with m_messages_in := turn.m_messages_in } msg

/-- A connection event changes neither queue nor history, and it neither undoes the handshake nor
reopens the socket. -/
structure Fades (c c' : FileClient) : Prop where
  messages_in : c'.m_messages_in = c.m_messages_in
  sent : c'.sent = c.sent
  live : c.Live → c'.Live
  closed : c.m_connection.m_socket = .closed → c'.m_connection.m_socket = .closed

theorem on_fades {c c' : FileClient} {e : Event} (h : c.on e = some c') : Fades c c' := by
  cases e with
  | opened =>
      simp only [on] at h
      split at h
      · rename_i absent
        cases h
        refine ⟨rfl, rfl, fun live => (live.socket absent).elim, fun closed => ?_⟩
        rw [absent] at closed
        cases closed
      · cases h
  | validated =>
      simp only [on] at h
      split at h
      · cases h
        exact ⟨rfl, rfl, fun live => ⟨rfl, live.socket⟩, fun closed => closed⟩
      · cases h
  | closed =>
      simp only [on] at h
      split at h
      · cases h
        exact ⟨rfl, rfl, fun live => ⟨live.validated, Socket.noConfusion⟩, fun _ => rfl⟩
      · cases h

/-! ## Sending without looking at the result -/

/-- All of `expected` has been handed to `send`, and unless the socket is closed all of it was
accepted. -/
structure Sends (c : FileClient) (expected : List Message) : Prop where
  live : c.Live
  isPrefix : c.sent <+: expected
  whole : c.sent = expected ∨ c.m_connection.m_socket = .closed

theorem Sends.post {c : FileClient} {expected : List Message} (h : c.Sends expected)
    (msg : Message) : (c.post msg).Sends (expected ++ [msg]) := by
  have live := h.live.post msg
  cases taken : (c.send msg).1 with
  | true =>
      have sent : (c.post msg).sent = c.sent ++ [msg] := by
        rw [post_sent, taken]
        exact if_pos rfl
      rcases h.whole with whole | closed
      · have all : (c.post msg).sent = expected ++ [msg] := by rw [sent, whole]
        exact ⟨live, ⟨[], by rw [all, List.append_nil]⟩, Or.inl all⟩
      · rw [refuses_of_closed closed msg] at taken
        cases taken
  | false =>
      have closed := h.live.closed_of_refused taken
      refine ⟨live, ?_, Or.inr ((c.post_socket msg).trans closed)⟩
      rw [post_sent_of_closed closed]
      exact h.isPrefix.trans (List.prefix_append _ _)

theorem Sends.fade {c c' : FileClient} {expected : List Message} (h : c.Sends expected)
    (fades : Fades c c') : c'.Sends expected := by
  refine ⟨fades.live h.live, ?_, ?_⟩
  · rw [fades.sent]
    exact h.isPrefix
  · rw [fades.sent]
    exact h.whole.imp id fades.closed

/-- The queue does not matter. -/
theorem Sends.congr {c c' : FileClient} {expected : List Message} (h : c.Sends expected)
    (same : c'.m_connection = c.m_connection) : c'.Sends expected := by
  obtain ⟨⟨validated, socket⟩, isPrefix, whole⟩ := h
  unfold isValidated sent at *
  rw [← same] at validated socket isPrefix whole
  exact ⟨⟨validated, socket⟩, isPrefix, whole⟩

theorem Sends.length_le {c : FileClient} {expected : List Message} (h : c.Sends expected) :
    c.sent.length ≤ expected.length := h.isPrefix.length_le

end FileClient

/-- The `Operation` of `client.hpp`, with the name and the bytes of the file at its path. -/
structure Operation where
  filename : List UInt8 := []
  file : List UInt8 := []
  receival_code_phrase : List UInt8 := []

/-- What the surroundings of a routine decide at one step: whether `autoConnect` succeeds, how the
file system answers, whether the user accepts, and whether the outgoing queue has been flushed. -/
structure Choice where
  connects : Bool := true
  disk : Disk := {}
  accepts : Bool := true
  flushed : Bool := true

/-- A code with its size, which is narrowed to `uint8_t`. -/
def codePhrase (code : List UInt8) : CodePhrase := ⟨UInt8.ofNat code.length, code⟩

theorem codePhrase_sized {code : List UInt8} (bounded : code.length ≤ 255) :
    (codePhrase code).Sized := by
  have bound : code.length < 2 ^ 8 := by omega
  exact (UInt8.toNat_ofNat_of_lt' bound).symm

end PingPong
