import PingPong.Net.Message

/-!
# A connection as its owner sees it

The part of `Net::Connection` that the thread calling `send`, `isConnected` and
`disconnectAfterFlush` can observe.  `sent` is the sequence of messages for which `send` returned
true; a socket that has been closed is never opened again.
-/

namespace PingPong.Net

inductive Socket where
  | absent
  | opened
  | closed
deriving DecidableEq

structure Link (T : Type) where
  m_validated : Bool := false
  m_socket : Socket := .absent
  sent : List (Message T) := []
  close_after_flush : Bool := false

namespace Link

variable {T : Type}

def isConnected (l : Link T) : Bool := l.m_socket = .opened

/-- Whether `send` returns true. -/
def accepts (l : Link T) : Bool := l.m_validated && l.isConnected

def send (l : Link T) (msg : Message T) : Bool × Link T :=
  if l.accepts then (true, { l with sent := l.sent ++ [msg] }) else (false, l)

def disconnectAfterFlush (l : Link T) : Link T := { l with close_after_flush := true }

theorem send_fst (l : Link T) (msg : Message T) : (l.send msg).1 = l.accepts := by
  unfold send
  split
  · rename_i h
    exact h.symm
  · rename_i h
    exact (Bool.eq_false_iff.mpr h).symm

theorem send_of_accepts {l : Link T} (h : l.accepts) (msg : Message T) :
    l.send msg = (true, { l with sent := l.sent ++ [msg] }) := if_pos h

theorem send_of_refuses {l : Link T} (h : l.accepts = false) (msg : Message T) :
    l.send msg = (false, l) := if_neg (by rw [h]; exact Bool.false_ne_true)

/-- On a validated connection that has been opened, only a closed socket makes `send` fail. -/
theorem closed_of_refuses {l : Link T} (validated : l.m_validated) (socket : l.m_socket ≠ .absent)
    (refuses : l.accepts = false) : l.m_socket = .closed := by
  rw [accepts, validated, Bool.true_and] at refuses
  have notOpened : l.m_socket ≠ .opened := of_decide_eq_false refuses
  cases state : l.m_socket with
  | absent => exact (socket state).elim
  | opened => exact (notOpened state).elim
  | closed => rfl

theorem refuses_of_closed {l : Link T} (closed : l.m_socket = .closed) : l.accepts = false := by
  rw [accepts, isConnected, closed]
  exact Bool.and_false _

@[simp] theorem send_socket (l : Link T) (msg : Message T) :
    (l.send msg).2.m_socket = l.m_socket := by
  unfold send
  split <;> rfl

@[simp] theorem send_validated (l : Link T) (msg : Message T) :
    (l.send msg).2.m_validated = l.m_validated := by
  unfold send
  split <;> rfl

theorem send_sent (l : Link T) (msg : Message T) :
    (l.send msg).2.sent = if l.accepts then l.sent ++ [msg] else l.sent := by
  unfold send
  split <;> rfl

end Link

end PingPong.Net
