import PingPong.Client.FileClient

/-!
# The receiver

`receiveRoutine` of `receiver.cpp` as a machine: connect, wait for the handshake, ask for the code,
wait for an answer, ask the user, request the file, run the session, and report success.
-/

namespace PingPong

open Common Net

namespace Receiver

inductive Pc where
  | connecting
  | validating
  | requesting
  | waiting
  | establishing
  | asking
  | starting
  | session
  | finishing
  | flushing
  | awaiting
  | returned (res : Bool)
deriving DecidableEq

/-- The fields of the request that the receiver leaves unset. -/
structure Unset where
  file_size : UInt64
  file_name_size : UInt8

/-- What `establishSession` asks for. -/
def request (op : Operation) (unset : Unset) : PreMetadata :=
  { payload_type := .File
    code_phrase := codePhrase op.receival_code_phrase
    file_data :=
      { file_size := unset.file_size
        file_name_size := unset.file_name_size
        file_name := [] } }

end Receiver

/-- The state of `receiveRoutine`. -/
structure Receiver where
  pc : Receiver.Pc := .connecting
  c : FileClient := {}
  session : ClientReceiverSession := {}

namespace Receiver

/-- One message of the loop in `establishSession`. -/
def establish (p : Receiver) (msg : Message) : Option Receiver :=
  if msg.header.id = .Reject then some { p with pc := .returned false }
  else if msg.header.id = .Accept then do
    let _ ← decode .Accept msg
    some { p with pc := .asking }
  else some p

def popped (p : Receiver) (rest : List Message) : Receiver :=
  { p with c := { p.c with m_messages_in := rest } }

def step (sha256_chunk : List UInt8 → Hash) (op : Operation) (unset : Unset) (p : Receiver)
    (choice : Choice) : Option Receiver :=
  match p.pc with
  | .connecting =>
      if choice.connects then some { p with pc := .validating }
      else some { p with pc := .returned false }
  | .validating =>
      if p.c.isConnected && p.c.isValidated then some { p with pc := .requesting } else some p
  | .requesting =>
      some { p with
        pc := .waiting
        c := p.c.post (encode .RequestReceive (request op unset)) }
  | .waiting =>
      match p.c.m_messages_in with
      | [] => none
      | _ :: _ => some { p with pc := .establishing }
  | .establishing =>
      match p.c.m_messages_in with
      | [] => some { p with pc := .asking }
      | msg :: rest => (p.popped rest).establish msg
  | .asking =>
      if choice.accepts then some { p with pc := .starting }
      else some { p with pc := .returned true }
  | .starting =>
      some { p with
        pc := .session
        c := p.c.post (encode .Receive (codePhrase op.receival_code_phrase)) }
  | .session =>
      match p.session.pc with
      | .returned true => some { p with pc := .finishing }
      | .returned false => some { p with pc := .returned false }
      | _ =>
          (p.session.step sha256_chunk p.c.m_messages_in choice.disk).map fun turn =>
            { p with c := p.c.after turn, session := turn.session }
  | .finishing =>
      some { p with pc := .flushing, c := p.c.post (encode .FinishReceive {}) }
  | .flushing =>
      if p.c.isConnected then some { p with pc := .awaiting }
      else some { p with pc := .returned true }
  | .awaiting =>
      -- The outgoing queue, not the socket, is what `flush` waits for.
      if choice.flushed then some { p with pc := .returned true } else none
  | .returned _ => none

/-! ## At most one message is sent at a time -/

theorem establish_sent {p p' : Receiver} {msg : Message} (step : p.establish msg = some p') :
    p'.c.sent = p.c.sent := by
  unfold establish at step
  split at step
  · cases step
    rfl
  split at step
  · obtain ⟨popped, -, step⟩ := Option.bind_eq_some_iff.mp step
    cases step
    rfl
  · cases step
    rfl

theorem step_extends {sha256_chunk : List UInt8 → Hash} {op : Operation} {unset : Unset}
    {p p' : Receiver} {choice : Choice} (step : p.step sha256_chunk op unset choice = some p') :
    Channel.Extends p.c.sent p'.c.sent := by
  unfold Receiver.step at step
  split at step
  case h_3 | h_7 | h_9 =>
    cases step
    exact p.c.post_extends _
  case h_5 =>
    split at step
    · cases step
      exact Or.inl rfl
    · have sent := establish_sent step
      exact Or.inl sent
  case h_8 =>
    split at step
    · cases step
      exact Or.inl rfl
    · cases step
      exact Or.inl rfl
    · obtain ⟨turn, -, rfl⟩ := Option.map_eq_some_iff.mp step
      exact p.c.after_extends turn
  case h_12 => cases step
  all_goals
    split at step <;> cases step <;> exact Or.inl rfl

end Receiver

end PingPong
