import PingPong.Client.FileClient

/-!
# The sender

`sendRoutine` of `sender.cpp` as a machine: connect, wait for the handshake, announce the file under
a random phrase, wait for the server's `Accept`, run the session, and wait for `Success`.
-/

namespace PingPong

open Common Net

namespace Sender

inductive Pc where
  | connecting
  | validating
  | announcing
  | waiting
  | establishing
  | session
  | confirming
  | draining
  | returned (res : Bool)
deriving DecidableEq

end Sender

/-- The state of `sendRoutine`.  `chunksize` starts out indeterminate. -/
structure Sender where
  pc : Sender.Pc := .connecting
  c : FileClient := {}
  chunksize : UInt64
  session : ClientSenderSession := { m_file := [], m_max_chunk_size := 0 }

namespace Sender

/-- What `establishSession` announces; the size of the file name is narrowed to `uint8_t`. -/
def announcement (op : Operation) (phrase : List UInt8) : PreMetadata :=
  { payload_type := .File
    code_phrase := codePhrase phrase
    file_data :=
      { file_size := UInt64.ofNat op.file.length
        file_name_size := UInt8.ofNat op.filename.length
        file_name := op.filename } }

/-- The call of `startSession`. -/
def startSession (p : Sender) (op : Operation) : Sender :=
  { p with
    pc := .session
    session := { m_file := op.file, m_max_chunk_size := p.chunksize } }

/-- One message of the loop in `establishSession`. -/
def establish (p : Sender) (op : Operation) (msg : Message) : Option Sender :=
  if msg.header.id = .Reject then some { p with pc := .returned false }
  else if msg.header.id = .Accept then do
    let (post_metadata, _) ← decode .Accept msg
    some (startSession { p with chunksize := post_metadata.max_chunk_size } op)
  else some p

/-- One message of the loop in `waitForConfirmation`. -/
def confirm (p : Sender) (msg : Message) : Sender :=
  if msg.header.id = .Abort then { p with pc := .returned false }
  else if msg.header.id = .Success then { p with pc := .returned true }
  else p

/-- The sender without the message it has just popped. -/
def popped (p : Sender) (rest : List Message) : Sender :=
  { p with c := { p.c with m_messages_in := rest } }

def step (sha256_chunk : List UInt8 → Hash) (op : Operation) (phrase : List UInt8) (p : Sender)
    (choice : Choice) : Option Sender :=
  match p.pc with
  | .connecting =>
      if choice.connects then some { p with pc := .validating }
      else some { p with pc := .returned false }
  | .validating =>
      if p.c.isConnected && p.c.isValidated then some { p with pc := .announcing } else some p
  | .announcing =>
      -- `fs::file_size` throws where there is no file.
      if choice.disk.found then
        let sent := p.c.send (encode .Send (announcement op phrase))
        if sent.1 then some { p with pc := .waiting, c := sent.2 }
        else some { p with pc := .returned false, c := sent.2 }
      else some { p with pc := .returned false }
  | .waiting =>
      match p.c.m_messages_in with
      | [] => none
      | _ :: _ => some { p with pc := .establishing }
  | .establishing =>
      match p.c.m_messages_in with
      | [] => some (p.startSession op)
      | msg :: rest => (p.popped rest).establish op msg
  | .session =>
      match p.session.pc with
      | .returned true => some { p with pc := .confirming }
      | .returned false => some { p with pc := .returned false }
      | _ =>
          (p.session.step sha256_chunk p.c.m_messages_in (fun msg => (p.c.send msg).1)
            choice.disk).map fun turn => { p with c := p.c.after turn, session := turn.session }
  | .confirming =>
      if p.c.isConnected && p.c.m_messages_in.isEmpty then some p
      else some { p with pc := .draining }
  | .draining =>
      match p.c.m_messages_in with
      | [] => some { p with pc := .confirming }
      | msg :: rest => some ((p.popped rest).confirm msg)
  | .returned _ => none

/-! ## At most one message is sent at a time -/

theorem establish_sent {op : Operation} {p p' : Sender} {msg : Message}
    (step : p.establish op msg = some p') : p'.c.sent = p.c.sent := by
  unfold establish at step
  split at step
  · cases step
    rfl
  split at step
  · obtain ⟨popped, -, step⟩ := Option.bind_eq_some_iff.mp step
    cases step
    rfl
  · cases step
    rfl

theorem confirm_sent (p : Sender) (msg : Message) : (p.confirm msg).c.sent = p.c.sent := by
  unfold confirm
  split
  · rfl
  · split <;> rfl

theorem step_extends {sha256_chunk : List UInt8 → Hash} {op : Operation} {phrase : List UInt8}
    {p p' : Sender} {choice : Choice} (step : p.step sha256_chunk op phrase choice = some p') :
    Channel.Extends p.c.sent p'.c.sent := by
  unfold Sender.step at step
  split at step
  case h_3 =>
    dsimp only at step
    split at step
    · split at step <;> cases step <;> exact p.c.post_extends _
    · cases step
      exact Or.inl rfl
  case h_5 =>
    split at step
    · cases step
      exact Or.inl rfl
    · have sent := establish_sent step
      exact Or.inl sent
  case h_6 =>
    split at step
    · cases step
      exact Or.inl rfl
    · cases step
      exact Or.inl rfl
    · obtain ⟨turn, -, rfl⟩ := Option.map_eq_some_iff.mp step
      exact p.c.after_extends turn
  case h_8 =>
    split at step
    · cases step
      exact Or.inl rfl
    · cases step
      exact Or.inl (confirm_sent _ _)
  case h_9 => cases step
  all_goals
    split at step <;> cases step <;> exact Or.inl rfl

end Sender

end PingPong
