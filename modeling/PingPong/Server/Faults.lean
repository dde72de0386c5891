import PingPong.Common.RoundTrip
import PingPong.Server.Handled

/-!
# Messages that fault the server

Only `Send`, `RequestReceive` and `Receive` are decoded, and only for a client without a session.
The fixed-width reads of `Message::operator>>` do not look at the body size, so a short body makes
`body.size() - sizeof(DataType)` underflow; the container reads next to them clamp.
`DecodesInBounds` is the exact condition under which `onMessage` completes.
-/

namespace PingPong

open Common Net

namespace FileServer

variable {κ : Type} [DecidableEq κ]

/-- Either the client has a session, and nothing is decoded, or the body is long enough for the
payload that the message type announces. -/
def DecodesInBounds (srv : FileServer κ) (client : κ) (msg : Message) : Prop :=
  srv.m_storage.m_sessions client = none →
    ((msg.header.id = .Send ∨ msg.header.id = .RequestReceive) → PreMetadata.Fits msg.body) ∧
    (msg.header.id = .Receive → CodePhrase.Fits msg.body)

theorem decode_isSome_iff {M : EMessageType} [Streamed (Payload M)] (msg : Message) :
    (decode M msg).isSome ↔ ((Streamed.pops : ByteStack.Pop (Payload M)).run msg.body).isSome := by
  unfold decode
  rw [← Message.pop_run, Option.isSome_map]

theorem onSendEstablishment_isSome {srv : FileServer κ} {client : κ} {msg : Message} :
    (srv.onSendEstablishment client msg).isSome ↔ PreMetadata.Fits msg.body := by
  rw [← PreMetadata.isSome_iff, ← decode_isSome_iff (M := .Send)]
  unfold onSendEstablishment
  cases decode .Send msg with
  | none => simp
  | some decoded => simp

theorem onReceiveEstablishment_isSome {srv : FileServer κ} {client : κ} {msg : Message} :
    (srv.onReceiveEstablishment client msg).isSome ↔ PreMetadata.Fits msg.body := by
  rw [← PreMetadata.isSome_iff, ← decode_isSome_iff (M := .RequestReceive)]
  unfold onReceiveEstablishment
  cases decode .RequestReceive msg with
  | none => simp
  | some decoded =>
      simp only [Option.bind_eq_bind, Option.bind_some, Option.isSome_some, iff_true]
      split
      · rfl
      · split <;> rfl

theorem establishTransmissionSession_isSome {srv : FileServer κ} {client : κ} {msg : Message} :
    (srv.establishTransmissionSession client msg).isSome ↔ CodePhrase.Fits msg.body := by
  rw [← CodePhrase.isSome_iff, ← decode_isSome_iff (M := .Receive)]
  unfold establishTransmissionSession
  cases decode .Receive msg with
  | none => simp
  | some decoded =>
      simp only [Option.bind_eq_bind, Option.bind_some, Option.isSome_some, iff_true]
      split
      · rfl
      · split <;> rfl

/-- **When a message does not fault the server.** -/
theorem onMessage_isSome_iff (srv : FileServer κ) (client : κ) (msg : Message) :
    (srv.onMessage client msg).isSome ↔ DecodesInBounds srv client msg := by
  unfold onMessage DecodesInBounds
  cases found : srv.m_storage.m_sessions client with
  | some session => simp [ClientStorage.getSessionBySender, found]
  | none =>
      simp only [ClientStorage.getSessionBySender, found, true_implies]
      split
      · rename_i kind
        rw [onSendEstablishment_isSome]
        simp [kind]
      split
      · rename_i kind
        rw [onReceiveEstablishment_isSome]
        simp [kind]
      split
      · rename_i kind
        rw [establishTransmissionSession_isSome]
        simp [kind]
      rename_i notSend notRequest notReceive
      simp only [notSend, notRequest, notReceive, or_self, false_implies, and_self, iff_true]
      split
      · rfl
      split
      · split <;> rfl
      · rfl

/-- A validated connection that sends a `Send` with an empty body. -/
theorem onMessage_faults_on_empty_send :
    ¬ ∀ (srv : FileServer Nat) (client : Nat) (msg : WireMessage),
      Reachable srv → (srv.conn client).m_validated → (srv.onMessage client msg.1).isSome := by
  intro never
  let srv : FileServer Nat :=
    { conn := Function.update (Function.update (fun _ => {}) 0 { m_socket := .opened }) 0
        { m_socket := .opened, m_validated := true } }
  have reachable : Reachable srv := ⟨[.accept 0, .validate 0], rfl⟩
  have completes := never srv 0 ⟨⟨⟨.Send, 0⟩, []⟩, rfl⟩ reachable rfl
  exact absurd completes (by decide)

end FileServer

end PingPong
