import PingPong.Lib.Lts
import PingPong.Net.Link
import PingPong.Server.ClientStorage

/-!
# The file server

`FileServer` of `server.cpp`: the store, the connections it sends on, and one function for each
handler.  A handler is a state transformer; those that decode a client's message have no outcome
where a fixed-width read does not fit in the body.

`FileServer.lts` is the server among its connections.  A connection is accepted, may be validated,
and may close at any point after that, on any error or on the server's own request; once validated
its messages may be processed at any time, those already queued when it closes included.
`FileServer.Handled` lists everything that processing a message can do.
-/

namespace PingPong

open Common Net

structure FileServer (κ : Type) where
  m_storage : ClientStorage κ := {}
  conn : κ → Link EMessageType := fun _ => {}

/-- The default of the member `m_max_chunk_size`, which nothing assigns. -/
def m_max_chunk_size : UInt64 := 512

namespace FileServer

variable {κ : Type} [DecidableEq κ]

/-! ## Effects on the connections -/

/-- `connection->send(msg)`. -/
def send (srv : FileServer κ) (connection : κ) (msg : Message) : Bool × FileServer κ :=
  let sent := (srv.conn connection).send msg
  (sent.1, { srv with conn := Function.update srv.conn connection sent.2 })

/-- `connection->send(msg)` with its result ignored. -/
abbrev post (srv : FileServer κ) (connection : κ) (msg : Message) : FileServer κ :=
  (srv.send connection msg).2

/-- `ClientStorage::removeSession`. -/
def removeSession (srv : FileServer κ) (sender : κ) : FileServer κ :=
  { m_storage := srv.m_storage.eraseSession sender
    conn := Function.update srv.conn sender (srv.conn sender).disconnectAfterFlush }

def removePendingSender (srv : FileServer κ) (sender : κ) : FileServer κ :=
  { srv with m_storage := srv.m_storage.removePendingSender sender }

/-! ## Handlers -/

/-- `ServerOneToOneRetranslatorSession::onMessage`. -/
def relay (srv : FileServer κ) (session : ServerOneToOneRetranslatorSession κ) (msg : Message) :
    Bool × FileServer κ :=
  if msg.header.id = .Chunk ∨ msg.header.id = .FinalChunk ∨ msg.header.id = .Abort then
    srv.send session.m_sink msg
  else (false, srv)

/-- `onClientDisconnect`, which only `messageClient` and `messageAllClients` call. -/
def onClientDisconnect (srv : FileServer κ) (client : κ) : FileServer κ :=
  (srv.removeSession client).removePendingSender client

def onSendEstablishment (srv : FileServer κ) (client : κ) (msg : Message) :
    Option (FileServer κ) := do
  let srv := srv.removePendingSender client
  let (pre, _) ← decode .Send msg
  let srv :=
    match srv.m_storage.getSessionBySender client with
    | some _ =>
        ((srv.post client (encode .Reject {})).removeSession client).removePendingSender client
    | none => srv
  some { srv with m_storage := srv.m_storage.addPendingSender client m_max_chunk_size pre }

def onReceiveEstablishment (srv : FileServer κ) (client : κ) (msg : Message) :
    Option (FileServer κ) := do
  let (request, _) ← decode .RequestReceive msg
  match srv.m_storage.getSenderByCode request.code_phrase.code with
  | none => some (srv.post client (encode .Reject {}))
  | some sender =>
      match srv.m_storage.getContextBySender sender with
      | none => some (srv.post client (encode .Reject {}))
      | some context => some (srv.post client (encode .Accept context.post_metadata))

def removeSessionAbruptly (srv : FileServer κ) (client : κ) : FileServer κ :=
  let srv :=
    match srv.m_storage.getSessionBySender client with
    | some session => (srv.relay session (encode .Abort {})).2
    | none => srv
  (srv.removePendingSender client).removeSession client

def establishTransmissionSession (srv : FileServer κ) (receiver : κ) (msg : Message) :
    Option (FileServer κ) := do
  let (request, _) ← decode .Receive msg
  match srv.m_storage.getSenderByCode request.code with
  | none => some (srv.post receiver (encode .Abort {}))
  | some sender =>
      match srv.m_storage.getContextBySender sender with
      | none => some (srv.removeSessionAbruptly sender)
      | some context =>
          let session :=
            { file_size := context.pre_metadata.file_data.file_size
              max_chunk_size := m_max_chunk_size.toUInt32
              m_sink := receiver }
          let srv := { srv with m_storage := srv.m_storage.addSession sender receiver session }
          some (srv.post sender (encode .Accept context.post_metadata))

def finishSession (srv : FileServer κ) (receiver : κ) : FileServer κ :=
  match srv.m_storage.getSenderByReceiver receiver with
  | some sender =>
      ((srv.post sender (encode .Success {})).removePendingSender sender).removeSession sender
  | none => srv

/-- `msg.size() - offset > m_max_chunk_size`, an unsigned subtraction that wraps for a body shorter
than a hash. -/
def exceedsChunkSize (msg : Message) : Bool :=
  m_max_chunk_size < UInt64.ofNat msg.size - UInt64.ofNat SHA256_DIGEST_LENGTH

def onSessionedMessage (srv : FileServer κ) (client : κ)
    (session : ServerOneToOneRetranslatorSession κ) (msg : Message) : FileServer κ :=
  if msg.header.id = .FinalChunk then (srv.relay session msg).2
  else if msg.header.id = .Chunk then
    if exceedsChunkSize msg then srv.removeSessionAbruptly client
    else
      let relayed := srv.relay session msg
      if relayed.1 then relayed.2 else relayed.2.removeSessionAbruptly client
  else srv.removeSessionAbruptly client

def onMessage (srv : FileServer κ) (client : κ) (msg : Message) : Option (FileServer κ) :=
  match srv.m_storage.getSessionBySender client with
  | some session => some (srv.onSessionedMessage client session msg)
  | none =>
      if msg.header.id = .Send then srv.onSendEstablishment client msg
      else if msg.header.id = .RequestReceive then srv.onReceiveEstablishment client msg
      else if msg.header.id = .Receive then srv.establishTransmissionSession client msg
      else if msg.header.id = .FinishReceive then some (srv.finishSession client)
      else if msg.header.id = .FailedReceive then
        match srv.m_storage.getSenderByReceiver client with
        | some sender => some (srv.removeSessionAbruptly sender)
        | none => some srv
      else some srv

/-! ## Runs -/

/-- A message as `readHeader` and `readBody` put it together. -/
abbrev WireMessage : Type := { msg : Message // msg.Framed }

inductive Event (κ : Type) where
  | accept (c : κ)
  | validate (c : κ)
  | close (c : κ)
  | message (c : κ) (msg : WireMessage)

/-- Replace the state of one connection. -/
def withConn (srv : FileServer κ) (c : κ) (l : Link EMessageType) : FileServer κ :=
  { srv with conn := Function.update srv.conn c l }

def step (srv : FileServer κ) : Event κ → Option (FileServer κ)
  | .accept c =>
      if (srv.conn c).m_socket = .absent then
        some (srv.withConn c { srv.conn c with m_socket := .opened })
      else none
  | .validate c =>
      if (srv.conn c).m_socket ≠ .absent then
        some (srv.withConn c { srv.conn c with m_validated := true })
      else none
  | .close c =>
      if (srv.conn c).m_socket ≠ .absent then
        some (srv.withConn c { srv.conn c with m_socket := .closed })
      else none
  | .message c msg => if (srv.conn c).m_validated then srv.onMessage c msg.1 else none

def lts (κ : Type) [DecidableEq κ] : Lts (FileServer κ) (Event κ) := ⟨{}, step⟩

abbrev Reachable (srv : FileServer κ) : Prop := (lts κ).Reachable srv

end FileServer

end PingPong
