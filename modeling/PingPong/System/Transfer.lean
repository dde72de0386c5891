import PingPong.Client.Receiver
import PingPong.Client.Sender
import PingPong.Server.DeadSenders

/-!
# A transfer between two clients

`Transfer.lts` puts the parts together: the file server among any number of connections, a client
that follows `sendRoutine` on the connection `s`, and one that follows `receiveRoutine` with the
same phrase on the connection `r`.  The other connections are not modelled as programs: whatever
they send may be processed at any time, as long as it does not carry the phrase.

Between a client and the server, each direction is a first-in first-out channel of which only a
prefix may ever come out, which is what `Wire.delivery` shows of two connections; the lists of a
`Transfer.State` record what has come out.  Sockets may close at any time, on either side.
-/

namespace PingPong

open Common Net

/-- The code phrase that a message carries, in any of the payloads that have one. -/
def carriedCode (msg : Message) : Option (List UInt8) :=
  match msg.header.id with
  | .Send => (decode .Send msg).map fun popped => popped.1.code_phrase.code
  | _ => FileServer.requestedCode msg

/-- What is fixed during a transfer.  `chunksize` and `unset` are the indeterminate values that the
clients' uninitialised variables start with. -/
structure Transfer (κ : Type) where
  s : κ
  r : κ
  distinct : s ≠ r
  phrase : List UInt8
  bounded : phrase.length ≤ 255
  filename : List UInt8
  file : List UInt8
  chunksize : UInt64
  unset : Receiver.Unset
  sha256_chunk : List UInt8 → Hash

namespace Transfer

variable {κ : Type}

/-- The sender's operation. -/
def upload (x : Transfer κ) : Operation := { filename := x.filename, file := x.file }

/-- The receiver's operation. -/
def download (x : Transfer κ) : Operation := { receival_code_phrase := x.phrase }

structure State (κ : Type) where
  server : FileServer κ := {}
  sender : Sender
  receiver : Receiver := {}
  /-- The messages of the sender that the server has processed. -/
  fromSender : List Message := []
  fromReceiver : List Message := []
  /-- The messages of the server that have arrived at the sender. -/
  toSender : List Message := []
  toReceiver : List Message := []

inductive Event (κ : Type) where
  | server (e : FileServer.Event κ)
  | fromSender
  | fromReceiver
  | toSender
  | toReceiver
  | senderLink (e : FileClient.Event)
  | receiverLink (e : FileClient.Event)
  | sendRoutine (choice : Choice)
  | receiveRoutine (choice : Choice)

variable [DecidableEq κ]

/-- The two clients only send through their routines, and nobody else sends the phrase. -/
def permits (x : Transfer κ) : FileServer.Event κ → Bool
  | .message c msg => c ≠ x.s && c ≠ x.r && carriedCode msg.1 ≠ some x.phrase
  | _ => true

/-- The server takes a message of a validated client off its queue. -/
def process (srv : FileServer κ) (c : κ) (msg : Message) : Option (FileServer κ) :=
  if (srv.conn c).m_validated then srv.onMessage c msg else none

/-- The files of both clients can be read and written. -/
def step (x : Transfer κ) (sys : State κ) : Event κ → Option (State κ)
  | .server e =>
      if x.permits e then (sys.server.step e).map fun server => { sys with server } else none
  | .fromSender =>
      match sys.sender.c.sent.drop sys.fromSender.length with
      | [] => none
      | msg :: _ =>
          (process sys.server x.s msg).map fun server =>
            { sys with server, fromSender := sys.fromSender ++ [msg] }
  | .fromReceiver =>
      match sys.receiver.c.sent.drop sys.fromReceiver.length with
      | [] => none
      | msg :: _ =>
          (process sys.server x.r msg).map fun server =>
            { sys with server, fromReceiver := sys.fromReceiver ++ [msg] }
  | .toSender =>
      match (sys.server.sentTo x.s).drop sys.toSender.length with
      | [] => none
      | msg :: _ =>
          some { sys with
            sender := { sys.sender with c := sys.sender.c.receive msg }
            toSender := sys.toSender ++ [msg] }
  | .toReceiver =>
      match (sys.server.sentTo x.r).drop sys.toReceiver.length with
      | [] => none
      | msg :: _ =>
          some { sys with
            receiver := { sys.receiver with c := sys.receiver.c.receive msg }
            toReceiver := sys.toReceiver ++ [msg] }
  | .senderLink e =>
      (sys.sender.c.on e).map fun c => { sys with sender := { sys.sender with c } }
  | .receiverLink e =>
      (sys.receiver.c.on e).map fun c => { sys with receiver := { sys.receiver with c } }
  | .sendRoutine choice =>
      if choice.disk = {} then
        (sys.sender.step x.sha256_chunk x.upload x.phrase choice).map fun sender =>
          { sys with sender }
      else none
  | .receiveRoutine choice =>
      if choice.disk = {} then
        (sys.receiver.step x.sha256_chunk x.download x.unset choice).map fun receiver =>
          { sys with receiver }
      else none

def lts (x : Transfer κ) : Lts (State κ) (Event κ) :=
  ⟨{ sender := { chunksize := x.chunksize } }, x.step⟩

abbrev Reachable (x : Transfer κ) (sys : State κ) : Prop := x.lts.Reachable sys

end Transfer

end PingPong
