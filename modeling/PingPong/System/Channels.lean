import PingPong.Server.Invariant
import PingPong.System.Transfer

/-!
# The four directions of a transfer

Seen as the messages that one side's `send` accepted and the messages that the other side has taken,
each direction between a client and the server is a first-in first-out channel, as a connection is
(`Wire.refines_channel`): a step of the transfer adds at most one message, or takes the next one.
-/

namespace PingPong.Transfer

open Common Net

inductive Direction where
  | fromSender
  | fromReceiver
  | toSender
  | toReceiver

variable {κ : Type}

def channel (x : Transfer κ) (sys : State κ) : Direction → Channel Message
  | .fromSender => ⟨sys.sender.c.sent, sys.fromSender⟩
  | .fromReceiver => ⟨sys.receiver.c.sent, sys.fromReceiver⟩
  | .toSender => ⟨sys.server.sentTo x.s, sys.toSender⟩
  | .toReceiver => ⟨sys.server.sentTo x.r, sys.toReceiver⟩

/-- What has come out of each direction is a prefix of what was put in. -/
structure Delivered (x : Transfer κ) (sys : State κ) : Prop where
  fromSender : sys.fromSender <+: sys.sender.c.sent
  fromReceiver : sys.fromReceiver <+: sys.receiver.c.sent
  toSender : sys.toSender <+: sys.server.sentTo x.s
  toReceiver : sys.toReceiver <+: sys.server.sentTo x.r

variable [DecidableEq κ]

theorem process_handled {srv srv' : FileServer κ} {c : κ} {msg : Message}
    (h : process srv c msg = some srv') :
    (srv.conn c).m_validated ∧ FileServer.Handled srv c msg srv' := by
  unfold process at h
  split at h
  · rename_i validated
    exact ⟨validated, FileServer.onMessage_handled h⟩
  · cases h

/-- One step, with what it needs. -/
inductive Steps (x : Transfer κ) (sys : State κ) : Event κ → State κ → Prop
  | server (e : FileServer.Event κ) (server : FileServer κ) :
    x.permits e = true → sys.server.step e = some server →
    Steps x sys (.server e) { sys with server }
  | fromSender (msg : Message) (rest : List Message) (server : FileServer κ) :
    sys.sender.c.sent.drop sys.fromSender.length = msg :: rest →
    process sys.server x.s msg = some server →
    Steps x sys .fromSender { sys with server, fromSender := sys.fromSender ++ [msg] }
  | fromReceiver (msg : Message) (rest : List Message) (server : FileServer κ) :
    sys.receiver.c.sent.drop sys.fromReceiver.length = msg :: rest →
    process sys.server x.r msg = some server →
    Steps x sys .fromReceiver { sys with server, fromReceiver := sys.fromReceiver ++ [msg] }
  | toSender (msg : Message) (rest : List Message) :
    (sys.server.sentTo x.s).drop sys.toSender.length = msg :: rest →
    Steps x sys .toSender
      { sys with
        sender := { sys.sender with c := sys.sender.c.receive msg }
        toSender := sys.toSender ++ [msg] }
  | toReceiver (msg : Message) (rest : List Message) :
    (sys.server.sentTo x.r).drop sys.toReceiver.length = msg :: rest →
    Steps x sys .toReceiver
      { sys with
        receiver := { sys.receiver with c := sys.receiver.c.receive msg }
        toReceiver := sys.toReceiver ++ [msg] }
  | senderLink (e : FileClient.Event) (c : FileClient) : sys.sender.c.on e = some c →
    Steps x sys (.senderLink e) { sys with sender := { sys.sender with c } }
  | receiverLink (e : FileClient.Event) (c : FileClient) : sys.receiver.c.on e = some c →
    Steps x sys (.receiverLink e) { sys with receiver := { sys.receiver with c } }
  | sendRoutine (choice : Choice) (sender : Sender) : choice.disk = {} →
    sys.sender.step x.sha256_chunk x.upload x.phrase choice = some sender →
    Steps x sys (.sendRoutine choice) { sys with sender }
  | receiveRoutine (choice : Choice) (receiver : Receiver) : choice.disk = {} →
    sys.receiver.step x.sha256_chunk x.download x.unset choice = some receiver →
    Steps x sys (.receiveRoutine choice) { sys with receiver }

theorem step_steps {x : Transfer κ} {sys sys' : State κ} {e : Event κ}
    (step : x.step sys e = some sys') : Steps x sys e sys' := by
  cases e with
  | server e =>
      simp only [Transfer.step] at step
      split at step
      · rename_i permitted
        obtain ⟨server, stepped, rfl⟩ := Option.map_eq_some_iff.mp step
        exact .server e server permitted stepped
      · cases step
  | fromSender =>
      simp only [Transfer.step] at step
      split at step
      · cases step
      · rename_i msg rest next
        obtain ⟨server, processed, rfl⟩ := Option.map_eq_some_iff.mp step
        exact .fromSender msg rest server next processed
  | fromReceiver =>
      simp only [Transfer.step] at step
      split at step
      · cases step
      · rename_i msg rest next
        obtain ⟨server, processed, rfl⟩ := Option.map_eq_some_iff.mp step
        exact .fromReceiver msg rest server next processed
  | toSender =>
      simp only [Transfer.step] at step
      split at step
      · cases step
      · rename_i msg rest next
        cases step
        exact .toSender msg rest next
  | toReceiver =>
      simp only [Transfer.step] at step
      split at step
      · cases step
      · rename_i msg rest next
        cases step
        exact .toReceiver msg rest next
  | senderLink e =>
      obtain ⟨c, on, rfl⟩ := Option.map_eq_some_iff.mp step
      exact .senderLink e c on
  | receiverLink e =>
      obtain ⟨c, on, rfl⟩ := Option.map_eq_some_iff.mp step
      exact .receiverLink e c on
  | sendRoutine choice =>
      simp only [Transfer.step] at step
      split at step
      · rename_i readable
        obtain ⟨sender, stepped, rfl⟩ := Option.map_eq_some_iff.mp step
        exact .sendRoutine choice sender readable stepped
      · cases step
  | receiveRoutine choice =>
      simp only [Transfer.step] at step
      split at step
      · rename_i writable
        obtain ⟨receiver, stepped, rfl⟩ := Option.map_eq_some_iff.mp step
        exact .receiveRoutine choice receiver writable stepped
      · cases step

theorem step_moves {x : Transfer κ} {sys sys' : State κ} {e : Event κ}
    (step : x.step sys e = some sys') (d : Direction) :
    Channel.Moves (x.channel sys d) (x.channel sys' d) := by
  cases step_steps step with
  | server e server permitted stepped =>
      cases d with
      | fromSender => exact Or.inl rfl
      | fromReceiver => exact Or.inl rfl
      | toSender => exact (FileServer.step_extends stepped x.s).moves _
      | toReceiver => exact (FileServer.step_extends stepped x.r).moves _
  | fromSender msg rest server next processed =>
      have handled := (process_handled processed).2
      cases d with
      | fromSender => exact Channel.moves_of_next next
      | fromReceiver => exact Or.inl rfl
      | toSender => exact (handled.extends x.s).moves _
      | toReceiver => exact (handled.extends x.r).moves _
  | fromReceiver msg rest server next processed =>
      have handled := (process_handled processed).2
      cases d with
      | fromSender => exact Or.inl rfl
      | fromReceiver => exact Channel.moves_of_next next
      | toSender => exact (handled.extends x.s).moves _
      | toReceiver => exact (handled.extends x.r).moves _
  | toSender msg rest next =>
      cases d with
      | toSender => exact Channel.moves_of_next next
      | _ => exact Or.inl rfl
  | toReceiver msg rest next =>
      cases d with
      | toReceiver => exact Channel.moves_of_next next
      | _ => exact Or.inl rfl
  | senderLink e c on =>
      have kept : Channel.Extends sys.sender.c.sent c.sent := Or.inl (FileClient.on_fades on).sent
      cases d with
      | fromSender => exact kept.moves _
      | _ => exact Or.inl rfl
  | receiverLink e c on =>
      have kept : Channel.Extends sys.receiver.c.sent c.sent := Or.inl (FileClient.on_fades on).sent
      cases d with
      | fromReceiver => exact kept.moves _
      | _ => exact Or.inl rfl
  | sendRoutine choice sender readable stepped =>
      cases d with
      | fromSender => exact (Sender.step_extends stepped).moves _
      | _ => exact Or.inl rfl
  | receiveRoutine choice receiver writable stepped =>
      cases d with
      | fromReceiver => exact (Receiver.step_extends stepped).moves _
      | _ => exact Or.inl rfl

/-- **Each direction refines the channel.** -/
theorem refines_channel (x : Transfer κ) (d : Direction) :
    x.lts.Refines (Channel.lts Message) fun sys => x.channel sys d where
  start := by cases d <;> rfl
  step := fun _ _ _ _ step => step_moves step d

theorem Reachable.delivered {x : Transfer κ} {sys : State κ} (h : x.Reachable sys) :
    x.Delivered sys :=
  have delivered := fun d => Channel.Reachable.isPrefix ((refines_channel x d).reachable h)
  ⟨delivered .fromSender, delivered .fromReceiver, delivered .toSender, delivered .toReceiver⟩

end PingPong.Transfer
