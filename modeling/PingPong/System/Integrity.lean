import PingPong.System.Channels
import PingPong.System.Traffic

/-!
# End-to-end integrity

`Inv` ties the parts of a transfer together: the invariants of the server's store, of its traffic
and of the two clients.  Its step uses that each of the four directions has delivered a prefix
(`Reachable.delivered`).  Around the circle: the receiver only writes pieces that were relayed to
it, the server only relays what the sender has sent, the sender only sends pieces once it has been
answered, and it is only answered once the receiver has asked.

`success_means_whole` is the result: `Success` is sent to the sender only after `mainLoop` has
returned true at the receiver with the whole file written.
-/

namespace PingPong.Transfer

open Common Net FileServer

variable {κ : Type}

/-- All that the sender sends when nothing goes wrong. -/
def sendings (x : Transfer κ) : List Message :=
  Sender.sendings x.sha256_chunk x.upload x.phrase m_max_chunk_size

def requests (x : Transfer κ) : List Message := Receiver.requests x.download x.unset

/-! ## The messages of the two clients conform -/

variable {x : Transfer κ}

theorem sendings_conform {msg : Message} (member : msg ∈ x.sendings) : Conforms x x.s msg := by
  have notReceiver : ∀ {P : Prop}, x.s = x.r → P := fun same => (x.distinct same).elim
  rcases List.mem_cons.mp member with rfl | data
  · refine ⟨fun _ => Or.inl (encode_id _ _), notReceiver,
      fun code carried => iff_of_true ?_ (Or.inl rfl)⟩
    have sized : (Sender.announcement x.upload x.phrase).code_phrase.Sized :=
      codePhrase_sized x.bounded
    obtain ⟨pre, rest, decoded, same⟩ := decode_send_code sized
    rw [carriedCode_of_send (encode_id _ _) decoded, same] at carried
    exact (Option.some.inj carried).symm
  · have kind : msg.header.id = .Chunk ∨ msg.header.id = .FinalChunk := by
      rcases List.mem_append.mp data with piece | final
      · obtain ⟨p, -, rfl⟩ := List.mem_map.mp piece
        exact Or.inl (chunkMessage_id _ p)
      · rw [List.mem_singleton.mp final]
        exact Or.inr rfl
    refine ⟨fun _ => Or.inr kind, notReceiver, fun code carried => ?_⟩
    unfold carriedCode requestedCode at carried
    rcases kind with kind | kind <;> rw [kind] at carried <;> cases carried

theorem requests_conform {msg : Message} (member : msg ∈ x.requests) : Conforms x x.r msg := by
  have notSender : ∀ {P : Prop}, x.r = x.s → P := fun same => (x.distinct same.symm).elim
  have sized : (codePhrase x.download.receival_code_phrase).Sized := codePhrase_sized x.bounded
  simp only [requests, Receiver.requests, List.mem_cons, List.not_mem_nil, or_false] at member
  rcases member with rfl | rfl | rfl
  · refine ⟨notSender, fun _ => Or.inl (encode_id _ _),
      fun code carried => iff_of_true ?_ (Or.inr rfl)⟩
    have sized : (Receiver.request x.download x.unset).code_phrase.Sized := sized
    obtain ⟨pre, rest, decoded, same⟩ := decode_request_code sized
    rw [carriedCode_of_request (encode_id _ _) decoded, same] at carried
    exact (Option.some.inj carried).symm
  · refine ⟨notSender, fun _ => Or.inr (Or.inl (encode_id _ _)),
      fun code carried => iff_of_true ?_ (Or.inr rfl)⟩
    have decoded := decode_encode (M := .Receive) fun msg _ => CodePhrase.roundTrips msg sized
    rw [carriedCode_of_receive (encode_id _ _) decoded] at carried
    exact (Option.some.inj carried).symm
  · refine ⟨notSender, fun _ => Or.inr (Or.inr (encode_id _ _)), fun code carried => ?_⟩
    cases carried

theorem requests_order {n : Nat} {msg : Message} (next : x.requests[n]? = some msg) :
    (msg.header.id = .Receive → n = 1) ∧ (msg.header.id = .FinishReceive → n = 2) := by
  unfold requests Receiver.requests at next
  rcases n with _ | _ | _ | n
  · cases next
    rw [encode_id]
    exact ⟨EMessageType.noConfusion, EMessageType.noConfusion⟩
  · cases next
    rw [encode_id]
    exact ⟨fun _ => rfl, EMessageType.noConfusion⟩
  · cases next
    rw [encode_id]
    exact ⟨EMessageType.noConfusion, fun _ => rfl⟩
  · cases next

/-! ## The invariant -/

structure Inv (x : Transfer κ) (sys : State κ) : Prop where
  store : StoreInv x sys.server
  traffic : Traffic x sys.server sys.fromSender sys.fromReceiver.length
  sender : Sender.Inv x.sha256_chunk x.upload x.phrase m_max_chunk_size sys.sender sys.toSender
  receiver : Receiver.Inv x.sha256_chunk x.download x.unset m_max_chunk_size x.file sys.receiver
    sys.toReceiver

theorem Inv.start : Inv x { sender := { chunksize := x.chunksize } } where
  store := .start
  traffic := .start
  sender := .start x.chunksize
  receiver := .start

section Circle

variable {sys : State κ}

/-- What has arrived at the sender are the answers it relies on. -/
theorem Inv.answers (h : Inv x sys) (delivered : x.Delivered sys) :
    Sender.Answers m_max_chunk_size sys.toSender := by
  obtain ⟨later, whole⟩ := delivered.toSender
  refine ⟨fun msg rest heq => ?_, fun msg member => ?_⟩
  · refine h.traffic.answers.first msg (rest ++ later) ?_
    rw [← whole, heq]
    rfl
  · exact h.traffic.answers.no_abort msg (delivered.toSender.subset member)

/-- The file messages that have arrived at the receiver are pieces of the file, in order. -/
theorem Inv.stream (h : Inv x sys) (delivered : x.Delivered sys) :
    fileMessages sys.toReceiver <+:
      ClientSenderSession.pieces x.sha256_chunk m_max_chunk_size x.file := by
  have arrived := (fileMessages_isPrefix delivered.toReceiver).trans h.traffic.stream
  have sent : sys.fromSender <+: x.sendings := delivered.fromSender.trans h.sender.sent_isPrefix
  exact arrived.trans (tail_isPrefix sent)

/-- None of the file arrives before the receiver has asked for it. -/
theorem Inv.early (h : Inv x sys) (delivered : x.Delivered sys)
    (few : sys.receiver.c.sent.length ≤ 1) : fileMessages sys.toReceiver = [] := by
  have processed := delivered.fromReceiver.length_le
  have none := (h.traffic.early (by omega)).files
  have arrived := fileMessages_isPrefix delivered.toReceiver
  rw [none] at arrived
  exact List.prefix_nil.mp arrived

/-- Before the receiver has asked for the file, the sender has sent at most its announcement. -/
theorem Inv.in_time (h : Inv x sys) (delivered : x.Delivered sys) {msg : Message}
    (next : sys.fromSender ++ [msg] <+: sys.sender.c.sent)
    (few : sys.fromReceiver.length ≤ 1) : sys.fromSender = [] := by
  by_contra announced
  have length := next.length_le
  have some_processed : 0 < sys.fromSender.length := List.length_pos_iff.mpr announced
  rw [List.length_append, List.length_singleton] at length
  have answered := h.sender.answered (by omega)
  have arrived := delivered.toSender
  rw [(h.traffic.early few).answers] at arrived
  exact answered (List.prefix_nil.mp arrived)

/-- Once the receiver reports success, the sender has been answered. -/
theorem Inv.sender_answered (h : Inv x sys) (delivered : x.Delivered sys)
    (all : 3 ≤ sys.receiver.c.sent.length) : sys.server.sentTo x.s ≠ [] := by
  have arrived := (h.receiver.rebuilt all).whole.arrived
  have relayed := (fileMessages_isPrefix delivered.toReceiver).trans h.traffic.stream
  have many : 2 ≤ sys.fromSender.length := by
    by_contra few
    have tail : sys.fromSender.tail = [] :=
      List.length_eq_zero_iff.mp (by rw [List.length_tail]; omega)
    rw [tail] at relayed
    exact arrived (List.prefix_nil.mp relayed)
  have sent := delivered.fromSender.length_le
  intro none
  have answered := delivered.toSender
  rw [none] at answered
  exact h.sender.answered (by omega) (List.prefix_nil.mp answered)

end Circle

/-! ## Steps of the server -/

variable [DecidableEq κ]

/-- Replacing a connection by one with the same history. -/
theorem withConn_aside {srv : FileServer κ} {c : κ} {l : Link EMessageType}
    (sent : l.sent = srv.sentTo c)
    (validated : (srv.conn c).m_validated → l.m_validated)
    (connected : l.m_socket ≠ .absent)
    (closed : (srv.conn c).m_socket = .closed → l.m_socket = .closed) :
    Aside x srv (srv.withConn c l) := by
  have same : ∀ d, (srv.withConn c l).sentTo d = srv.sentTo d :=
    (withConn_onlyConnects sent).sent
  have conn : (srv.withConn c l).conn x.r = if x.r = c then l else srv.conn x.r := by
    change Function.update srv.conn c l x.r = _
    rw [Function.update_apply]
  refine ⟨same x.s, congrArg fileMessages (same x.r), fun _ => id, fun _ => id, ?_, ?_, ?_⟩
  · rw [conn]
    split
    · rename_i here
      rw [here]
      exact validated
    · exact id
  · rw [conn]
    split
    · exact fun _ _ => connected
    · exact id
  · rw [conn]
    split
    · rename_i here
      rw [here]
      exact closed
    · exact id

/-- A step of the server with another connection. -/
theorem Inv.server_step {sys : State κ} {server : FileServer κ} {e : FileServer.Event κ}
    (h : Inv x sys) (permitted : x.permits e) (step : sys.server.step e = some server) :
    Inv x { sys with server } := by
  have result : StoreInv x server ∧ Aside x sys.server server := by
    have connects : ∀ {c : κ} {l : Link EMessageType}, l.sent = sys.server.sentTo c →
        ((sys.server.conn c).m_validated → l.m_validated) → l.m_socket ≠ .absent →
        ((sys.server.conn c).m_socket = .closed → l.m_socket = .closed) →
        StoreInv x (sys.server.withConn c l) ∧
          Aside x sys.server (sys.server.withConn c l) :=
      fun sent validated connected closed =>
        ⟨h.store.congr rfl, withConn_aside sent validated connected closed⟩
    cases e with
    | accept c =>
        simp only [FileServer.step] at step
        split at step
        · rename_i absent
          cases step
          refine connects rfl id Socket.noConfusion fun closed => ?_
          rw [absent] at closed
          cases closed
        · cases step
    | validate c =>
        simp only [FileServer.step] at step
        split at step
        · rename_i connected
          cases step
          exact connects rfl (fun _ => rfl) connected id
        · cases step
    | close c =>
        simp only [FileServer.step] at step
        split at step
        · cases step
          exact connects rfl id Socket.noConfusion fun _ => rfl
        · cases step
    | message c msg =>
        have conforms := conforms_of_permits permitted
        have handled := onMessage_handled (step_message step).2
        refine ⟨h.store.handled conforms handled, ?_⟩
        simp only [permits, Bool.and_eq_true, decide_eq_true_eq] at permitted
        obtain ⟨⟨notSender, notReceiver⟩, -⟩ := permitted
        cases h.store.outcome conforms handled with
        | aside aside => exact aside
        | relayed session same => exact (notSender same).elim
        | opened context same => exact (notReceiver same).elim
        | finished same => exact (notReceiver same).elim
  obtain ⟨store, aside⟩ := result
  exact ⟨store, h.traffic.aside aside, h.sender, h.receiver⟩

theorem Inv.from_sender {sys : State κ} {server : FileServer κ} {msg : Message} (h : Inv x sys)
    (delivered : x.Delivered sys) (next : sys.fromSender ++ [msg] <+: sys.sender.c.sent)
    (step : process sys.server x.s msg = some server) :
    Inv x { sys with server, fromSender := sys.fromSender ++ [msg] } := by
  obtain ⟨-, handled⟩ := process_handled step
  have sent : sys.fromSender ++ [msg] <+: x.sendings := next.trans h.sender.sent_isPrefix
  have conforms := sendings_conform (sent.subset (List.mem_append_right _ List.mem_cons_self))
  have announcement : sys.fromSender = [] → msg.header.id = .Send := by
    intro first
    rw [first] at sent
    obtain ⟨rest, heq⟩ := sent
    obtain ⟨rfl, -⟩ := List.cons.inj heq
    exact encode_id _ _
  exact
    { store := h.store.handled conforms handled
      traffic := h.traffic.from_sender (h.store.outcome conforms handled) (h.in_time delivered next)
        announcement
      sender := h.sender
      receiver := h.receiver }

theorem Inv.from_receiver {sys : State κ} {server : FileServer κ} {msg : Message}
    (h : Inv x sys) (delivered : x.Delivered sys)
    (next : sys.fromReceiver ++ [msg] <+: sys.receiver.c.sent)
    (step : process sys.server x.r msg = some server) :
    Inv x { sys with server, fromReceiver := sys.fromReceiver ++ [msg] } := by
  obtain ⟨validated, handled⟩ := process_handled step
  have sent : sys.fromReceiver ++ [msg] <+: x.requests := next.trans h.receiver.sent_isPrefix
  have conforms := requests_conform (sent.subset (List.mem_append_right _ List.mem_cons_self))
  obtain ⟨second, third⟩ := requests_order (Channel.getElem?_of_snoc_isPrefix sent)
  have traffic := h.traffic.from_receiver (h.store.outcome conforms handled) validated second
    fun kind => by
      have length := next.length_le
      rw [List.length_append, List.length_singleton, third kind] at length
      exact ⟨third kind, h.sender_answered delivered length⟩
  refine ⟨h.store.handled conforms handled, ?_, h.sender, h.receiver⟩
  change Traffic x server sys.fromSender (sys.fromReceiver ++ [msg]).length
  rw [List.length_append]
  exact traffic

/-- **One step of a transfer.** -/
theorem Inv.step {sys sys' : State κ} {e : Event κ} (h : Inv x sys) (delivered : x.Delivered sys)
    (step : x.step sys e = some sys') : Inv x sys' := by
  have positive : 0 < m_max_chunk_size.toNat := by decide
  cases step_steps step with
  | server e server permitted stepped => exact h.server_step permitted stepped
  | fromSender msg rest server next processed =>
      have ready := Channel.isPrefix_of_next delivered.fromSender next
      exact h.from_sender delivered ready processed
  | fromReceiver msg rest server next processed =>
      have ready := Channel.isPrefix_of_next delivered.fromReceiver next
      exact h.from_receiver delivered ready processed
  | toSender msg rest next => exact { h with sender := h.sender.arrive msg }
  | toReceiver msg rest next => exact { h with receiver := h.receiver.arrive msg }
  | senderLink e c on => exact { h with sender := h.sender.fade (FileClient.on_fades on) }
  | receiverLink e c on => exact { h with receiver := h.receiver.fade (FileClient.on_fades on) }
  | sendRoutine choice sender readable stepped =>
      have sender := h.sender.step positive (h.answers delivered) readable stepped
      exact { h with sender }
  | receiveRoutine choice receiver writable stepped =>
      have receiver :=
        h.receiver.step positive (h.early delivered) (h.stream delivered) writable stepped
      exact { h with receiver }

theorem Reachable.inv {sys : State κ} (h : x.Reachable sys) : Inv x sys :=
  Lts.Reachable.induct (M := x.lts) (P := Inv x) .start
    (fun _ _ _ reached inv step => inv.step (Reachable.delivered reached) step) h

/-- **End-to-end integrity.**  Once the server has sent `Success` to the sender, `mainLoop` has
returned true at the receiver, and what it has written is the file. -/
theorem success_means_whole (x : Transfer κ) {sys : State κ} (reachable : x.Reachable sys)
    (success : ∃ msg ∈ sys.server.sentTo x.s, msg.header.id = .Success) :
    sys.receiver.session.pc = .returned true ∧ sys.receiver.session.ofs.written = x.file := by
  have inv := reachable.inv
  obtain ⟨msg, member, kind⟩ := success
  have reported := inv.traffic.success msg member kind
  have sent := reachable.delivered.fromReceiver.length_le
  have done := inv.receiver.rebuilt (by omega)
  exact ⟨done.returned, done.whole.written⟩

/-- Client 0 sends a file of two bytes to client 1, while client 2 announces another one. -/
def twoBytes : Transfer Nat where
  s := 0
  r := 1
  distinct := by decide
  phrase := [7]
  bounded := by decide
  filename := [8]
  file := [1, 2]
  chunksize := 0
  unset := ⟨5, 3⟩
  sha256_chunk := fun data => Vector.ofFn fun i : Fin 32 => data.getD i 9

def twoBytesEvents : List (Event Nat) :=
  List.flatten [
    [.server (.accept 0), .server (.validate 0), .server (.accept 1), .server (.validate 1),
      .server (.accept 2), .server (.validate 2), .senderLink .opened, .senderLink .validated,
      .receiverLink .opened, .receiverLink .validated],
    -- The sender announces its file, and the receiver asks for it.
    List.replicate 3 (.sendRoutine {}), [.fromSender],
    List.replicate 3 (.receiveRoutine {}), [.fromReceiver, .toReceiver],
    [.server (.message 2 ⟨encode .Send ⟨.File, ⟨1, [6]⟩, ⟨3, 1, [8]⟩⟩, by decide⟩)],
    -- The user accepts, and the session is opened.
    List.replicate 4 (.receiveRoutine {}), [.fromReceiver, .toSender],
    -- One chunk and `FinalChunk` are relayed.
    List.replicate 8 (.sendRoutine {}), [.fromSender, .fromSender, .toReceiver, .toReceiver],
    List.replicate 7 (.receiveRoutine {}), [.fromReceiver]]

def twoBytesSent : State Nat := (twoBytes.lts.run twoBytesEvents).get (by decide +kernel)

theorem success_means_whole_twoBytes :
    twoBytesSent.receiver.session.pc = .returned true ∧
      twoBytesSent.receiver.session.ofs.written = [1, 2] :=
  success_means_whole twoBytes ⟨twoBytesEvents, (Option.some_get _).symm⟩ (by decide +kernel)

end PingPong.Transfer
