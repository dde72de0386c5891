import PingPong.Client.Calm
import PingPong.Client.Progress
import PingPong.Server.Directory
import PingPong.Server.Reports
import PingPong.System.Integrity

/-!
# The server in a transfer that nobody disturbs

While the sockets are open and the receiver asks for the file after the server has got to know of
it, what the server stores for the sender and what it has sent to both clients is a function of what
it has processed: the messages `up` of the sender, and the first `asked` of the three requests of
the receiver (`ServerAt`).  Whatever others do leaves it as it is (`Bystands`).
-/

namespace PingPong

open Common Net

/-! ## Connections that are not closed -/

namespace Net.Link

variable {T : Type}

structure Fine (l : Link T) : Prop where
  unclosed : l.m_socket ≠ .closed
  opened : l.m_validated → l.m_socket = .opened

/-- What is left to happen before the connection accepts messages. -/
def toGo (l : Link T) : Nat :=
  (if l.m_socket = .absent then 1 else 0) + if l.m_validated then 0 else 1

/-- Something happens to the connection, the close of the socket if `closing`. -/
structure Heads (closing : Prop) (l l' : Link T) : Prop where
  fine : ¬ closing → l.Fine → l'.Fine
  validated : l.m_validated → l'.m_validated
  toGo : l'.toGo ≤ l.toGo

theorem Fine.start : ({} : Link T).Fine := ⟨Socket.noConfusion, fun validated => by cases validated⟩

theorem Fine.accepts {l : Link T} (h : l.Fine) (validated : l.m_validated) : l.accepts = true := by
  rw [Link.accepts, validated, Link.isConnected, h.opened validated]
  rfl

theorem toGo_opening {l : Link T} (absent : l.m_socket = .absent) :
    ({ l with m_socket := .opened } : Link T).toGo < l.toGo := by
  unfold Link.toGo
  rw [if_neg Socket.noConfusion, if_pos absent, Nat.zero_add, Nat.add_comm]
  exact Nat.lt_succ_self _

theorem toGo_validating {l : Link T} (unvalidated : l.m_validated = false) :
    ({ l with m_validated := true } : Link T).toGo < l.toGo := by
  unfold Link.toGo
  rw [if_pos rfl, unvalidated]
  exact Nat.lt_succ_self _

theorem Heads.of_same {l l' : Link T} (closing : Prop) (validated : l'.m_validated = l.m_validated)
    (socket : l'.m_socket = l.m_socket) : Heads closing l l' := by
  refine ⟨fun _ fine => ⟨?_, ?_⟩, ?_, ?_⟩
  · rw [socket]
    exact fine.unclosed
  · rw [validated, socket]
    exact fine.opened
  · rw [validated]
    exact id
  · unfold Link.toGo
    rw [validated, socket]

theorem Sends.heads {l l' : Link T} (h : l.Sends l') : Heads False l l' :=
  .of_same False h.validated h.socket

theorem Heads.opening (l : Link T) (closing : Prop) :
    Heads closing l { l with m_socket := .opened } := by
  refine ⟨fun _ _ => ⟨Socket.noConfusion, fun _ => rfl⟩, id, ?_⟩
  unfold Link.toGo
  rw [if_neg Socket.noConfusion]
  exact Nat.add_le_add_right (Nat.zero_le _) _

theorem Heads.validating {l : Link T} (closing : Prop) (connected : l.m_socket ≠ .absent) :
    Heads closing l { l with m_validated := true } := by
  refine ⟨fun _ fine => ⟨fine.unclosed, fun _ => ?_⟩, fun _ => rfl, ?_⟩
  · change l.m_socket = .opened
    cases socket : l.m_socket with
    | absent => exact (connected socket).elim
    | opened => rfl
    | closed => exact (fine.unclosed socket).elim
  · unfold Link.toGo
    rw [if_pos rfl]
    exact Nat.add_le_add_left (Nat.zero_le _) _

theorem Heads.closing {l : Link T} {closing : Prop} (closes : closing) :
    Heads closing l { l with m_socket := .closed } := by
  refine ⟨fun stays => (stays closes).elim, id, ?_⟩
  unfold Link.toGo
  rw [if_neg Socket.noConfusion]
  exact Nat.add_le_add_right (Nat.zero_le _) _

end Net.Link

theorem FileClient.on_heads {c c' : FileClient} {e : FileClient.Event} (h : c.on e = some c') :
    Link.Heads (e = .closed) c.m_connection c'.m_connection := by
  cases e with
  | opened =>
      simp only [FileClient.on] at h
      split at h <;> cases h
      exact .opening _ _
  | validated =>
      simp only [FileClient.on] at h
      split at h <;> cases h
      rename_i connected
      exact .validating _ connected
  | closed =>
      simp only [FileClient.on] at h
      split at h <;> cases h
      exact .closing rfl

/-- A connection that is not closed can still come to accept messages. -/
theorem FileClient.on_enabled {c : FileClient} (fine : c.m_connection.Fine)
    (unready : c.isConnected = false ∨ c.isValidated = false) :
    ∃ e c', c.on e = some c' ∧ e ≠ .closed ∧ c'.m_connection.toGo < c.m_connection.toGo := by
  cases socket : c.m_connection.m_socket with
  | absent =>
      exact ⟨.opened, _, if_pos socket, FileClient.Event.noConfusion, Link.toGo_opening socket⟩
  | closed => exact (fine.unclosed socket).elim
  | opened =>
      have connected : c.isConnected = true := decide_eq_true socket
      have unvalidated : c.isValidated = false := by
        rcases unready with disconnected | unvalidated
        · cases connected.symm.trans disconnected
        · exact unvalidated
      have present : c.m_connection.m_socket ≠ .absent := by
        rw [socket]
        exact Socket.noConfusion
      exact ⟨.validated, _, if_pos present, FileClient.Event.noConfusion,
        Link.toGo_validating unvalidated⟩

namespace FileServer

variable {κ : Type} [DecidableEq κ] {srv srv' : FileServer κ} {c : κ} {msg : Message}

theorem step_enabled (unvalidated : (srv.conn c).m_validated = false) :
    ∃ e srv', (∀ d, e ≠ .close d) ∧ (∀ d msg, e ≠ .message d msg) ∧ srv.step e = some srv' ∧
      (srv'.conn c).toGo < (srv.conn c).toGo ∧ ∀ d, d ≠ c → srv'.conn d = srv.conn d := by
  by_cases absent : (srv.conn c).m_socket = .absent
  · refine ⟨.accept c, _, fun _ same => (by cases same), fun _ _ same => (by cases same),
      if_pos absent, ?_, fun d ne => Function.update_of_ne ne _ _⟩
    change Link.toGo (Function.update srv.conn c _ c) < _
    rw [Function.update_self]
    exact Link.toGo_opening absent
  · refine ⟨.validate c, _, fun _ same => (by cases same), fun _ _ same => (by cases same),
      if_pos absent, ?_, fun d ne => Function.update_of_ne ne _ _⟩
    change Link.toGo (Function.update srv.conn c _ c) < _
    rw [Function.update_self]
    exact Link.toGo_validating unvalidated

omit [DecidableEq κ] in
theorem SameEnd.heads (h : SameEnd srv srv' c) (closing : Prop) :
    Link.Heads closing (srv.conn c) (srv'.conn c) := .of_same closing h.1 h.2

theorem withConn_heads {d : κ} {l : Link EMessageType} {closing : Prop}
    (heads : d = c → Link.Heads closing (srv.conn d) l) :
    Link.Heads closing (srv.conn c) ((srv.withConn d l).conn c) := by
  change Link.Heads closing (srv.conn c) (Function.update srv.conn d l c)
  rcases eq_or_ne c d with rfl | ne
  · rw [Function.update_self]
    exact heads rfl
  · rw [Function.update_of_ne ne]
    exact .of_same closing rfl rfl

theorem step_heads {e : Event κ} (step : srv.step e = some srv') (c : κ) :
    Link.Heads (e = .close c) (srv.conn c) (srv'.conn c) := by
  cases e with
  | accept d =>
      simp only [FileServer.step] at step
      split at step <;> cases step
      exact withConn_heads fun _ => .opening _ _
  | validate d =>
      simp only [FileServer.step] at step
      split at step <;> cases step
      rename_i connected
      exact withConn_heads fun _ => .validating _ connected
  | close d =>
      simp only [FileServer.step] at step
      split at step <;> cases step
      exact withConn_heads fun same => .closing (by rw [same])
  | message d msg => exact ((onMessage_handled (step_message step).2).sameEnd c).heads _

theorem onMessage_send {rest : Message} {pre : PreMetadata}
    (free : srv.m_storage.m_sessions c = none) (kind : msg.header.id = .Send)
    (decoded : decode .Send msg = some (pre, rest)) :
    srv.onMessage c msg = some { srv with
      m_storage :=
        (srv.m_storage.removePendingSender c).addPendingSender c m_max_chunk_size pre } := by
  have free' : (srv.removePendingSender c).m_storage.getSessionBySender c = none := free
  have free : srv.m_storage.getSessionBySender c = none := free
  simp only [onMessage, free, kind, if_true, onSendEstablishment, decoded, free',
    Option.bind_eq_bind, Option.bind_some]
  rfl

theorem onMessage_relays {session : ServerOneToOneRetranslatorSession κ}
    (found : srv.m_storage.m_sessions c = some session) (relays : Relays srv session msg) :
    srv.onMessage c msg = some (srv.post session.m_sink msg) := by
  have found : srv.m_storage.getSessionBySender c = some session := found
  simp only [onMessage, found, onSessionedMessage]
  rcases relays with final | ⟨chunk, fits, accepts⟩
  · rw [if_pos final, relay_eq_send (Or.inr (Or.inl final))]
  · have notFinal : msg.header.id ≠ .FinalChunk := by
      rw [chunk]
      exact EMessageType.noConfusion
    have taken : (srv.send session.m_sink msg).1 = true := by
      rw [send_fst]
      exact accepts
    rw [if_neg notFinal, if_pos chunk, fits, relay_eq_send (Or.inl chunk)]
    simp only [taken, Bool.false_eq_true, if_false, if_true]

/-- A message that the connection accepts. -/
theorem post_sentTo_self (accepts : srv.accepts c = true) (msg : Message) :
    (srv.post c msg).sentTo c = srv.sentTo c ++ [msg] := by
  rw [post_sentTo, if_pos ⟨rfl, accepts⟩]

end FileServer

namespace Transfer

open FileServer

variable {κ : Type} [DecidableEq κ] {x : Transfer κ} {srv srv' : FileServer κ}
  {context : TransmissionContext} {up : List Message} {asked : Nat}

/-! ## What the server has got to know -/

/-- What the server makes of the announcement. -/
def Offers (x : Transfer κ) (context : TransmissionContext) : Prop :=
  ∃ pre rest, decode .Send (encode .Send (Sender.announcement x.upload x.phrase)) =
      some (pre, rest) ∧
    pre.code_phrase.code = x.phrase ∧ context = ClientStorage.announce m_max_chunk_size pre

omit [DecidableEq κ] in
theorem exists_offers (x : Transfer κ) : ∃ context, x.Offers context := by
  have sized : (Sender.announcement x.upload x.phrase).code_phrase.Sized :=
    codePhrase_sized x.bounded
  obtain ⟨pre, rest, decoded, same⟩ := decode_send_code sized
  exact ⟨_, pre, rest, decoded, congrArg CodePhrase.code same, rfl⟩

/-- The answers to the sender. -/
def answers (context : TransmissionContext) : List Message :=
  [encode .Accept context.post_metadata, encode .Success {}]

/-- The entries of a sender that has announced its file. -/
def stored (x : Transfer κ) (context : TransmissionContext) : Nat → Entries κ
  | 0 | 1 => ⟨some x.phrase, some context, none, none⟩
  | 2 => ⟨some x.phrase, some context, some x.r, some (newSession context x.r)⟩
  | _ => .absent

structure ServerAt (x : Transfer κ) (context : TransmissionContext) (srv : FileServer κ)
    (up : List Message) (asked : Nat) : Prop where
  entries : srv.entries x.s = if up = [] then .absent else x.stored context asked
  toSender : srv.sentTo x.s = (answers context).take (asked - 1)
  toReceiver : srv.sentTo x.r =
    if asked = 0 then [] else encode .Accept context.post_metadata :: up.tail
  announced : asked ≠ 0 → up ≠ []
  sender : up ≠ [] → (srv.conn x.s).m_validated
  receiver : asked ≠ 0 → (srv.conn x.r).m_validated

omit [DecidableEq κ] in
theorem ServerAt.start (context : TransmissionContext) : ServerAt x context {} [] 0 where
  entries := rfl
  toSender := rfl
  toReceiver := rfl
  announced := fun asked => (asked rfl).elim
  sender := fun some_sent => (some_sent rfl).elim
  receiver := fun asked => (asked rfl).elim

/-! ## Others -/

/-- A step of somebody else. -/
structure Bystands (x : Transfer κ) (srv srv' : FileServer κ) : Prop where
  entries : srv'.entries x.s = srv.entries x.s
  toSender : srv'.sentTo x.s = srv.sentTo x.s
  toReceiver : srv'.sentTo x.r = srv.sentTo x.r

omit [DecidableEq κ] in
theorem ServerAt.bystands
    (h : ServerAt x context srv up asked) (bystands : Bystands x srv srv')
    (sender : (srv.conn x.s).m_validated → (srv'.conn x.s).m_validated)
    (receiver : (srv.conn x.r).m_validated → (srv'.conn x.r).m_validated) :
    ServerAt x context srv' up asked where
  entries := bystands.entries.trans h.entries
  toSender := bystands.toSender.trans h.toSender
  toReceiver := bystands.toReceiver.trans h.toReceiver
  announced := h.announced
  sender := fun some_sent => sender (h.sender some_sent)
  receiver := fun asked => receiver (h.receiver asked)

theorem Bystands.posted {d : κ} (notSender : d ≠ x.s) (notReceiver : d ≠ x.r) (msg : Message) :
    Bystands x srv (srv.post d msg) :=
  ⟨rfl, post_sentTo_of_ne notSender.symm, post_sentTo_of_ne notReceiver.symm⟩

theorem StoreInv.bystands_abrupt (h : StoreInv x srv) {t : κ} (ne : t ≠ x.s) :
    Bystands x srv (srv.removeSessionAbruptly t) := by
  refine ⟨removeSessionAbruptly_entries_of_ne ne.symm, h.abrupt_sentTo t, ?_⟩
  rw [removeSessionAbruptly_eq, dropSender_sentTo]
  unfold abortSink
  split
  · rename_i session found
    obtain ⟨-, ours⟩ := h.sinks t session found
    exact post_sentTo_of_ne fun same => ne (ours.mp same.symm)
  · rfl

omit [DecidableEq κ] in
/-- A sender that is paired with somebody else is somebody else. -/
theorem StoreInv.paired_other (h : StoreInv x srv) {c t : κ} (notReceiver : c ≠ x.r)
    (paired : srv.m_storage.getSenderByReceiver c = some t) : t ≠ x.s ∧ t ≠ x.r := by
  have pairing : (srv.entries t).pairing = some c :=
    ClientStorage.getSenderByReceiver_iff.mp paired
  refine ⟨fun same => notReceiver ((h.pairs t c pairing).mpr same), fun same => ?_⟩
  rw [same, h.receiver] at pairing
  cases pairing

theorem StoreInv.bystands (h : StoreInv x srv) {c : κ} {msg : Message}
    (conforms : Conforms x c msg) (notSender : c ≠ x.s) (notReceiver : c ≠ x.r)
    (step : Handled srv c msg srv') : Bystands x srv srv' := by
  cases step with
  | relayed session found relays =>
      obtain ⟨sender, receiver⟩ := h.sinks c session found
      exact .posted sender (fun same => notSender (receiver.mp same)) msg
  | aborted session found ends => exact h.bystands_abrupt notSender
  | registered pre rest free kind decoded =>
      exact ⟨ClientStorage.entriesOf_register_of_ne notSender.symm, rfl, rfl⟩
  | refused | offered | turnedAway => exact .posted notSender notReceiver _
  | stranded request rest t free kind decoded known none =>
      exact (h.inv.not_stranded known none).elim
  | opened request rest t context free kind decoded known found =>
      obtain ⟨-, notReceiver', ours⟩ := h.resolves conforms kind decoded known
      have notSender' : t ≠ x.s := fun same => notReceiver (ours.mpr same)
      exact ⟨ClientStorage.entriesOf_addSession_of_ne notSender'.symm,
        post_sentTo_of_ne notSender'.symm, post_sentTo_of_ne notReceiver'.symm⟩
  | finished t free kind paired =>
      obtain ⟨notSender', notReceiver'⟩ := h.paired_other notReceiver paired
      refine ⟨dropSender_entries_of_ne notSender'.symm, ?_, ?_⟩
      · rw [dropSender_sentTo]
        exact post_sentTo_of_ne notSender'.symm
      · rw [dropSender_sentTo]
        exact post_sentTo_of_ne notReceiver'.symm
  | failed t free kind paired => exact h.bystands_abrupt (h.paired_other notReceiver paired).1
  | ignored => exact ⟨rfl, rfl, rfl⟩

/-! ## The two clients -/

omit [DecidableEq κ] in
theorem ServerAt.stored (h : ServerAt x context srv up asked) (announced : up ≠ []) :
    srv.entries x.s = x.stored context asked := by
  rw [h.entries, if_neg announced]

/-- The announcement is processed. -/
theorem ServerAt.announces (h : ServerAt x context srv [] asked) (store : StoreInv x srv)
    (offers : x.Offers context) (validated : (srv.conn x.s).m_validated) :
    ∃ srv', srv.onMessage x.s (encode .Send (Sender.announcement x.upload x.phrase)) = some srv' ∧
      ServerAt x context srv' [encode .Send (Sender.announcement x.upload x.phrase)] asked := by
  obtain ⟨pre, rest, decoded, code, rfl⟩ := offers
  have unasked : asked = 0 := by
    by_contra asked
    exact h.announced asked rfl
  obtain rfl := unasked
  have absent : srv.entries x.s = .absent := h.entries
  have free : srv.m_storage.FreeFor x.s pre.code_phrase.code := by
    intro t known
    apply store.registered t
    rw [← code]
    exact ClientStorage.getSenderByCode_iff.mp known
  refine ⟨_, onMessage_send (congrArg Entries.session absent) (encode_id _ _) decoded, ?_,
    h.toSender, h.toReceiver, fun asked => (asked rfl).elim, fun _ => validated,
    fun asked => (asked rfl).elim⟩
  have registered := ClientStorage.entriesOf_register_self (m := m_max_chunk_size)
    (Or.inl ⟨free, rfl⟩)
  have absent : srv.m_storage.entriesOf x.s = .absent := absent
  rw [absent, code] at registered
  exact registered

/-- A piece of the file is processed. -/
theorem ServerAt.relays {msg : Message} (h : ServerAt x context srv up 2)
    (piece : msg ∈ x.sendings.tail) (accepts : srv.accepts x.r = true) :
    ∃ srv', srv.onMessage x.s msg = some srv' ∧ ServerAt x context srv' (up ++ [msg]) 2 := by
  have announced := h.announced (by decide)
  have entries := h.stored announced
  have found : srv.m_storage.m_sessions x.s = some (newSession context x.r) :=
    congrArg Entries.session entries
  have relays : Relays srv (newSession context x.r) msg := by
    rcases List.mem_append.mp piece with chunk | final
    · obtain ⟨data, member, rfl⟩ := List.mem_map.mp chunk
      have fits : exceeds m_max_chunk_size (chunkMessage x.sha256_chunk data) = false :=
        exceeds_chunkMessage (List.length_of_mem_chunks member).2
      exact Or.inr ⟨chunkMessage_id _ data, fits, accepts⟩
    · rw [List.mem_singleton.mp final]
      exact Or.inl rfl
  obtain ⟨first, later, rfl⟩ := List.exists_cons_of_ne_nil announced
  refine ⟨_, onMessage_relays found relays, entries, ?_, ?_, fun _ => List.cons_ne_nil _ _, ?_, ?_⟩
  · exact (post_sentTo_of_ne x.distinct).trans h.toSender
  · have sent : (srv.post x.r msg).sentTo x.r = srv.sentTo x.r ++ [msg] :=
      post_sentTo_self accepts msg
    change (srv.post x.r msg).sentTo x.r = _
    rw [sent, h.toReceiver]
    rfl
  · intro _
    rw [((post_sameEnd srv _ x.s msg).1)]
    exact h.sender announced
  · intro _
    rw [((post_sameEnd srv _ x.r msg).1)]
    exact h.receiver (by decide)

omit [DecidableEq κ] in
/-- The receiver is never a sender. -/
theorem StoreInv.free (h : StoreInv x srv) : srv.m_storage.m_sessions x.r = none :=
  congrArg Entries.session h.receiver

/-- The first request is answered. -/
theorem ServerAt.offered (h : ServerAt x context srv up 0) (store : StoreInv x srv)
    (announced : up ≠ []) (short : up.length ≤ 1) (accepts : srv.accepts x.r = true)
    (validated : (srv.conn x.r).m_validated) :
    ∃ srv', srv.onMessage x.r (encode .RequestReceive (Receiver.request x.download x.unset)) =
        some srv' ∧ ServerAt x context srv' up 1 := by
  have entries := h.stored announced
  have sized : (Receiver.request x.download x.unset).code_phrase.Sized := codePhrase_sized x.bounded
  obtain ⟨request, rest, decoded, same⟩ := decode_request_code sized
  have known : srv.m_storage.getSenderByCode request.code_phrase.code = some x.s := by
    rw [same]
    exact ClientStorage.getSenderByCode_iff.mpr (congrArg Entries.phrase entries)
  have found : srv.m_storage.m_pending_transmissions x.s = some context :=
    congrArg Entries.context entries
  have tail : up.tail = [] := List.length_eq_zero_iff.mp (by rw [List.length_tail]; omega)
  refine ⟨_, onMessage_request_known store.free (encode_id _ _) decoded known found, h.entries, ?_,
    ?_, fun _ => announced, fun _ => ?_, fun _ => ?_⟩
  · exact (post_sentTo_of_ne x.distinct).trans h.toSender
  · rw [post_sentTo_self accepts, h.toReceiver, tail]
    rfl
  · rw [((post_sameEnd srv _ x.s _).1)]
    exact h.sender announced
  · rw [((post_sameEnd srv _ x.r _).1)]
    exact validated

/-- The second request opens the session. -/
theorem ServerAt.opened (h : ServerAt x context srv up 1) (store : StoreInv x srv)
    (accepts : srv.accepts x.s = true) :
    ∃ srv', srv.onMessage x.r (encode .Receive (codePhrase x.phrase)) = some srv' ∧
      ServerAt x context srv' up 2 := by
  have announced := h.announced (by decide)
  have entries := h.stored announced
  have sized : (codePhrase x.phrase).Sized := codePhrase_sized x.bounded
  have decoded := decode_encode (M := .Receive) fun msg _ => CodePhrase.roundTrips msg sized
  have known : srv.m_storage.getSenderByCode x.phrase = some x.s :=
    ClientStorage.getSenderByCode_iff.mpr (congrArg Entries.phrase entries)
  have found : srv.m_storage.m_pending_transmissions x.s = some context :=
    congrArg Entries.context entries
  have unpaired : srv.m_storage.getSenderByReceiver x.r = none := by
    refine Option.eq_none_iff_forall_ne_some.mpr fun t paired => ?_
    have pairing : (srv.entries t).pairing = some x.r :=
      ClientStorage.getSenderByReceiver_iff.mp paired
    rw [(store.pairs t x.r pairing).mp rfl, entries] at pairing
    cases pairing
  let added : FileServer κ :=
    { srv with m_storage := srv.m_storage.addSession x.s x.r (newSession context x.r) }
  refine ⟨_, onMessage_receive_known store.free (encode_id _ _) decoded known found, ?_, ?_, ?_,
    fun _ => announced, fun _ => ?_, fun _ => ?_⟩
  · rw [if_neg announced]
    change (srv.m_storage.addSession x.s x.r (newSession context x.r)).entriesOf x.s = _
    have entries : srv.m_storage.entriesOf x.s = x.stored context 1 := entries
    rw [ClientStorage.entriesOf_addSession_self, entries, unpaired]
    rfl
  · have sent : (added.post x.s (encode .Accept context.post_metadata)).sentTo x.s =
        added.sentTo x.s ++ [encode .Accept context.post_metadata] := post_sentTo_self accepts _
    exact sent.trans (congrArg (· ++ _) h.toSender)
  · have kept : (added.post x.s (encode .Accept context.post_metadata)).sentTo x.r =
        added.sentTo x.r := post_sentTo_of_ne x.distinct.symm
    exact kept.trans h.toReceiver
  · exact (post_sameEnd added x.s x.s _).1.trans (h.sender announced)
  · exact (post_sameEnd added x.s x.r _).1.trans (h.receiver (by decide))

/-- The third request ends it. -/
theorem ServerAt.finished (h : ServerAt x context srv up 2) (store : StoreInv x srv)
    (accepts : srv.accepts x.s = true) :
    ∃ srv', srv.onMessage x.r (encode .FinishReceive {}) = some srv' ∧
      ServerAt x context srv' up 3 := by
  have announced := h.announced (by decide)
  have entries := h.stored announced
  have paired : srv.m_storage.getSenderByReceiver x.r = some x.s :=
    ClientStorage.getSenderByReceiver_iff.mpr (congrArg Entries.pairing entries)
  have ends : ∀ c, SameEnd srv ((srv.post x.s (encode .Success {})).dropSender x.s) c :=
    fun c => (post_sameEnd srv x.s c _).trans (dropSender_sameEnd _ x.s c)
  refine ⟨_, onMessage_finish store.free paired (encode_id _ _), ?_, ?_, ?_, fun _ => announced,
    fun _ => (ends x.s).1.trans (h.sender announced),
    fun _ => (ends x.r).1.trans (h.receiver (by decide))⟩
  · rw [if_neg announced]
    exact dropSender_entries_self _ x.s
  · rw [dropSender_sentTo, post_sentTo_self accepts, h.toSender]
    rfl
  · rw [dropSender_sentTo, post_sentTo_of_ne x.distinct.symm]
    exact h.toReceiver

end Transfer

end PingPong
