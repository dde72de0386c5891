import PingPong.Lib.Channel
import PingPong.Server.FileServer

/-!
# What processing one message can do

* `FileServer.Handled srv client msg srv'` lists every outcome of `onMessage`, with everything the
  dispatch has checked on the way.  `onMessage_handled` is the inversion every invariant starts
  from.
* The simp lemmas say what each handler does to the store and to the messages sent on each
  connection; `dropSender` is the common effect of both ways to end a session.
-/

namespace PingPong

open Common Net

namespace FileServer

variable {κ : Type} [DecidableEq κ]

/-- Whether `send` on the connection would return true. -/
abbrev accepts (srv : FileServer κ) (c : κ) : Bool := (srv.conn c).accepts

/-- The messages `send` accepted on the connection, oldest first. -/
abbrev sentTo (srv : FileServer κ) (c : κ) : List Message := (srv.conn c).sent

/-- The entries of the store under a sender. -/
abbrev entries (srv : FileServer κ) (s : κ) : Entries κ := srv.m_storage.entriesOf s

/-! ## Effects of single operations -/

@[simp] theorem post_storage (srv : FileServer κ) (c : κ) (msg : Message) :
    (srv.post c msg).m_storage = srv.m_storage := rfl

theorem send_fst (srv : FileServer κ) (c : κ) (msg : Message) :
    (srv.send c msg).1 = srv.accepts c := (srv.conn c).send_fst msg

@[simp] theorem post_conn_self (srv : FileServer κ) (c : κ) (msg : Message) :
    (srv.post c msg).conn c = ((srv.conn c).send msg).2 := by
  unfold post send
  exact Function.update_self _ _ _

@[simp] theorem post_conn_of_ne {srv : FileServer κ} {c d : κ} {msg : Message} (h : d ≠ c) :
    (srv.post c msg).conn d = srv.conn d := by
  unfold post send
  exact Function.update_of_ne h _ _

theorem post_of_refuses {srv : FileServer κ} {c : κ} (h : srv.accepts c = false) (msg : Message) :
    srv.post c msg = srv := by
  unfold post send
  rw [Link.send_of_refuses h]
  change ({ srv with conn := Function.update srv.conn c (srv.conn c) } : FileServer κ) = srv
  rw [Function.update_eq_self]

@[simp] theorem post_socket (srv : FileServer κ) (c d : κ) (msg : Message) :
    ((srv.post c msg).conn d).m_socket = (srv.conn d).m_socket := by
  rcases eq_or_ne d c with rfl | h
  · rw [post_conn_self, Link.send_socket]
  · rw [post_conn_of_ne h]

theorem post_sentTo (srv : FileServer κ) (c d : κ) (msg : Message) :
    (srv.post c msg).sentTo d =
      if d = c ∧ srv.accepts c then srv.sentTo d ++ [msg] else srv.sentTo d := by
  rcases eq_or_ne d c with rfl | h
  · rw [sentTo, post_conn_self, Link.send_sent]
    simp only [true_and]
  · rw [sentTo, post_conn_of_ne h, if_neg fun both => h both.1]

@[simp] theorem removeSession_storage (srv : FileServer κ) (s : κ) :
    (srv.removeSession s).m_storage = srv.m_storage.eraseSession s := rfl

@[simp] theorem removePendingSender_storage (srv : FileServer κ) (s : κ) :
    (srv.removePendingSender s).m_storage = srv.m_storage.removePendingSender s := rfl

@[simp] theorem removePendingSender_conn (srv : FileServer κ) (s : κ) :
    (srv.removePendingSender s).conn = srv.conn := rfl

/-- Disconnecting after the flush leaves everything but the pending close as it was. -/
theorem removeSession_conn (srv : FileServer κ) (s c : κ) :
    (srv.removeSession s).conn c = srv.conn c ∨
      (srv.removeSession s).conn c = (srv.conn c).disconnectAfterFlush := by
  rcases eq_or_ne c s with rfl | h
  · exact Or.inr (Function.update_self _ _ _)
  · exact Or.inl (Function.update_of_ne h _ _)

@[simp] theorem removeSession_sentTo (srv : FileServer κ) (s c : κ) :
    (srv.removeSession s).sentTo c = srv.sentTo c := by
  rcases srv.removeSession_conn s c with h | h <;> rw [sentTo, h]
  rfl

/-- Take a sender out of the four maps and disconnect it, the end of every session. -/
def dropSender (srv : FileServer κ) (s : κ) : FileServer κ :=
  (srv.removePendingSender s).removeSession s

@[simp] theorem dropSender_sentTo (srv : FileServer κ) (s c : κ) :
    (srv.dropSender s).sentTo c = srv.sentTo c := removeSession_sentTo _ s c

@[simp] theorem dropSender_entries_self (srv : FileServer κ) (s : κ) :
    (srv.dropSender s).entries s = .absent := by
  unfold dropSender
  simp [entries, Entries.absent]

@[simp] theorem dropSender_entries_of_ne {srv : FileServer κ} {s t : κ} (h : t ≠ s) :
    (srv.dropSender s).entries t = srv.entries t := by
  unfold dropSender
  simp [entries, h]

/-- The session of a sender, if it has one, tells its sink that it is aborted. -/
def abortSink (srv : FileServer κ) (s : κ) : FileServer κ :=
  match srv.m_storage.m_sessions s with
  | some session => srv.post session.m_sink (encode .Abort {})
  | none => srv

@[simp] theorem abortSink_storage (srv : FileServer κ) (s : κ) :
    (srv.abortSink s).m_storage = srv.m_storage := by
  unfold abortSink
  split <;> rfl

theorem abortSink_of_session {srv : FileServer κ} {s : κ}
    {session : ServerOneToOneRetranslatorSession κ}
    (h : srv.m_storage.m_sessions s = some session) :
    srv.abortSink s = srv.post session.m_sink (encode .Abort {}) := by
  unfold abortSink
  rw [h]

/-- A message of one of the three kinds the session relays goes to the sink. -/
theorem relay_eq_send {srv : FileServer κ} {session : ServerOneToOneRetranslatorSession κ}
    {msg : Message}
    (kind : msg.header.id = .Chunk ∨ msg.header.id = .FinalChunk ∨ msg.header.id = .Abort) :
    srv.relay session msg = srv.send session.m_sink msg := if_pos kind

/-- Ending a session abruptly aborts its sink and drops the sender. -/
theorem removeSessionAbruptly_eq (srv : FileServer κ) (s : κ) :
    srv.removeSessionAbruptly s = (srv.abortSink s).dropSender s := by
  cases h : srv.m_storage.m_sessions s with
  | none =>
      simp only [removeSessionAbruptly, abortSink, ClientStorage.getSessionBySender, h]
      rfl
  | some session =>
      have relayed : srv.relay session (encode .Abort {}) =
          srv.send session.m_sink (encode .Abort {}) := relay_eq_send (Or.inr (Or.inr rfl))
      simp only [removeSessionAbruptly, abortSink, ClientStorage.getSessionBySender, h, relayed]
      rfl

/-! ## The outcomes of `onMessage` -/

/-- Why `onSessionedMessage` ends the session: a chunk of the wrong size, a chunk the sink does not
take, or a message that is neither `Chunk` nor `FinalChunk`. -/
def EndsAbruptly (srv : FileServer κ) (session : ServerOneToOneRetranslatorSession κ)
    (msg : Message) : Prop :=
  msg.header.id ≠ .FinalChunk ∧
    (msg.header.id = .Chunk → exceedsChunkSize msg ∨ srv.accepts session.m_sink = false)

/-- Why `onSessionedMessage` hands the message to the sink and goes on. -/
def Relays (srv : FileServer κ) (session : ServerOneToOneRetranslatorSession κ)
    (msg : Message) : Prop :=
  msg.header.id = .FinalChunk ∨
    (msg.header.id = .Chunk ∧ exceedsChunkSize msg = false ∧ srv.accepts session.m_sink)

/-- The session opened by a `Receive`. -/
def newSession (context : TransmissionContext) (receiver : κ) :
    ServerOneToOneRetranslatorSession κ :=
  { file_size := context.pre_metadata.file_data.file_size
    max_chunk_size := m_max_chunk_size.toUInt32
    m_sink := receiver }

inductive Handled (srv : FileServer κ) (client : κ) (msg : Message) : FileServer κ → Prop
  | relayed (session : ServerOneToOneRetranslatorSession κ) :
    srv.m_storage.m_sessions client = some session → Relays srv session msg →
    Handled srv client msg (srv.post session.m_sink msg)
  | aborted (session : ServerOneToOneRetranslatorSession κ) :
    srv.m_storage.m_sessions client = some session → EndsAbruptly srv session msg →
    Handled srv client msg (srv.removeSessionAbruptly client)
  | registered (pre : PreMetadata) (rest : Message) :
    srv.m_storage.m_sessions client = none → msg.header.id = .Send →
    decode .Send msg = some (pre, rest) →
    Handled srv client msg
      { srv with
        m_storage :=
          (srv.m_storage.removePendingSender client).addPendingSender client m_max_chunk_size pre }
  | refused (request : PreMetadata) (rest : Message) :
    srv.m_storage.m_sessions client = none → msg.header.id = .RequestReceive →
    decode .RequestReceive msg = some (request, rest) →
    (∀ s, srv.m_storage.getSenderByCode request.code_phrase.code = some s →
      srv.m_storage.m_pending_transmissions s = none) →
    Handled srv client msg (srv.post client (encode .Reject {}))
  | offered (request : PreMetadata) (rest : Message) (s : κ) (context : TransmissionContext) :
    srv.m_storage.m_sessions client = none → msg.header.id = .RequestReceive →
    decode .RequestReceive msg = some (request, rest) →
    srv.m_storage.getSenderByCode request.code_phrase.code = some s →
    srv.m_storage.m_pending_transmissions s = some context →
    Handled srv client msg (srv.post client (encode .Accept context.post_metadata))
  | turnedAway (request : CodePhrase) (rest : Message) :
    srv.m_storage.m_sessions client = none → msg.header.id = .Receive →
    decode .Receive msg = some (request, rest) →
    srv.m_storage.getSenderByCode request.code = none →
    Handled srv client msg (srv.post client (encode .Abort {}))
  | stranded (request : CodePhrase) (rest : Message) (s : κ) :
    srv.m_storage.m_sessions client = none → msg.header.id = .Receive →
    decode .Receive msg = some (request, rest) →
    srv.m_storage.getSenderByCode request.code = some s →
    srv.m_storage.m_pending_transmissions s = none →
    Handled srv client msg (srv.removeSessionAbruptly s)
  | opened (request : CodePhrase) (rest : Message) (s : κ) (context : TransmissionContext) :
    srv.m_storage.m_sessions client = none → msg.header.id = .Receive →
    decode .Receive msg = some (request, rest) →
    srv.m_storage.getSenderByCode request.code = some s →
    srv.m_storage.m_pending_transmissions s = some context →
    Handled srv client msg
      (({ srv with
          m_storage := srv.m_storage.addSession s client (newSession context client) } :
        FileServer κ).post s (encode .Accept context.post_metadata))
  | finished (s : κ) :
    srv.m_storage.m_sessions client = none → msg.header.id = .FinishReceive →
    srv.m_storage.getSenderByReceiver client = some s →
    Handled srv client msg ((srv.post s (encode .Success {})).dropSender s)
  | failed (s : κ) :
    srv.m_storage.m_sessions client = none → msg.header.id = .FailedReceive →
    srv.m_storage.getSenderByReceiver client = some s →
    Handled srv client msg (srv.removeSessionAbruptly s)
  | ignored :
    srv.m_storage.m_sessions client = none → msg.header.id ≠ .Send →
    msg.header.id ≠ .RequestReceive → msg.header.id ≠ .Receive →
    ((msg.header.id = .FinishReceive ∨ msg.header.id = .FailedReceive) →
      srv.m_storage.getSenderByReceiver client = none) →
    Handled srv client msg srv

theorem onSessionedMessage_handled {srv : FileServer κ} {client : κ}
    {session : ServerOneToOneRetranslatorSession κ} {msg : Message}
    (h : srv.m_storage.m_sessions client = some session) :
    Handled srv client msg (srv.onSessionedMessage client session msg) := by
  unfold onSessionedMessage
  split
  · rename_i final
    rw [relay_eq_send (Or.inr (Or.inl final))]
    exact .relayed session h (Or.inl final)
  split
  · rename_i notFinal chunk
    rw [relay_eq_send (Or.inl chunk)]
    split
    · rename_i oversize
      exact .aborted session h ⟨notFinal, fun _ => Or.inl oversize⟩
    · rename_i fits
      have fits : exceedsChunkSize msg = false := Bool.eq_false_iff.mpr fits
      dsimp only
      rw [send_fst]
      split
      · rename_i taken
        exact .relayed session h (Or.inr ⟨chunk, fits, taken⟩)
      · rename_i refused
        have refused : srv.accepts session.m_sink = false := Bool.eq_false_iff.mpr refused
        have same : (srv.send session.m_sink msg).2 = srv := post_of_refuses refused msg
        rw [same]
        exact .aborted session h ⟨notFinal, fun _ => Or.inr refused⟩
  · rename_i notFinal notChunk
    exact .aborted session h ⟨notFinal, fun chunk => (notChunk chunk).elim⟩

theorem onSendEstablishment_handled {srv srv' : FileServer κ} {client : κ} {msg : Message}
    (free : srv.m_storage.m_sessions client = none) (kind : msg.header.id = .Send)
    (h : srv.onSendEstablishment client msg = some srv') : Handled srv client msg srv' := by
  unfold onSendEstablishment at h
  obtain ⟨⟨pre, rest⟩, decoded, h⟩ := Option.bind_eq_some_iff.mp h
  have unsessioned :
      (srv.removePendingSender client).m_storage.getSessionBySender client = none := free
  simp only [unsessioned] at h
  cases h
  exact .registered pre rest free kind decoded

theorem onReceiveEstablishment_handled {srv srv' : FileServer κ} {client : κ} {msg : Message}
    (free : srv.m_storage.m_sessions client = none) (kind : msg.header.id = .RequestReceive)
    (h : srv.onReceiveEstablishment client msg = some srv') : Handled srv client msg srv' := by
  unfold onReceiveEstablishment at h
  obtain ⟨⟨request, rest⟩, decoded, h⟩ := Option.bind_eq_some_iff.mp h
  dsimp only at h
  split at h
  · rename_i unknown
    cases h
    refine .refused request rest free kind decoded fun s known => ?_
    rw [unknown] at known
    cases known
  · rename_i s known
    split at h
    · rename_i none
      cases h
      refine .refused request rest free kind decoded fun t same => ?_
      rw [known] at same
      cases same
      exact none
    · rename_i context found
      cases h
      exact .offered request rest s context free kind decoded known found

theorem establishTransmissionSession_handled {srv srv' : FileServer κ} {client : κ}
    {msg : Message} (free : srv.m_storage.m_sessions client = none)
    (kind : msg.header.id = .Receive)
    (h : srv.establishTransmissionSession client msg = some srv') :
    Handled srv client msg srv' := by
  unfold establishTransmissionSession at h
  obtain ⟨⟨request, rest⟩, decoded, h⟩ := Option.bind_eq_some_iff.mp h
  dsimp only at h
  split at h
  · rename_i unknown
    cases h
    exact .turnedAway request rest free kind decoded unknown
  · rename_i s known
    split at h
    · rename_i none
      cases h
      exact .stranded request rest s free kind decoded known none
    · rename_i context found
      cases h
      exact .opened request rest s context free kind decoded known found

theorem finishSession_eq {srv : FileServer κ} {client s : κ}
    (h : srv.m_storage.getSenderByReceiver client = some s) :
    srv.finishSession client = (srv.post s (encode .Success {})).dropSender s := by
  unfold finishSession
  rw [h]
  rfl

/-- **Inversion of `onMessage`.** -/
theorem onMessage_handled {srv srv' : FileServer κ} {client : κ} {msg : Message}
    (h : srv.onMessage client msg = some srv') : Handled srv client msg srv' := by
  unfold onMessage at h
  split at h
  · rename_i session found
    cases h
    exact onSessionedMessage_handled found
  rename_i free
  split at h
  · rename_i kind
    exact onSendEstablishment_handled free kind h
  split at h
  · rename_i kind
    exact onReceiveEstablishment_handled free kind h
  split at h
  · rename_i kind
    exact establishTransmissionSession_handled free kind h
  rename_i notSend notRequest notReceive
  split at h
  · rename_i kind
    cases h
    cases paired : srv.m_storage.getSenderByReceiver client with
    | some s =>
        rw [finishSession_eq paired]
        exact .finished s free kind paired
    | none =>
        have same : srv.finishSession client = srv := by
          unfold finishSession
          rw [paired]
        rw [same]
        exact .ignored free notSend notRequest notReceive fun _ => paired
  split at h
  · rename_i kind
    split at h
    · rename_i s paired
      cases h
      exact .failed s free kind paired
    · rename_i unpaired
      cases h
      exact .ignored free notSend notRequest notReceive fun _ => unpaired
  · rename_i notFinish notFailed
    cases h
    exact .ignored free notSend notRequest notReceive
      fun kind => (kind.elim notFinish notFailed).elim

/-! ## At most one message is sent to each connection -/

open Channel (Extends)

theorem post_extends (srv : FileServer κ) (c d : κ) (msg : Message) :
    Extends (srv.sentTo d) ((srv.post c msg).sentTo d) := by
  rw [post_sentTo]
  split
  · exact Or.inr ⟨msg, rfl⟩
  · exact Or.inl rfl

theorem removeSessionAbruptly_extends (srv : FileServer κ) (s d : κ) :
    Extends (srv.sentTo d) ((srv.removeSessionAbruptly s).sentTo d) := by
  rw [removeSessionAbruptly_eq, dropSender_sentTo]
  unfold abortSink
  split
  · exact srv.post_extends _ d _
  · exact Or.inl rfl

theorem Handled.extends {srv srv' : FileServer κ} {client : κ} {msg : Message}
    (h : Handled srv client msg srv') (d : κ) : Extends (srv.sentTo d) (srv'.sentTo d) := by
  cases h with
  | relayed session found relays => exact srv.post_extends _ d msg
  | aborted session found ends => exact srv.removeSessionAbruptly_extends client d
  | registered pre rest free kind decoded => exact Or.inl rfl
  | refused request rest free kind decoded unknown => exact srv.post_extends _ d _
  | offered request rest s context free kind decoded known found => exact srv.post_extends _ d _
  | turnedAway request rest free kind decoded unknown => exact srv.post_extends _ d _
  | stranded request rest s free kind decoded known none =>
      exact srv.removeSessionAbruptly_extends s d
  | opened request rest s context free kind decoded known found => exact post_extends _ s d _
  | finished s free kind paired =>
      rw [dropSender_sentTo]
      exact srv.post_extends s d _
  | failed s free kind paired => exact srv.removeSessionAbruptly_extends s d
  | ignored => exact Or.inl rfl

/-! ## The ends of the connections -/

theorem post_sentTo_of_ne {srv : FileServer κ} {c d : κ} {msg : Message} (ne : d ≠ c) :
    (srv.post c msg).sentTo d = srv.sentTo d := by
  rw [sentTo, post_conn_of_ne ne]

/-- The part of a connection that no handler touches. -/
def SameEnd (srv srv' : FileServer κ) (d : κ) : Prop :=
  (srv'.conn d).m_validated = (srv.conn d).m_validated ∧
    (srv'.conn d).m_socket = (srv.conn d).m_socket

theorem post_sameEnd (srv : FileServer κ) (c d : κ) (msg : Message) :
    SameEnd srv (srv.post c msg) d := by
  rcases eq_or_ne d c with rfl | ne
  · unfold SameEnd
    rw [post_conn_self, Link.send_validated, Link.send_socket]
    exact ⟨rfl, rfl⟩
  · unfold SameEnd
    rw [post_conn_of_ne ne]
    exact ⟨rfl, rfl⟩

theorem dropSender_sameEnd (srv : FileServer κ) (t d : κ) :
    SameEnd srv (srv.dropSender t) d := by
  unfold SameEnd dropSender
  rcases (srv.removePendingSender t).removeSession_conn t d with same | same <;>
    rw [same] <;> exact ⟨rfl, rfl⟩

theorem abortSink_sameEnd (srv : FileServer κ) (t d : κ) : SameEnd srv (srv.abortSink t) d := by
  unfold abortSink
  split
  · exact post_sameEnd srv _ d _
  · exact ⟨rfl, rfl⟩

omit [DecidableEq κ] in
theorem SameEnd.trans {srv srv' srv'' : FileServer κ} {d : κ} (h : SameEnd srv srv' d)
    (h' : SameEnd srv' srv'' d) : SameEnd srv srv'' d :=
  ⟨h'.1.trans h.1, h'.2.trans h.2⟩

theorem removeSessionAbruptly_sameEnd (srv : FileServer κ) (t d : κ) :
    SameEnd srv (srv.removeSessionAbruptly t) d := by
  rw [removeSessionAbruptly_eq]
  exact (abortSink_sameEnd srv t d).trans (dropSender_sameEnd _ t d)

theorem Handled.sameEnd {srv srv' : FileServer κ} {client : κ} {msg : Message}
    (h : Handled srv client msg srv') (d : κ) : SameEnd srv srv' d := by
  cases h with
  | relayed session found relays => exact post_sameEnd srv _ d msg
  | aborted session found ends => exact removeSessionAbruptly_sameEnd srv client d
  | registered pre rest free kind decoded => exact ⟨rfl, rfl⟩
  | refused request rest free kind decoded unknown => exact post_sameEnd srv _ d _
  | offered request rest s context free kind decoded known found => exact post_sameEnd srv _ d _
  | turnedAway request rest free kind decoded unknown => exact post_sameEnd srv _ d _
  | stranded request rest s free kind decoded known none =>
      exact removeSessionAbruptly_sameEnd srv s d
  | opened request rest s context free kind decoded known found => exact post_sameEnd _ s d _
  | finished s free kind paired =>
      exact (post_sameEnd srv s d _).trans (dropSender_sameEnd _ s d)
  | failed s free kind paired => exact removeSessionAbruptly_sameEnd srv s d
  | ignored => exact ⟨rfl, rfl⟩

end FileServer

end PingPong
