import PingPong.Lib.Projection
import PingPong.Server.Pairings
import PingPong.System.Relaying

/-!
# Groups of clients that share no code phrase

Two clients meet at the server through a code phrase and through nothing else.  `G` singles out a
group of connections and `P` a set of codes; a run is apart if a message that carries a code carries
one of `P` exactly where its connection is in `G`.  Then what the server stores for the group, and
every one of its connections, are those of the run in which nobody else ever does anything.

* `Apart` is the invariant: codes, pairings and sinks stay within the group or outside it.
* `restrict` takes everything of the others out of the server.  Each operation on a connection of
  the group commutes with it (`restrict_*`), and no operation on another is seen through it
  (`restrict_*_of_other`).
* `projects` puts the handlers together; the rest is the rule for projections.
-/

namespace PingPong

open Common Net

namespace ClientStorage

variable {κ : Type}

def restrict (st : ClientStorage κ) (G : κ → Bool) : ClientStorage κ where
  m_pending_phrase_senders := st.m_pending_phrase_senders.restrict G
  m_pending_transmissions := st.m_pending_transmissions.restrict G
  m_senders_receivers := st.m_senders_receivers.restrict G
  m_sessions := st.m_sessions.restrict G

theorem restrict_start (G : κ → Bool) : ({} : ClientStorage κ).restrict G = {} := by
  unfold restrict
  rw [Bimap.restrict_empty, Bimap.restrict_empty, Dict.restrict_empty, Dict.restrict_empty]

end ClientStorage

namespace FileServer

variable {κ : Type}

/-- The connection an event is about. -/
def Event.client : Event κ → κ
  | .accept c => c
  | .validate c => c
  | .close c => c
  | .message c _ => c

/-- A code that the event carries is one of `P` exactly where its connection is in `G`. -/
def Event.Apart (G : κ → Bool) (P : List UInt8 → Bool) : Event κ → Prop
  | .message c msg => ∀ code, carriedCode msg.1 = some code → P code = G c
  | .accept _ => True
  | .validate _ => True
  | .close _ => True

instance (G : κ → Bool) (P : List UInt8 → Bool) : DecidablePred (Event.Apart G P)
  | .message c msg => inferInstanceAs (Decidable (∀ code ∈ carriedCode msg.1, P code = G c))
  | .accept _ => isTrue trivial
  | .validate _ => isTrue trivial
  | .close _ => isTrue trivial

/-- The server without anything of the other connections. -/
def restrict (srv : FileServer κ) (G : κ → Bool) : FileServer κ where
  m_storage := srv.m_storage.restrict G
  conn c := if G c then srv.conn c else {}

/-! ## The invariant -/

structure EntriesApart (G : κ → Bool) (P : List UInt8 → Bool) (s : κ) (e : Entries κ) :
    Prop where
  phrase : ∀ code, e.phrase = some code → P code = G s
  pairing : ∀ r, e.pairing = some r → G r = G s
  session : ∀ t, e.session = some t → G t.m_sink = G s

def Apart (G : κ → Bool) (P : List UInt8 → Bool) (srv : FileServer κ) : Prop :=
  ∀ s, EntriesApart G P s (srv.entries s)

variable {G : κ → Bool} {P : List UInt8 → Bool}

theorem EntriesApart.absent (s : κ) : EntriesApart G P s .absent := by
  constructor
  · intro code held
    cases held
  · intro r held
    cases held
  · intro t held
    cases held

theorem Apart.owner_of_code {srv : FileServer κ} (h : Apart G P srv) {code : List UInt8} {s : κ}
    (known : srv.m_storage.getSenderByCode code = some s) : P code = G s :=
  (h s).phrase code (ClientStorage.getSenderByCode_iff.mp known)

theorem Apart.owner_of_receiver {srv : FileServer κ} (h : Apart G P srv) {r s : κ}
    (paired : srv.m_storage.getSenderByReceiver r = some s) : G r = G s :=
  (h s).pairing r (ClientStorage.getSenderByReceiver_iff.mp paired)

variable [DecidableEq κ]

omit [DecidableEq κ] in
theorem Apart.dropped {srv srv' : FileServer κ} {s : κ} (h : Apart G P srv)
    (drops : OnlyDrops srv srv' s) : Apart G P srv' := by
  intro t
  rcases eq_or_ne t s with rfl | ne
  · rw [drops.1]
    exact .absent t
  · rw [drops.2 t ne]
    exact h t

theorem Apart.handled {srv srv' : FileServer κ} (h : Apart G P srv) {c : κ} {msg : Message}
    (own : ∀ code, carriedCode msg = some code → P code = G c)
    (step : Handled srv c msg srv') : Apart G P srv' := by
  cases step with
  | relayed session found relays => exact h
  | aborted session found ends => exact h.dropped (removeSessionAbruptly_onlyDrops srv c)
  | registered pre rest free kind decoded =>
      have code := own _ (Transfer.carriedCode_of_send kind decoded)
      intro t
      rcases eq_or_ne t c with rfl | ne
      · rcases Classical.em (srv.m_storage.FreeFor t pre.code_phrase.code) with first | taken
        · rw [entries, ClientStorage.entriesOf_register_self (Or.inl ⟨first, rfl⟩)]
          refine ⟨fun p held => ?_, (h t).pairing, (h t).session⟩
          cases held
          exact code
        · rw [entries, ClientStorage.entriesOf_register_self (Or.inr ⟨taken, rfl⟩)]
          refine ⟨fun p held => ?_, (h t).pairing, (h t).session⟩
          cases held
      · rw [entries, ClientStorage.entriesOf_register_of_ne ne]
        exact h t
  | refused request rest free kind decoded unknown => exact h
  | offered request rest s context free kind decoded known found => exact h
  | turnedAway request rest free kind decoded unknown => exact h
  | stranded request rest s free kind decoded known none =>
      exact h.dropped (removeSessionAbruptly_onlyDrops srv s)
  | opened request rest s context free kind decoded known found =>
      -- Whoever presents a code of the group is in the group, as its owner is.
      have met : G c = G s :=
        (own _ (Transfer.carriedCode_of_receive kind decoded)).symm.trans (h.owner_of_code known)
      intro t
      change EntriesApart G P t
        ((srv.m_storage.addSession s c (newSession context c)).entriesOf t)
      rcases eq_or_ne t s with rfl | ne
      · rw [ClientStorage.entriesOf_addSession_self]
        refine ⟨(h t).phrase, fun r held => ?_, fun x held => ?_⟩
        · dsimp only at held
          split at held
          · cases held
            exact met
          · exact (h t).pairing r held
        · dsimp only at held
          split at held
          · cases held
            exact met
          · exact (h t).session x held
      · rw [ClientStorage.entriesOf_addSession_of_ne ne]
        exact h t
  | finished s free kind paired => exact h.dropped (post_dropSender_onlyDrops srv s _)
  | failed s free kind paired => exact h.dropped (removeSessionAbruptly_onlyDrops srv s)
  | ignored => exact h

theorem Apart.step {srv srv' : FileServer κ} (h : Apart G P srv) {e : Event κ}
    (own : e.Apart G P) (step : srv.step e = some srv') : Apart G P srv' := by
  rcases step_handled step with ⟨only, -⟩ | ⟨c, msg, rfl, handled⟩
  · intro s
    rw [entries, only.storage]
    exact h s
  · exact h.handled own handled

/-! ## Operations on a connection of the group -/

omit [DecidableEq κ] in
theorem restrict_conn {c : κ} (member : G c = true) (srv : FileServer κ) :
    (srv.restrict G).conn c = srv.conn c := if_pos member

theorem restrict_update {c : κ} (member : G c = true) (conn : κ → Link EMessageType)
    (l : Link EMessageType) :
    (fun d => if G d then Function.update conn c l d else {}) =
      Function.update (fun d => if G d then conn d else {}) c l := by
  funext d
  rcases eq_or_ne d c with rfl | ne
  · rw [if_pos member, Function.update_self, Function.update_self]
  · rw [Function.update_of_ne ne, Function.update_of_ne ne]

theorem restrict_update_of_other {c : κ} (other : G c = false) (conn : κ → Link EMessageType)
    (l : Link EMessageType) :
    (fun d => if G d then Function.update conn c l d else {}) =
      fun d => if G d then conn d else {} := by
  funext d
  rcases eq_or_ne d c with rfl | ne
  · rw [other]
    rfl
  · rw [Function.update_of_ne ne]

theorem restrict_withConn {c : κ} (member : G c = true) (srv : FileServer κ)
    (l : Link EMessageType) :
    (srv.withConn c l).restrict G = (srv.restrict G).withConn c l := by
  unfold withConn restrict
  rw [restrict_update member]

theorem restrict_send {c : κ} (member : G c = true) (srv : FileServer κ) (msg : Message) :
    (srv.restrict G).send c msg = ((srv.send c msg).1, (srv.send c msg).2.restrict G) := by
  have commutes := restrict_withConn member srv ((srv.conn c).send msg).2
  unfold send
  rw [restrict_conn member]
  exact Prod.ext rfl commutes.symm

theorem restrict_post {c : κ} (member : G c = true) (srv : FileServer κ) (msg : Message) :
    (srv.post c msg).restrict G = (srv.restrict G).post c msg := by
  unfold post
  rw [restrict_send member]

theorem restrict_removeSession {s : κ} (member : G s = true) (srv : FileServer κ) :
    (srv.removeSession s).restrict G = (srv.restrict G).removeSession s := by
  unfold removeSession
  rw [restrict_conn member, restrict, restrict_update member]
  simp only [ClientStorage.restrict, ClientStorage.eraseSession, Dict.restrict_erase,
    Bimap.restrict_eraseLeft]
  rfl

theorem restrict_removePendingSender (srv : FileServer κ) (s : κ) :
    (srv.removePendingSender s).restrict G = (srv.restrict G).removePendingSender s := by
  simp only [removePendingSender, restrict, ClientStorage.restrict,
    ClientStorage.removePendingSender, Dict.restrict_erase, Bimap.restrict_eraseLeft]

theorem restrict_dropSender {s : κ} (member : G s = true) (srv : FileServer κ) :
    (srv.dropSender s).restrict G = (srv.restrict G).dropSender s := by
  unfold dropSender
  rw [restrict_removeSession member, restrict_removePendingSender]

/-! ## Lookups by the group -/

omit [DecidableEq κ] in
theorem restrict_session {s : κ} (member : G s = true) (srv : FileServer κ) :
    (srv.restrict G).m_storage.getSessionBySender s = srv.m_storage.getSessionBySender s :=
  if_pos member

omit [DecidableEq κ] in
theorem restrict_context {s : κ} (member : G s = true) (srv : FileServer κ) :
    (srv.restrict G).m_storage.getContextBySender s = srv.m_storage.getContextBySender s :=
  if_pos member

omit [DecidableEq κ] in
theorem restrict_entries {c : κ} (member : G c = true) (srv : FileServer κ) :
    (srv.restrict G).entries c = srv.entries c := by
  simp only [entries, ClientStorage.entriesOf, restrict, ClientStorage.restrict, Bimap.restrict,
    Dict.restrict, if_pos member]

omit [DecidableEq κ] in
theorem Apart.restrict_code {srv : FileServer κ} (h : Apart G P srv) {code : List UInt8}
    (ours : P code = true) :
    (srv.restrict G).m_storage.getSenderByCode code = srv.m_storage.getSenderByCode code :=
  Bimap.right_restrict fun _ known => (h.owner_of_code known).symm.trans ours

omit [DecidableEq κ] in
theorem Apart.restrict_receiver {srv : FileServer κ} (h : Apart G P srv) {r : κ}
    (member : G r = true) :
    (srv.restrict G).m_storage.getSenderByReceiver r = srv.m_storage.getSenderByReceiver r :=
  Bimap.right_restrict fun _ paired => (h.owner_of_receiver paired).symm.trans member

/-! ## The handlers of the group -/

theorem Apart.restrict_abortSink {srv : FileServer κ} (h : Apart G P srv) {s : κ}
    (member : G s = true) : (srv.abortSink s).restrict G = (srv.restrict G).abortSink s := by
  have same : (srv.restrict G).m_storage.m_sessions s = srv.m_storage.m_sessions s :=
    restrict_session member srv
  unfold abortSink
  rw [same]
  cases found : srv.m_storage.m_sessions s with
  | none => rfl
  | some session => exact restrict_post (((h s).session session found).trans member) srv _

theorem Apart.restrict_removeSessionAbruptly {srv : FileServer κ} (h : Apart G P srv) {s : κ}
    (member : G s = true) :
    (srv.removeSessionAbruptly s).restrict G = (srv.restrict G).removeSessionAbruptly s := by
  rw [removeSessionAbruptly_eq, removeSessionAbruptly_eq, restrict_dropSender member,
    h.restrict_abortSink member]

theorem restrict_register {c : κ} (member : G c = true) (st : ClientStorage κ)
    (pre : PreMetadata) (own : ∀ s, st.getSenderByCode pre.code_phrase.code = some s → G s = true) :
    (st.addPendingSender c m_max_chunk_size pre).restrict G =
      (st.restrict G).addPendingSender c m_max_chunk_size pre := by
  simp only [ClientStorage.addPendingSender, ClientStorage.restrict,
    Dict.restrict_insert member, Bimap.restrict_insert member own]

theorem restrict_addSession {s r : κ} (member : G s = true) (st : ClientStorage κ)
    (own : ∀ t, st.getSenderByReceiver r = some t → G t = true)
    (session : ServerOneToOneRetranslatorSession κ) :
    (st.addSession s r session).restrict G = (st.restrict G).addSession s r session := by
  simp only [ClientStorage.addSession, ClientStorage.restrict, Dict.restrict_insert member,
    Bimap.restrict_insert member own]

omit [DecidableEq κ] in
theorem Apart.congr {srv srv' : FileServer κ} (h : Apart G P srv)
    (same : srv'.m_storage = srv.m_storage) : Apart G P srv' := by
  intro s
  rw [entries, same]
  exact h s

theorem restrict_relay {session : ServerOneToOneRetranslatorSession κ}
    (member : G session.m_sink = true) (srv : FileServer κ) (msg : Message) :
    (srv.restrict G).relay session msg =
      ((srv.relay session msg).1, (srv.relay session msg).2.restrict G) := by
  unfold relay
  split
  · exact restrict_send member srv msg
  · rfl

theorem relay_storage (srv : FileServer κ) (session : ServerOneToOneRetranslatorSession κ)
    (msg : Message) : (srv.relay session msg).2.m_storage = srv.m_storage := by
  unfold relay
  split <;> rfl

theorem Apart.restrict_onSessionedMessage {srv : FileServer κ} (h : Apart G P srv) {c : κ}
    (member : G c = true) {session : ServerOneToOneRetranslatorSession κ}
    (found : srv.m_storage.m_sessions c = some session) (msg : Message) :
    (srv.restrict G).onSessionedMessage c session msg =
      (srv.onSessionedMessage c session msg).restrict G := by
  have sink : G session.m_sink = true := ((h c).session session found).trans member
  have ends := (h.restrict_removeSessionAbruptly member).symm
  unfold onSessionedMessage
  rw [restrict_relay sink]
  split
  · rfl
  split
  · split
    · exact ends
    · dsimp only
      split
      · rfl
      · have same : Apart G P (srv.relay session msg).2 := h.congr (relay_storage srv session msg)
        exact (same.restrict_removeSessionAbruptly member).symm
  · exact ends

theorem known_of_removed {st : ClientStorage κ} {a s : κ} {code : List UInt8}
    (known : (st.removePendingSender a).getSenderByCode code = some s) :
    st.getSenderByCode code = some s := by
  have lookup : (st.removePendingSender a).getSenderByCode code =
      if st.getSenderByCode code = some a then none else st.getSenderByCode code :=
    st.m_pending_phrase_senders.right_eraseLeft a code
  rw [lookup] at known
  split at known
  · cases known
  · exact known

theorem Apart.restrict_onSendEstablishment {srv : FileServer κ} (h : Apart G P srv) {c : κ}
    (member : G c = true) {msg : Message} (kind : msg.header.id = .Send)
    (own : ∀ code, carriedCode msg = some code → P code = G c)
    (free : srv.m_storage.m_sessions c = none) :
    (srv.restrict G).onSendEstablishment c msg =
      (srv.onSendEstablishment c msg).map fun srv => srv.restrict G := by
  have free' : (srv.restrict G).m_storage.m_sessions c = none :=
    (restrict_session member srv).trans free
  have unsessioned : (srv.removePendingSender c).m_storage.getSessionBySender c = none := free
  have unsessioned' :
      ((srv.restrict G).removePendingSender c).m_storage.getSessionBySender c = none := free'
  unfold onSendEstablishment
  cases decoded : decode .Send msg with
  | none => rfl
  | some popped =>
      obtain ⟨pre, rest⟩ := popped
      have ours : P pre.code_phrase.code = true :=
        (own _ (Transfer.carriedCode_of_send kind decoded)).trans member
      have removed : ((srv.restrict G).removePendingSender c).m_storage =
          (srv.m_storage.removePendingSender c).restrict G :=
        congrArg FileServer.m_storage (restrict_removePendingSender srv c).symm
      have registers :=
        restrict_register member (srv.m_storage.removePendingSender c) pre fun s known =>
          (h.owner_of_code (known_of_removed known)).symm.trans ours
      simp only [Option.bind_eq_bind, Option.bind_some, unsessioned, unsessioned',
        Option.map_some]
      rw [removed, ← registers]
      rfl

theorem Apart.restrict_onReceiveEstablishment {srv : FileServer κ} (h : Apart G P srv) {c : κ}
    (member : G c = true) {msg : Message} (kind : msg.header.id = .RequestReceive)
    (own : ∀ code, carriedCode msg = some code → P code = G c) :
    (srv.restrict G).onReceiveEstablishment c msg =
      (srv.onReceiveEstablishment c msg).map fun srv => srv.restrict G := by
  unfold onReceiveEstablishment
  cases decoded : decode .RequestReceive msg with
  | none => rfl
  | some popped =>
      obtain ⟨request, rest⟩ := popped
      have ours : P request.code_phrase.code = true :=
        (own _ (Transfer.carriedCode_of_request kind decoded)).trans member
      simp only [Option.bind_eq_bind, Option.bind_some, h.restrict_code ours]
      cases known : srv.m_storage.getSenderByCode request.code_phrase.code with
      | none => exact congrArg some (restrict_post member srv _).symm
      | some s =>
          have met : G s = true := (h.owner_of_code known).symm.trans ours
          dsimp only
          rw [restrict_context met]
          cases found : srv.m_storage.getContextBySender s with
          | none => exact congrArg some (restrict_post member srv _).symm
          | some context => exact congrArg some (restrict_post member srv _).symm

theorem Apart.restrict_establishTransmissionSession {srv : FileServer κ} (h : Apart G P srv)
    {c : κ} (member : G c = true) {msg : Message} (kind : msg.header.id = .Receive)
    (own : ∀ code, carriedCode msg = some code → P code = G c) :
    (srv.restrict G).establishTransmissionSession c msg =
      (srv.establishTransmissionSession c msg).map fun srv => srv.restrict G := by
  unfold establishTransmissionSession
  cases decoded : decode .Receive msg with
  | none => rfl
  | some popped =>
      obtain ⟨request, rest⟩ := popped
      have ours : P request.code = true :=
        (own _ (Transfer.carriedCode_of_receive kind decoded)).trans member
      simp only [Option.bind_eq_bind, Option.bind_some, h.restrict_code ours]
      cases known : srv.m_storage.getSenderByCode request.code with
      | none => exact congrArg some (restrict_post member srv _).symm
      | some s =>
          have met : G s = true := (h.owner_of_code known).symm.trans ours
          dsimp only
          rw [restrict_context met]
          cases found : srv.m_storage.getContextBySender s with
          | none => exact congrArg some (h.restrict_removeSessionAbruptly met).symm
          | some context =>
              have pairs := restrict_addSession (r := c) met srv.m_storage
                (fun t paired => (h.owner_of_receiver paired).symm.trans member)
                (newSession context c)
              have posts := restrict_post met
                { srv with m_storage := srv.m_storage.addSession s c (newSession context c) }
                (encode .Accept context.post_metadata)
              have opens : ({ srv with
                    m_storage := srv.m_storage.addSession s c (newSession context c) } :
                  FileServer κ).restrict G =
                  { srv.restrict G with
                    m_storage := (srv.restrict G).m_storage.addSession s c
                      (newSession context c) } :=
                congrArg (fun st => { srv.restrict G with m_storage := st }) pairs
              rw [opens] at posts
              exact congrArg some posts.symm

theorem Apart.restrict_finishSession {srv : FileServer κ} (h : Apart G P srv) {c : κ}
    (member : G c = true) :
    (srv.restrict G).finishSession c = (srv.finishSession c).restrict G := by
  unfold finishSession
  rw [h.restrict_receiver member]
  cases paired : srv.m_storage.getSenderByReceiver c with
  | none => rfl
  | some s =>
      have met : G s = true := (h.owner_of_receiver paired).symm.trans member
      dsimp only
      rw [restrict_removeSession met, restrict_removePendingSender, restrict_post met]

/-- **The group's own messages.** -/
theorem Apart.restrict_onMessage {srv : FileServer κ} (h : Apart G P srv) {c : κ}
    (member : G c = true) {msg : Message}
    (own : ∀ code, carriedCode msg = some code → P code = G c) :
    (srv.restrict G).onMessage c msg =
      (srv.onMessage c msg).map fun srv => srv.restrict G := by
  unfold onMessage
  rw [restrict_session member]
  cases found : srv.m_storage.getSessionBySender c with
  | some session => exact congrArg some (h.restrict_onSessionedMessage member found msg)
  | none =>
      dsimp only
      split
      · rename_i kind
        exact h.restrict_onSendEstablishment member kind own found
      split
      · rename_i kind
        exact h.restrict_onReceiveEstablishment member kind own
      split
      · rename_i kind
        exact h.restrict_establishTransmissionSession member kind own
      split
      · exact congrArg some (h.restrict_finishSession member)
      split
      · rw [h.restrict_receiver member]
        cases paired : srv.m_storage.getSenderByReceiver c with
        | none => rfl
        | some s =>
            have met : G s = true := (h.owner_of_receiver paired).symm.trans member
            exact congrArg some (h.restrict_removeSessionAbruptly met).symm
      · rfl

/-! ## Operations on the others -/

theorem restrict_withConn_of_other {c : κ} (other : G c = false) (srv : FileServer κ)
    (l : Link EMessageType) : (srv.withConn c l).restrict G = srv.restrict G := by
  unfold withConn restrict
  rw [restrict_update_of_other other]

theorem restrict_post_of_other {c : κ} (other : G c = false) (srv : FileServer κ)
    (msg : Message) : (srv.post c msg).restrict G = srv.restrict G :=
  restrict_withConn_of_other other srv _

theorem restrict_dropSender_of_other {s : κ} (other : G s = false) (srv : FileServer κ) :
    (srv.dropSender s).restrict G = srv.restrict G := by
  unfold dropSender removeSession removePendingSender restrict
  rw [restrict_update_of_other other]
  simp only [ClientStorage.restrict, ClientStorage.eraseSession,
    ClientStorage.removePendingSender, Dict.restrict_erase, Bimap.restrict_eraseLeft,
    Dict.restrict_erase_of_other other, Bimap.eraseLeft_of_other other]

theorem Apart.restrict_removeSessionAbruptly_of_other {srv : FileServer κ} (h : Apart G P srv)
    {s : κ} (other : G s = false) :
    (srv.removeSessionAbruptly s).restrict G = srv.restrict G := by
  rw [removeSessionAbruptly_eq, restrict_dropSender_of_other other]
  unfold abortSink
  split
  · rename_i session found
    exact restrict_post_of_other (((h s).session session found).trans other) srv _
  · rfl

/-- **Everybody else's messages.** -/
theorem Apart.restrict_handled_of_other {srv srv' : FileServer κ} (h : Apart G P srv) {c : κ}
    (other : G c = false) {msg : Message}
    (own : ∀ code, carriedCode msg = some code → P code = G c) (step : Handled srv c msg srv') :
    srv'.restrict G = srv.restrict G := by
  cases step with
  | relayed session found relays =>
      exact restrict_post_of_other (((h c).session session found).trans other) srv msg
  | aborted session found ends => exact h.restrict_removeSessionAbruptly_of_other other
  | registered pre rest free kind decoded =>
      unfold restrict
      simp only [ClientStorage.restrict, ClientStorage.addPendingSender,
        ClientStorage.removePendingSender, Dict.restrict_insert_of_other other,
        Bimap.restrict_insert_of_other other, Dict.restrict_erase, Bimap.restrict_eraseLeft,
        Dict.restrict_erase_of_other other, Bimap.eraseLeft_of_other other]
  | refused request rest free kind decoded unknown => exact restrict_post_of_other other srv _
  | offered request rest s context free kind decoded known found =>
      exact restrict_post_of_other other srv _
  | turnedAway request rest free kind decoded unknown => exact restrict_post_of_other other srv _
  | stranded request rest s free kind decoded known none =>
      have code := own _ (Transfer.carriedCode_of_receive kind decoded)
      exact h.restrict_removeSessionAbruptly_of_other
        ((h.owner_of_code known).symm.trans (code.trans other))
  | opened request rest s context free kind decoded known found =>
      have code := own _ (Transfer.carriedCode_of_receive kind decoded)
      have outside : G s = false := (h.owner_of_code known).symm.trans (code.trans other)
      rw [restrict_post_of_other outside]
      unfold restrict
      simp only [ClientStorage.restrict, ClientStorage.addSession,
        Dict.restrict_insert_of_other outside, Bimap.restrict_insert_of_other outside]
  | finished s free kind paired =>
      have outside : G s = false := (h.owner_of_receiver paired).symm.trans other
      rw [restrict_dropSender_of_other outside, restrict_post_of_other outside]
  | failed s free kind paired =>
      exact h.restrict_removeSessionAbruptly_of_other
        ((h.owner_of_receiver paired).symm.trans other)
  | ignored => rfl

/-! ## The projection to the group -/

theorem Apart.restrict_step {srv : FileServer κ} (h : Apart G P srv) {e : Event κ}
    (own : e.Apart G P) (member : G e.client = true) :
    (srv.restrict G).step e = (srv.step e).map fun srv => srv.restrict G := by
  cases e with
  | message c msg =>
      have member : G c = true := member
      simp only [FileServer.step]
      rw [restrict_conn member]
      split
      · exact h.restrict_onMessage member own
      · rfl
  | accept c | validate c | close c =>
      have member : G c = true := member
      simp only [FileServer.step]
      rw [restrict_conn member]
      split
      · exact congrArg some (restrict_withConn member srv _).symm
      · rfl

theorem Apart.restrict_step_of_other {srv srv' : FileServer κ} (h : Apart G P srv) {e : Event κ}
    (own : e.Apart G P) (other : G e.client = false) (step : srv.step e = some srv') :
    srv'.restrict G = srv.restrict G := by
  cases e with
  | message c msg =>
      obtain ⟨-, handled⟩ := step_message step
      exact h.restrict_handled_of_other other own (onMessage_handled handled)
  | accept c | validate c | close c =>
      simp only [FileServer.step] at step
      split at step <;> cases step
      exact restrict_withConn_of_other other srv _

theorem projects (G : κ → Bool) (P : List UInt8 → Bool) :
    (lts κ).Projects (lts κ) (fun srv => srv.restrict G) (fun e => G e.client)
      (Event.Apart G P) (Apart G P) where
  start := .absent
  init := by
    have conn : (fun c => if G c then ({} : Link EMessageType) else {}) = fun _ : κ => {} :=
      funext fun _ => ite_self _
    change (⟨({} : ClientStorage κ).restrict G, fun c => if G c then {} else {}⟩ :
      FileServer κ) = {}
    rw [conn, ClientStorage.restrict_start]
  keeps := fun _ _ _ h own step => h.step own step
  kept := fun _ _ h own member => h.restrict_step own member
  forgotten := fun _ _ _ h own other step => h.restrict_step_of_other own other step

/-- **Groups do not interfere.**  The events of the group are themselves a run.  It leaves every
connection of the group, and everything the server stores for it, as they are after the whole run,
and the same events of the group can follow. -/
theorem groups_do_not_interfere {es : List (Event κ)} {srv : FileServer κ}
    (apart : ∀ e ∈ es, e.Apart G P) (run : (lts κ).run es = some srv) :
    ∃ alone, (lts κ).run (es.filter fun e => G e.client) = some alone ∧
      (∀ c, G c = true → alone.entries c = srv.entries c ∧ alone.conn c = srv.conn c) ∧
      ∀ e, e.Apart G P → G e.client = true → (alone.step e).isSome = (srv.step e).isSome := by
  obtain ⟨inv, filtered⟩ := (projects G P).run apart run
  refine ⟨srv.restrict G, filtered, fun c member => ⟨?_, restrict_conn member srv⟩, ?_⟩
  · exact restrict_entries member srv
  · intro e own member
    rw [inv.restrict_step own member, Option.isSome_map]

/-- Clients 0 and 1 meet under one code while clients 2 and 3 do under another. -/
def twoPairsEvents : List (Event Nat) :=
  [.accept 2, .validate 2, .message 2 ⟨encode .Send ⟨.File, ⟨1, [9]⟩, ⟨3, 1, [8]⟩⟩,
    other_send_framed⟩] ++ pairingEvents ++
  [.accept 3, .validate 3, .message 3 ⟨encode .Receive ⟨1, [9]⟩, other_receive_framed⟩]

def twoPairs : FileServer Nat := ((lts Nat).run twoPairsEvents).get (by decide +kernel)

/-- The first pair is as it is without the second. -/
theorem groups_do_not_interfere_pairs :
    onePair.entries 0 = twoPairs.entries 0 ∧ onePair.conn 1 = twoPairs.conn 1 := by
  have apart : ∀ e ∈ twoPairsEvents, e.Apart (fun c => c < 2) (fun code => code = [7]) := by
    decide +kernel
  obtain ⟨alone, run, same, -⟩ := groups_do_not_interfere apart (Option.some_get _).symm
  have filtered : twoPairsEvents.filter (fun e => e.client < 2) = pairingEvents := rfl
  rw [filtered] at run
  have pair : onePair = alone := Option.some.inj ((Option.some_get _).trans run)
  rw [pair]
  exact ⟨(same 0 rfl).1, (same 1 rfl).2⟩

end FileServer

end PingPong
