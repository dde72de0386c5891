import PingPong.Client.Rebuilding
import PingPong.System.Transfer
import PingPong.Server.Emission
import PingPong.Server.Isolation

/-!
# The server during a transfer

What the server does with the messages of the two clients, whatever it does with the others'.

* `Conforms`: what a message of each client may be.  Only the sender registers the phrase, and only
  the receiver asks for it.
* `StoreInv`: the phrase is never anybody else's, and the two clients are only ever paired with each
  other.  `StoreInv.handled`: every message that conforms keeps it.
* `Traffic`: what has been relayed to the receiver is a prefix of the sender's messages after the
  announcement, and all of them while there is a session and the receiver's socket is not closed.
  `Success` is only sent for the receiver's third message.
-/

namespace PingPong.Transfer

open Common Net FileServer

variable {κ : Type} [DecidableEq κ] {x : Transfer κ}

/-! ## What each client sends -/

structure Conforms (x : Transfer κ) (c : κ) (msg : Message) : Prop where
  sender : c = x.s →
    msg.header.id = .Send ∨ msg.header.id = .Chunk ∨ msg.header.id = .FinalChunk
  receiver : c = x.r → msg.header.id = .RequestReceive ∨ msg.header.id = .Receive ∨
    msg.header.id = .FinishReceive
  phrase : ∀ code, carriedCode msg = some code → (code = x.phrase ↔ c = x.s ∨ c = x.r)

theorem carriedCode_of_send {msg rest : Message} {pre : PreMetadata}
    (kind : msg.header.id = .Send) (decoded : decode .Send msg = some (pre, rest)) :
    carriedCode msg = some pre.code_phrase.code := by
  unfold carriedCode
  rw [kind]
  dsimp only
  rw [decoded]
  rfl

theorem carriedCode_of_request {msg rest : Message} {pre : PreMetadata}
    (kind : msg.header.id = .RequestReceive)
    (decoded : decode .RequestReceive msg = some (pre, rest)) :
    carriedCode msg = some pre.code_phrase.code := by
  unfold carriedCode requestedCode
  rw [kind]
  dsimp only
  rw [decoded]
  rfl

theorem carriedCode_of_receive {msg rest : Message} {request : CodePhrase}
    (kind : msg.header.id = .Receive) (decoded : decode .Receive msg = some (request, rest)) :
    carriedCode msg = some request.code := by
  unfold carriedCode requestedCode
  rw [kind]
  dsimp only
  rw [decoded]
  rfl

omit [DecidableEq κ] in
theorem Conforms.not_sender {c : κ} {msg : Message} (h : Conforms x c msg)
    (send : msg.header.id ≠ .Send) (chunk : msg.header.id ≠ .Chunk)
    (final : msg.header.id ≠ .FinalChunk) : c ≠ x.s := by
  intro same
  rcases h.sender same with kind | kind | kind
  · exact send kind
  · exact chunk kind
  · exact final kind

omit [DecidableEq κ] in
theorem Conforms.not_receiver {c : κ} {msg : Message} (h : Conforms x c msg)
    (request : msg.header.id ≠ .RequestReceive) (receive : msg.header.id ≠ .Receive)
    (finish : msg.header.id ≠ .FinishReceive) : c ≠ x.r := by
  intro same
  rcases h.receiver same with kind | kind | kind
  · exact request kind
  · exact receive kind
  · exact finish kind

/-- A third party's message, from what `permits` allows. -/
theorem conforms_of_permits {c : κ} {msg : WireMessage} (h : x.permits (.message c msg)) :
    Conforms x c msg.1 := by
  simp only [permits, Bool.and_eq_true, decide_eq_true_eq] at h
  obtain ⟨⟨notSender, notReceiver⟩, notPhrase⟩ := h
  refine ⟨fun same => (notSender same).elim, fun same => (notReceiver same).elim, ?_⟩
  intro code carried
  refine iff_of_false (fun same => ?_) (not_or.mpr ⟨notSender, notReceiver⟩)
  rw [carried, same] at notPhrase
  exact notPhrase rfl

/-! ## The store -/

structure StoreInv (x : Transfer κ) (srv : FileServer κ) : Prop where
  inv : srv.Inv
  registered : ∀ c, (srv.entries c).phrase = some x.phrase → c = x.s
  own : ∀ code, (srv.entries x.s).phrase = some code → code = x.phrase
  receiver : srv.entries x.r = .absent
  sinks : ∀ c t, (srv.entries c).session = some t →
    t.m_sink ≠ x.s ∧ (t.m_sink = x.r ↔ c = x.s)
  pairs : ∀ c d, (srv.entries c).pairing = some d → (d = x.r ↔ c = x.s)

omit [DecidableEq κ] in
theorem StoreInv.start : StoreInv x {} where
  inv := fun _ => .absent
  registered := fun _ h => by cases h
  own := fun _ h => by cases h
  receiver := rfl
  sinks := fun _ _ h => by cases h
  pairs := fun _ _ h => by cases h

omit [DecidableEq κ] in
theorem StoreInv.congr {srv srv' : FileServer κ} (h : StoreInv x srv)
    (same : srv'.m_storage = srv.m_storage) : StoreInv x srv' := by
  obtain ⟨inv, registered, own, receiver, sinks, pairs⟩ := h
  unfold FileServer.Inv entries at *
  rw [← same] at inv registered own receiver sinks pairs
  exact ⟨inv, registered, own, receiver, sinks, pairs⟩

omit [DecidableEq κ] in
/-- Dropping a sender only takes entries away. -/
theorem StoreInv.dropped {srv srv' : FileServer κ} (h : StoreInv x srv) (inv : srv'.Inv) {t : κ}
    (drops : OnlyDrops srv srv' t) : StoreInv x srv' := by
  have cases : ∀ c, srv'.entries c = .absent ∨ srv'.entries c = srv.entries c := by
    intro c
    rcases eq_or_ne c t with rfl | ne
    · exact Or.inl drops.1
    · exact Or.inr (drops.2 c ne)
  refine ⟨inv, fun c held => ?_, fun code held => ?_, ?_, fun c y held => ?_,
    fun c d held => ?_⟩
  · rcases cases c with gone | same
    · rw [gone] at held
      cases held
    · rw [same] at held
      exact h.registered c held
  · rcases cases x.s with gone | same
    · rw [gone] at held
      cases held
    · rw [same] at held
      exact h.own code held
  · rcases cases x.r with gone | same
    · exact gone
    · exact same.trans h.receiver
  · rcases cases c with gone | same
    · rw [gone] at held
      cases held
    · rw [same] at held
      exact h.sinks c y held
  · rcases cases c with gone | same
    · rw [gone] at held
      cases held
    · rw [same] at held
      exact h.pairs c d held

omit [DecidableEq κ] in
/-- The sender that a `Receive` resolves to is ours just when the receiver is. -/
theorem StoreInv.resolves {srv : FileServer κ} (h : StoreInv x srv) {c t : κ} {msg rest : Message}
    {request : CodePhrase} (conforms : Conforms x c msg) (kind : msg.header.id = .Receive)
    (decoded : decode .Receive msg = some (request, rest))
    (known : srv.m_storage.getSenderByCode request.code = some t) :
    c ≠ x.s ∧ t ≠ x.r ∧ (c = x.r ↔ t = x.s) := by
  have notSender : c ≠ x.s := by
    apply conforms.not_sender <;> rw [kind] <;> exact EMessageType.noConfusion
  have phrase : (srv.entries t).phrase = some request.code :=
    ClientStorage.getSenderByCode_iff.mp known
  have carried := conforms.phrase _ (carriedCode_of_receive kind decoded)
  refine ⟨notSender, ?_, fun same => ?_, fun same => ?_⟩
  · intro same
    obtain rfl := same
    rw [h.receiver] at phrase
    cases phrase
  · apply h.registered
    rw [phrase, carried.mpr (Or.inr same)]
  · rw [same] at phrase
    rcases carried.mp (h.own _ phrase) with sender | receiver
    · exact (notSender sender).elim
    · exact receiver

/-- Registering a phrase. -/
theorem StoreInv.register {srv srv' : FileServer κ} (h : StoreInv x srv) (inv : srv'.Inv) {c : κ}
    {pre : PreMetadata} (notReceiver : c ≠ x.r)
    (phrase : pre.code_phrase.code = x.phrase ↔ c = x.s)
    (storage : srv'.m_storage =
      (srv.m_storage.removePendingSender c).addPendingSender c m_max_chunk_size pre) :
    StoreInv x srv' := by
  have self : ∃ held, srv'.entries c = { srv.entries c with
      phrase := held, context := some (ClientStorage.announce m_max_chunk_size pre) } ∧
      (held = some pre.code_phrase.code ∨ held = none) := by
    rcases Classical.em (srv.m_storage.FreeFor c pre.code_phrase.code) with free | taken
    · refine ⟨_, ?_, Or.inl rfl⟩
      rw [entries, storage]
      exact ClientStorage.entriesOf_register_self (Or.inl ⟨free, rfl⟩)
    · refine ⟨_, ?_, Or.inr rfl⟩
      rw [entries, storage]
      exact ClientStorage.entriesOf_register_self (Or.inr ⟨taken, rfl⟩)
  obtain ⟨held, self, which⟩ := self
  have others : ∀ d, d ≠ c → srv'.entries d = srv.entries d := by
    intro d ne
    rw [entries, storage]
    exact ClientStorage.entriesOf_register_of_ne ne
  have kept : ∀ d, (srv'.entries d).session = (srv.entries d).session ∧
      (srv'.entries d).pairing = (srv.entries d).pairing := by
    intro d
    rcases eq_or_ne d c with rfl | ne
    · rw [self]
      exact ⟨rfl, rfl⟩
    · rw [others d ne]
      exact ⟨rfl, rfl⟩
  refine ⟨inv, fun d owns => ?_, fun code owns => ?_, ?_, fun d y has => ?_, fun d e has => ?_⟩
  · rcases eq_or_ne d c with rfl | ne
    · rw [self] at owns
      rcases which with rfl | rfl
      · exact phrase.mp (Option.some.inj owns)
      · cases owns
    · rw [others d ne] at owns
      exact h.registered d owns
  · rcases eq_or_ne x.s c with same | ne
    · rw [same, self] at owns
      rcases which with rfl | rfl
      · rw [← Option.some.inj owns]
        exact phrase.mpr same.symm
      · cases owns
    · rw [others x.s ne] at owns
      exact h.own code owns
  · rw [others x.r notReceiver.symm]
    exact h.receiver
  · rw [(kept d).1] at has
    exact h.sinks d y has
  · rw [(kept d).2] at has
    exact h.pairs d e has

/-- Opening a session. -/
theorem StoreInv.opened {srv srv' : FileServer κ} (h : StoreInv x srv) (inv : srv'.Inv) {c t : κ}
    {session : ServerOneToOneRetranslatorSession κ} (sink : session.m_sink = c)
    (resolves : c ≠ x.s ∧ t ≠ x.r ∧ (c = x.r ↔ t = x.s))
    (storage : srv'.m_storage = srv.m_storage.addSession t c session) : StoreInv x srv' := by
  obtain ⟨notSender, notReceiver, ours⟩ := resolves
  have self : srv'.entries t = (srv.m_storage.addSession t c session).entriesOf t := by
    rw [entries, storage]
  rw [ClientStorage.entriesOf_addSession_self] at self
  have others : ∀ d, d ≠ t → srv'.entries d = srv.entries d := by
    intro d ne
    rw [entries, storage]
    exact ClientStorage.entriesOf_addSession_of_ne ne
  have phrases : ∀ d, (srv'.entries d).phrase = (srv.entries d).phrase := by
    intro d
    rcases eq_or_ne d t with rfl | ne
    · rw [self]
    · rw [others d ne]
  refine ⟨inv, fun d owns => ?_, fun code owns => ?_, ?_, fun d y has => ?_, fun d e has => ?_⟩
  · rw [phrases d] at owns
    exact h.registered d owns
  · rw [phrases x.s] at owns
    exact h.own code owns
  · rw [others x.r notReceiver.symm]
    exact h.receiver
  · rcases eq_or_ne d t with rfl | ne
    · rw [self] at has
      dsimp only at has
      split at has
      · cases has
        rw [sink]
        exact ⟨notSender, ours⟩
      · exact h.sinks d y has
    · rw [others d ne] at has
      exact h.sinks d y has
  · rcases eq_or_ne d t with rfl | ne
    · rw [self] at has
      dsimp only at has
      split at has
      · cases has
        exact ours
      · exact h.pairs d e has
    · rw [others d ne] at has
      exact h.pairs d e has

/-- **The store invariant is kept** by every message that conforms. -/
theorem StoreInv.handled {srv srv' : FileServer κ} (h : StoreInv x srv) {c : κ} {msg : Message}
    (conforms : Conforms x c msg) (step : Handled srv c msg srv') : StoreInv x srv' := by
  have inv : srv'.Inv := h.inv.handled step
  cases step with
  | relayed session found relays => exact h.congr rfl
  | aborted session found ends => exact h.dropped inv (removeSessionAbruptly_onlyDrops srv c)
  | registered pre rest free kind decoded =>
      have notReceiver : c ≠ x.r := by
        apply conforms.not_receiver <;> rw [kind] <;> exact EMessageType.noConfusion
      have phrase := conforms.phrase _ (carriedCode_of_send kind decoded)
      rw [or_iff_left notReceiver] at phrase
      exact h.register inv notReceiver phrase rfl
  | refused request rest free kind decoded unknown => exact h.congr rfl
  | offered request rest t context free kind decoded known found => exact h.congr rfl
  | turnedAway request rest free kind decoded unknown => exact h.congr rfl
  | stranded request rest t free kind decoded known none =>
      exact h.dropped inv (removeSessionAbruptly_onlyDrops srv t)
  | opened request rest t context free kind decoded known found =>
      have sink : (newSession context c).m_sink = c := rfl
      exact h.opened inv sink (h.resolves conforms kind decoded known) rfl
  | finished t free kind paired => exact h.dropped inv (post_dropSender_onlyDrops srv t _)
  | failed t free kind paired => exact h.dropped inv (removeSessionAbruptly_onlyDrops srv t)
  | ignored => exact h

/-! ## What a message does to the two connections -/

omit [DecidableEq κ] in
theorem fileMessages_sentTo_snoc {srv : FileServer κ} {d : κ} {msg : Message}
    (other : fileMessages [msg] = []) :
    fileMessages (srv.sentTo d ++ [msg]) = fileMessages (srv.sentTo d) := by
  rw [fileMessages_append, other, List.append_nil]

theorem post_files {srv : FileServer κ} {c d : κ} {msg : Message}
    (other : fileMessages [msg] = []) :
    fileMessages ((srv.post c msg).sentTo d) = fileMessages (srv.sentTo d) := by
  rw [post_sentTo]
  split
  · exact fileMessages_sentTo_snoc other
  · rfl

theorem removeSessionAbruptly_files (srv : FileServer κ) (t d : κ) :
    fileMessages ((srv.removeSessionAbruptly t).sentTo d) = fileMessages (srv.sentTo d) := by
  rw [removeSessionAbruptly_eq, dropSender_sentTo]
  unfold abortSink
  split
  · exact post_files rfl
  · rfl

/-- Nobody's session has the sender as its sink, so it is never told of an abort. -/
theorem StoreInv.abrupt_sentTo {srv : FileServer κ} (h : StoreInv x srv) (t : κ) :
    (srv.removeSessionAbruptly t).sentTo x.s = srv.sentTo x.s := by
  rw [removeSessionAbruptly_eq, dropSender_sentTo]
  unfold abortSink
  split
  · rename_i session found
    exact post_sentTo_of_ne (h.sinks t session found).1.symm
  · rfl

/-- A step that relays nothing to the receiver, answers nothing to the sender, and gives the sender
neither session nor pairing. -/
structure Aside (x : Transfer κ) (srv srv' : FileServer κ) : Prop where
  answers : srv'.sentTo x.s = srv.sentTo x.s
  files : fileMessages (srv'.sentTo x.r) = fileMessages (srv.sentTo x.r)
  session : ∀ t, (srv'.entries x.s).session = some t → (srv.entries x.s).session = some t
  pairing : ∀ d, (srv'.entries x.s).pairing = some d → (srv.entries x.s).pairing = some d
  validated : (srv.conn x.r).m_validated → (srv'.conn x.r).m_validated
  connected : ((srv.conn x.r).m_validated → (srv.conn x.r).m_socket ≠ .absent) →
    (srv'.conn x.r).m_validated → (srv'.conn x.r).m_socket ≠ .absent
  closed : (srv.conn x.r).m_socket = .closed → (srv'.conn x.r).m_socket = .closed

omit [DecidableEq κ] in
theorem Aside.of_sameEnd {srv srv' : FileServer κ} (same : SameEnd srv srv' x.r)
    (answers : srv'.sentTo x.s = srv.sentTo x.s)
    (files : fileMessages (srv'.sentTo x.r) = fileMessages (srv.sentTo x.r))
    (session : ∀ t, (srv'.entries x.s).session = some t → (srv.entries x.s).session = some t)
    (pairing : ∀ d, (srv'.entries x.s).pairing = some d → (srv.entries x.s).pairing = some d) :
    Aside x srv srv' := by
  obtain ⟨validated, socket⟩ := same
  refine ⟨answers, files, session, pairing, ?_, ?_, ?_⟩
  · rw [validated]
    exact id
  · rw [validated, socket]
    exact id
  · rw [socket]
    exact id

/-- A message that is not part of a file, sent to somebody other than the sender. -/
theorem Aside.posted {srv : FileServer κ} {c : κ} {msg : Message} (ne : c ≠ x.s)
    (other : c = x.r → fileMessages [msg] = []) : Aside x srv (srv.post c msg) := by
  refine .of_sameEnd (post_sameEnd srv c x.r msg) (post_sentTo_of_ne ne.symm) ?_ (fun _ => id)
    fun _ => id
  rcases eq_or_ne x.r c with same | different
  · exact post_files (other same.symm)
  · rw [post_sentTo_of_ne different]

theorem StoreInv.abrupt_aside {srv : FileServer κ} (h : StoreInv x srv) (t : κ) :
    Aside x srv (srv.removeSessionAbruptly t) := by
  have entries : (srv.removeSessionAbruptly t).entries x.s = .absent ∨
      (srv.removeSessionAbruptly t).entries x.s = srv.entries x.s := by
    rcases eq_or_ne x.s t with same | ne
    · rw [same]
      exact Or.inl (removeSessionAbruptly_entries_self srv t)
    · exact Or.inr (removeSessionAbruptly_entries_of_ne ne)
  refine .of_sameEnd (removeSessionAbruptly_sameEnd srv t x.r) (h.abrupt_sentTo t)
    (removeSessionAbruptly_files srv t x.r) (fun y has => ?_) fun d has => ?_
  · rcases entries with gone | same
    · rw [gone] at has
      cases has
    · rw [same] at has
      exact has
  · rcases entries with gone | same
    · rw [gone] at has
      cases has
    · rw [same] at has
      exact has

/-- The state after the session of the transfer has been opened. -/
def openSession (x : Transfer κ) (srv : FileServer κ) (context : TransmissionContext) :
    FileServer κ :=
  FileServer.post
    { srv with m_storage := srv.m_storage.addSession x.s x.r (newSession context x.r) }
    x.s (encode .Accept context.post_metadata)

/-- Everything a message can come to, as far as the transfer is concerned. -/
inductive Outcome (x : Transfer κ) (srv : FileServer κ) (c : κ) (msg : Message) :
    FileServer κ → Prop
  | aside {srv' : FileServer κ} : Aside x srv srv' →
    (c = x.s → (srv'.entries x.s).session = none) → Outcome x srv c msg srv'
  | relayed (session : ServerOneToOneRetranslatorSession κ) : c = x.s →
    (srv.entries x.s).session = some session → session.m_sink = x.r → Relays srv session msg →
    Outcome x srv c msg (srv.post x.r msg)
  | opened (context : TransmissionContext) : c = x.r → msg.header.id = .Receive →
    Announced context → Outcome x srv c msg (x.openSession srv context)
  | finished : c = x.r → msg.header.id = .FinishReceive →
    Outcome x srv c msg ((srv.post x.s (encode .Success {})).dropSender x.s)

/-- **The spec of `onMessage` during a transfer.** -/
theorem StoreInv.outcome {srv srv' : FileServer κ} (h : StoreInv x srv) {c : κ} {msg : Message}
    (conforms : Conforms x c msg) (step : Handled srv c msg srv') : Outcome x srv c msg srv' := by
  cases step with
  | relayed session found relays =>
      obtain ⟨notSender, ours⟩ := h.sinks c session found
      rcases eq_or_ne c x.s with rfl | ne
      · have sink := ours.mpr rfl
        rw [sink]
        exact .relayed session rfl found sink relays
      · refine .aside (.posted notSender fun sink => ?_) fun same => (ne same).elim
        exact (ne (ours.mp sink)).elim
  | aborted session found ends =>
      refine .aside (h.abrupt_aside c) fun same => ?_
      rw [same, removeSessionAbruptly_entries_self]
      rfl
  | registered pre rest free kind decoded =>
      refine .aside (.of_sameEnd ⟨rfl, rfl⟩ rfl rfl (fun _ => id) fun _ => id) fun same => ?_
      rw [← same]
      exact free
  | refused request rest free kind decoded unknown =>
      have notSender : c ≠ x.s := by
        apply conforms.not_sender <;> rw [kind] <;> exact EMessageType.noConfusion
      exact .aside (.posted notSender fun _ => rfl) fun same => (notSender same).elim
  | offered request rest t context free kind decoded known found =>
      have notSender : c ≠ x.s := by
        apply conforms.not_sender <;> rw [kind] <;> exact EMessageType.noConfusion
      refine .aside (.posted notSender fun _ => ?_) fun same => (notSender same).elim
      apply fileMessages_of_other <;> rw [encode_id] <;> exact EMessageType.noConfusion
  | turnedAway request rest free kind decoded unknown =>
      have notSender : c ≠ x.s := by
        apply conforms.not_sender <;> rw [kind] <;> exact EMessageType.noConfusion
      exact .aside (.posted notSender fun _ => rfl) fun same => (notSender same).elim
  | stranded request rest t free kind decoded known none =>
      obtain ⟨notSender, -, -⟩ := h.resolves conforms kind decoded known
      exact .aside (h.abrupt_aside t) fun same => (notSender same).elim
  | opened request rest t context free kind decoded known found =>
      obtain ⟨notSender, notReceiver, ours⟩ := h.resolves conforms kind decoded known
      rcases eq_or_ne c x.r with rfl | ne
      · obtain rfl := ours.mp rfl
        exact .opened context rfl kind ((h.inv _).announced context found)
      · have other : x.s ≠ t := fun same => ne (ours.mpr same.symm)
        have kept : (srv.m_storage.addSession t c (newSession context c)).entriesOf x.s =
            srv.entries x.s := ClientStorage.entriesOf_addSession_of_ne other
        let added : FileServer κ :=
          { srv with m_storage := srv.m_storage.addSession t c (newSession context c) }
        have posted : Aside x added (added.post t (encode .Accept context.post_metadata)) :=
          .posted other.symm fun same => (notReceiver same).elim
        refine .aside (.of_sameEnd (post_sameEnd _ t x.r _) posted.answers posted.files
          (fun y has => ?_) fun d has => ?_) fun same => (notSender same).elim
        · change ((srv.m_storage.addSession t c (newSession context c)).entriesOf x.s).session =
            some y at has
          rw [kept] at has
          exact has
        · change ((srv.m_storage.addSession t c (newSession context c)).entriesOf x.s).pairing =
            some d at has
          rw [kept] at has
          exact has
  | finished t free kind paired =>
      have pairing : (srv.entries t).pairing = some c :=
        ClientStorage.getSenderByReceiver_iff.mp paired
      have ours := h.pairs t c pairing
      have notSender : c ≠ x.s := by
        apply conforms.not_sender <;> rw [kind] <;> exact EMessageType.noConfusion
      rcases eq_or_ne t x.s with rfl | ne
      · exact .finished (ours.mpr rfl) kind
      · have posted : Aside x srv (srv.post t (encode .Success {})) := .posted ne fun _ => rfl
        have kept : ((srv.post t (encode .Success {})).dropSender t).entries x.s =
            srv.entries x.s := dropSender_entries_of_ne ne.symm
        refine .aside (.of_sameEnd ((post_sameEnd srv t x.r _).trans (dropSender_sameEnd _ t x.r))
          ?_ ?_ (fun y has => ?_) fun d has => ?_) fun same => (notSender same).elim
        · rw [dropSender_sentTo]
          exact posted.answers
        · rw [dropSender_sentTo]
          exact posted.files
        · rw [kept] at has
          exact has
        · rw [kept] at has
          exact has
  | failed t free kind paired =>
      have notSender : c ≠ x.s := by
        apply conforms.not_sender <;> rw [kind] <;> exact EMessageType.noConfusion
      exact .aside (h.abrupt_aside t) fun same => (notSender same).elim
  | ignored free notSend notRequest notReceive unpaired =>
      refine .aside (.of_sameEnd ⟨rfl, rfl⟩ rfl rfl (fun _ => id) fun _ => id) fun same => ?_
      rw [← same]
      exact free

end PingPong.Transfer
