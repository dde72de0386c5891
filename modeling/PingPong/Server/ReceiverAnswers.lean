import PingPong.Server.Roles

/-!
# What the server sends to a receiver

`ReceiverInv` is what the four maps and the messages sent on a connection have to do with each other
as long as the connection keeps to the receiver's role; `receiver_answers` is what follows for the
messages: one answer, a part of a file, and at most one `Abort`.
-/

namespace PingPong

open Common Net

namespace FileServer

variable {κ : Type} [DecidableEq κ]

/-- One answer, `Chunk`s and `FinalChunk`s, and perhaps an `Abort`; or nothing at all. -/
def ReceiverAnswers (ids : List EMessageType) : Prop :=
  ids = [] ∨ ∃ answer files last, ids = answer :: (files ++ last) ∧
    (answer = .Accept ∨ answer = .Reject) ∧ (∀ id ∈ files, id = .Chunk ∨ id = .FinalChunk) ∧
    (last = [] ∨ last = [.Abort])

/-- One answer, and what has been relayed since. -/
def Answered (ids : List EMessageType) : Prop :=
  ∃ answer files, ids = answer :: files ∧ (answer = .Accept ∨ answer = .Reject) ∧
    ∀ id ∈ files, id = .Chunk ∨ id = .FinalChunk

/-- A receiver owns nothing, gets at most one session, and is told `Abort` only when it has none
(any more). -/
structure ReceiverInv (r : κ) (ids : List EMessageType) (srv : FileServer κ) : Prop where
  absent : srv.entries r = .absent
  one_sink : ∀ s t, srv.Sinks r s → srv.Sinks r t → s = t
  early : ids.length < 2 → (∀ s, ¬ srv.Sinks r s) ∧ (srv.idsTo r).length ≤ ids.length
  told : srv.idsTo r = [] ∨ Answered (srv.idsTo r) ∨
    ((∀ s, ¬ srv.Sinks r s) ∧ ∃ before, Answered before ∧ srv.idsTo r = before ++ [.Abort])
  sink_told : ∀ s, srv.Sinks r s → srv.idsTo r ≠ []
  answered : ids ≠ [] → srv.idsTo r ≠ [] ∨ (srv.conn r).m_socket = .closed

omit [DecidableEq κ] in
theorem ReceiverInv.answers {r : κ} {ids : List EMessageType} {srv : FileServer κ}
    (h : ReceiverInv r ids srv) : ReceiverAnswers (srv.idsTo r) := by
  rcases h.told with none | ⟨answer, files, told, first, kinds⟩ |
    ⟨-, before, ⟨answer, files, rfl, first, kinds⟩, told⟩
  · exact Or.inl none
  · exact Or.inr ⟨answer, files, [], by rw [told, List.append_nil], first, kinds, Or.inl rfl⟩
  · exact Or.inr ⟨answer, files, [.Abort], told, first, kinds, Or.inr rfl⟩

omit [DecidableEq κ] in
/-- Nothing is sent to the connection, which gets no session. -/
theorem ReceiverInv.quiet {r : κ} {ids : List EMessageType} {srv srv' : FileServer κ}
    (h : ReceiverInv r ids srv) (sent : srv'.idsTo r = srv.idsTo r)
    (closed : (srv.conn r).m_socket = .closed → (srv'.conn r).m_socket = .closed)
    (absent : srv'.entries r = .absent) (sinks : ∀ s, srv'.Sinks r s → srv.Sinks r s) :
    ReceiverInv r ids srv' where
  absent := absent
  one_sink s t hs ht := h.one_sink s t (sinks s hs) (sinks t ht)
  early short := by
    rw [sent]
    exact (h.early short).imp_left fun unsunk s sink => unsunk s (sinks s sink)
  told := by
    rw [sent]
    exact h.told.imp_right fun told =>
      told.imp_right fun ended => ⟨fun s sink => ended.1 s (sinks s sink), ended.2⟩
  sink_told s sink := by
    rw [sent]
    exact h.sink_told s (sinks s sink)
  answered some := by
    rw [sent]
    exact (h.answered some).imp_right closed

omit [DecidableEq κ] in
/-- A further message, to which there may be no answer. -/
theorem ReceiverInv.longer {r : κ} {ids : List EMessageType} {srv : FileServer κ}
    (h : ReceiverInv r ids srv) (some : ids ≠ []) (id : EMessageType) :
    ReceiverInv r (ids ++ [id]) srv where
  absent := h.absent
  one_sink := h.one_sink
  early short := by
    rw [List.length_append, List.length_singleton] at short ⊢
    exact (h.early (by omega)).imp_right fun bound => Nat.le_succ_of_le bound
  told := h.told
  sink_told := h.sink_told
  answered _ := h.answered some

omit [DecidableEq κ] in
/-- In a session, the receiver has had its answer and no `Abort`. -/
theorem ReceiverInv.answered_of_sink {r s : κ} {ids : List EMessageType} {srv : FileServer κ}
    (h : ReceiverInv r ids srv) (sink : srv.Sinks r s) :
    Answered (srv.idsTo r) ∧ ¬ ids.length < 2 := by
  refine ⟨?_, fun short => (h.early short).1 s sink⟩
  rcases h.told with none | told | ⟨unsunk, -⟩
  · exact (h.sink_told s sink none).elim
  · exact told
  · exact (unsunk s sink).elim

omit [DecidableEq κ] in
/-- Before its `Receive`, too, if it has been told anything. -/
theorem ReceiverInv.answered_of_early {r : κ} {ids : List EMessageType} {srv : FileServer κ}
    (h : ReceiverInv r ids srv) (asked : ids.length = 1) (told : srv.idsTo r ≠ []) :
    Answered (srv.idsTo r) := by
  obtain ⟨-, bound⟩ := h.early (by omega)
  rcases h.told with none | told | ⟨-, before, ⟨answer, files, rfl, -⟩, heq⟩
  · exact (told none).elim
  · exact told
  · rw [heq, List.length_append, List.length_cons, List.length_singleton] at bound
    omega

/-- A part of a file is relayed. -/
theorem ReceiverInv.relayed {r s : κ} {ids : List EMessageType} {srv : FileServer κ}
    (h : ReceiverInv r ids srv) (sink : srv.Sinks r s) {msg : Message}
    (kind : msg.header.id = .Chunk ∨ msg.header.id = .FinalChunk) :
    ReceiverInv r ids (srv.post r msg) := by
  obtain ⟨told, late⟩ := h.answered_of_sink sink
  have now : Answered ((srv.post r msg).idsTo r) := by
    rw [post_idsTo]
    split
    · obtain ⟨answer, files, heq, first, kinds⟩ := told
      refine ⟨answer, files ++ [msg.header.id], by rw [heq]; rfl, first, fun id member => ?_⟩
      rcases List.mem_append.mp member with old | new
      · exact kinds id old
      · rw [List.mem_singleton.mp new]
        exact kind
    · exact told
  have some : (srv.post r msg).idsTo r ≠ [] := by
    obtain ⟨answer, files, heq, -⟩ := now
    rw [heq]
    exact List.cons_ne_nil answer files
  exact ⟨h.absent, h.one_sink, fun short => (late short).elim, Or.inr (Or.inl now),
    fun _ _ => some, fun _ => Or.inl some⟩

/-- Somebody's session ends abruptly; if it was the receiver's, it has none now. -/
theorem ReceiverInv.abrupt {r : κ} {ids : List EMessageType} {srv : FileServer κ}
    (h : ReceiverInv r ids srv) (s : κ) : ReceiverInv r ids (srv.removeSessionAbruptly s) := by
  have drops := removeSessionAbruptly_onlyDrops srv s
  have absent : (srv.removeSessionAbruptly s).entries r = .absent := by
    rcases eq_or_ne r s with rfl | ne
    · exact drops.1
    · exact (drops.2 r ne).trans h.absent
  rcases srv.removeSessionAbruptly_idsTo s r with untold | ⟨sink, told⟩
  · apply h.quiet untold _ absent fun t sinks => (sinks.of_drops drops).2
    intro closed
    rw [(removeSessionAbruptly_sameEnd srv s r).2]
    exact closed
  · obtain ⟨before, late⟩ := h.answered_of_sink sink
    have unsunk : ∀ t, ¬ (srv.removeSessionAbruptly s).Sinks r t := by
      intro t sinks
      obtain ⟨ne, old⟩ := sinks.of_drops drops
      exact ne (h.one_sink t s old sink)
    have some : (srv.removeSessionAbruptly s).idsTo r ≠ [] := by
      rw [told]
      exact List.append_ne_nil_of_right_ne_nil _ (List.cons_ne_nil _ _)
    exact ⟨absent, fun t _ sinks => (unsunk t sinks).elim, fun short => (late short).elim,
      Or.inr (Or.inr ⟨unsunk, _, before, told⟩), fun _ _ => some, fun _ => Or.inl some⟩

/-- The answer to the request. -/
theorem ReceiverInv.asked {r : κ} {srv : FileServer κ} (h : ReceiverInv r [] srv)
    (owners : srv.Owners) (validated : (srv.conn r).m_validated) {answer : Message}
    (kind : answer.header.id = .Accept ∨ answer.header.id = .Reject) :
    ReceiverInv r [.RequestReceive] (srv.post r answer) := by
  obtain ⟨unsunk, bound⟩ := h.early (by decide)
  have untold : srv.idsTo r = [] := List.eq_nil_of_length_eq_zero (Nat.le_zero.mp bound)
  have sent := srv.post_idsTo r r answer
  rw [untold] at sent
  cases accepts : srv.accepts r with
  | true =>
      rw [if_pos ⟨rfl, accepts⟩] at sent
      have some : (srv.post r answer).idsTo r ≠ [] := by
        rw [sent]
        exact List.cons_ne_nil _ _
      refine ⟨h.absent, h.one_sink, fun _ => ⟨unsunk, ?_⟩, Or.inr (Or.inl ?_), fun _ _ => some,
        fun _ => Or.inl some⟩
      · rw [sent]
        exact Nat.le_refl 1
      · rw [sent]
        exact ⟨_, [], rfl, kind, fun id member => (List.not_mem_nil member).elim⟩
  | false =>
      rw [post_of_refuses accepts]
      exact ⟨h.absent, h.one_sink, fun _ => ⟨unsunk, Nat.le_succ_of_le bound⟩, h.told, h.sink_told,
        fun _ => Or.inr (owners.closed_of_refuses validated accepts)⟩

/-- The code of the `Receive` is gone. -/
theorem ReceiverInv.turnedAway {r : κ} {ids : List EMessageType} {srv : FileServer κ}
    (h : ReceiverInv r ids srv) (asked : ids.length = 1) (told : srv.idsTo r ≠ []) :
    ReceiverInv r (ids ++ [.Receive]) (srv.post r (encode .Abort {})) := by
  obtain ⟨unsunk, -⟩ := h.early (by omega)
  have before := h.answered_of_early asked told
  have late : ¬ (ids ++ [EMessageType.Receive]).length < 2 := by
    rw [List.length_append, List.length_singleton]
    omega
  have sent := srv.post_idsTo r r (encode .Abort {})
  rw [encode_id] at sent
  split at sent
  · have some : (srv.post r (encode .Abort {})).idsTo r ≠ [] := by
      rw [sent]
      exact List.append_ne_nil_of_right_ne_nil _ (List.cons_ne_nil _ _)
    exact ⟨h.absent, h.one_sink, fun short => (late short).elim,
      Or.inr (Or.inr ⟨unsunk, _, before, sent⟩), fun _ _ => some, fun _ => Or.inl some⟩
  · rw [← sent] at told before
    exact ⟨h.absent, h.one_sink, fun short => (late short).elim, Or.inr (Or.inl before),
      fun _ _ => told, fun _ => Or.inl told⟩

/-- The `Receive` is taken, and the session goes to the receiver if its sender had none. -/
theorem ReceiverInv.opened {r s : κ} {ids : List EMessageType} {srv srv' : FileServer κ}
    (h : ReceiverInv r ids srv) (asked : ids.length = 1) (told : srv.idsTo r ≠ [])
    {x : ServerOneToOneRetranslatorSession κ} (sink : x.m_sink = r) (ne : r ≠ s)
    (storage : srv'.m_storage = srv.m_storage.addSession s r x)
    (sent : srv'.idsTo r = srv.idsTo r) : ReceiverInv r (ids ++ [.Receive]) srv' := by
  obtain ⟨unsunk, -⟩ := h.early (by omega)
  have before := h.answered_of_early asked told
  have only : ∀ t, srv'.Sinks r t → t = s := by
    intro t sinks
    rcases sinks.of_addSession sink storage with old | ⟨same, -⟩
    · exact (unsunk t old).elim
    · exact same
  rw [← sent] at told before
  constructor
  · rw [entries, storage, ClientStorage.entriesOf_addSession_of_ne ne]
    exact h.absent
  · intro t u ht hu
    rw [only t ht, only u hu]
  · intro short
    rw [List.length_append, List.length_singleton] at short
    omega
  · exact Or.inr (Or.inl before)
  · exact fun _ _ => told
  · exact fun _ => Or.inl told

/-- What the others do, and the receiver itself once it has its session. -/
theorem ReceiverInv.handled {r d : κ} {ids : List EMessageType} {srv srv' : FileServer κ}
    {msg : Message} (h : ReceiverInv r ids srv)
    (others : d = r → msg.header.id ≠ .RequestReceive ∧ msg.header.id ≠ .Receive ∧
      msg.header.id ≠ .Send)
    (handled : Handled srv d msg srv') : ReceiverInv r ids srv' := by
  have closed : (srv.conn r).m_socket = .closed → (srv'.conn r).m_socket = .closed := by
    intro closed
    rw [(handled.sameEnd r).2]
    exact closed
  have posted : ∀ {t : κ} {answer : Message}, r ≠ t → srv' = srv.post t answer →
      ReceiverInv r ids srv' := by
    intro t answer ne same
    obtain rfl := same
    exact h.quiet (post_idsTo_of_ne ne) closed h.absent fun s sinks => sinks.of_storage rfl
  have owner : ∀ {s : κ}, srv.entries s ≠ .absent → r ≠ s := by
    intro s owns same
    obtain rfl := same
    exact owns h.absent
  cases handled with
  | relayed session found relays =>
      rcases eq_or_ne r session.m_sink with rfl | ne
      · have kind : msg.header.id = .Chunk ∨ msg.header.id = .FinalChunk :=
          relays.elim Or.inr fun chunk => Or.inl chunk.1
        exact h.relayed ⟨session, found, rfl⟩ kind
      · exact posted ne rfl
  | aborted session found ends => exact h.abrupt d
  | registered pre rest free kind decoded =>
      have ne : r ≠ d := fun same => (others same.symm).2.2 kind
      apply h.quiet _ closed
      · exact (ClientStorage.entriesOf_register_of_ne ne).trans h.absent
      · exact fun s sinks => sinks.of_register rfl
      · rfl
  | refused request rest free kind decoded unknown =>
      exact posted (fun same => (others same.symm).1 kind) rfl
  | offered request rest s context free kind decoded known found =>
      exact posted (fun same => (others same.symm).1 kind) rfl
  | turnedAway request rest free kind decoded unknown =>
      exact posted (fun same => (others same.symm).2.1 kind) rfl
  | stranded request rest s free kind decoded known none => exact h.abrupt s
  | opened request rest s context free kind decoded known found =>
      have notOwn : r ≠ d := fun same => (others same.symm).2.1 kind
      have ne : r ≠ s := owner (owns_of_code known)
      apply h.quiet _ closed
      · exact (ClientStorage.entriesOf_addSession_of_ne ne).trans h.absent
      · intro t sinks
        exact (sinks.of_addSession (x := newSession context d) rfl rfl).resolve_right
          fun own => notOwn own.2
      · exact post_idsTo_of_ne ne
  | finished s free kind paired =>
      have drops := post_dropSender_onlyDrops srv s (encode .Success {})
      have ne : r ≠ s := by
        apply owner
        intro absent
        exact paired_of_receiver paired (congrArg Entries.pairing absent)
      apply h.quiet _ closed ((drops.2 r ne).trans h.absent)
        fun t sinks => (sinks.of_drops drops).2
      rw [dropSender_idsTo, post_idsTo_of_ne ne]
  | failed s free kind paired => exact h.abrupt s
  | ignored => exact h

/-- The receiver's own request. -/
theorem ReceiverInv.request {r : κ} {srv srv' : FileServer κ} {msg : Message}
    (h : ReceiverInv r [] srv) (owners : srv.Owners) (validated : (srv.conn r).m_validated)
    (asks : msg.header.id = .RequestReceive) (handled : Handled srv r msg srv') :
    ReceiverInv r [.RequestReceive] srv' := by
  have unsessioned : srv.m_storage.m_sessions r = none := congrArg Entries.session h.absent
  cases handled with
  | refused request rest free kind decoded unknown =>
      exact h.asked owners validated (Or.inr (encode_id _ _))
  | offered request rest s context free kind decoded known found =>
      exact h.asked owners validated (Or.inl (encode_id _ _))
  | relayed session found | aborted session found => cases unsessioned.symm.trans found
  | registered _ _ _ kind | turnedAway _ _ _ kind | stranded _ _ _ _ kind | opened _ _ _ _ _ kind
  | finished _ _ kind | failed _ _ kind => cases asks.symm.trans kind
  | ignored _ _ notRequest => exact (notRequest asks).elim

/-- Its `Receive`. -/
theorem ReceiverInv.receive {r : κ} {ids : List EMessageType} {srv srv' : FileServer κ}
    {msg : Message} (h : ReceiverInv r ids srv) (inv : srv.Inv) (asked : ids.length = 1)
    (told : srv.idsTo r ≠ []) (asks : msg.header.id = .Receive)
    (handled : Handled srv r msg srv') : ReceiverInv r (ids ++ [.Receive]) srv' := by
  have unsessioned : srv.m_storage.m_sessions r = none := congrArg Entries.session h.absent
  cases handled with
  | turnedAway request rest free kind decoded unknown => exact h.turnedAway asked told
  | stranded request rest s free kind decoded known none =>
      exact (inv.not_stranded known none).elim
  | opened request rest s context free kind decoded known found =>
      have ne : r ≠ s := by
        intro same
        obtain rfl := same
        exact owns_of_code known h.absent
      exact h.opened asked told (x := newSession context r) rfl ne rfl (post_idsTo_of_ne ne)
  | relayed session found | aborted session found => cases unsessioned.symm.trans found
  | registered _ _ _ kind | refused _ _ _ kind | offered _ _ _ _ _ kind | finished _ _ kind
  | failed _ _ kind => cases asks.symm.trans kind
  | ignored _ _ _ notReceive => exact (notReceive asks).elim

theorem ReceiverInv.step {r : κ} {es : List (Event κ)} {srv srv' : FileServer κ} {e : Event κ}
    (h : ReceiverInv r (idsFrom r es) srv) (role : ReceiverRole r (es ++ [e]))
    (run : (lts κ).run es = some srv) (step : srv.step e = some srv') :
    ReceiverInv r (idsFrom r (es ++ [e])) srv' := by
  have reachable : Reachable srv := ⟨es, run⟩
  rcases step_handled step with ⟨only, noMessage⟩ | ⟨d, msg, rfl, handled⟩
  · rw [idsFrom_other es (noMessage r)]
    apply h.quiet _ (step_closed step) _ fun s sinks => sinks.of_storage only.storage
    · unfold idsTo
      rw [only.sent]
    · rw [entries, only.storage]
      exact h.absent
  rcases eq_or_ne d r with rfl | ne
  · have validated := (step_message step).1
    have last : (lts κ).Takes (es ++ [.message d msg]) srv (.message d msg) srv' :=
      ⟨es, [], rfl, run, step⟩
    rw [idsFrom_message_self]
    rcases role.next with ⟨first, asks⟩ | ⟨second, asks⟩ | ⟨third, reports⟩
    · have none : idsFrom d es = [] := List.eq_nil_of_length_eq_zero first
      rw [none] at h ⊢
      rw [asks]
      exact h.request reachable.owners validated asks handled
    · rw [asks]
      apply h.receive reachable.inv second _ asks handled
      apply List.ne_nil_of_mem (a := .Accept)
      apply role.after_accept srv msg srv' last
      rw [asks]
      exact EMessageType.noConfusion
    · apply ReceiverInv.longer
      · apply h.handled _ handled
        intro _
        rcases reports with kind | kind <;> rw [kind] <;> decide
      · intro none
        rw [none] at third
        cases third
  · rw [idsFrom_other es fun msg' same => ne (by cases same; rfl)]
    exact h.handled (fun same => (ne same).elim) handled

/-- **What a receiver is told**, and that it is answered unless it has closed. -/
theorem receiver_answers {es : List (Event κ)} {srv : FileServer κ}
    (run : (lts κ).run es = some srv) {r : κ} (role : ReceiverRole r es) :
    ReceiverAnswers (srv.idsTo r) ∧ (idsFrom r es = [] → srv.idsTo r = []) ∧
      (idsFrom r es ≠ [] → srv.idsTo r ≠ [] ∨ (srv.conn r).m_socket = .closed) := by
  have inv : ReceiverRole r es → ReceiverInv r (idsFrom r es) srv := by
    apply Lts.run_induct (M := lts κ)
      (P := fun es srv => ReceiverRole r es → ReceiverInv r (idsFrom r es) srv) _ _ run
    · intro _
      have unsunk : ∀ s, ¬ Sinks (lts κ).init r s := by
        intro s sinks
        obtain ⟨x, found, -⟩ := sinks
        cases found
      exact ⟨rfl, fun s _ sink => (unsunk s sink).elim, fun _ => ⟨unsunk, Nat.le_refl 0⟩,
        Or.inl rfl, fun s sink => (unsunk s sink).elim, fun some => (some rfl).elim⟩
    · intro es srv e srv' run ih step role
      exact (ih role.before).step role run step
  have h := inv role
  refine ⟨h.answers, fun none => ?_, h.answered⟩
  rw [none] at h
  exact List.eq_nil_of_length_eq_zero (Nat.le_zero.mp (h.early (by decide)).2)

end FileServer

end PingPong
