import PingPong.Server.Roles

/-!
# What the server sends to a sender

`SenderInv` is what the four maps and the messages sent on a connection have to do with each other
as long as the connection keeps to the sender's role; `sender_answers` is what follows for the
messages, `Accept`s and then at most one `Success`.
-/

namespace PingPong

open Common Net

namespace FileServer

variable {κ : Type} [DecidableEq κ]

/-- One or more `Accept`s, after which there may be a `Success`; or nothing at all. -/
def SenderAnswers (ids : List EMessageType) : Prop :=
  ids = [] ∨ ∃ n last, ids = List.replicate (n + 1) .Accept ++ last ∧
    (last = [] ∨ last = [.Success])

/-- A sender relays to itself in no session, is told nothing before its `Send`, and has left the
store once it has been told of its success. -/
structure SenderInv (c : κ) (ids : List EMessageType) (srv : FileServer κ) : Prop where
  no_sink : ∀ s, ¬ srv.Sinks c s
  silent : ids = [] → srv.entries c = .absent ∧ srv.idsTo c = []
  told : (∃ n, srv.idsTo c = List.replicate n .Accept) ∨
    (srv.entries c = .absent ∧ ∃ n, srv.idsTo c = List.replicate (n + 1) .Accept ++ [.Success])
  accepted : (srv.entries c).pairing ≠ none → srv.idsTo c ≠ [] ∨ (srv.conn c).m_socket = .closed

omit [DecidableEq κ] in
theorem SenderInv.answers {c : κ} {ids : List EMessageType} {srv : FileServer κ}
    (h : SenderInv c ids srv) : SenderAnswers (srv.idsTo c) := by
  rcases h.told with ⟨n, told⟩ | ⟨-, n, told⟩
  · cases n with
    | zero => exact Or.inl told
    | succ n => exact Or.inr ⟨n, [], by rw [told, List.append_nil], Or.inl rfl⟩
  · exact Or.inr ⟨n, [.Success], told, Or.inr rfl⟩

omit [DecidableEq κ] in
/-- Nothing is sent to the connection, and its entries stay or go. -/
theorem SenderInv.quiet {c : κ} {ids ids' : List EMessageType} {srv srv' : FileServer κ}
    (h : SenderInv c ids srv) (longer : ids <+: ids') (sent : srv'.idsTo c = srv.idsTo c)
    (closed : (srv.conn c).m_socket = .closed → (srv'.conn c).m_socket = .closed)
    (own : srv'.entries c = srv.entries c ∨ srv'.entries c = .absent)
    (sinks : ∀ s, srv'.Sinks c s → srv.Sinks c s) : SenderInv c ids' srv' where
  no_sink s sink := h.no_sink s (sinks s sink)
  silent none := by
    rw [none] at longer
    obtain ⟨absent, unsent⟩ := h.silent (List.prefix_nil.mp longer)
    rw [sent]
    exact ⟨own.elim (fun same => same.trans absent) id, unsent⟩
  told := by
    rw [sent]
    exact h.told.imp_right fun done =>
      ⟨own.elim (fun same => same.trans done.1) id, done.2⟩
  accepted paired := by
    rw [sent]
    rcases own with same | gone
    · rw [same] at paired
      exact (h.accepted paired).imp_right closed
    · rw [gone] at paired
      exact (paired rfl).elim

omit [DecidableEq κ] in
/-- Before its `Success`, an owner of entries has only been told `Accept`. -/
theorem SenderInv.told_of_owns {c : κ} {ids : List EMessageType} {srv : FileServer κ}
    (h : SenderInv c ids srv) (owns : srv.entries c ≠ .absent) :
    ids ≠ [] ∧ ∃ n, srv.idsTo c = List.replicate n .Accept :=
  ⟨fun none => owns (h.silent none).1,
    h.told.resolve_right fun done => owns done.1⟩

/-- A `Send` takes the place of what the sender had, which was nothing. -/
theorem SenderInv.registered {c : κ} {id : EMessageType} {srv srv' : FileServer κ}
    (h : SenderInv c [] srv) {pre : PreMetadata} (sent : srv'.idsTo c = srv.idsTo c)
    (storage : srv'.m_storage =
      (srv.m_storage.removePendingSender c).addPendingSender c m_max_chunk_size pre) :
    SenderInv c [id] srv' where
  no_sink s sink := h.no_sink s (sink.of_register storage)
  silent none := by cases none
  told := by
    rw [sent, (h.silent rfl).2]
    exact Or.inl ⟨0, rfl⟩
  accepted paired := by
    have unpaired : (srv'.entries c).pairing = (srv.entries c).pairing := by
      rw [entries, storage]
      rfl
    rw [unpaired, (h.silent rfl).1] at paired
    exact (paired rfl).elim

/-- A receiver has asked for the sender, and the sender is told so. -/
theorem SenderInv.opened {c d : κ} {ids ids' : List EMessageType} {srv srv' : FileServer κ}
    (h : SenderInv c ids srv) (longer : ids <+: ids') (owners : srv.Owners)
    (owns : srv.entries c ≠ .absent) (ne : d ≠ c) {x : ServerOneToOneRetranslatorSession κ}
    (sink : x.m_sink = d) (storage : srv'.m_storage = srv.m_storage.addSession c d x)
    (socket : (srv'.conn c).m_socket = (srv.conn c).m_socket)
    (sent : srv'.idsTo c = if srv.accepts c then srv.idsTo c ++ [.Accept] else srv.idsTo c) :
    SenderInv c ids' srv' := by
  obtain ⟨spoken, n, told⟩ := h.told_of_owns owns
  constructor
  · intro s sinks
    rcases sinks.of_addSession sink storage with old | ⟨-, same⟩
    · exact h.no_sink s old
    · exact ne same.symm
  · intro none
    rw [none] at longer
    exact (spoken (List.prefix_nil.mp longer)).elim
  · left
    rw [sent, told]
    split
    · exact ⟨n + 1, List.replicate_succ'.symm⟩
    · exact ⟨n, rfl⟩
  · intro _
    rw [sent, socket]
    split
    · exact Or.inl (List.append_ne_nil_of_right_ne_nil _ (List.cons_ne_nil _ _))
    · rename_i refuses
      exact Or.inr (owners.closed_of_refuses (owners.validated c owns)
        (Bool.eq_false_iff.mpr refuses))

omit [DecidableEq κ] in
/-- The sender is told of its success and leaves. -/
theorem SenderInv.finished {c : κ} {ids ids' : List EMessageType} {srv srv' : FileServer κ}
    (h : SenderInv c ids srv) (longer : ids <+: ids') (paired : (srv.entries c).pairing ≠ none)
    (drops : OnlyDrops srv srv' c)
    (sent : srv'.idsTo c = if srv.accepts c then srv.idsTo c ++ [.Success] else srv.idsTo c) :
    SenderInv c ids' srv' := by
  have owns : srv.entries c ≠ .absent := by
    intro absent
    rw [absent] at paired
    exact paired rfl
  obtain ⟨spoken, n, told⟩ := h.told_of_owns owns
  constructor
  · intro s sinks
    exact h.no_sink s (sinks.of_drops drops).2
  · intro none
    rw [none] at longer
    exact (spoken (List.prefix_nil.mp longer)).elim
  · rw [sent, told]
    split
    · rename_i accepts
      -- An open connection has been told of its session.
      right
      refine ⟨drops.1, ?_⟩
      rcases h.accepted paired with some_told | closed
      · cases n with
        | zero => exact (some_told told).elim
        | succ n => exact ⟨n, rfl⟩
      · have refuses : srv.accepts c = false := Link.refuses_of_closed closed
        cases refuses.symm.trans accepts
    · exact Or.inl ⟨n, rfl⟩
  · intro paired
    rw [drops.1] at paired
    exact (paired rfl).elim

/-- Ending somebody's session is nothing the sender is told of. -/
theorem SenderInv.abrupt {c : κ} {ids ids' : List EMessageType} {srv : FileServer κ}
    (h : SenderInv c ids srv) (longer : ids <+: ids') (s : κ)
    (closed : (srv.conn c).m_socket = .closed →
      ((srv.removeSessionAbruptly s).conn c).m_socket = .closed) :
    SenderInv c ids' (srv.removeSessionAbruptly s) := by
  have drops := removeSessionAbruptly_onlyDrops srv s
  apply h.quiet longer _ closed _ fun t sinks => (sinks.of_drops drops).2
  · exact (srv.removeSessionAbruptly_idsTo s c).resolve_right fun told => h.no_sink s told.1
  · rcases eq_or_ne c s with rfl | ne
    · exact Or.inr drops.1
    · exact Or.inl (drops.2 c ne)

theorem SenderInv.step {c : κ} {es : List (Event κ)} {srv srv' : FileServer κ} {e : Event κ}
    (h : SenderInv c (idsFrom c es) srv) (role : SenderRole c (es ++ [e]))
    (reachable : Reachable srv) (step : srv.step e = some srv') :
    SenderInv c (idsFrom c (es ++ [e])) srv' := by
  have longer := idsFrom_isPrefix c es e
  have closed := step_closed step (c := c)
  have owners := reachable.owners
  rcases step_handled step with ⟨only, -⟩ | ⟨d, msg, rfl, handled⟩
  · apply h.quiet longer _ closed _ fun s sinks => sinks.of_storage only.storage
    · unfold idsTo
      rw [only.sent]
    · left
      rw [entries, only.storage]
  have part : d = c → (idsFrom c es = [] ∧ msg.1.header.id = .Send) ∨
      msg.1.header.id = .Chunk ∨ msg.1.header.id = .FinalChunk := by
    intro same
    obtain rfl := same
    exact role.next
  have stranger : msg.1.header.id ∉ [EMessageType.Send, .Chunk, .FinalChunk] → c ≠ d := by
    intro other same
    obtain rfl := same
    apply other
    rcases part rfl with ⟨-, send⟩ | chunk | final
    · rw [send]
      exact List.mem_cons_self
    · rw [chunk]
      exact List.mem_cons_of_mem _ List.mem_cons_self
    · rw [final]
      exact List.mem_cons_of_mem _ (List.mem_cons_of_mem _ List.mem_cons_self)
  have posted : ∀ {t : κ} {answer : Message}, c ≠ t → srv' = srv.post t answer →
      SenderInv c (idsFrom c (es ++ [.message d msg])) srv' := by
    intro t answer ne same
    obtain rfl := same
    exact h.quiet longer (post_idsTo_of_ne ne) closed (Or.inl rfl)
      fun s sinks => sinks.of_storage rfl
  cases handled with
  | relayed session found relays =>
      apply posted _ rfl
      intro same
      obtain rfl := same
      exact h.no_sink d ⟨session, found, rfl⟩
  | aborted session found ends => exact h.abrupt longer d closed
  | registered pre rest free kind decoded =>
      rcases eq_or_ne d c with rfl | ne
      · rcases part rfl with ⟨first, -⟩ | chunk | final
        · rw [idsFrom_message_self, first]
          rw [first] at h
          exact h.registered rfl rfl
        · cases chunk.symm.trans kind
        · cases final.symm.trans kind
      · exact h.quiet longer rfl closed
          (Or.inl (ClientStorage.entriesOf_register_of_ne ne.symm))
          fun s sinks => sinks.of_register rfl
  | refused request rest free kind decoded unknown =>
      exact posted (stranger (by rw [kind]; decide)) rfl
  | offered request rest s context free kind decoded known found =>
      exact posted (stranger (by rw [kind]; decide)) rfl
  | turnedAway request rest free kind decoded unknown =>
      exact posted (stranger (by rw [kind]; decide)) rfl
  | stranded request rest s free kind decoded known none =>
      exact h.abrupt longer s closed
  | opened request rest s context free kind decoded known found =>
      have notOwn : c ≠ d := stranger (by rw [kind]; decide)
      rcases eq_or_ne c s with rfl | ne
      · apply h.opened longer owners (owns_of_code known) notOwn.symm rfl rfl
        · exact post_socket _ _ _ _
        · rw [post_idsTo, encode_id]
          simp only [true_and]
          rfl
      · apply h.quiet longer _ closed
        · exact Or.inl (ClientStorage.entriesOf_addSession_of_ne ne)
        · intro t sinks
          exact (sinks.of_addSession (x := newSession context d) rfl rfl).resolve_right
            fun own => notOwn own.2
        · exact post_idsTo_of_ne ne
  | finished s free kind paired =>
      have drops := post_dropSender_onlyDrops srv s (encode .Success {})
      rcases eq_or_ne c s with rfl | ne
      · apply h.finished longer (paired_of_receiver paired) drops
        rw [dropSender_idsTo, post_idsTo, encode_id]
        simp only [true_and]
      · apply h.quiet longer _ closed (Or.inl (drops.2 c ne))
          fun t sinks => (sinks.of_drops drops).2
        rw [dropSender_idsTo, post_idsTo_of_ne ne]
  | failed s free kind paired => exact h.abrupt longer s closed
  | ignored => exact h.quiet longer rfl closed (Or.inl rfl) fun s sinks => sinks.of_storage rfl

/-- **What a sender is told.** -/
theorem sender_answers {es : List (Event κ)} {srv : FileServer κ}
    (run : (lts κ).run es = some srv) {c : κ} (role : SenderRole c es) :
    SenderAnswers (srv.idsTo c) := by
  have inv : SenderRole c es → SenderInv c (idsFrom c es) srv := by
    apply Lts.run_induct (M := lts κ)
      (P := fun es srv => SenderRole c es → SenderInv c (idsFrom c es) srv) _ _ run
    · intro _
      constructor
      · intro s owned
        obtain ⟨x, found, -⟩ := owned
        cases found
      · exact fun _ => ⟨rfl, rfl⟩
      · exact Or.inl ⟨0, rfl⟩
      · exact fun paired => (paired rfl).elim
    · intro es srv e srv' run ih step role
      exact (ih role.before).step role ⟨es, run⟩ step
  exact (inv role).answers

end FileServer

end PingPong
