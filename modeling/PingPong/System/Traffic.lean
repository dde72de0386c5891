import PingPong.System.Relaying

/-!
# What has been relayed

`Traffic` relates what the server has sent to the two clients to what it has processed of their
messages: the messages `up` of the sender, and the first `asked` of the three requests of the
receiver.  The file messages sent to the receiver are a prefix of `up` without the announcement, and
all of it while there is a session and the receiver's socket has not closed.

One lemma for each kind of step: `Traffic.aside` for everything else the server does,
`Traffic.from_sender` and `Traffic.from_receiver` for the messages of the two clients.
-/

namespace PingPong.Transfer

open Common Net FileServer

variable {κ : Type} [DecidableEq κ] {x : Transfer κ}

/-- Before the receiver has asked for the file. -/
structure Untouched (x : Transfer κ) (srv : FileServer κ) (up : List Message) : Prop where
  session : (srv.entries x.s).session = none
  pairing : (srv.entries x.s).pairing = none
  answers : srv.sentTo x.s = []
  files : fileMessages (srv.sentTo x.r) = []
  up : up.length ≤ 1

structure Traffic (x : Transfer κ) (srv : FileServer κ) (up : List Message) (asked : Nat) :
    Prop where
  early : asked ≤ 1 → Untouched x srv up
  validated : 1 ≤ asked → (srv.conn x.r).m_validated
  connected : (srv.conn x.r).m_validated → (srv.conn x.r).m_socket ≠ .absent
  answers : Sender.Answers m_max_chunk_size (srv.sentTo x.s)
  stream : fileMessages (srv.sentTo x.r) <+: up.tail
  whole : (srv.entries x.s).session ≠ none →
    (srv.conn x.r).m_socket = .closed ∨ fileMessages (srv.sentTo x.r) = up.tail
  success : ∀ msg ∈ srv.sentTo x.s, msg.header.id = .Success → 3 ≤ asked

omit [DecidableEq κ] in
theorem Traffic.start : Traffic x {} [] 0 where
  early := fun _ => ⟨rfl, rfl, rfl, rfl, Nat.zero_le 1⟩
  validated := fun h => by omega
  connected := fun h => by cases h
  answers := ⟨fun _ _ h => (by cases h), fun _ h => (by cases h)⟩
  stream := List.nil_prefix
  whole := fun h => (h rfl).elim
  success := fun _ h => by cases h

omit [DecidableEq κ] in
theorem Untouched.aside {srv srv' : FileServer κ} {up : List Message} (h : Untouched x srv up)
    (aside : Aside x srv srv') : Untouched x srv' up where
  session := Option.eq_none_iff_forall_ne_some.mpr fun t has => by
    have had := aside.session t has
    rw [h.session] at had
    cases had
  pairing := Option.eq_none_iff_forall_ne_some.mpr fun d has => by
    have had := aside.pairing d has
    rw [h.pairing] at had
    cases had
  answers := aside.answers.trans h.answers
  files := aside.files.trans h.files
  up := h.up

omit [DecidableEq κ] in
theorem Traffic.aside {srv srv' : FileServer κ} {up : List Message} {asked : Nat}
    (h : Traffic x srv up asked) (aside : Aside x srv srv') : Traffic x srv' up asked where
  early := fun few => (h.early few).aside aside
  validated := fun some_asked => aside.validated (h.validated some_asked)
  connected := aside.connected h.connected
  answers := by
    rw [aside.answers]
    exact h.answers
  stream := by
    rw [aside.files]
    exact h.stream
  whole := by
    intro has
    obtain ⟨t, found⟩ := Option.ne_none_iff_exists'.mp has
    have had : (srv.entries x.s).session ≠ none := by
      rw [aside.session t found]
      exact Option.some_ne_none t
    rw [aside.files]
    exact (h.whole had).imp aside.closed id
  success := by
    rw [aside.answers]
    exact h.success

theorem tail_isPrefix {up sent : List Message} (h : up <+: sent) : up.tail <+: sent.tail := by
  obtain ⟨rest, rfl⟩ := h
  cases up with
  | nil => exact List.nil_prefix
  | cons first later => exact List.prefix_append later rest

omit [DecidableEq κ] in
/-- A message of the sender that is not relayed is processed without a session. -/
theorem Traffic.unrelayed {srv : FileServer κ} {up : List Message} {asked : Nat} {msg : Message}
    (h : Traffic x srv up asked) (gone : (srv.entries x.s).session = none)
    (in_time : asked ≤ 1 → up = []) : Traffic x srv (up ++ [msg]) asked where
  early := by
    intro few
    obtain ⟨session, pairing, answers, files, -⟩ := h.early few
    refine ⟨session, pairing, answers, files, ?_⟩
    rw [in_time few]
    exact Nat.le_refl 1
  validated := h.validated
  connected := h.connected
  answers := h.answers
  stream := h.stream.trans (tail_isPrefix (List.prefix_append _ [msg]))
  whole := fun has => (has gone).elim
  success := h.success

/-- A message of the sender that is relayed. -/
theorem Traffic.relay {srv : FileServer κ} {up : List Message} {asked : Nat} {msg : Message}
    (h : Traffic x srv up asked) (has : (srv.entries x.s).session ≠ none)
    (carries : carriesFile msg) (announced : up ≠ []) :
    Traffic x (srv.post x.r msg) (up ++ [msg]) asked := by
  have late : 2 ≤ asked := by
    by_contra few
    exact has (h.early (by omega)).session
  obtain ⟨first, rest, rfl⟩ := List.exists_cons_of_ne_nil announced
  obtain ⟨validated, socket⟩ := post_sameEnd srv x.r x.r msg
  have answers : (srv.post x.r msg).sentTo x.s = srv.sentTo x.s := post_sentTo_of_ne x.distinct
  have files : fileMessages ((srv.post x.r msg).sentTo x.r) =
      if srv.accepts x.r then fileMessages (srv.sentTo x.r) ++ [msg]
      else fileMessages (srv.sentTo x.r) := by
    rw [post_sentTo]
    split
    · rename_i both
      rw [if_pos both.2, fileMessages_append, fileMessages_of_carries carries]
    · rename_i refused
      rw [if_neg fun taken => refused ⟨rfl, taken⟩]
  have whole : ((srv.post x.r msg).conn x.r).m_socket = .closed ∨
      fileMessages ((srv.post x.r msg).sentTo x.r) = rest ++ [msg] := by
    rcases h.whole has with closed | all
    · exact Or.inl (socket.trans closed)
    · cases accepts : srv.accepts x.r with
      | true =>
          right
          rw [files, if_pos accepts, all]
          rfl
      | false =>
          left
          rw [socket]
          have valid := h.validated (by omega)
          exact Link.closed_of_refuses valid (h.connected valid) accepts
  refine ⟨fun few => by omega, fun some_asked => ?_, ?_, ?_, ?_, fun _ => whole, ?_⟩
  · rw [validated]
    exact h.validated some_asked
  · rw [validated, socket]
    exact h.connected
  · rw [answers]
    exact h.answers
  · cases accepts : srv.accepts x.r with
    | true =>
        rcases whole with closed | all
        · rw [socket] at closed
          have refuses : srv.accepts x.r = false := Link.refuses_of_closed closed
          rw [refuses] at accepts
          cases accepts
        · exact ⟨[], by rw [all, List.append_nil]; rfl⟩
    | false =>
        rw [files, if_neg (by rw [accepts]; exact Bool.false_ne_true)]
        exact h.stream.trans (tail_isPrefix (List.prefix_append _ [msg]))
  · rw [answers]
    exact h.success

/-- **Processing a message of the sender.** -/
theorem Traffic.from_sender {srv srv' : FileServer κ} {up : List Message} {asked : Nat}
    {msg : Message} (h : Traffic x srv up asked) (step : Outcome x srv x.s msg srv')
    (in_time : asked ≤ 1 → up = []) (announcement : up = [] → msg.header.id = .Send) :
    Traffic x srv' (up ++ [msg]) asked := by
  cases step with
  | aside aside gone => exact (h.aside aside).unrelayed (gone rfl) in_time
  | relayed session same found sink relays =>
      have kind : msg.header.id = .Chunk ∨ msg.header.id = .FinalChunk := by
        rcases relays with final | ⟨chunk, -, -⟩
        · exact Or.inr final
        · exact Or.inl chunk
      have carries : carriesFile msg := by
        unfold carriesFile
        rcases kind with kind | kind
        · rw [decide_eq_true kind, Bool.true_or]
        · rw [decide_eq_true kind, Bool.or_true]
      have announced : up ≠ [] := by
        intro none
        have send := announcement none
        rw [send] at kind
        rcases kind with kind | kind <;> cases kind
      exact h.relay (by rw [found]; exact Option.some_ne_none session) carries announced
  | opened context same => exact (x.distinct same).elim
  | finished same => exact (x.distinct same).elim

/-- The session is opened, and the sender is sent its first answer. -/
theorem Traffic.open_session {srv : FileServer κ} {up : List Message} {asked : Nat}
    {context : TransmissionContext} (h : Traffic x srv up asked) (second : asked = 1)
    (announced : Announced context) : Traffic x (x.openSession srv context) up (asked + 1) := by
  obtain ⟨session, pairing, answers, files, short⟩ := h.early (by omega)
  let added : FileServer κ :=
    { srv with m_storage := srv.m_storage.addSession x.s x.r (newSession context x.r) }
  obtain ⟨validated, socket⟩ := post_sameEnd added x.s x.r (encode .Accept context.post_metadata)
  have toReceiver : (x.openSession srv context).sentTo x.r = srv.sentTo x.r :=
    post_sentTo_of_ne x.distinct.symm
  have toSender : (x.openSession srv context).sentTo x.s = [encode .Accept context.post_metadata] ∨
      (x.openSession srv context).sentTo x.s = [] := by
    have posted := post_sentTo added x.s x.s (encode .Accept context.post_metadata)
    have before : added.sentTo x.s = [] := answers
    rw [before] at posted
    split at posted
    · exact Or.inl posted
    · exact Or.inr posted
  have accept : (encode .Accept context.post_metadata).header.id = .Accept := encode_id _ _
  have tail : up.tail = [] := List.length_eq_zero_iff.mp (by rw [List.length_tail]; omega)
  refine ⟨fun few => by omega, fun _ => ?_, ?_, ⟨fun msg rest heq => ?_, fun msg member => ?_⟩, ?_,
    fun _ => Or.inr ?_, fun msg member success => ?_⟩
  · exact validated.trans (h.validated (by omega))
  · change ((added.post x.s _).conn x.r).m_validated → ((added.post x.s _).conn x.r).m_socket ≠ _
    rw [validated, socket]
    exact h.connected
  · rcases toSender with sent | sent
    · rw [sent] at heq
      obtain ⟨rfl, -⟩ := List.cons.inj heq
      obtain ⟨decodes, limit, -⟩ := announced.decodes
      exact ⟨accept, _, _, decodes, limit⟩
    · rw [sent] at heq
      cases heq
  · rcases toSender with sent | sent
    · rw [sent] at member
      rw [List.mem_singleton.mp member, accept]
      exact EMessageType.noConfusion
    · rw [sent] at member
      cases member
  · rw [toReceiver, files]
    exact List.nil_prefix
  · rw [toReceiver, files, tail]
  · rcases toSender with sent | sent
    · rw [sent] at member
      rw [List.mem_singleton.mp member, accept] at success
      cases success
    · rw [sent] at member
      cases member

/-- The session is finished, and the sender is sent `Success`. -/
theorem Traffic.finish {srv : FileServer κ} {up : List Message} {asked : Nat}
    (h : Traffic x srv up asked) (third : asked = 2) (answered : srv.sentTo x.s ≠ []) :
    Traffic x ((srv.post x.s (encode .Success {})).dropSender x.s) up (asked + 1) := by
  obtain ⟨validated, socket⟩ :=
    (post_sameEnd srv x.s x.r (encode .Success {})).trans (dropSender_sameEnd _ x.s x.r)
  have toReceiver : ((srv.post x.s (encode .Success {})).dropSender x.s).sentTo x.r =
      srv.sentTo x.r := by
    rw [dropSender_sentTo]
    exact post_sentTo_of_ne x.distinct.symm
  have toSender : ((srv.post x.s (encode .Success {})).dropSender x.s).sentTo x.s =
      srv.sentTo x.s ++ [encode .Success {}] ∨
      ((srv.post x.s (encode .Success {})).dropSender x.s).sentTo x.s = srv.sentTo x.s := by
    rw [dropSender_sentTo, post_sentTo]
    split
    · exact Or.inl rfl
    · exact Or.inr rfl
  refine ⟨fun few => by omega, fun _ => ?_, ?_, ⟨fun msg rest heq => ?_, fun msg member => ?_⟩, ?_,
    fun has => ?_, fun _ _ _ => by omega⟩
  · exact validated.trans (h.validated (by omega))
  · rw [validated, socket]
    exact h.connected
  · obtain ⟨first, later, some_sent⟩ := List.exists_cons_of_ne_nil answered
    have same : msg = first := by
      rcases toSender with sent | sent <;> rw [sent, some_sent] at heq
      · exact (List.cons.inj heq).1.symm
      · exact (List.cons.inj heq).1.symm
    rw [same]
    exact h.answers.first first later some_sent
  · rcases toSender with sent | sent <;> rw [sent] at member
    · rcases List.mem_append.mp member with before | new
      · exact h.answers.no_abort msg before
      · rw [List.mem_singleton.mp new]
        exact EMessageType.noConfusion
    · exact h.answers.no_abort msg member
  · rw [toReceiver]
    exact h.stream
  · rw [dropSender_entries_self] at has
    exact (has rfl).elim

/-- **Processing a message of the receiver.** -/
theorem Traffic.from_receiver {srv srv' : FileServer κ} {up : List Message} {asked : Nat}
    {msg : Message} (h : Traffic x srv up asked) (step : Outcome x srv x.r msg srv')
    (validated : (srv.conn x.r).m_validated)
    (second : msg.header.id = .Receive → asked = 1)
    (third : msg.header.id = .FinishReceive → asked = 2 ∧ srv.sentTo x.s ≠ []) :
    Traffic x srv' up (asked + 1) := by
  cases step with
  | aside aside gone =>
      obtain ⟨early, -, connected, answers, stream, whole, success⟩ := h.aside aside
      exact ⟨fun few => early (by omega), fun _ => aside.validated validated, connected, answers,
        stream, whole, fun m member kind => Nat.le_succ_of_le (success m member kind)⟩
  | relayed session same => exact (x.distinct same.symm).elim
  | opened context same kind announced => exact h.open_session (second kind) announced
  | finished same kind => exact h.finish (third kind).1 (third kind).2

end PingPong.Transfer
