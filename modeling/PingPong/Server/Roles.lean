import PingPong.Server.Ownership

/-!
# Clients that keep to their role

The clients' loops take the order of the server's answers for granted.  `SenderRole` and
`ReceiverRole` say what a connection sends, and when, whatever all the others do.  The rest is what
a connection can notice of the others: the session it is the sink of, if any, and what `Handled`
sends to it.
-/

namespace PingPong

open Common Net

namespace FileServer

variable {κ : Type} [DecidableEq κ]

/-! ## Roles -/

/-- The types of the messages sent on a connection. -/
def idsTo (srv : FileServer κ) (c : κ) : List EMessageType :=
  (srv.sentTo c).map fun msg => msg.header.id

/-- The type of the message, if it is one from this connection. -/
def idFrom (c : κ) : Event κ → Option EMessageType
  | .message d msg => if d = c then some msg.1.header.id else none
  | _ => none

/-- The types of the messages that a run processes from a connection. -/
def idsFrom (c : κ) (es : List (Event κ)) : List EMessageType := es.filterMap (idFrom c)

/-- One `Send` and, after an `Accept`, any `Chunk`s and `FinalChunk`s. -/
structure SenderRole (c : κ) (es : List (Event κ)) : Prop where
  order : ∃ ids, idsFrom c es <+: .Send :: ids ∧ ∀ id ∈ ids, id = .Chunk ∨ id = .FinalChunk
  after_accept : ∀ srv msg srv', (lts κ).Takes es srv (.message c msg) srv' →
    msg.1.header.id ≠ .Send → .Accept ∈ idsTo srv c

/-- One `RequestReceive` and, after an `Accept`, one `Receive` and one report. -/
structure ReceiverRole (r : κ) (es : List (Event κ)) : Prop where
  order : idsFrom r es <+: [.RequestReceive, .Receive, .FinishReceive] ∨
    idsFrom r es <+: [.RequestReceive, .Receive, .FailedReceive]
  after_accept : ∀ srv msg srv', (lts κ).Takes es srv (.message r msg) srv' →
    msg.1.header.id ≠ .RequestReceive → .Accept ∈ idsTo srv r

theorem idsFrom_snoc (c : κ) (es : List (Event κ)) (e : Event κ) :
    idsFrom c (es ++ [e]) = idsFrom c es ++ (idFrom c e).toList := by
  unfold idsFrom
  rw [List.filterMap_append, List.filterMap_cons, List.filterMap_nil]
  cases idFrom c e <;> rfl

theorem idsFrom_message_self (c : κ) (es : List (Event κ)) (msg : WireMessage) :
    idsFrom c (es ++ [.message c msg]) = idsFrom c es ++ [msg.1.header.id] := by
  rw [idsFrom_snoc, idFrom, if_pos rfl]
  rfl

/-- A step that is no message of this connection. -/
theorem idsFrom_other {c : κ} (es : List (Event κ)) {e : Event κ}
    (other : ∀ msg, e ≠ .message c msg) : idsFrom c (es ++ [e]) = idsFrom c es := by
  have unseen : idFrom c e = none := by
    cases e with
    | message d msg => exact if_neg fun same => other msg (by rw [same])
    | accept d => rfl
    | validate d => rfl
    | close d => rfl
  rw [idsFrom_snoc, unseen]
  exact List.append_nil _

theorem idsFrom_isPrefix (c : κ) (es : List (Event κ)) (e : Event κ) :
    idsFrom c es <+: idsFrom c (es ++ [e]) := by
  rw [idsFrom_snoc]
  exact List.prefix_append _ _

theorem SenderRole.before {c : κ} {es : List (Event κ)} {e : Event κ}
    (h : SenderRole c (es ++ [e])) : SenderRole c es := by
  obtain ⟨⟨ids, order, kinds⟩, after⟩ := h
  exact ⟨⟨ids, (idsFrom_isPrefix c es e).trans order, kinds⟩,
    fun srv msg srv' taken => after srv msg srv' (taken.snoc e)⟩

theorem ReceiverRole.before {r : κ} {es : List (Event κ)} {e : Event κ}
    (h : ReceiverRole r (es ++ [e])) : ReceiverRole r es := by
  obtain ⟨order, after⟩ := h
  exact ⟨order.imp (idsFrom_isPrefix r es e).trans (idsFrom_isPrefix r es e).trans,
    fun srv msg srv' taken => after srv msg srv' (taken.snoc e)⟩

/-- The next message of a sender is its `Send`, or a part of the file. -/
theorem SenderRole.next {c : κ} {es : List (Event κ)} {msg : WireMessage}
    (h : SenderRole c (es ++ [.message c msg])) :
    (idsFrom c es = [] ∧ msg.1.header.id = .Send) ∨
      msg.1.header.id = .Chunk ∨ msg.1.header.id = .FinalChunk := by
  obtain ⟨⟨ids, order, kinds⟩, -⟩ := h
  rw [idsFrom_message_self] at order
  have at_end := Channel.getElem?_of_snoc_isPrefix order
  cases count : idsFrom c es with
  | nil =>
      rw [count] at at_end
      exact Or.inl ⟨rfl, (Option.some.inj at_end).symm⟩
  | cons first rest =>
      rw [count, List.length_cons, List.getElem?_cons_succ] at at_end
      exact Or.inr (kinds _ (List.mem_of_getElem? at_end))

/-- The next message of a receiver is its request, its `Receive`, or its report. -/
theorem ReceiverRole.next {r : κ} {es : List (Event κ)} {msg : WireMessage}
    (h : ReceiverRole r (es ++ [.message r msg])) :
    ((idsFrom r es).length = 0 ∧ msg.1.header.id = .RequestReceive) ∨
      ((idsFrom r es).length = 1 ∧ msg.1.header.id = .Receive) ∨
      ((idsFrom r es).length = 2 ∧
        (msg.1.header.id = .FinishReceive ∨ msg.1.header.id = .FailedReceive)) := by
  have order := h.order
  rw [idsFrom_message_self] at order
  have at_end := order.imp Channel.getElem?_of_snoc_isPrefix Channel.getElem?_of_snoc_isPrefix
  generalize (idsFrom r es).length = n at at_end ⊢
  match n, at_end with
  | 0, Or.inl at_end | 0, Or.inr at_end =>
      exact Or.inl ⟨rfl, (Option.some.inj at_end).symm⟩
  | 1, Or.inl at_end | 1, Or.inr at_end =>
      exact Or.inr (Or.inl ⟨rfl, (Option.some.inj at_end).symm⟩)
  | 2, Or.inl at_end => exact Or.inr (Or.inr ⟨rfl, Or.inl (Option.some.inj at_end).symm⟩)
  | 2, Or.inr at_end => exact Or.inr (Or.inr ⟨rfl, Or.inr (Option.some.inj at_end).symm⟩)
  | n + 3, Or.inl at_end | n + 3, Or.inr at_end => cases at_end

/-! ## What the others do to a connection -/

/-- The session of `s` relays to `c`. -/
def Sinks (srv : FileServer κ) (c s : κ) : Prop :=
  ∃ x, (srv.entries s).session = some x ∧ x.m_sink = c

omit [DecidableEq κ] in
theorem Sinks.of_storage {srv srv' : FileServer κ} (same : srv'.m_storage = srv.m_storage)
    {c s : κ} (h : srv'.Sinks c s) : srv.Sinks c s := by
  unfold Sinks entries at *
  rw [← same]
  exact h

omit [DecidableEq κ] in
/-- A sender that is dropped relays to nobody, and nobody else starts to. -/
theorem Sinks.of_drops {srv srv' : FileServer κ} {c s t : κ} (drops : OnlyDrops srv srv' s)
    (h : srv'.Sinks c t) : t ≠ s ∧ srv.Sinks c t := by
  obtain ⟨x, found, sink⟩ := h
  have ne : t ≠ s := by
    intro same
    obtain rfl := same
    rw [drops.1] at found
    cases found
  rw [drops.2 t ne] at found
  exact ⟨ne, x, found, sink⟩

theorem Sinks.of_register {srv srv' : FileServer κ} {c d s : κ} {pre : PreMetadata}
    (storage : srv'.m_storage =
      (srv.m_storage.removePendingSender d).addPendingSender d m_max_chunk_size pre)
    (h : srv'.Sinks c s) : srv.Sinks c s := by
  obtain ⟨x, found, sink⟩ := h
  refine ⟨x, ?_, sink⟩
  rw [entries, storage] at found
  exact found

/-- The one new session relays to its receiver. -/
theorem Sinks.of_addSession {srv srv' : FileServer κ} {c d s t : κ}
    {x : ServerOneToOneRetranslatorSession κ} (sink : x.m_sink = d)
    (storage : srv'.m_storage = srv.m_storage.addSession s d x) (h : srv'.Sinks c t) :
    srv.Sinks c t ∨ (t = s ∧ c = d) := by
  obtain ⟨y, found, rfl⟩ := h
  rw [entries, storage] at found
  rcases eq_or_ne t s with rfl | ne
  · rw [ClientStorage.entriesOf_addSession_self] at found
    dsimp only at found
    split at found
    · cases found
      exact Or.inr ⟨rfl, sink⟩
    · exact Or.inl ⟨y, found, rfl⟩
  · rw [ClientStorage.entriesOf_addSession_of_ne ne] at found
    exact Or.inl ⟨y, found, rfl⟩

theorem post_idsTo (srv : FileServer κ) (c d : κ) (msg : Message) :
    (srv.post c msg).idsTo d =
      if d = c ∧ srv.accepts c then srv.idsTo d ++ [msg.header.id] else srv.idsTo d := by
  unfold idsTo
  rw [post_sentTo]
  split
  · exact List.map_append
  · rfl

theorem post_idsTo_of_ne {srv : FileServer κ} {c d : κ} {msg : Message} (ne : d ≠ c) :
    (srv.post c msg).idsTo d = srv.idsTo d := by
  rw [post_idsTo, if_neg fun both => ne both.1]

theorem dropSender_idsTo (srv : FileServer κ) (s c : κ) :
    (srv.dropSender s).idsTo c = srv.idsTo c := by
  unfold idsTo
  rw [dropSender_sentTo]

/-- An abrupt end is noticed by the sink of the session, if it is still there, and by nobody
else. -/
theorem removeSessionAbruptly_idsTo (srv : FileServer κ) (s c : κ) :
    (srv.removeSessionAbruptly s).idsTo c = srv.idsTo c ∨
      (srv.Sinks c s ∧ (srv.removeSessionAbruptly s).idsTo c = srv.idsTo c ++ [.Abort]) := by
  rw [removeSessionAbruptly_eq, dropSender_idsTo]
  cases found : srv.m_storage.m_sessions s with
  | none =>
      left
      unfold abortSink
      rw [found]
  | some x =>
      rw [abortSink_of_session found, post_idsTo]
      split
      · rename_i told
        exact Or.inr ⟨⟨x, found, told.1.symm⟩, by rw [encode_id]⟩
      · exact Or.inl rfl

/-- A closed connection stays closed. -/
theorem step_closed {srv srv' : FileServer κ} {e : Event κ} (step : srv.step e = some srv')
    {c : κ} (closed : (srv.conn c).m_socket = .closed) : (srv'.conn c).m_socket = .closed := by
  have update : ∀ {d : κ} {l : Link EMessageType},
      ((srv.conn d).m_socket = .closed → l.m_socket = .closed) →
      ((srv.withConn d l).conn c).m_socket = .closed := by
    intro d l stays
    change (Function.update srv.conn d l c).m_socket = .closed
    rcases eq_or_ne c d with rfl | ne
    · rw [Function.update_self]
      exact stays closed
    · rw [Function.update_of_ne ne]
      exact closed
  cases e with
  | accept d =>
      simp only [FileServer.step] at step
      split at step
      · rename_i absent
        cases step
        apply update
        intro closed
        cases absent.symm.trans closed
      · cases step
  | validate d =>
      simp only [FileServer.step] at step
      split at step <;> cases step
      exact update id
  | close d =>
      simp only [FileServer.step] at step
      split at step <;> cases step
      exact update fun _ => rfl
  | message d msg =>
      have same := (onMessage_handled (step_message step).2).sameEnd c
      rw [same.2]
      exact closed

end FileServer

end PingPong
