import PingPong.Common.RoundTrip
import PingPong.Server.Handled

/-!
# The store invariant

* `FileServer.step_handled`: a step either leaves the store and every sent message alone or is the
  handling of one message.
* `FileServer.Inv`: a phrase is never without a context, the context carries that phrase, and what a
  context holds is what some `Send` decoded to.  The converse fails: a `Send` with a taken code
  leaves a context without a phrase.
-/

namespace PingPong

open Common Net

namespace FileServer

variable {κ : Type} [DecidableEq κ]

/-! ## Steps of the server -/

/-- The steps that only concern connections. -/
structure OnlyConnects (srv srv' : FileServer κ) : Prop where
  storage : srv'.m_storage = srv.m_storage
  sent : ∀ c, srv'.sentTo c = srv.sentTo c

theorem withConn_onlyConnects {srv : FileServer κ} {c : κ} {l : Link EMessageType}
    (h : l.sent = srv.sentTo c) : OnlyConnects srv (srv.withConn c l) := by
  refine ⟨rfl, fun d => ?_⟩
  change (Function.update srv.conn c l d).sent = (srv.conn d).sent
  rcases eq_or_ne d c with rfl | hd
  · rw [Function.update_self]
    exact h
  · rw [Function.update_of_ne hd]

theorem step_message {srv srv' : FileServer κ} {c : κ} {msg : WireMessage}
    (h : srv.step (.message c msg) = some srv') :
    (srv.conn c).m_validated ∧ srv.onMessage c msg.1 = some srv' := by
  simp only [step] at h
  split at h
  · rename_i validated
    exact ⟨validated, h⟩
  · cases h

theorem step_handled {srv srv' : FileServer κ} {e : Event κ} (h : srv.step e = some srv') :
    (OnlyConnects srv srv' ∧ ∀ c msg, e ≠ .message c msg) ∨
      ∃ c msg, e = .message c msg ∧ Handled srv c msg.1 srv' := by
  cases e with
  | accept c =>
      simp only [step] at h
      split at h <;> cases h
      exact Or.inl ⟨withConn_onlyConnects rfl, by simp⟩
  | validate c =>
      simp only [step] at h
      split at h <;> cases h
      exact Or.inl ⟨withConn_onlyConnects rfl, by simp⟩
  | close c =>
      simp only [step] at h
      split at h <;> cases h
      exact Or.inl ⟨withConn_onlyConnects rfl, by simp⟩
  | message c msg => exact Or.inr ⟨c, msg, rfl, onMessage_handled (step_message h).2⟩

theorem step_extends {srv srv' : FileServer κ} {e : Event κ} (h : srv.step e = some srv') (c : κ) :
    Channel.Extends (srv.sentTo c) (srv'.sentTo c) := by
  rcases step_handled h with ⟨only, -⟩ | ⟨d, msg, -, handled⟩
  · exact Or.inl (only.sent c)
  · exact handled.extends c

/-! ## What ending a session does to the store -/

theorem removeSessionAbruptly_entries_self (srv : FileServer κ) (s : κ) :
    (srv.removeSessionAbruptly s).entries s = .absent := by
  rw [removeSessionAbruptly_eq]
  exact dropSender_entries_self _ s

theorem removeSessionAbruptly_entries_of_ne {srv : FileServer κ} {s t : κ} (h : t ≠ s) :
    (srv.removeSessionAbruptly s).entries t = srv.entries t := by
  rw [removeSessionAbruptly_eq, dropSender_entries_of_ne h, entries, abortSink_storage]

/-! ## The invariant -/

/-- What `addPendingSender` stores for a decoded announcement. -/
def Announced (context : TransmissionContext) : Prop :=
  context.pre_metadata.Sized ∧
    context = ClientStorage.announce m_max_chunk_size context.pre_metadata

/-- The invariant, sender by sender. -/
structure EntriesInv (e : Entries κ) : Prop where
  context_of_phrase : ∀ p, e.phrase = some p →
    ∃ x, e.context = some x ∧ x.pre_metadata.code_phrase.code = p
  announced : ∀ x, e.context = some x → Announced x

def Inv (srv : FileServer κ) : Prop := ∀ s, EntriesInv (srv.entries s)

omit [DecidableEq κ] in
theorem EntriesInv.absent : EntriesInv (.absent : Entries κ) := by
  constructor
  · intro p hp
    cases hp
  · intro x hx
    cases hx

omit [DecidableEq κ] in
/-- Pairings and sessions do not matter to the invariant. -/
theorem EntriesInv.congr {e f : Entries κ} (h : EntriesInv e) (phrase : f.phrase = e.phrase)
    (context : f.context = e.context) : EntriesInv f := by
  constructor
  · intro p hp
    rw [phrase] at hp
    rw [context]
    exact h.context_of_phrase p hp
  · intro x hx
    rw [context] at hx
    exact h.announced x hx

theorem Inv.removeSessionAbruptly {srv : FileServer κ} (h : srv.Inv) (s : κ) :
    (srv.removeSessionAbruptly s).Inv := by
  intro t
  rcases eq_or_ne t s with rfl | ht
  · rw [removeSessionAbruptly_entries_self]
    exact .absent
  · rw [removeSessionAbruptly_entries_of_ne ht]
    exact h t

theorem decode_sized {msg rest : Message} {pre : PreMetadata}
    (h : decode .Send msg = some (pre, rest)) : pre.Sized :=
  Message.pop_yields PreMetadata.yields_sized h

theorem Inv.handled {srv srv' : FileServer κ} (h : srv.Inv) {c : κ} {msg : Message}
    (step : Handled srv c msg srv') : srv'.Inv := by
  cases step with
  | relayed session found relays => exact h
  | aborted session found ends => exact h.removeSessionAbruptly c
  | registered pre rest free kind decoded =>
      intro t
      rcases eq_or_ne t c with rfl | ht
      · have announced : Announced (ClientStorage.announce m_max_chunk_size pre) :=
          ⟨decode_sized decoded, rfl⟩
        rcases Classical.em (srv.m_storage.FreeFor t pre.code_phrase.code) with own | taken
        · rw [entries, ClientStorage.entriesOf_register_self (Or.inl ⟨own, rfl⟩)]
          refine ⟨fun p hp => ⟨_, rfl, Option.some.inj hp⟩, fun x hx => ?_⟩
          cases hx
          exact announced
        · rw [entries, ClientStorage.entriesOf_register_self (Or.inr ⟨taken, rfl⟩)]
          refine ⟨fun p hp => (by cases hp), fun x hx => ?_⟩
          cases hx
          exact announced
      · rw [entries, ClientStorage.entriesOf_register_of_ne ht]
        exact h t
  | refused request rest free kind decoded unknown => exact h
  | offered request rest s context free kind decoded known found => exact h
  | turnedAway request rest free kind decoded unknown => exact h
  | stranded request rest s free kind decoded known none => exact h.removeSessionAbruptly s
  | opened request rest s context free kind decoded known found =>
      intro t
      change EntriesInv ((srv.m_storage.addSession s c (newSession context c)).entriesOf t)
      rcases eq_or_ne t s with rfl | ht
      · rw [ClientStorage.entriesOf_addSession_self]
        exact (h t).congr rfl rfl
      · rw [ClientStorage.entriesOf_addSession_of_ne ht]
        exact h t
  | finished s free kind paired =>
      intro t
      rcases eq_or_ne t s with rfl | ht
      · rw [dropSender_entries_self]
        exact .absent
      · rw [dropSender_entries_of_ne ht]
        exact h t
  | failed s free kind paired => exact h.removeSessionAbruptly s
  | ignored => exact h

theorem Reachable.inv {srv : FileServer κ} (h : Reachable srv) : srv.Inv := by
  refine Lts.Reachable.induct (M := lts κ) (P := Inv) (fun s => .absent) ?_ h
  intro srv e srv' _ inv step
  rcases step_handled step with ⟨only, -⟩ | ⟨c, msg, -, handled⟩
  · intro s
    rw [entries, only.storage]
    exact inv s
  · exact inv.handled handled

omit [DecidableEq κ] in
/-- A sender that a code resolves to has a context, so the branches for one without are dead. -/
theorem Inv.context_of_code {srv : FileServer κ} (h : srv.Inv) {code : List UInt8} {s : κ}
    (known : srv.m_storage.getSenderByCode code = some s) :
    ∃ x, srv.m_storage.m_pending_transmissions s = some x ∧
      x.pre_metadata.code_phrase.code = code ∧ Announced x := by
  obtain ⟨x, found, carries⟩ :=
    (h s).context_of_phrase code (ClientStorage.getSenderByCode_iff.mp known)
  exact ⟨x, found, carries, (h s).announced x found⟩

omit [DecidableEq κ] in
/-- The `stranded` outcome of a `Receive` does not occur. -/
theorem Inv.not_stranded {srv : FileServer κ} (h : srv.Inv) {code : List UInt8} {s : κ}
    (known : srv.m_storage.getSenderByCode code = some s)
    (none : srv.m_storage.m_pending_transmissions s = none) : False := by
  obtain ⟨x, found, -⟩ := h.context_of_code known
  cases none.symm.trans found

/-! ## A session between two clients -/

theorem send_framed : (encode .Send ⟨.File, ⟨1, [7]⟩, ⟨3, 1, [8]⟩⟩).Framed := by decide

theorem request_framed : (encode .RequestReceive ⟨.File, ⟨1, [7]⟩, ⟨0, 0, []⟩⟩).Framed := by decide

theorem receive_framed : (encode .Receive ⟨1, [7]⟩).Framed := by decide

/-- Client 0 announces a file of three bytes under a one-byte code, and client 1 receives it. -/
def pairingEvents : List (Event Nat) :=
  [.accept 0, .validate 0, .accept 1, .validate 1,
    .message 0 ⟨encode .Send ⟨.File, ⟨1, [7]⟩, ⟨3, 1, [8]⟩⟩, send_framed⟩,
    .message 1 ⟨encode .Receive ⟨1, [7]⟩, receive_framed⟩]

def onePair : FileServer Nat := ((lts Nat).run pairingEvents).get (by decide)

theorem onePair_reachable : Reachable onePair := ⟨pairingEvents, (Option.some_get _).symm⟩

example : (onePair.entries 0).session = some ⟨3, 512, 1⟩ ∧
    onePair.m_storage.getSenderByReceiver 1 = some 0 := by decide

end FileServer

end PingPong
