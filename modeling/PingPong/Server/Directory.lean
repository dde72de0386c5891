import PingPong.Lib.Directory
import PingPong.Server.Outcomes

/-!
# The store is a first-come directory

What the clients can tell of `ClientStorage` is a directory from codes to the sender that registered
each first, with its announcement.  `note` is the directory's own account of a step: a `Send` from a
connection without a session registers it, the end of a session evicts its sender, and nothing else
happens.  The store has more in it than that, the context of a `Send` whose code was taken;
`Lists` relates the two by the contexts that a phrase leads to, so that such a context is nowhere in
the directory, and the next `Send` of its sender replaces it.
-/

namespace PingPong

open Common Net

namespace FileServer

variable {κ : Type} [DecidableEq κ]

/-! ## The directory's account of a step -/

/-- The announcement of a `Send` from a connection without a session. -/
def announcement (srv : FileServer κ) : Event κ → Option (κ × PreMetadata)
  | .message c msg =>
      if srv.m_storage.m_sessions c = none ∧ msg.1.header.id = .Send then
        (decode .Send msg.1).map fun decoded => (c, decoded.1)
      else none
  | _ => none

/-- The session of this sender ends in the step. -/
def Ended (srv srv' : FileServer κ) (s : κ) : Prop :=
  srv.m_storage.m_sessions s ≠ none ∧ srv'.m_storage.m_sessions s = none

instance (srv srv' : FileServer κ) : DecidablePred (Ended srv srv') := fun s =>
  inferInstanceAs
    (Decidable (srv.m_storage.m_sessions s ≠ none ∧ srv'.m_storage.m_sessions s = none))

def note (d : Directory (List UInt8) κ PreMetadata) (srv : FileServer κ) (e : Event κ)
    (srv' : FileServer κ) : Directory (List UInt8) κ PreMetadata :=
  match srv.announcement e with
  | some (c, pre) => d.register c pre.code_phrase.code pre
  | none => d.evict (Ended srv srv')

/-- The directory lists just the phrases of the store, each with what its sender announced. -/
def Lists (srv : FileServer κ) (d : Directory (List UInt8) κ PreMetadata) : Prop :=
  ∀ code s pre, d code = some (s, pre) ↔
    (srv.entries s).phrase = some code ∧
      ∃ x, (srv.entries s).context = some x ∧ x.pre_metadata = pre

omit [DecidableEq κ] in
/-- Phrases and contexts stay, and no session ends. -/
theorem Lists.kept {srv srv' : FileServer κ} {d : Directory (List UInt8) κ PreMetadata}
    (h : srv.Lists d)
    (same : ∀ s, (srv'.entries s).phrase = (srv.entries s).phrase ∧
      (srv'.entries s).context = (srv.entries s).context)
    (unended : ∀ s, ¬ Ended srv srv' s) : srv'.Lists (d.evict (Ended srv srv')) := by
  rw [Directory.evict_of_none unended]
  intro code s pre
  rw [(same s).1, (same s).2]
  exact h code s pre

omit [DecidableEq κ] in
/-- One session ends, and its sender leaves the store. -/
theorem Lists.dropped {srv srv' : FileServer κ} {d : Directory (List UInt8) κ PreMetadata}
    (h : srv.Lists d) {s : κ} (had : (srv.entries s).session ≠ none)
    (drops : OnlyDrops srv srv' s) : srv'.Lists (d.evict (Ended srv srv')) := by
  have gone : srv'.m_storage.m_sessions s = none := drops.session_self
  intro code t pre
  rw [Directory.mem_evict, h code t pre]
  rcases eq_or_ne t s with rfl | ne
  · rw [drops.1]
    apply iff_of_false
    · intro kept
      obtain ⟨-, stays⟩ := kept
      exact stays ⟨had, gone⟩
    · intro kept
      obtain ⟨phrase, -⟩ := kept
      cases phrase
  · have unended : ¬ Ended srv srv' t := by
      intro ended
      obtain ⟨before, after⟩ := ended
      exact before ((drops.session_of_ne ne).symm.trans after)
    rw [drops.2 t ne]
    exact and_iff_left unended

omit [DecidableEq κ] in
/-- The store refuses a phrase just where the directory refuses the claim. -/
theorem Lists.freeFor_iff {srv : FileServer κ} {d : Directory (List UInt8) κ PreMetadata}
    (h : srv.Lists d) (inv : srv.Inv) (c : κ) (code : List UInt8) :
    d.FreeFor c code ↔ srv.m_storage.FreeFor c code := by
  constructor
  · intro free s known
    obtain ⟨x, found, -⟩ := inv.context_of_code known
    have listed : d code = some (s, x.pre_metadata) :=
      (h code s x.pre_metadata).mpr ⟨ClientStorage.getSenderByCode_iff.mp known, x, found, rfl⟩
    exact free _ listed
  · intro free entry listed
    obtain ⟨s, pre⟩ := entry
    obtain ⟨phrase, -⟩ := (h code s pre).mp listed
    exact free s (ClientStorage.getSenderByCode_iff.mpr phrase)

/-- A `Send` registers in the store what it registers in the directory: its own entry is replaced,
or lost where the code is taken, whatever context an earlier `Send` left behind. -/
theorem Lists.registered {srv srv' : FileServer κ} {d : Directory (List UInt8) κ PreMetadata}
    (h : srv.Lists d) (inv : srv.Inv) (c : κ) (pre : PreMetadata)
    (storage : srv'.m_storage =
      (srv.m_storage.removePendingSender c).addPendingSender c m_max_chunk_size pre) :
    srv'.Lists (d.register c pre.code_phrase.code pre) := by
  have now : ∀ t, srv'.entries t =
      ((srv.m_storage.removePendingSender c).addPendingSender c m_max_chunk_size pre).entriesOf t :=
    fun t => by rw [entries, storage]
  intro code s pre'
  rw [Directory.mem_register, h code s pre', h.freeFor_iff inv, now]
  rcases eq_or_ne s c with rfl | ne
  · by_cases free : srv.m_storage.FreeFor s pre.code_phrase.code
    · rw [ClientStorage.entriesOf_register_self (Or.inl ⟨free, rfl⟩)]
      constructor
      · intro lists
        rcases lists with ⟨rfl, same, -⟩ | ⟨-, other⟩
        · cases same
          exact ⟨rfl, _, rfl, rfl⟩
        · exact (other rfl).elim
      · intro kept
        obtain ⟨phrase, x, stored, rfl⟩ := kept
        cases phrase
        cases stored
        exact Or.inl ⟨rfl, rfl, free⟩
    · rw [ClientStorage.entriesOf_register_self (Or.inr ⟨free, rfl⟩)]
      apply iff_of_false
      · intro lists
        rcases lists with ⟨-, -, free'⟩ | ⟨-, other⟩
        · exact free free'
        · exact other rfl
      · intro kept
        obtain ⟨phrase, -⟩ := kept
        cases phrase
  · rw [ClientStorage.entriesOf_register_of_ne ne]
    constructor
    · intro lists
      rcases lists with ⟨-, same, -⟩ | ⟨listed, -⟩
      · cases same
        exact (ne rfl).elim
      · exact listed
    · intro listed
      exact Or.inr ⟨listed, ne⟩

/-! ## The simulation -/

omit [DecidableEq κ] in
theorem announcement_of_session {srv : FileServer κ} {c : κ} {msg : WireMessage}
    (has : srv.m_storage.m_sessions c ≠ none) : srv.announcement (.message c msg) = none :=
  if_neg fun both => has both.1

omit [DecidableEq κ] in
theorem announcement_of_kind {srv : FileServer κ} {c : κ} {msg : WireMessage}
    (kind : msg.1.header.id ≠ .Send) : srv.announcement (.message c msg) = none :=
  if_neg fun both => kind both.2

omit [DecidableEq κ] in
theorem announcement_of_send {srv : FileServer κ} {c : κ} {msg : WireMessage} {pre : PreMetadata}
    {rest : Message} (free : srv.m_storage.m_sessions c = none) (kind : msg.1.header.id = .Send)
    (decoded : decode .Send msg.1 = some (pre, rest)) :
    srv.announcement (.message c msg) = some (c, pre) := by
  rw [announcement, if_pos ⟨free, kind⟩, decoded]
  rfl

/-- What a step other than a registration does to the store. -/
def KeepsOrDrops (srv srv' : FileServer κ) : Prop :=
  ((∀ s, (srv'.entries s).phrase = (srv.entries s).phrase ∧
      (srv'.entries s).context = (srv.entries s).context) ∧ ∀ s, ¬ Ended srv srv' s) ∨
    ∃ s, (srv.entries s).session ≠ none ∧ OnlyDrops srv srv' s

omit [DecidableEq κ] in
theorem KeepsOrDrops.of_storage {srv srv' : FileServer κ} (h : srv'.m_storage = srv.m_storage) :
    KeepsOrDrops srv srv' := by
  left
  constructor
  · intro s
    rw [entries, h]
    exact ⟨rfl, rfl⟩
  · intro s ended
    obtain ⟨had, gone⟩ := ended
    rw [h] at gone
    exact had gone

theorem Handled.registers_or {srv srv' : FileServer κ} {c : κ} {msg : WireMessage} (inv : srv.Inv)
    (owners : srv.Owners) (h : Handled srv c msg.1 srv') :
    (∃ pre, srv.announcement (.message c msg) = some (c, pre) ∧
      srv'.m_storage =
        (srv.m_storage.removePendingSender c).addPendingSender c m_max_chunk_size pre) ∨
    (srv.announcement (.message c msg) = none ∧ KeepsOrDrops srv srv') := by
  have paired_session : ∀ {s : κ}, srv.m_storage.getSenderByReceiver c = some s →
      (srv.entries s).session ≠ none := fun {s} paired =>
    owners.session_of_pairing s (paired_of_receiver paired)
  have other : ∀ {M : EMessageType}, M ≠ .Send → msg.1.header.id = M →
      srv.announcement (.message c msg) = none := by
    intro M ne kind
    apply announcement_of_kind
    rw [kind]
    exact ne
  cases h with
  | relayed session found relays =>
      right
      refine ⟨announcement_of_session ?_, .of_storage rfl⟩
      rw [found]
      exact Option.some_ne_none session
  | aborted session found ends =>
      have has : srv.m_storage.m_sessions c ≠ none := by
        rw [found]
        exact Option.some_ne_none session
      exact Or.inr ⟨announcement_of_session has,
        Or.inr ⟨c, has, removeSessionAbruptly_onlyDrops srv c⟩⟩
  | registered pre rest free kind decoded =>
      exact Or.inl ⟨pre, announcement_of_send free kind decoded, rfl⟩
  | refused request rest free kind decoded unknown =>
      exact Or.inr ⟨other (by decide) kind, .of_storage rfl⟩
  | offered request rest s context free kind decoded known found =>
      exact Or.inr ⟨other (by decide) kind, .of_storage rfl⟩
  | turnedAway request rest free kind decoded unknown =>
      exact Or.inr ⟨other (by decide) kind, .of_storage rfl⟩
  | stranded request rest s free kind decoded known none =>
      exact (inv.not_stranded known none).elim
  | opened request rest s context free kind decoded known found =>
      right
      refine ⟨other (by decide) kind, Or.inl ⟨fun t => ⟨rfl, rfl⟩, ?_⟩⟩
      intro t ended
      obtain ⟨had, gone⟩ := ended
      obtain ⟨y, hy⟩ := Option.ne_none_iff_exists'.mp had
      have still := Dict.insert_keeps (a := s) (b := newSession context c) hy
      cases still.symm.trans gone
  | finished s free kind paired =>
      exact Or.inr ⟨other (by decide) kind,
        Or.inr ⟨s, paired_session paired, post_dropSender_onlyDrops srv s _⟩⟩
  | failed s free kind paired =>
      exact Or.inr ⟨other (by decide) kind,
        Or.inr ⟨s, paired_session paired, removeSessionAbruptly_onlyDrops srv s⟩⟩
  | ignored free notSend notRequest notReceive unpaired =>
      exact Or.inr ⟨announcement_of_kind notSend, .of_storage rfl⟩

/-- **One step.**  The store and the directory's account of it stay related. -/
theorem Lists.step {srv srv' : FileServer κ} {d : Directory (List UInt8) κ PreMetadata}
    {e : Event κ} (h : srv.Lists d) (reachable : Reachable srv) (step : srv.step e = some srv') :
    srv'.Lists (note d srv e srv') := by
  have settled : (∃ c pre, srv.announcement e = some (c, pre) ∧ srv'.m_storage =
        (srv.m_storage.removePendingSender c).addPendingSender c m_max_chunk_size pre) ∨
      (srv.announcement e = none ∧ KeepsOrDrops srv srv') := by
    rcases step_handled step with ⟨only, noMessage⟩ | ⟨c, msg, rfl, handled⟩
    · right
      refine ⟨?_, .of_storage only.storage⟩
      cases e with
      | message c msg => exact (noMessage c msg rfl).elim
      | accept c => rfl
      | validate c => rfl
      | close c => rfl
    · exact (handled.registers_or reachable.inv reachable.owners).imp_left fun registers =>
        ⟨c, registers⟩
  unfold note
  rcases settled with ⟨c, pre, announced, storage⟩ | ⟨none, ⟨same, unended⟩ | ⟨s, had, drops⟩⟩
  · rw [announced]
    exact h.registered reachable.inv c pre storage
  · rw [none]
    exact h.kept same unended
  · rw [none]
    exact h.dropped had drops

/-- The directory's answer to a request for a code. -/
def reply (d : Directory (List UInt8) κ PreMetadata) (code : List UInt8) : Message :=
  match d code with
  | some (_, pre) =>
      encode .Accept
        { payload_type := pre.payload_type
          max_chunk_size := m_max_chunk_size
          code_phrase := pre.code_phrase
          file_data := pre.file_data }
  | none => encode .Reject {}

/-- What a `Receive` with a code from `c` does, by the directory. -/
def receive (srv : FileServer κ) (d : Directory (List UInt8) κ PreMetadata) (c : κ)
    (code : List UInt8) : FileServer κ :=
  match d code with
  | some (s, pre) => srv.openSession s c (ClientStorage.announce m_max_chunk_size pre)
  | none => srv.post c (encode .Abort {})

omit [DecidableEq κ] in
theorem reply_of_listed {d : Directory (List UInt8) κ PreMetadata} {code : List UInt8} {s : κ}
    {pre : PreMetadata} (listed : d code = some (s, pre)) :
    reply d code =
      encode .Accept (ClientStorage.announce m_max_chunk_size pre).post_metadata := by
  rw [reply, listed]
  rfl

omit [DecidableEq κ] in
theorem reply_of_unlisted {d : Directory (List UInt8) κ PreMetadata} {code : List UInt8}
    (unlisted : d code = none) : reply d code = encode .Reject {} := by
  rw [reply, unlisted]

/-- The server answers as the directory does, and a `Receive` opens a session with the owner that
the directory has for the code. -/
structure Serves (srv : FileServer κ) (d : Directory (List UInt8) κ PreMetadata) : Prop where
  request : ∀ c msg request rest, srv.m_storage.m_sessions c = none →
    msg.header.id = .RequestReceive → decode .RequestReceive msg = some (request, rest) →
    srv.onMessage c msg = some (srv.post c (reply d request.code_phrase.code))
  receive : ∀ c msg request rest, srv.m_storage.m_sessions c = none →
    msg.header.id = .Receive → decode .Receive msg = some (request, rest) →
    srv.onMessage c msg = some (srv.receive d c request.code)
  /-- Within a session neither is answered; the session ends. -/
  sessioned : ∀ c msg, srv.m_storage.m_sessions c ≠ none →
    msg.header.id = .RequestReceive ∨ msg.header.id = .Receive →
    srv.onMessage c msg = some (srv.removeSessionAbruptly c)
  /-- The two branches for a sender without a context are dead. -/
  context : ∀ code s, srv.m_storage.getSenderByCode code = some s →
    srv.m_storage.getContextBySender s ≠ none

theorem onMessage_request_unknown {srv : FileServer κ} {c : κ} {msg rest : Message}
    {request : PreMetadata} (free : srv.m_storage.m_sessions c = none)
    (kind : msg.header.id = .RequestReceive)
    (decoded : decode .RequestReceive msg = some (request, rest))
    (unknown : srv.m_storage.getSenderByCode request.code_phrase.code = none) :
    srv.onMessage c msg = some (srv.post c (encode .Reject {})) := by
  rw [onMessage_request free kind]
  simp only [onReceiveEstablishment, decoded, Option.bind_eq_bind, Option.bind_some, unknown]

theorem onMessage_request_known {srv : FileServer κ} {c s : κ} {msg rest : Message}
    {request : PreMetadata} {context : TransmissionContext}
    (free : srv.m_storage.m_sessions c = none) (kind : msg.header.id = .RequestReceive)
    (decoded : decode .RequestReceive msg = some (request, rest))
    (known : srv.m_storage.getSenderByCode request.code_phrase.code = some s)
    (found : srv.m_storage.m_pending_transmissions s = some context) :
    srv.onMessage c msg = some (srv.post c (encode .Accept context.post_metadata)) := by
  have found : srv.m_storage.getContextBySender s = some context := found
  rw [onMessage_request free kind]
  simp only [onReceiveEstablishment, decoded, Option.bind_eq_bind, Option.bind_some, known, found]

/-- Within a session, a message of another kind than the two that are relayed ends it. -/
theorem onMessage_sessioned {srv : FileServer κ} {c : κ} {msg : Message}
    (has : srv.m_storage.m_sessions c ≠ none) (notFinal : msg.header.id ≠ .FinalChunk)
    (notChunk : msg.header.id ≠ .Chunk) :
    srv.onMessage c msg = some (srv.removeSessionAbruptly c) := by
  obtain ⟨session, found⟩ := Option.ne_none_iff_exists'.mp has
  have found : srv.m_storage.getSessionBySender c = some session := found
  unfold onMessage
  rw [found]
  dsimp only [onSessionedMessage]
  rw [if_neg notFinal, if_neg notChunk]

omit [DecidableEq κ] in
/-- A code is in the directory, with an owner whose context is the announcement there, or in
neither. -/
theorem Lists.lookup {srv : FileServer κ} {d : Directory (List UInt8) κ PreMetadata}
    (h : srv.Lists d) (inv : srv.Inv) (code : List UInt8) :
    (d code = none ∧ srv.m_storage.getSenderByCode code = none) ∨
      ∃ s pre, d code = some (s, pre) ∧ srv.m_storage.getSenderByCode code = some s ∧
        srv.m_storage.m_pending_transmissions s =
          some (ClientStorage.announce m_max_chunk_size pre) := by
  cases known : srv.m_storage.getSenderByCode code with
  | some s =>
      obtain ⟨x, found, -, -, announced⟩ := inv.context_of_code known
      right
      refine ⟨s, x.pre_metadata, ?_, rfl, ?_⟩
      · exact (h code s _).mpr ⟨ClientStorage.getSenderByCode_iff.mp known, x, found, rfl⟩
      · rw [← announced]
        exact found
  | none =>
      left
      refine ⟨?_, rfl⟩
      rw [Option.eq_none_iff_forall_ne_some]
      intro entry listed
      obtain ⟨s, pre⟩ := entry
      obtain ⟨phrase, -⟩ := (h code s pre).mp listed
      cases known.symm.trans (ClientStorage.getSenderByCode_iff.mpr phrase)

theorem Lists.serves {srv : FileServer κ} {d : Directory (List UInt8) κ PreMetadata}
    (h : srv.Lists d) (inv : srv.Inv) : srv.Serves d := by
  constructor
  · intro c msg request rest free kind decoded
    rcases h.lookup inv request.code_phrase.code with
      ⟨unlisted, unknown⟩ | ⟨s, pre, listed, known, found⟩
    · rw [reply_of_unlisted unlisted]
      exact onMessage_request_unknown free kind decoded unknown
    · rw [reply_of_listed listed]
      exact onMessage_request_known free kind decoded known found
  · intro c msg request rest free kind decoded
    rcases h.lookup inv request.code with ⟨unlisted, unknown⟩ | ⟨s, pre, listed, known, found⟩
    · rw [receive, unlisted]
      exact onMessage_receive_unknown free kind decoded unknown
    · rw [receive, listed]
      exact onMessage_receive_known free kind decoded known found
  · rintro c msg has (kind | kind) <;> apply onMessage_sessioned has <;> rw [kind] <;> decide
  · intro code s known
    obtain ⟨x, found, -⟩ := inv.context_of_code known
    intro gone
    exact Option.some_ne_none x (found.symm.trans gone)

end FileServer

end PingPong
