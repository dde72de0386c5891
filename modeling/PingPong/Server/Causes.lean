import PingPong.Server.DeadSenders
import PingPong.Server.Isolation

/-!
# Why a message was sent

Every message of the server has a cause in what its clients have sent before, and what causes it are
clients who know the code: `Caused` lists the causes.  What belongs to a file only goes to somebody
who has presented the code of an announcement of the connection it comes from.

* `Accounted` is the invariant: whatever is in the store was put there by a message of the run.
* `every_message_caused` is the result, of every run.
-/

namespace PingPong

open Common Net

namespace FileServer

variable {κ : Type}

/-! ## What the clients have done -/

/-- The event happened when `P` held of what had happened before. -/
def Happens (es : List (Event κ)) (e : Event κ) (P : List (Event κ) → Prop) : Prop :=
  ∃ before after, es = before ++ e :: after ∧ P before

/-- `s` has announced a file. -/
def Announces (es : List (Event κ)) (s : κ) (pre : PreMetadata) : Prop :=
  ∃ msg rest, Event.message s msg ∈ es ∧ msg.1.header.id = .Send ∧
    decode .Send msg.1 = some (pre, rest)

/-- `r` has asked for a file that `s` had announced, with its code. -/
def Presents (es : List (Event κ)) (kind : EMessageType) (r s : κ) (pre : PreMetadata) : Prop :=
  ∃ msg, Happens es (.message r msg) (fun before => Announces before s pre) ∧
    msg.1.header.id = kind ∧ requestedCode msg.1 = some pre.code_phrase.code

/-- What is sent in answer to a request for the announced file. -/
def acceptance (pre : PreMetadata) : Message :=
  encode .Accept (ClientStorage.announce m_max_chunk_size pre).post_metadata

/-- Why the server has sent a message to `c`. -/
inductive Caused (es : List (Event κ)) (c : κ) : Message → Prop
  /-- `c` has asked for a file of `s`, from which this came afterwards. -/
  | relayed (s : κ) (pre : PreMetadata) (msg : WireMessage) :
    Happens es (.message s msg) (fun before => Presents before .Receive c s pre) →
    msg.1.header.id = .Chunk ∨ msg.1.header.id = .FinalChunk → Caused es c msg.1
  | offered (s : κ) (pre : PreMetadata) : Presents es .RequestReceive c s pre →
    Caused es c (acceptance pre)
  /-- Somebody has asked for the file of `c`. -/
  | begun (r : κ) (pre : PreMetadata) : Presents es .Receive r c pre → Caused es c (acceptance pre)
  | refused (msg : WireMessage) : Event.message c msg ∈ es → msg.1.header.id = .RequestReceive →
    Caused es c (encode .Reject {})
  | turnedAway (msg : WireMessage) : Event.message c msg ∈ es → msg.1.header.id = .Receive →
    Caused es c (encode .Abort {})
  /-- `c` has asked for a file of `s`, and it was `s` or somebody else who has asked for it that
  put an end to it. -/
  | aborted (s d : κ) (pre : PreMetadata) (msg : WireMessage) :
    Happens es (.message d msg) (fun before => Presents before .Receive c s pre ∧
      (d = s ∨ msg.1.header.id = .FailedReceive ∧ ∃ pre, Presents before .Receive d s pre)) →
    Caused es c (encode .Abort {})
  /-- Somebody who has asked for the file of `c` reports that it has been received. -/
  | finished (r : κ) (pre : PreMetadata) (msg : WireMessage) :
    Happens es (.message r msg) (fun before => Presents before .Receive r c pre) →
    msg.1.header.id = .FinishReceive → Caused es c (encode .Success {})

/-! ## What has happened stays so -/

theorem Happens.snoc {es : List (Event κ)} {e : Event κ} {P : List (Event κ) → Prop}
    (h : Happens es e P) (d : Event κ) : Happens (es ++ [d]) e P := by
  obtain ⟨before, after, rfl, holds⟩ := h
  refine ⟨before, after ++ [d], ?_, holds⟩
  rw [List.append_assoc, List.cons_append]

theorem Happens.last {es : List (Event κ)} {P : List (Event κ) → Prop} (e : Event κ)
    (holds : P es) : Happens (es ++ [e]) e P := ⟨es, [], rfl, holds⟩

theorem Announces.snoc {es : List (Event κ)} {s : κ} {pre : PreMetadata} (h : Announces es s pre)
    (d : Event κ) : Announces (es ++ [d]) s pre := by
  obtain ⟨msg, rest, member, kind, decoded⟩ := h
  exact ⟨msg, rest, List.mem_append_left _ member, kind, decoded⟩

theorem Presents.snoc {es : List (Event κ)} {kind : EMessageType} {r s : κ} {pre : PreMetadata}
    (h : Presents es kind r s pre) (d : Event κ) : Presents (es ++ [d]) kind r s pre := by
  obtain ⟨msg, happens, same, requested⟩ := h
  exact ⟨msg, happens.snoc d, same, requested⟩

theorem Caused.snoc {es : List (Event κ)} {c : κ} {msg : Message} (h : Caused es c msg)
    (d : Event κ) : Caused (es ++ [d]) c msg := by
  cases h with
  | relayed s pre msg happens kind => exact .relayed s pre msg (happens.snoc d) kind
  | offered s pre presents => exact .offered s pre (presents.snoc d)
  | begun r pre presents => exact .begun r pre (presents.snoc d)
  | refused msg member kind => exact .refused msg (List.mem_append_left _ member) kind
  | turnedAway msg member kind => exact .turnedAway msg (List.mem_append_left _ member) kind
  | aborted s t pre msg happens => exact .aborted s t pre msg (happens.snoc d)
  | finished r pre msg happens kind => exact .finished r pre msg (happens.snoc d) kind

/-! ## What is in the store -/

/-- Where the entries of `s` come from. -/
structure Accounts (es : List (Event κ)) (s : κ) (e : Entries κ) : Prop where
  context : ∀ x, e.context = some x → Announces es s x.pre_metadata
  pairing : ∀ r, e.pairing = some r → ∃ pre, Presents es .Receive r s pre
  session : ∀ x, e.session = some x → ∃ pre, Presents es .Receive x.m_sink s pre

theorem Accounts.absent (es : List (Event κ)) (s : κ) : Accounts es s .absent := by
  constructor <;> intro x found <;> cases found

theorem Accounts.snoc {es : List (Event κ)} {s : κ} {e : Entries κ} (h : Accounts es s e)
    (d : Event κ) : Accounts (es ++ [d]) s e := by
  refine ⟨fun x found => (h.context x found).snoc d, fun r found => ?_, fun x found => ?_⟩
  · obtain ⟨pre, presents⟩ := h.pairing r found
    exact ⟨pre, presents.snoc d⟩
  · obtain ⟨pre, presents⟩ := h.session x found
    exact ⟨pre, presents.snoc d⟩

structure Accounted (es : List (Event κ)) (srv : FileServer κ) : Prop where
  stored : ∀ s, Accounts es s (srv.entries s)
  sent : ∀ c, ∀ msg ∈ srv.sentTo c, Caused es c msg

/-- A request that resolves presents the code of its sender's announcement. -/
theorem Accounted.presents {es : List (Event κ)} {srv : FileServer κ} (h : Accounted es srv)
    (inv : srv.Inv) {r s : κ} {msg : WireMessage} {code : List UInt8}
    {context : TransmissionContext} (requested : requestedCode msg.1 = some code)
    (known : srv.m_storage.getSenderByCode code = some s)
    (found : srv.m_storage.m_pending_transmissions s = some context) :
    Presents (es ++ [.message r msg]) msg.1.header.id r s context.pre_metadata ∧
      encode .Accept context.post_metadata = acceptance context.pre_metadata := by
  obtain ⟨x, same, carries, announced⟩ := inv.context_of_code known
  cases found.symm.trans same
  have announces : Announces es s context.pre_metadata := (h.stored s).context context found
  refine ⟨⟨msg, .last _ announces, rfl, ?_⟩, ?_⟩
  · rw [carries]
    exact requested
  · unfold acceptance
    rw [← announced.2]

theorem Accounted.start : Accounted [] ({} : FileServer κ) :=
  ⟨fun s => .absent [] s, fun c msg member => by cases member⟩

theorem Accounted.aside {es : List (Event κ)} {srv srv' : FileServer κ} (h : Accounted es srv)
    (e : Event κ) (only : OnlyConnects srv srv') : Accounted (es ++ [e]) srv' := by
  refine ⟨fun s => ?_, fun c msg member => ?_⟩
  · rw [entries, only.storage]
    exact (h.stored s).snoc e
  · rw [only.sent] at member
    exact (h.sent c msg member).snoc e

/-! ## Handling a message -/

variable {es : List (Event κ)} {srv srv' : FileServer κ} {c : κ} {msg : WireMessage}

theorem Accounted.drops (h : Accounted es srv) (e : Event κ) {t : κ} (drops : OnlyDrops srv srv' t)
    (s : κ) : Accounts (es ++ [e]) s (srv'.entries s) := by
  rcases eq_or_ne s t with rfl | ne
  · rw [drops.1]
    exact .absent _ s
  · rw [drops.2 s ne]
    exact (h.stored s).snoc e

variable [DecidableEq κ]

/-- The entries that a message leaves. -/
theorem Accounted.stores (h : Accounted es srv) (inv : srv.Inv) (step : Handled srv c msg.1 srv')
    (s : κ) : Accounts (es ++ [.message c msg]) s (srv'.entries s) := by
  have before := (h.stored s).snoc (.message c msg)
  cases step with
  | aborted session found ends => exact h.drops _ (removeSessionAbruptly_onlyDrops srv c) s
  | stranded request rest t free kind decoded known none =>
      exact h.drops _ (removeSessionAbruptly_onlyDrops srv t) s
  | finished t free kind paired => exact h.drops _ (post_dropSender_onlyDrops srv t _) s
  | failed t free kind paired => exact h.drops _ (removeSessionAbruptly_onlyDrops srv t) s
  | registered pre rest free kind decoded =>
      rcases eq_or_ne s c with rfl | ne
      · refine ⟨fun x found => ?_, before.pairing, before.session⟩
        have stored : some (ClientStorage.announce m_max_chunk_size pre) = some x :=
          (Dict.insert_erase_self _ s _).symm.trans found
        cases stored
        exact ⟨msg, rest, List.mem_append_right _ List.mem_cons_self, kind, decoded⟩
      · have same : ((srv.m_storage.removePendingSender c).addPendingSender c m_max_chunk_size
            pre).entriesOf s = srv.entries s := ClientStorage.entriesOf_register_of_ne ne
        rw [← same] at before
        exact before
  | opened request rest t context free kind decoded known found =>
      rcases eq_or_ne s t with rfl | ne
      · have requested : requestedCode msg.1 = some request.code := by
          rw [requestedCode, kind]
          simp only [decoded, Option.map_some]
        have presents := (h.presents inv (r := c) requested known found).1
        rw [kind] at presents
        have opened := ClientStorage.entriesOf_addSession_self srv.m_storage s c
          (newSession context c)
        change Accounts _ s ((srv.m_storage.addSession s c (newSession context c)).entriesOf s)
        rw [opened]
        refine ⟨before.context, fun r pairing => ?_, fun x session => ?_⟩
        · dsimp only at pairing
          split at pairing
          · cases pairing
            exact ⟨_, presents⟩
          · exact before.pairing r pairing
        · dsimp only at session
          split at session
          · cases session
            exact ⟨_, presents⟩
          · exact before.session x session
      · have same : (srv.m_storage.addSession t c (newSession context c)).entriesOf s =
            srv.entries s := ClientStorage.entriesOf_addSession_of_ne ne
        rw [← same] at before
        exact before
  | relayed | refused | offered | turnedAway | ignored => exact before

/-- What is sent in answer to it. -/
theorem Accounted.answers (h : Accounted es srv) (inv : srv.Inv) (step : Handled srv c msg.1 srv')
    {d : κ} {m : Message} (sent : m ∈ srv'.sentTo d) :
    m ∈ srv.sentTo d ∨ Caused (es ++ [.message c msg]) d m := by
  have posted : ∀ {target : κ} {answer : Message},
      Caused (es ++ [.message c msg]) target answer → m ∈ (srv.post target answer).sentTo d →
      m ∈ srv.sentTo d ∨ Caused (es ++ [.message c msg]) d m := by
    intro target answer caused member
    rw [post_sentTo] at member
    split at member
    · rename_i here
      rcases List.mem_append.mp member with before | new
      · exact Or.inl before
      · rw [List.mem_singleton.mp new, here.1]
        exact Or.inr caused
    · exact Or.inl member
  have aborted : ∀ s, (c = s ∨ msg.1.header.id = .FailedReceive ∧
      ∃ pre, Presents es .Receive c s pre) → m ∈ (srv.removeSessionAbruptly s).sentTo d →
      m ∈ srv.sentTo d ∨ Caused (es ++ [.message c msg]) d m := by
    intro s concerned member
    rw [removeSessionAbruptly_eq, dropSender_sentTo] at member
    unfold abortSink at member
    split at member
    · rename_i session found
      obtain ⟨pre, presents⟩ := (h.stored s).session session found
      exact posted (.aborted s c pre msg (.last _ ⟨presents, concerned⟩)) member
    · exact Or.inl member
  have here : Event.message c msg ∈ es ++ [.message c msg] :=
    List.mem_append_right _ List.mem_cons_self
  cases step with
  | relayed session found relays =>
      obtain ⟨pre, presents⟩ := (h.stored c).session session found
      have kind : msg.1.header.id = .Chunk ∨ msg.1.header.id = .FinalChunk := by
        rcases relays with final | ⟨chunk, -⟩
        · exact Or.inr final
        · exact Or.inl chunk
      exact posted (.relayed c pre msg (.last _ presents) kind) sent
  | aborted session found ends => exact aborted c (Or.inl rfl) sent
  | registered pre rest free kind decoded => exact Or.inl sent
  | refused request rest free kind decoded unknown => exact posted (.refused msg here kind) sent
  | offered request rest s context free kind decoded known found =>
      have requested : requestedCode msg.1 = some request.code_phrase.code := by
        rw [requestedCode, kind]
        simp only [decoded, Option.map_some]
      obtain ⟨presents, accept⟩ := h.presents inv (r := c) requested known found
      rw [kind] at presents
      rw [accept] at sent
      exact posted (.offered s _ presents) sent
  | turnedAway request rest free kind decoded unknown =>
      exact posted (.turnedAway msg here kind) sent
  | stranded request rest s free kind decoded known none =>
      exact (inv.not_stranded known none).elim
  | opened request rest s context free kind decoded known found =>
      have requested : requestedCode msg.1 = some request.code := by
        rw [requestedCode, kind]
        simp only [decoded, Option.map_some]
      obtain ⟨presents, accept⟩ := h.presents inv (r := c) requested known found
      rw [kind] at presents
      rw [accept] at sent
      exact posted (.begun c _ presents) sent
  | finished s free kind paired =>
      obtain ⟨pre, presents⟩ :=
        (h.stored s).pairing c (ClientStorage.getSenderByReceiver_iff.mp paired)
      rw [dropSender_sentTo] at sent
      exact posted (.finished c pre msg (.last _ presents) kind) sent
  | failed s free kind paired =>
      have presents :=
        (h.stored s).pairing c (ClientStorage.getSenderByReceiver_iff.mp paired)
      exact aborted s (Or.inr ⟨kind, presents⟩) sent
  | ignored => exact Or.inl sent

/-- **Every message has its cause.** -/
theorem every_message_caused {es : List (Event κ)} {srv : FileServer κ}
    (run : (lts κ).run es = some srv) : ∀ (c : κ), ∀ msg ∈ srv.sentTo c, Caused es c msg := by
  refine (Lts.run_induct (M := lts κ) (P := Accounted) .start ?_ run).sent
  intro es srv e srv' before h step
  have inv : srv.Inv := Reachable.inv ⟨es, before⟩
  rcases step_handled step with ⟨only, -⟩ | ⟨c, msg, rfl, handled⟩
  · exact h.aside e only
  · refine ⟨h.stores inv handled, fun d m sent => ?_⟩
    rcases h.answers inv handled sent with already | caused
    · exact (h.sent d m already).snoc _
    · exact caused

/-- The sender of `onePair` was told to begin because its receiver had presented the code. -/
theorem every_message_caused_onePair :
    ∃ msg ∈ onePair.sentTo 0, Caused pairingEvents 0 msg := by
  obtain ⟨msg, member⟩ : ∃ msg, msg ∈ onePair.sentTo 0 := List.exists_mem_of_ne_nil _ (by decide)
  exact ⟨msg, member, every_message_caused (Option.some_get _).symm 0 msg member⟩

end FileServer

end PingPong
