import Mathlib.Algebra.GroupWithZero.Nat
import PingPong.Server.DeadSenders
import PingPong.Server.Outcomes
import PingPong.Server.Roles

/-!
# What a session relays

A relay session is created with the announced size of its file, and nothing ever looks at it.
Beside the server, `Log` keeps what each session has relayed and what size each receiver was shown;
`Relayed.Faithful` is what a session should come to: a stream of `Chunk`s with at most one message
after it, which carry no more than the announced bytes, and all of them where the stream ends with
`FinalChunk`, of a size that the receiver has seen.  `WithinAnnounced` is what the clients have to
keep to, and a run has only faithful sessions exactly as long as all its steps meet it.
-/

namespace PingPong

open Common Net

/-! ## Records of relayed messages -/

/-- What a session has relayed, the size it was created with, and the size its receiver was shown
for the code. -/
structure Relayed where
  file_size : UInt64
  shown : Option UInt64
  msgs : List Message := []

/-- The bytes of the file that a message carries. -/
def chunkBytes (msg : Message) : Nat :=
  if msg.header.id = .Chunk then msg.size - SHA256_DIGEST_LENGTH else 0

namespace Relayed

def bytes (y : Relayed) : Nat := (y.msgs.map chunkBytes).sum

/-- `Chunk`s, and then at most one message that ends the stream. -/
def Terminates (msgs : List Message) : Prop :=
  ∃ chunks last, msgs = chunks ++ last ∧ (∀ msg ∈ chunks, msg.header.id = .Chunk) ∧
    (last = [] ∨ ∃ msg, last = [msg] ∧ (msg.header.id = .FinalChunk ∨ msg.header.id = .Abort))

structure Faithful (y : Relayed) : Prop where
  terminates : Terminates y.msgs
  bound : y.bytes ≤ y.file_size.toNat
  whole : ∀ msg ∈ y.msgs, msg.header.id = .FinalChunk → y.bytes = y.file_size.toNat
  shown : ∀ size, y.shown = some size → size = y.file_size

/-- The message may be relayed next: nothing has ended the stream, a chunk still fits, and the end
comes when all has been relayed. -/
structure Admits (y : Relayed) (msg : Message) : Prop where
  unfinished : ∀ m ∈ y.msgs, m.header.id ≠ .FinalChunk
  fits : msg.header.id = .Chunk → y.bytes + chunkBytes msg ≤ y.file_size.toNat
  whole : msg.header.id = .FinalChunk → y.bytes = y.file_size.toNat

def extend (y : Relayed) (msgs : List Message) : Relayed := { y with msgs := y.msgs ++ msgs }

theorem extend_nil (y : Relayed) : y.extend [] = y := by
  unfold extend
  rw [List.append_nil]

theorem extend_bytes (y : Relayed) (msg : Message) :
    (y.extend [msg]).bytes = y.bytes + chunkBytes msg := by
  unfold bytes extend
  rw [List.map_append, List.sum_append, List.map_singleton, List.sum_singleton]

theorem chunkBytes_of_other {msg : Message} (other : msg.header.id ≠ .Chunk) :
    chunkBytes msg = 0 := if_neg other

/-- One more message ends a stream only if it is all `Chunk`s. -/
theorem terminates_snoc_iff {msgs : List Message} {msg : Message}
    (kind : msg.header.id = .Chunk ∨ msg.header.id = .FinalChunk ∨ msg.header.id = .Abort) :
    Terminates (msgs ++ [msg]) ↔ ∀ m ∈ msgs, m.header.id = .Chunk := by
  constructor
  · intro terminates m member
    obtain ⟨chunks, last, heq, all, rfl | ⟨t, rfl, -⟩⟩ := terminates
    · rw [List.append_nil] at heq
      apply all
      rw [← heq]
      exact List.mem_append_left [msg] member
    · obtain ⟨rfl, -⟩ := List.append_inj' heq rfl
      exact all m member
  · intro all
    rcases kind with chunk | terminator
    · refine ⟨msgs ++ [msg], [], (List.append_nil _).symm, fun m member => ?_, Or.inl rfl⟩
      rcases List.mem_append.mp member with old | new
      · exact all m old
      · rw [List.mem_singleton.mp new]
        exact chunk
    · exact ⟨msgs, [msg], rfl, all, Or.inr ⟨msg, rfl, terminator⟩⟩

theorem Terminates.kind {msgs : List Message} (h : Terminates msgs) {msg : Message}
    (member : msg ∈ msgs) :
    msg.header.id = .Chunk ∨ msg.header.id = .FinalChunk ∨ msg.header.id = .Abort := by
  obtain ⟨chunks, last, rfl, all, rfl | ⟨t, rfl, terminator⟩⟩ := h
  · rw [List.append_nil] at member
    exact Or.inl (all msg member)
  · rcases List.mem_append.mp member with chunk | final
    · exact Or.inl (all msg chunk)
    · rw [List.mem_singleton.mp final]
      exact Or.inr terminator

/-- **One more message.**  A faithful record stays so just when it admits the message. -/
theorem Faithful.extend_iff {y : Relayed} (h : y.Faithful)
    (unaborted : ∀ m ∈ y.msgs, m.header.id ≠ .Abort) {msg : Message}
    (kind : msg.header.id = .Chunk ∨ msg.header.id = .FinalChunk ∨ msg.header.id = .Abort) :
    (y.extend [msg]).Faithful ↔ y.Admits msg := by
  constructor
  · intro now
    have chunks := (terminates_snoc_iff kind).mp now.terminates
    have bound := now.bound
    rw [extend_bytes] at bound
    refine ⟨fun m member final => ?_, fun _ => bound, fun final => ?_⟩
    · cases (chunks m member).symm.trans final
    · have whole := now.whole msg (List.mem_append_right _ (List.mem_singleton_self msg)) final
      have other : msg.header.id ≠ .Chunk := by
        rw [final]
        exact EMessageType.noConfusion
      rw [extend_bytes, chunkBytes_of_other other] at whole
      exact whole
  · intro admits
    have chunks : ∀ m ∈ y.msgs, m.header.id = .Chunk := by
      intro m member
      rcases h.terminates.kind member with chunk | final | abort
      · exact chunk
      · exact (admits.unfinished m member final).elim
      · exact (unaborted m member abort).elim
    refine ⟨(terminates_snoc_iff kind).mpr chunks, ?_, fun m member final => ?_, h.shown⟩
    · rw [extend_bytes]
      by_cases chunk : msg.header.id = .Chunk
      · exact admits.fits chunk
      · rw [chunkBytes_of_other chunk]
        exact h.bound
    · rcases List.mem_append.mp member with old | new
      · exact (admits.unfinished m old final).elim
      · rw [List.mem_singleton.mp new] at final
        have other : msg.header.id ≠ .Chunk := by
          rw [final]
          exact EMessageType.noConfusion
        rw [extend_bytes, chunkBytes_of_other other]
        exact admits.whole final

/-- A session starts out faithful if its receiver has been shown the right size, or none. -/
theorem faithful_new_iff (file_size : UInt64) (shown : Option UInt64) :
    Faithful { file_size, shown } ↔ ∀ size, shown = some size → size = file_size := by
  constructor
  · exact fun h => h.shown
  · intro right
    refine ⟨⟨[], [], rfl, fun msg member => ?_, Or.inl rfl⟩, Nat.zero_le _, fun msg member => ?_,
      right⟩
    · exact (List.not_mem_nil member).elim
    · exact (List.not_mem_nil member).elim

end Relayed

namespace FileServer

variable {κ : Type} [DecidableEq κ]

/-! ## The log -/

/-- The size each receiver was last shown for each code, and the record of the last session of each
sender. -/
structure Log (κ : Type) where
  offers : κ → List UInt8 → Option UInt64 := fun _ _ => none
  sessions : Dict κ Relayed := fun _ => none

/-- What is sent to the sink of the session of `s` in a step that is a message of `s` or the end of
its session. -/
def relayedIn (srv : FileServer κ) (e : Event κ) (srv' : FileServer κ) (s : κ)
    (x : ServerOneToOneRetranslatorSession κ) : List Message :=
  if idFrom s e ≠ none ∨ srv'.m_storage.m_sessions s = none then
    (newlySent srv srv' x.m_sink).filter fun msg =>
      msg.header.id = .Chunk ∨ msg.header.id = .FinalChunk ∨ msg.header.id = .Abort
  else []

/-- The receiver that is sent an `Accept` for its request, the code, and the size in the answer. -/
def offeredIn (srv : FileServer κ) (e : Event κ) (srv' : FileServer κ) :
    Option (κ × List UInt8 × UInt64) :=
  match e with
  | .message r msg =>
      if msg.1.header.id = .RequestReceive then do
        let (request, _) ← decode .RequestReceive msg.1
        let accept ← (newlySent srv srv' r).find? fun answer => answer.header.id = .Accept
        let (post, _) ← decode .Accept accept
        some (r, request.code_phrase.code, post.file_data.file_size)
      else none
  | _ => none

/-- The size that the receiver `r` was shown for the code it now accepts. -/
def Log.shownTo (l : Log κ) (r : κ) : Event κ → Option UInt64
  | .message _ msg => (decode .Receive msg.1).bind fun popped => l.offers r popped.1.code
  | _ => none

def Log.note (l : Log κ) (srv : FileServer κ) (e : Event κ) (srv' : FileServer κ) : Log κ where
  offers :=
    match offeredIn srv e srv' with
    | some (r, code, size) => fun d c => if d = r ∧ c = code then some size else l.offers d c
    | none => l.offers
  sessions s :=
    match srv.m_storage.m_sessions s, srv'.m_storage.m_sessions s with
    | some x, _ => (l.sessions s).map fun y => y.extend (relayedIn srv e srv' s x)
    | none, some x => some { file_size := x.file_size, shown := l.shownTo x.m_sink e }
    | none, none => l.sessions s

/-- The server beside the log. -/
def logged (κ : Type) [DecidableEq κ] : Lts (FileServer κ × Log κ) (Event κ) :=
  (lts κ).observed {} Log.note

/-! ## What a step does to a session -/

/-- The message that the session of `s` is given in a step. -/
def relayTask (srv : FileServer κ) (s : κ) : Event κ → Option Message
  | .message c msg =>
      if c = s then
        if msg.1.header.id = .FinalChunk ∨
            (msg.1.header.id = .Chunk ∧ exceedsChunkSize msg.1 = false) then some msg.1
        else some (encode .Abort {})
      else if srv.m_storage.m_sessions c = none ∧ msg.1.header.id = .FailedReceive ∧
          srv.m_storage.getSenderByReceiver c = some s then some (encode .Abort {})
      else none
  | _ => none

theorem relayTask_kind {srv : FileServer κ} {s : κ} {e : Event κ} {msg : Message}
    (h : srv.relayTask s e = some msg) :
    msg.header.id = .Chunk ∨ msg.header.id = .FinalChunk ∨ msg.header.id = .Abort := by
  unfold relayTask at h
  split at h
  · split at h
    · split at h
      · rename_i kind
        cases h
        exact kind.elim (fun final => Or.inr (Or.inl final)) fun chunk => Or.inl chunk.1
      · cases h
        exact Or.inr (Or.inr (encode_id _ _))
    · split at h
      · cases h
        exact Or.inr (Or.inr (encode_id _ _))
      · cases h
  · cases h

/-- A step that gives nothing to the session of `s`, and leaves it in place. -/
theorem relayedIn_quiet {srv srv' : FileServer κ} {e : Event κ} {s : κ}
    {x : ServerOneToOneRetranslatorSession κ} (other : idFrom s e = none)
    (stays : srv'.m_storage.m_sessions s = some x) : relayedIn srv e srv' s x = [] := by
  apply if_neg
  intro relays
  rcases relays with own | gone
  · exact own other
  · cases stays.symm.trans gone

/-- The step of a message of `s`, or one that ends its session. -/
theorem relayedIn_sent {srv srv' : FileServer κ} {e : Event κ} {s : κ}
    {x : ServerOneToOneRetranslatorSession κ} {msg : Message}
    (concerned : idFrom s e ≠ none ∨ srv'.m_storage.m_sessions s = none)
    (kind : msg.header.id = .Chunk ∨ msg.header.id = .FinalChunk ∨ msg.header.id = .Abort)
    (sent : newlySent srv srv' x.m_sink = if srv.accepts x.m_sink then [msg] else []) :
    relayedIn srv e srv' s x = if srv.accepts x.m_sink then [msg] else [] := by
  unfold relayedIn
  rw [if_pos concerned, sent]
  split
  · exact List.filter_cons_of_pos (decide_eq_true kind)
  · rfl

/-- What is left of a session after a step, and what it has relayed in it. -/
structure SessionStep (srv : FileServer κ) (e : Event κ) (srv' : FileServer κ) (s : κ)
    (x : ServerOneToOneRetranslatorSession κ) : Prop where
  relayed : relayedIn srv e srv' s x =
    if srv.accepts x.m_sink then (srv.relayTask s e).toList else []
  after : (srv'.m_storage.m_sessions s = some x ∧
      ∀ msg ∈ relayedIn srv e srv' s x, msg.header.id ≠ .Abort) ∨
    srv'.m_storage.m_sessions s = none

/-- The session is not concerned. -/
theorem SessionStep.quiet {srv srv' : FileServer κ} {e : Event κ} {s : κ}
    {x : ServerOneToOneRetranslatorSession κ} (other : idFrom s e = none)
    (idle : srv.relayTask s e = none) (stays : srv'.m_storage.m_sessions s = some x) :
    SessionStep srv e srv' s x := by
  have nothing : relayedIn srv e srv' s x = [] := relayedIn_quiet other stays
  constructor
  · rw [nothing, idle]
    split <;> rfl
  · rw [nothing]
    exact Or.inl ⟨stays, fun msg member => (List.not_mem_nil member).elim⟩

/-- The session ends abruptly. -/
theorem SessionStep.aborted {srv : FileServer κ} {e : Event κ} {s : κ}
    {x : ServerOneToOneRetranslatorSession κ} (found : srv.m_storage.m_sessions s = some x)
    (task : srv.accepts x.m_sink → srv.relayTask s e = some (encode .Abort {})) :
    SessionStep srv e (srv.removeSessionAbruptly s) s x := by
  have gone := (removeSessionAbruptly_onlyDrops srv s).session_self
  have sent := newlySent_removeSessionAbruptly found x.m_sink
  simp only [true_and] at sent
  refine ⟨?_, Or.inr gone⟩
  rw [relayedIn_sent (Or.inr gone) (Or.inr (Or.inr (encode_id _ _))) sent]
  split
  · rename_i accepts
    rw [task accepts]
    rfl
  · rfl

/-- The receiver says that it is finished.  The session ends without a word to its sink; the
`Success` is for the sender. -/
theorem SessionStep.finished {srv : FileServer κ} {e : Event κ} {s : κ}
    {x : ServerOneToOneRetranslatorSession κ} (idle : srv.relayTask s e = none) :
    SessionStep srv e ((srv.post s (encode .Success {})).dropSender s) s x := by
  have gone := (post_dropSender_onlyDrops srv s (encode .Success {})).session_self
  have sent := newlySent_post srv s x.m_sink (encode .Success {})
  refine ⟨?_, Or.inr gone⟩
  rw [idle, relayedIn, if_pos (Or.inr gone), newlySent, dropSender_sentTo, ← newlySent, sent]
  split <;> split <;> rfl

/-- A message of the sender is relayed, or ends its session. -/
theorem session_step_own {srv srv' : FileServer κ} {s : κ} {msg : WireMessage}
    (handled : Handled srv s msg.1 srv') {x : ServerOneToOneRetranslatorSession κ}
    (found : srv.m_storage.m_sessions s = some x) :
    SessionStep srv (.message s msg) srv' s x := by
  have own : idFrom s (.message s msg) ≠ none := by
    rw [idFrom, if_pos rfl]
    exact Option.some_ne_none _
  cases handled with
  | relayed session found' relays =>
      cases found.symm.trans found'
      have kind : msg.1.header.id = .Chunk ∨ msg.1.header.id = .FinalChunk ∨
          msg.1.header.id = .Abort :=
        relays.elim (fun final => Or.inr (Or.inl final)) fun chunk => Or.inl chunk.1
      have sent := newlySent_post srv x.m_sink x.m_sink msg.1
      simp only [true_and] at sent
      have relayed := relayedIn_sent (Or.inl own) kind sent
      have task : srv.relayTask s (.message s msg) = some msg.1 := by
        rw [relayTask, if_pos rfl]
        exact if_pos (relays.imp_right fun chunk => ⟨chunk.1, chunk.2.1⟩)
      constructor
      · rw [relayed, task]
        rfl
      · refine Or.inl ⟨found, fun m member => ?_⟩
        rw [relayed] at member
        split at member
        · rw [List.mem_singleton.mp member]
          rcases relays with final | ⟨chunk, -⟩
          · rw [final]
            exact EMessageType.noConfusion
          · rw [chunk]
            exact EMessageType.noConfusion
        · exact (List.not_mem_nil member).elim
  | aborted session found' ends =>
      cases found.symm.trans found'
      apply SessionStep.aborted found
      intro accepts
      rw [relayTask, if_pos rfl]
      apply if_neg
      intro relays
      rcases relays with final | ⟨chunk, fits⟩
      · exact ends.1 final
      · rcases ends.2 chunk with exceeds | refuses
        · cases fits.symm.trans exceeds
        · cases refuses.symm.trans accepts
  | registered _ _ free | refused _ _ free | offered _ _ _ _ free | turnedAway _ _ free
  | stranded _ _ _ free | opened _ _ _ _ free | finished _ free | failed _ free | ignored free =>
      cases found.symm.trans free

/-- A message of another client leaves a session alone, unless it is its receiver's last one. -/
theorem session_step_other {srv srv' : FileServer κ} (inv : srv.Inv) {c s : κ} (ne : c ≠ s)
    {msg : WireMessage} (handled : Handled srv c msg.1 srv')
    {x : ServerOneToOneRetranslatorSession κ} (found : srv.m_storage.m_sessions s = some x) :
    SessionStep srv (.message c msg) srv' s x := by
  have other : idFrom s (.message c msg) = none := if_neg ne
  have idle : ¬ (srv.m_storage.m_sessions c = none ∧ msg.1.header.id = .FailedReceive ∧
      srv.m_storage.getSenderByReceiver c = some s) →
      srv.relayTask s (.message c msg) = none := by
    intro no
    rw [relayTask, if_neg ne, if_neg no]
  have unfailed : ∀ {M : EMessageType}, msg.1.header.id = M → M ≠ .FailedReceive →
      srv.relayTask s (.message c msg) = none := by
    intro M kind notFailed
    apply idle
    intro fails
    obtain ⟨-, failed, -⟩ := fails
    exact notFailed (kind.symm.trans failed)
  have sessioned : srv.m_storage.m_sessions c ≠ none →
      srv.relayTask s (.message c msg) = none := fun has => idle fun no => has no.1
  cases handled with
  | relayed session found' relays =>
      refine .quiet other (sessioned ?_) found
      rw [found']
      exact Option.some_ne_none session
  | aborted session found' ends =>
      refine .quiet other (sessioned ?_) ?_
      · rw [found']
        exact Option.some_ne_none session
      · exact ((removeSessionAbruptly_onlyDrops srv c).session_of_ne ne.symm).trans found
  | registered pre rest free kind decoded => exact .quiet other (unfailed kind nofun) found
  | refused request rest free kind decoded unknown =>
      exact .quiet other (unfailed kind nofun) found
  | offered request rest t context free kind decoded known found' =>
      exact .quiet other (unfailed kind nofun) found
  | turnedAway request rest free kind decoded unknown =>
      exact .quiet other (unfailed kind nofun) found
  | stranded request rest t free kind decoded known none =>
      exact (inv.not_stranded known none).elim
  | opened request rest t context free kind decoded known found' =>
      exact .quiet other (unfailed kind nofun) (Dict.insert_keeps found)
  | finished t free kind paired =>
      have idle := unfailed kind nofun
      rcases eq_or_ne s t with rfl | ne'
      · exact .finished idle
      · have drops := post_dropSender_onlyDrops srv t (encode .Success {})
        exact .quiet other idle ((drops.session_of_ne ne').trans found)
  | failed t free kind paired =>
      rcases eq_or_ne s t with rfl | ne'
      · apply SessionStep.aborted found
        intro _
        rw [relayTask, if_neg ne, if_pos ⟨free, kind, paired⟩]
      · refine .quiet other (idle fun no => ne' ?_) ?_
        · exact (Option.some.inj (paired.symm.trans no.2.2)).symm
        · exact ((removeSessionAbruptly_onlyDrops srv t).session_of_ne ne').trans found
  | ignored free notSend notRequest notReceive unpaired =>
      refine .quiet other (idle fun no => ?_) found
      cases (unpaired (Or.inr no.2.1)).symm.trans no.2.2

/-- **What a step does to a session.** -/
theorem session_step {srv srv' : FileServer κ} (inv : srv.Inv) {e : Event κ}
    (step : srv.step e = some srv') {s : κ} {x : ServerOneToOneRetranslatorSession κ}
    (found : srv.m_storage.m_sessions s = some x) : SessionStep srv e srv' s x := by
  rcases step_handled step with ⟨only, noMessage⟩ | ⟨c, msg, rfl, handled⟩
  · have stays : srv'.m_storage.m_sessions s = some x := by
      rw [only.storage]
      exact found
    cases e with
    | message c msg => exact (noMessage c msg rfl).elim
    | accept c => exact .quiet rfl rfl stays
    | validate c => exact .quiet rfl rfl stays
    | close c => exact .quiet rfl rfl stays
  rcases eq_or_ne c s with rfl | ne
  · exact session_step_own handled found
  · exact session_step_other inv ne handled found

/-- The step is a `Receive` of `r`, whose code resolves to a sender `s` without a session. -/
def Opens (srv : FileServer κ) (e : Event κ) (s r : κ) (code : List UInt8)
    (context : TransmissionContext) : Prop :=
  ∃ msg request rest, e = .message r msg ∧ srv.m_storage.m_sessions r = none ∧
    msg.1.header.id = .Receive ∧ decode .Receive msg.1 = some (request, rest) ∧
    request.code = code ∧ srv.m_storage.getSenderByCode code = some s ∧
    srv.m_storage.m_pending_transmissions s = some context ∧ srv.m_storage.m_sessions s = none

/-- A session is only ever opened by a `Receive`. -/
theorem session_opened {srv srv' : FileServer κ} {e : Event κ} (step : srv.step e = some srv')
    {s : κ} {x : ServerOneToOneRetranslatorSession κ} (free : srv.m_storage.m_sessions s = none)
    (found : srv'.m_storage.m_sessions s = some x) :
    ∃ r code context, Opens srv e s r code context ∧ x = newSession context r := by
  have unchanged : srv'.m_storage.m_sessions s ≠ srv.m_storage.m_sessions s := by
    rw [free, found]
    exact Option.some_ne_none x
  have dropped : ∀ {t : κ}, ¬ OnlyDrops srv srv' t := by
    intro t drops
    rcases eq_or_ne s t with rfl | ne
    · cases drops.session_self.symm.trans found
    · exact unchanged (drops.session_of_ne ne)
  rcases step_handled step with ⟨only, -⟩ | ⟨c, msg, rfl, handled⟩
  · exact (unchanged (by rw [only.storage])).elim
  cases handled with
  | opened request rest t context free' kind decoded known found' =>
      rcases eq_or_ne s t with rfl | ne
      · have stored : srv.m_storage.m_sessions.insert s (newSession context c) s = some x := found
        rw [Dict.insert_self_of_free free] at stored
        exact ⟨c, request.code, context,
          ⟨msg, request, rest, rfl, free', kind, decoded, rfl, known, found', free⟩,
          (Option.some.inj stored).symm⟩
      · exact (unchanged (Dict.insert_of_ne ne)).elim
  | aborted session found' ends => exact (dropped (removeSessionAbruptly_onlyDrops srv c)).elim
  | stranded request rest t free' kind decoded known none =>
      exact (dropped (removeSessionAbruptly_onlyDrops srv t)).elim
  | finished t free' kind paired => exact (dropped (post_dropSender_onlyDrops srv t _)).elim
  | failed t free' kind paired => exact (dropped (removeSessionAbruptly_onlyDrops srv t)).elim
  | relayed | registered | refused | offered | turnedAway | ignored => exact (unchanged rfl).elim

theorem Opens.session {srv srv' : FileServer κ} {e : Event κ} {s r : κ} {code : List UInt8}
    {context : TransmissionContext} (h : Opens srv e s r code context)
    (step : srv.step e = some srv') :
    srv'.m_storage.m_sessions s = some (newSession context r) := by
  obtain ⟨msg, request, rest, rfl, free, kind, decoded, rfl, known, found, unsessioned⟩ := h
  have opened := onMessage_receive_known free kind decoded known found
  rw [(step_message step).2, Option.some.injEq] at opened
  rw [opened]
  exact Dict.insert_self_of_free unsessioned

omit [DecidableEq κ] in
theorem Opens.shownTo {srv : FileServer κ} {e : Event κ} {s r : κ} {code : List UInt8}
    {context : TransmissionContext} (h : Opens srv e s r code context) (l : Log κ) :
    l.shownTo r e = l.offers r code := by
  obtain ⟨msg, request, rest, rfl, -, -, decoded, rfl, -⟩ := h
  rw [Log.shownTo, decoded]
  rfl

/-! ## The log beside the server -/

/-- The log has a record of every session, and only sessions that are over were aborted. -/
def Log.Tracks (l : Log κ) (srv : FileServer κ) : Prop :=
  ∀ s x, srv.m_storage.m_sessions s = some x → ∃ y, l.sessions s = some y ∧
    y.file_size = x.file_size ∧ ∀ msg ∈ y.msgs, msg.header.id ≠ .Abort

theorem Log.note_of_session {l : Log κ} {srv srv' : FileServer κ} {e : Event κ} {s : κ}
    {x : ServerOneToOneRetranslatorSession κ} (found : srv.m_storage.m_sessions s = some x) :
    (l.note srv e srv').sessions s =
      (l.sessions s).map fun y => y.extend (relayedIn srv e srv' s x) := by
  simp only [Log.note, found]

theorem Log.note_of_opened {l : Log κ} {srv srv' : FileServer κ} {e : Event κ} {s : κ}
    {x : ServerOneToOneRetranslatorSession κ} (free : srv.m_storage.m_sessions s = none)
    (found : srv'.m_storage.m_sessions s = some x) :
    (l.note srv e srv').sessions s =
      some { file_size := x.file_size, shown := l.shownTo x.m_sink e } := by
  simp only [Log.note, free, found]

theorem Log.note_of_free {l : Log κ} {srv srv' : FileServer κ} {e : Event κ} {s : κ}
    (free : srv.m_storage.m_sessions s = none) (free' : srv'.m_storage.m_sessions s = none) :
    (l.note srv e srv').sessions s = l.sessions s := by
  simp only [Log.note, free, free']

theorem Log.Tracks.step {l : Log κ} {srv srv' : FileServer κ} (h : l.Tracks srv)
    (inv : srv.Inv) {e : Event κ} (step : srv.step e = some srv') :
    (l.note srv e srv').Tracks srv' := by
  intro s x' found'
  cases found : srv.m_storage.m_sessions s with
  | none =>
      refine ⟨_, Log.note_of_opened found found', rfl, fun msg member => ?_⟩
      exact (List.not_mem_nil member).elim
  | some x =>
      obtain ⟨y, recorded, size, unaborted⟩ := h s x found
      rcases (session_step inv step found).after with ⟨stays, none_aborts⟩ | gone
      · cases stays.symm.trans found'
        refine ⟨y.extend (relayedIn srv e srv' s x'), ?_, size, fun msg member => ?_⟩
        · rw [Log.note_of_session found, recorded]
          rfl
        · exact (List.mem_append.mp member).elim (unaborted msg) (none_aborts msg)
      · cases gone.symm.trans found'

theorem logged_tracks {srv : FileServer κ} {l : Log κ} (h : (logged κ).Reachable (srv, l)) :
    Reachable srv ∧ l.Tracks srv := by
  obtain ⟨es, run⟩ := h
  refine ⟨⟨es, Lts.observed_run run⟩, ?_⟩
  apply Lts.run_induct (M := logged κ) (P := fun _ p => p.2.Tracks p.1) _ _ run
  · intro s x found
    cases found
  · intro es p e q before ih step
    obtain ⟨srv, l⟩ := p
    obtain ⟨srv', l'⟩ := q
    obtain ⟨taken, rfl⟩ := Lts.observed_step.mp step
    exact ih.step (Reachable.inv ⟨es, Lts.observed_run before⟩) taken

/-! ## When all sessions are faithful -/

/-- What the clients have to keep to: what a session is given, as long as its sink takes it, is
admitted by what it has relayed, and the size of a file does not change between the offer and the
`Receive`. -/
structure WithinAnnounced (srv : FileServer κ) (l : Log κ) (e : Event κ) : Prop where
  relays : ∀ s x y msg, srv.m_storage.m_sessions s = some x → l.sessions s = some y →
    srv.accepts x.m_sink → srv.relayTask s e = some msg → y.Admits msg
  opens : ∀ s r code context size, Opens srv e s r code context → l.offers r code = some size →
    size = context.pre_metadata.file_data.file_size

/-- **One step.**  With a faithful log, a step keeps it so just when it stays within what was
announced. -/
theorem Log.faithful_step_iff {l : Log κ} {srv srv' : FileServer κ} (inv : srv.Inv)
    (tracks : l.Tracks srv) (h : ∀ s y, l.sessions s = some y → y.Faithful) {e : Event κ}
    (step : srv.step e = some srv') :
    (∀ s y, (l.note srv e srv').sessions s = some y → y.Faithful) ↔ WithinAnnounced srv l e := by
  constructor
  · intro now
    constructor
    · intro s x y msg found recorded accepts task
      obtain ⟨_, recorded', -, unaborted⟩ := tracks s x found
      cases recorded.symm.trans recorded'
      have relayed := (session_step inv step found).relayed
      rw [if_pos accepts, task] at relayed
      have extended : (l.note srv e srv').sessions s = some (y.extend [msg]) := by
        rw [Log.note_of_session found, recorded, relayed]
        rfl
      exact ((h s y recorded).extend_iff unaborted (relayTask_kind task)).mp (now s _ extended)
    · intro s r code context size opens offered
      obtain ⟨_, _, _, _, _, _, _, _, _, _, free⟩ := id opens
      have opened := Log.note_of_opened (l := l) (e := e) free (opens.session step)
      apply (now s _ opened).shown size
      exact (opens.shownTo l).trans offered
  · intro within s y now
    cases found : srv.m_storage.m_sessions s with
    | some x =>
        obtain ⟨z, recorded, -, unaborted⟩ := tracks s x found
        have before := h s z recorded
        rw [Log.note_of_session found, recorded, (session_step inv step found).relayed,
          Option.map_some, Option.some.injEq] at now
        rw [← now]
        split
        · rename_i accepts
          cases task : srv.relayTask s e with
          | none =>
              rw [Option.toList_none, Relayed.extend_nil]
              exact before
          | some msg =>
              exact (before.extend_iff unaborted (relayTask_kind task)).mpr
                (within.relays s x z msg found recorded accepts task)
        · rw [Relayed.extend_nil]
          exact before
    | none =>
        cases found' : srv'.m_storage.m_sessions s with
        | none =>
            rw [Log.note_of_free found found'] at now
            exact h s y now
        | some x' =>
            rw [Log.note_of_opened found found', Option.some.injEq] at now
            obtain ⟨r, code, context, opens, rfl⟩ := session_opened step found found'
            rw [← now, Relayed.faithful_new_iff]
            intro size shown
            exact within.opens s r code context size opens ((opens.shownTo l).symm.trans shown)

/-- **When a session relays the announced file and no more.** -/
theorem relays_announced_iff (es : List (Event κ)) :
    (∀ p, (logged κ).Visits es p → ∀ s y, p.2.sessions s = some y → y.Faithful) ↔
      ∀ p e q, (logged κ).Takes es p e q → WithinAnnounced p.1 p.2 e := by
  have exact_run := Lts.always_iff (M := logged κ)
    (P := fun p => ∀ s y, p.2.sessions s = some y → y.Faithful) (Q := fun _ _ _ => True)
    (C := fun p e => WithinAnnounced p.1 p.2 e) es
    (fun s y none => by cases none) fun p e q reachable h step => by
      obtain ⟨taken, logs⟩ := Lts.observed_step.mp step
      obtain ⟨reached, tracks⟩ := logged_tracks reachable
      rw [and_true, logs]
      exact Log.faithful_step_iff reached.inv tracks h taken
  rw [← exact_run]
  simp only [implies_true, and_true]

/-- Client 0 has announced three bytes, and sends four. -/
def overlongEvents : List (Event Nat) :=
  pairingEvents ++ [.message 0 ⟨⟨⟨.Chunk, 36⟩, List.replicate 36 0⟩, by decide⟩]

def overlong : FileServer Nat × Log Nat := ((logged Nat).run overlongEvents).get (by decide)

theorem overlong_relayed :
    ¬ ∀ p : FileServer Nat × Log Nat, (logged Nat).Reachable p →
      ∀ s y, p.2.sessions s = some y → y.Faithful := by
  intro always
  have recorded : (overlong.2.sessions 0).map (fun y => (y.bytes, y.file_size)) = some (4, 3) := by
    decide
  obtain ⟨y, found, counts⟩ := Option.map_eq_some_iff.mp recorded
  obtain ⟨bytes, size⟩ := Prod.mk.inj counts
  have bound := (always overlong ⟨overlongEvents, (Option.some_get _).symm⟩ 0 y found).bound
  rw [bytes, size] at bound
  exact absurd bound (by decide)

end FileServer

end PingPong
