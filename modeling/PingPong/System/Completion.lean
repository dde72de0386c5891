import PingPong.Lib.Progress
import PingPong.System.Agreement
import PingPong.System.Calm

/-!
# A transfer that nobody disturbs can be completed

`Transfer.calmly` has the steps of a transfer in which neither end of the sender's connection closes
before `Success` is in the sender's queue and neither end of the receiver's before its last request
has been processed; the receiver asks after the sender has announced, the clients find the server,
and the user accepts.  As in every `Transfer`, files can be read and written, the others never carry
the phrase, and no handler of the server faults.  All that happens otherwise happens at any time.

`Calm` is the invariant: neither routine fails, and the server stands where `ServerAt` says.  `work`
is what is left to do.  No step adds to it (`Settled.work_step`), and before both routines have
returned true some step takes from it (`Settled.goes_on`).
-/

namespace PingPong.Transfer

open Common Net FileServer

variable {κ : Type} [DecidableEq κ] {x : Transfer κ} {sys : State κ}
  {context : TransmissionContext}

def calm (x : Transfer κ) (sys : State κ) : Event κ → Bool
  | .server (.close c) =>
      (c ≠ x.s || 2 ≤ sys.toSender.length) && (c ≠ x.r || 3 ≤ sys.fromReceiver.length)
  | .senderLink .closed => 2 ≤ sys.toSender.length
  | .receiverLink .closed => 3 ≤ sys.fromReceiver.length
  | .fromReceiver => !sys.fromSender.isEmpty
  | .sendRoutine choice => choice.connects
  | .receiveRoutine choice => choice.connects && choice.accepts
  | _ => true

def calmly (x : Transfer κ) : Lts (State κ) (Event κ) := x.lts.only x.calm

/-! ## The invariant -/

structure Calm (x : Transfer κ) (context : TransmissionContext) (sys : State κ) : Prop where
  server : ServerAt x context sys.server sys.fromSender sys.fromReceiver.length
  sender : Sender.Calm x.sha256_chunk x.upload x.phrase m_max_chunk_size sys.sender sys.toSender
  receiver : Receiver.Calm x.download x.unset sys.receiver sys.toReceiver
  sending : sys.toSender.length < 2 →
    (sys.server.conn x.s).Fine ∧ sys.sender.c.m_connection.Fine
  receiving : sys.fromReceiver.length < 3 →
    (sys.server.conn x.r).Fine ∧ sys.receiver.c.m_connection.Fine
  whole : 3 ≤ sys.fromReceiver.length → sys.fromSender = x.sendings

omit [DecidableEq κ] in
theorem Calm.start (context : TransmissionContext) :
    Calm x context { sender := { chunksize := x.chunksize } } where
  server := .start context
  sender := .start x.chunksize
  receiver := .start
  sending := fun _ => ⟨.start, .start⟩
  receiving := fun _ => ⟨.start, .start⟩
  whole := fun many => by cases many

/-- What is known of a state that a calm transfer reaches. -/
structure Settled (x : Transfer κ) (context : TransmissionContext) (sys : State κ) : Prop where
  calm : Calm x context sys
  inv : Inv x sys
  delivered : x.Delivered sys
  queue : sys.sender.c.m_messages_in <:+ sys.toSender

section Facts

omit [DecidableEq κ]

/-- `Success` is not on its way before the last request has been processed. -/
theorem Settled.fine (h : Settled x context sys) (unfinished : sys.fromReceiver.length < 3) :
    ((sys.server.conn x.s).Fine ∧ (sys.server.conn x.r).Fine) ∧
      sys.sender.c.m_connection.Fine ∧ sys.receiver.c.m_connection.Fine := by
  have unreported : sys.toSender.length < 2 := by
    have arrived := h.delivered.toSender.length_le
    rw [h.calm.server.toSender, List.length_take] at arrived
    omega
  obtain ⟨server, sender⟩ := h.calm.sending unreported
  obtain ⟨server', receiver⟩ := h.calm.receiving unfinished
  exact ⟨⟨server, server'⟩, sender, receiver⟩

/-- A sender that has something left to send is not reported done. -/
theorem Settled.unsent (h : Settled x context sys) (unsent : sys.sender.c.sent ≠ x.sendings) :
    sys.fromReceiver.length < 3 := by
  by_contra many
  apply unsent
  have sent := h.delivered.fromSender
  rw [h.calm.whole (by omega)] at sent
  exact h.inv.sender.sent_isPrefix.eq_of_length
    (Nat.le_antisymm h.inv.sender.sent_isPrefix.length_le sent.length_le)

theorem Settled.unasked (h : Settled x context sys) (unasked : sys.receiver.c.sent ≠ x.requests) :
    sys.fromReceiver.length < 3 := by
  by_contra many
  apply unasked
  have sent := h.delivered.fromReceiver.length_le
  have isPrefix := h.inv.receiver.sent_isPrefix
  have all : (Receiver.requests x.download x.unset).length ≤ sys.receiver.c.sent.length :=
    (Nat.le_of_not_lt many).trans sent
  exact isPrefix.eq_of_length (Nat.le_antisymm isPrefix.length_le all)

theorem Settled.processed (h : Settled x context sys) : sys.fromSender <+: x.sendings :=
  h.delivered.fromSender.trans h.inv.sender.sent_isPrefix

/-- What has been sent to the receiver once it has asked. -/
theorem Settled.arrived (h : Settled x context sys) {msg : Message}
    (member : msg ∈ sys.toReceiver) :
    msg = encode .Accept context.post_metadata ∨ msg ∈ sys.fromSender.tail := by
  have sent := h.delivered.toReceiver.subset member
  rw [h.calm.server.toReceiver] at sent
  split at sent
  · cases sent
  · exact List.mem_cons.mp sent

theorem kind_of_piece {msg : Message} (member : msg ∈ x.sendings.tail) :
    msg.header.id = .Chunk ∨ msg.header.id = .FinalChunk := by
  rcases ClientReceiverSession.mem_pieces member with ⟨data, rfl⟩ | rfl
  · exact Or.inl (chunkMessage_id _ data)
  · exact Or.inr rfl

theorem Settled.no_abort (h : Settled x context sys) :
    ∀ msg ∈ sys.toReceiver, msg.header.id ≠ .Abort := by
  intro msg member abort
  rcases h.arrived member with rfl | relayed
  · rw [encode_id] at abort
    cases abort
  · have kind := kind_of_piece ((tail_isPrefix h.processed).subset relayed)
    rw [abort] at kind
    rcases kind with kind | kind <;> cases kind

/-- The first message that the receiver gets is the answer to its first request. -/
theorem Settled.offer (h : Settled x context sys) {msg : Message} {rest : List Message}
    (front : sys.toReceiver = msg :: rest) : msg = encode .Accept context.post_metadata := by
  have sent := h.delivered.toReceiver
  rw [h.calm.server.toReceiver, front] at sent
  split at sent
  · exact (List.cons_ne_nil _ _ (List.prefix_nil.mp sent)).elim
  · obtain ⟨later, same⟩ := sent
    exact (List.cons.inj same).1

/-- The server has got all of the file when it has got `FinalChunk`. -/
theorem whole_of_final {up : List Message} (some_sent : up <+: x.sendings) {msg : Message}
    (member : msg ∈ up.tail) (final : msg.header.id = .FinalChunk) : up = x.sendings := by
  obtain ⟨rest, all⟩ := some_sent
  rcases List.eq_nil_or_concat rest with rfl | ⟨init, last, rfl⟩
  · rw [← all, List.append_nil]
  · obtain ⟨first, later, rfl⟩ := List.exists_cons_of_ne_nil (fun none : up = [] => by
      rw [none] at member
      cases member)
    -- Then `FinalChunk` would be among the chunks.
    rw [List.concat_eq_append, ← List.append_assoc] at all
    have chunks : later ++ init =
        (x.file.chunks m_max_chunk_size.toNat).map (chunkMessage x.sha256_chunk) :=
      (List.append_inj' (List.cons.inj all).2 rfl).1
    have chunk := List.mem_append_left init member
    rw [List.tail_cons, chunks] at chunk
    obtain ⟨data, -, rfl⟩ := List.mem_map.mp chunk
    rw [chunkMessage_id] at final
    cases final

/-- The receiver reports success only after all of the file has been relayed to it. -/
theorem Settled.reported (h : Settled x context sys) (all : 3 ≤ sys.receiver.c.sent.length) :
    sys.fromSender = x.sendings := by
  obtain ⟨msg, member, final⟩ := h.calm.receiver.concluded (Or.inr (h.calm.receiver.due_of_all all))
  rcases h.arrived member with rfl | relayed
  · rw [encode_id] at final
    cases final
  · exact whole_of_final h.processed relayed final

end Facts

/-! ## What the server processes -/

theorem process_eq {srv srv' : FileServer κ} {c : κ} {msg : Message}
    (validated : (srv.conn c).m_validated) (step : srv.onMessage c msg = some srv') :
    process srv c msg = some srv' := (if_pos validated).trans step

theorem Settled.from_sender (h : Settled x context sys) (offers : x.Offers context)
    {msg : Message} (next : sys.fromSender ++ [msg] <+: sys.sender.c.sent)
    (validated : (sys.server.conn x.s).m_validated) :
    sys.fromReceiver.length < 3 ∧ ∃ server, process sys.server x.s msg = some server ∧
      ServerAt x context server (sys.fromSender ++ [msg]) sys.fromReceiver.length := by
  have sent : sys.fromSender ++ [msg] <+: x.sendings := next.trans h.inv.sender.sent_isPrefix
  have unfinished : sys.fromReceiver.length < 3 := by
    by_contra many
    have length := sent.length_le
    rw [h.calm.whole (by omega), List.length_append, List.length_singleton] at length
    omega
  refine ⟨unfinished, ?_⟩
  have server := h.calm.server
  by_cases first : sys.fromSender = []
  · rw [first] at server sent ⊢
    obtain ⟨later, all⟩ := sent
    obtain ⟨rfl, -⟩ := List.cons.inj all
    obtain ⟨srv', step, at'⟩ := server.announces h.inv.store offers validated
    exact ⟨srv', process_eq validated step, at'⟩
  · have asked : sys.fromReceiver.length = 2 := by
      by_contra few
      exact first (h.inv.in_time h.delivered next (by omega))
    have piece : msg ∈ x.sendings.tail := by
      obtain ⟨head, later, front⟩ := List.exists_cons_of_ne_nil first
      rw [front] at sent
      exact (tail_isPrefix sent).subset (List.mem_append_right _ List.mem_cons_self)
    obtain ⟨⟨-, fine⟩, -⟩ := h.fine unfinished
    rw [asked] at server ⊢
    have accepts := fine.accepts (server.receiver (by decide))
    obtain ⟨srv', step, at'⟩ := server.relays piece accepts
    exact ⟨srv', process_eq validated step, at'⟩

theorem Settled.from_receiver (h : Settled x context sys) {msg : Message}
    (next : sys.fromReceiver ++ [msg] <+: sys.receiver.c.sent)
    (announced : sys.fromSender ≠ []) (validated : (sys.server.conn x.r).m_validated) :
    sys.fromReceiver.length < 3 ∧ ∃ server, process sys.server x.r msg = some server ∧
      ServerAt x context server sys.fromSender (sys.fromReceiver.length + 1) := by
  have sent : sys.fromReceiver ++ [msg] <+: x.requests := next.trans h.inv.receiver.sent_isPrefix
  have length := sent.length_le
  rw [List.length_append, List.length_singleton] at length
  have unfinished : sys.fromReceiver.length < 3 := length
  refine ⟨unfinished, ?_⟩
  obtain ⟨⟨fineSender, fineReceiver⟩, -⟩ := h.fine unfinished
  have which := Channel.getElem?_of_snoc_isPrefix sent
  have server := h.calm.server
  have accepts := fineSender.accepts (server.sender announced)
  generalize number : sys.fromReceiver.length = asked at *
  rcases asked with _ | _ | _ | asked
  · cases which
    have early := (h.inv.traffic.early (by omega)).up
    obtain ⟨srv', step, at'⟩ :=
      server.offered h.inv.store announced early (fineReceiver.accepts validated) validated
    exact ⟨srv', process_eq validated step, at'⟩
  · cases which
    obtain ⟨srv', step, at'⟩ := server.opened h.inv.store accepts
    exact ⟨srv', process_eq validated step, at'⟩
  · cases which
    obtain ⟨srv', step, at'⟩ := server.finished h.inv.store accepts
    exact ⟨srv', process_eq validated step, at'⟩
  · omega

/-! ## Steps -/

theorem Calm.server_step {server : FileServer κ} {e : FileServer.Event κ} (h : Calm x context sys)
    (store : StoreInv x sys.server) (permitted : x.permits e)
    (open_ : ∀ c, e = .close c →
      (c ≠ x.s ∨ 2 ≤ sys.toSender.length) ∧ (c ≠ x.r ∨ 3 ≤ sys.fromReceiver.length))
    (step : sys.server.step e = some server) : Calm x context { sys with server } := by
  have bystands : Bystands x sys.server server := by
    rcases step_handled step with ⟨only, -⟩ | ⟨c, msg, rfl, handled⟩
    · refine ⟨?_, only.sent x.s, only.sent x.r⟩
      rw [entries, only.storage]
    · have conforms := conforms_of_permits permitted
      simp only [permits, Bool.and_eq_true, decide_eq_true_eq] at permitted
      obtain ⟨⟨notSender, notReceiver⟩, -⟩ := permitted
      exact store.bystands conforms notSender notReceiver handled
  have heads := step_heads step
  refine ⟨h.server.bystands bystands (heads x.s).validated (heads x.r).validated, h.sender,
    h.receiver, fun unreported => ?_, fun unfinished => ?_, h.whole⟩
  · obtain ⟨server, client⟩ := h.sending unreported
    refine ⟨(heads x.s).fine (fun closes => ?_) server, client⟩
    rcases (open_ x.s closes).1 with other | many
    · exact other rfl
    · exact Nat.not_le_of_lt unreported many
  · obtain ⟨server, client⟩ := h.receiving unfinished
    refine ⟨(heads x.r).fine (fun closes => ?_) server, client⟩
    rcases (open_ x.r closes).2 with other | many
    · exact other rfl
    · exact Nat.not_le_of_lt unfinished many

/-- Processing a message does not close a connection. -/
theorem process_fine {srv srv' : FileServer κ} {c d : κ} {msg : Message}
    (step : process srv c msg = some srv') (fine : (srv.conn d).Fine) : (srv'.conn d).Fine :=
  (((process_handled step).2.sameEnd d).heads False).fine not_false fine

/-- The ends of the two connections stay as they are. -/
theorem Calm.processed {c : κ} {msg : Message} {server : FileServer κ} (h : Calm x context sys)
    (processed : process sys.server c msg = some server) :
    (sys.toSender.length < 2 → (server.conn x.s).Fine ∧ sys.sender.c.m_connection.Fine) ∧
      (sys.fromReceiver.length < 3 →
        (server.conn x.r).Fine ∧ sys.receiver.c.m_connection.Fine) :=
  ⟨fun unreported => (h.sending unreported).imp (process_fine processed) id,
    fun unfinished => (h.receiving unfinished).imp (process_fine processed) id⟩

/-- **One step of a calm transfer.** -/
theorem Settled.step {sys' : State κ} {e : Event κ} (h : Settled x context sys)
    (offers : x.Offers context) (calm : x.calm sys e = true) (step : x.step sys e = some sys') :
    Calm x context sys' := by
  have positive : 0 < m_max_chunk_size.toNat := by decide
  obtain ⟨server, sender, receiver, sending, receiving, whole⟩ := h.calm
  cases step_steps step with
  | server e server permitted stepped =>
      refine h.calm.server_step h.inv.store permitted (fun c closes => ?_) stepped
      rw [closes] at calm
      simpa [Transfer.calm] using calm
  | fromSender msg rest server' next processed =>
      have ready := Channel.isPrefix_of_next h.delivered.fromSender next
      obtain ⟨unfinished, srv', processed', at'⟩ :=
        h.from_sender offers ready (process_handled processed).1
      cases processed.symm.trans processed'
      obtain ⟨sending, receiving⟩ := h.calm.processed processed
      refine ⟨at', sender, receiver, sending, receiving, fun many => ?_⟩
      have many : 3 ≤ sys.fromReceiver.length := many
      omega
  | fromReceiver msg rest server' next processed =>
      have ready := Channel.isPrefix_of_next h.delivered.fromReceiver next
      have announced : sys.fromSender ≠ [] := by
        intro none
        simp [Transfer.calm, none] at calm
      obtain ⟨unfinished, srv', processed', at'⟩ :=
        h.from_receiver ready announced (process_handled processed).1
      cases processed.symm.trans processed'
      have length : (sys.fromReceiver ++ [msg]).length = sys.fromReceiver.length + 1 :=
        List.length_append
      obtain ⟨sending, receiving⟩ := h.calm.processed processed
      refine ⟨?_, sender, receiver, sending, fun _ => receiving unfinished, fun many => ?_⟩
      · change ServerAt x context server' sys.fromSender (sys.fromReceiver ++ [msg]).length
        rw [length]
        exact at'
      · have sent := ready.length_le
        exact h.reported (many.trans sent)
  | toSender msg rest next =>
      refine ⟨server, sender.arrive msg, receiver, fun unreported => sending ?_, receiving, whole⟩
      rw [List.length_append] at unreported
      omega
  | toReceiver msg rest next =>
      exact ⟨server, sender, receiver.arrive msg, sending, receiving, whole⟩
  | senderLink e c on =>
      refine ⟨server, sender.fade (FileClient.on_fades on), receiver, fun unreported => ?_,
        receiving, whole⟩
      obtain ⟨served, own⟩ := sending unreported
      refine ⟨served, (FileClient.on_heads on).fine (fun closes => ?_) own⟩
      rw [closes] at calm
      exact (Nat.not_le_of_lt unreported (of_decide_eq_true calm)).elim
  | receiverLink e c on =>
      refine ⟨server, sender, receiver.fade (FileClient.on_fades on), sending,
        fun unfinished => ?_, whole⟩
      obtain ⟨served, own⟩ := receiving unfinished
      refine ⟨served, (FileClient.on_heads on).fine (fun closes => ?_) own⟩
      rw [closes] at calm
      exact (Nat.not_le_of_lt unfinished (of_decide_eq_true calm)).elim
  | sendRoutine choice sender' readable stepped =>
      refine ⟨server, ?_, receiver, fun unreported => ?_, receiving, whole⟩
      · refine sender.step h.inv.sender positive (h.inv.answers h.delivered) h.queue ?_ ?_ readable
          calm stepped
        · exact fun unsent => (h.fine (h.unsent unsent)).2.1.unclosed
        · intro unsent msg member success
          have reported :=
            h.inv.traffic.success msg (h.delivered.toSender.subset member) success
          exact Nat.not_le_of_lt (h.unsent unsent) reported
      · obtain ⟨served, own⟩ := sending unreported
        exact ⟨served, (Sender.step_sends stepped).heads.fine not_false own⟩
  | receiveRoutine choice receiver' writable stepped =>
      obtain ⟨connects, accepts⟩ := Bool.and_eq_true_iff.mp calm
      refine ⟨server, sender, ?_, sending, fun unfinished => ?_, whole⟩
      · have offer : ∀ msg rest, sys.toReceiver = msg :: rest → msg.header.id = .Accept := by
          intro msg rest front
          rw [h.offer front]
          exact encode_id _ _
        exact receiver.step h.inv.receiver offer h.no_abort (h.inv.stream h.delivered)
          (fun unasked => (h.fine (h.unasked unasked)).2.2.unclosed) writable connects accepts
          stepped
      · obtain ⟨served, own⟩ := receiving unfinished
        exact ⟨served, (Receiver.step_sends stepped).heads.fine not_false own⟩

theorem Reachable.settled (offers : x.Offers context) (h : x.calmly.Reachable sys) :
    Settled x context sys := by
  have settles : ∀ {s}, x.calmly.Reachable s → Calm x context s → Settled x context s := by
    intro s reached calm
    have reached : x.Reachable s := reached.of_only
    exact ⟨calm, reached.inv, reached.delivered, reached.queue⟩
  refine settles h
    (Lts.Reachable.induct (M := x.calmly) (P := Calm x context) (.start context) ?_ h)
  intro s e t reached calm step
  obtain ⟨meets, step⟩ := Lts.only_step.mp step
  exact (settles reached calm).step offers meets step

/-! ## Progress -/

/-- What is left to do.  A message that arrives adds to the rank of its routine less than it takes
from the messages to come. -/
def work (x : Transfer κ) (sys : State κ) : Nat :=
  sys.sender.rank x.upload + 3 * (2 - sys.toSender.length) +
    (x.sendings.length - sys.fromSender.length) +
    (sys.receiver.rank + 6 * (x.sendings.length - sys.toReceiver.length) +
      (3 - sys.fromReceiver.length)) +
    ((sys.server.conn x.s).toGo + (sys.server.conn x.r).toGo) +
    (sys.sender.c.m_connection.toGo + sys.receiver.c.m_connection.toGo)

/-- The step is one of the two clients or of their messages, and not the step of a routine that
waits. -/
def Works (sys : State κ) : Event κ → Prop
  | .fromSender | .fromReceiver | .toSender | .toReceiver => True
  | .sendRoutine _ => ¬ sys.sender.Waits
  | .receiveRoutine _ => ¬ sys.receiver.Waits
  | .server _ | .senderLink _ | .receiverLink _ => False

omit [DecidableEq κ] in
theorem Settled.lengths (h : Settled x context sys) :
    (sys.server.sentTo x.s).length ≤ 2 ∧ (sys.server.sentTo x.r).length ≤ x.sendings.length := by
  rw [h.calm.server.toSender, h.calm.server.toReceiver]
  constructor
  · exact (List.length_take_le' _ _)
  · split
    · exact Nat.zero_le _
    · rename_i asked
      have some_sent := List.length_pos_iff.mpr (h.calm.server.announced asked)
      have bound := h.processed.length_le
      rw [List.length_cons, List.length_tail]
      omega

theorem length_of_next {α : Type} {sent taken rest : List α} {next : α}
    (h : sent.drop taken.length = next :: rest) : taken.length < sent.length := by
  have length := congrArg List.length h
  rw [List.length_drop, List.length_cons] at length
  omega

theorem Settled.work_step {sys' : State κ} {e : Event κ} (h : Settled x context sys)
    (step : x.step sys e = some sys') :
    x.work sys' ≤ x.work sys ∧ (Works sys e → x.work sys' < x.work sys) := by
  obtain ⟨answered, relayed⟩ := h.lengths
  have processed_toGo : ∀ {c msg server}, process sys.server c msg = some server →
      (server.conn x.s).toGo ≤ (sys.server.conn x.s).toGo ∧
        (server.conn x.r).toGo ≤ (sys.server.conn x.r).toGo := by
    intro c msg server processed
    have ends := (process_handled processed).2.sameEnd
    exact ⟨((ends x.s).heads False).toGo, ((ends x.r).heads False).toGo⟩
  have lowers : x.work sys' < x.work sys →
      x.work sys' ≤ x.work sys ∧ (Works sys e → x.work sys' < x.work sys) :=
    fun less => ⟨Nat.le_of_lt less, fun _ => less⟩
  cases step_steps step with
  | server e server permitted stepped =>
      have sender := (step_heads stepped x.s).toGo
      have receiver := (step_heads stepped x.r).toGo
      refine ⟨?_, fun works => works.elim⟩
      unfold work
      dsimp only
      omega
  | fromSender msg rest server' next processed =>
      obtain ⟨sender, receiver⟩ := processed_toGo processed
      have more := length_of_next next
      have bound : sys.sender.c.sent.length ≤ x.sendings.length :=
        h.inv.sender.sent_isPrefix.length_le
      apply lowers
      unfold work
      dsimp only
      rw [List.length_append, List.length_singleton]
      omega
  | fromReceiver msg rest server' next processed =>
      obtain ⟨sender, receiver⟩ := processed_toGo processed
      have more := length_of_next next
      have bound : sys.receiver.c.sent.length ≤ 3 := h.inv.receiver.sent_isPrefix.length_le
      apply lowers
      unfold work
      dsimp only
      rw [List.length_append, List.length_singleton]
      omega
  | toSender msg rest next =>
      have more := length_of_next next
      have added : Sender.rank x.upload { sys.sender with c := sys.sender.c.receive msg } ≤
          sys.sender.rank x.upload + 2 := Sender.rank_receive msg
      have same : (sys.sender.c.receive msg).m_connection = sys.sender.c.m_connection := rfl
      apply lowers
      unfold work
      dsimp only at added ⊢
      rw [List.length_append, List.length_singleton, same]
      omega
  | toReceiver msg rest next =>
      have more := length_of_next next
      have added : Receiver.rank { sys.receiver with c := sys.receiver.c.receive msg } ≤
          sys.receiver.rank + 5 := Receiver.rank_receive msg
      have same : (sys.receiver.c.receive msg).m_connection = sys.receiver.c.m_connection := rfl
      apply lowers
      unfold work
      dsimp only at added ⊢
      rw [List.length_append, List.length_singleton, same]
      omega
  | senderLink e c on =>
      have link := (FileClient.on_heads on).toGo
      have same : Sender.rank x.upload { sys.sender with c } = sys.sender.rank x.upload :=
        Sender.rank_congr (FileClient.on_fades on).messages_in
      refine ⟨?_, fun works => works.elim⟩
      unfold work
      dsimp only at same ⊢
      omega
  | receiverLink e c on =>
      have link := (FileClient.on_heads on).toGo
      have same : Receiver.rank { sys.receiver with c } = sys.receiver.rank :=
        Receiver.rank_congr (FileClient.on_fades on).messages_in
      refine ⟨?_, fun works => works.elim⟩
      unfold work
      dsimp only at same ⊢
      omega
  | sendRoutine choice sender' readable stepped =>
      obtain ⟨keeps, lowers⟩ := Sender.step_rank stepped
      have link := (Sender.step_sends stepped).heads.toGo
      refine ⟨?_, fun awake => ?_⟩
      · unfold work
        dsimp only
        omega
      · have less := lowers awake
        unfold work
        dsimp only
        omega
  | receiveRoutine choice receiver' writable stepped =>
      obtain ⟨keeps, lowers⟩ := Receiver.step_rank stepped
      have link := (Receiver.step_sends stepped).heads.toGo
      refine ⟨?_, fun awake => ?_⟩
      · unfold work
        dsimp only
        omega
      · have less := lowers awake
        unfold work
        dsimp only
        omega

/-! ## No state is stuck -/

def Completed (sys : State κ) : Prop :=
  sys.sender.pc = .returned true ∧ sys.receiver.pc = .returned true

/-- Some step takes from the work. -/
def Advances (x : Transfer κ) (sys : State κ) : Prop :=
  ∃ e t, x.calmly.step sys e = some t ∧ x.work t < x.work sys

theorem Settled.advances_of_works {e : Event κ} {t : State κ} (h : Settled x context sys)
    (step : x.step sys e = some t) (calm : x.calm sys e = true) (works : Works sys e) :
    x.Advances sys :=
  ⟨e, t, Lts.only_step.mpr ⟨calm, step⟩, (h.work_step step).2 works⟩

/-- A connection of the server that is not validated yet can be. -/
theorem advances_of_unvalidated {c : κ} (ours : c = x.s ∨ c = x.r)
    (unvalidated : (sys.server.conn c).m_validated = false) : x.Advances sys := by
  obtain ⟨e, server, stays, silent, step, less, others⟩ := FileServer.step_enabled unvalidated
  have calm : x.calm sys (.server e) = true := by
    cases e with
    | close d => exact (stays d rfl).elim
    | accept | validate | message => rfl
  have permitted : x.permits e = true := by
    cases e with
    | message d msg => exact (silent d msg rfl).elim
    | accept | validate | close => rfl
  have stepped : x.step sys (.server e) = some { sys with server } := by
    simp only [Transfer.step, permitted, if_true, step, Option.map_some]
  refine ⟨.server e, _, Lts.only_step.mpr ⟨calm, stepped⟩, ?_⟩
  unfold work
  rcases ours with rfl | rfl
  · have same := others x.r x.distinct.symm
    dsimp only
    rw [same]
    omega
  · have same := others x.s x.distinct
    dsimp only
    rw [same]
    omega

theorem exists_next {α : Type} {taken sent : List α} (h : taken <+: sent) (ne : taken ≠ sent) :
    ∃ next rest, sent.drop taken.length = next :: rest := by
  obtain ⟨rest, rfl⟩ := h
  rw [List.drop_left]
  refine List.exists_cons_of_ne_nil fun none => ne ?_
  rw [none, List.append_nil]

omit [DecidableEq κ] in
theorem Offers.announced (h : x.Offers context) : Announced context := by
  obtain ⟨pre, rest, decoded, -, rfl⟩ := h
  exact ⟨decode_sized decoded, rfl⟩

theorem Settled.sender_waits (h : Settled x context sys) (stuck : ¬ x.Advances sys) :
    sys.sender.Waits := by
  by_contra awake
  have enabled : ∃ sender, sys.sender.step x.sha256_chunk x.upload x.phrase {} = some sender := by
    refine Sender.step_enabled awake (fun pc msg rest front _ => ?_) fun pc => ?_
    · have stage := h.inv.sender.stage
      unfold Sender.Stage at stage
      rw [pc] at stage
      obtain ⟨-, queue, -⟩ := stage
      obtain ⟨-, post, left, decoded, -⟩ :=
        (h.inv.answers h.delivered).first msg rest (queue.symm.trans front)
      exact ⟨_, decoded⟩
    · rw [(h.calm.sender.session pc).1]
      decide
  obtain ⟨sender, stepped⟩ := enabled
  have step : x.step sys (.sendRoutine {}) = some { sys with sender } := by
    simp only [Transfer.step, if_true, stepped, Option.map_some]
  exact stuck (h.advances_of_works step rfl awake)

theorem Settled.receiver_waits (h : Settled x context sys) (offers : x.Offers context)
    (stuck : ¬ x.Advances sys) : sys.receiver.Waits := by
  by_contra awake
  have enabled : ∃ receiver,
      sys.receiver.step x.sha256_chunk x.download x.unset {} = some receiver := by
    refine Receiver.step_enabled awake (fun pc msg rest front _ => ?_) fun pc msg member chunk => ?_
    · have queue := h.calm.receiver.unread (Or.inr pc)
      rw [h.offer (queue.symm.trans front)]
      exact ⟨_, offers.announced.decodes.1⟩
    · have stage := h.inv.receiver.stage
      unfold Receiver.Stage at stage
      rw [pc] at stage
      obtain ⟨consumed, queue, -⟩ := stage
      have arrived : msg ∈ sys.toReceiver := by
        rw [← queue]
        exact List.mem_append_right _ member
      exact (Receiver.genuine_of_stream (h.inv.stream h.delivered) arrived chunk).1
  obtain ⟨receiver, stepped⟩ := enabled
  have step : x.step sys (.receiveRoutine {}) = some { sys with receiver } := by
    simp only [Transfer.step, if_true, stepped, Option.map_some]
  exact stuck (h.advances_of_works step rfl awake)

theorem Settled.sender_ready (h : Settled x context sys) (stuck : ¬ x.Advances sys)
    (unfinished : sys.fromReceiver.length < 3) :
    sys.sender.c.isConnected = true ∧ sys.sender.c.isValidated = true := by
  by_contra unready
  have unready := (not_and_or.mp unready).imp Bool.eq_false_iff.mpr Bool.eq_false_iff.mpr
  obtain ⟨e, c, on, stays, less⟩ :=
    FileClient.on_enabled (h.fine unfinished).2.1 unready
  have calm : x.calm sys (.senderLink e) = true := by
    cases e with
    | closed => exact (stays rfl).elim
    | opened | validated => rfl
  have step : x.step sys (.senderLink e) =
      some { sys with sender := { sys.sender with c } } := by
    simp only [Transfer.step, on, Option.map_some]
  refine stuck ⟨.senderLink e, _, Lts.only_step.mpr ⟨calm, step⟩, ?_⟩
  have same : Sender.rank x.upload { sys.sender with c } = sys.sender.rank x.upload :=
    Sender.rank_congr (FileClient.on_fades on).messages_in
  unfold work
  dsimp only at same ⊢
  omega

theorem Settled.receiver_ready (h : Settled x context sys) (stuck : ¬ x.Advances sys)
    (unfinished : sys.fromReceiver.length < 3) :
    sys.receiver.c.isConnected = true ∧ sys.receiver.c.isValidated = true := by
  by_contra unready
  have unready := (not_and_or.mp unready).imp Bool.eq_false_iff.mpr Bool.eq_false_iff.mpr
  obtain ⟨e, c, on, stays, less⟩ :=
    FileClient.on_enabled (h.fine unfinished).2.2 unready
  have calm : x.calm sys (.receiverLink e) = true := by
    cases e with
    | closed => exact (stays rfl).elim
    | opened | validated => rfl
  have step : x.step sys (.receiverLink e) =
      some { sys with receiver := { sys.receiver with c } } := by
    simp only [Transfer.step, on, Option.map_some]
  refine stuck ⟨.receiverLink e, _, Lts.only_step.mpr ⟨calm, step⟩, ?_⟩
  have same : Receiver.rank { sys.receiver with c } = sys.receiver.rank :=
    Receiver.rank_congr (FileClient.on_fades on).messages_in
  unfold work
  dsimp only at same ⊢
  omega

/-- Both ends of every channel agree, with a request of the receiver held back until the sender
has announced. -/
structure Drained (x : Transfer κ) (sys : State κ) : Prop where
  fromSender : sys.fromSender = sys.sender.c.sent
  fromReceiver : sys.fromSender ≠ [] → sys.fromReceiver = sys.receiver.c.sent
  toSender : sys.toSender = sys.server.sentTo x.s
  toReceiver : sys.toReceiver = sys.server.sentTo x.r

theorem Settled.drained (h : Settled x context sys) (offers : x.Offers context)
    (stuck : ¬ x.Advances sys) : Drained x sys := by
  have validated : ∀ c, c = x.s ∨ c = x.r → (sys.server.conn c).m_validated := by
    intro c ours
    by_contra unvalidated
    exact stuck (advances_of_unvalidated ours (Bool.eq_false_iff.mpr unvalidated))
  refine ⟨?_, fun announced => ?_, ?_, ?_⟩
  · by_contra ne
    obtain ⟨msg, rest, next⟩ := exists_next h.delivered.fromSender ne
    have ready := Channel.isPrefix_of_next h.delivered.fromSender next
    obtain ⟨-, server, processed, -⟩ := h.from_sender offers ready (validated x.s (Or.inl rfl))
    have step : x.step sys .fromSender =
        some { sys with server, fromSender := sys.fromSender ++ [msg] } := by
      simp only [Transfer.step, next, processed, Option.map_some]
    exact stuck (h.advances_of_works step rfl trivial)
  · by_contra ne
    obtain ⟨msg, rest, next⟩ := exists_next h.delivered.fromReceiver ne
    have ready := Channel.isPrefix_of_next h.delivered.fromReceiver next
    obtain ⟨-, server, processed, -⟩ :=
      h.from_receiver ready announced (validated x.r (Or.inr rfl))
    have step : x.step sys .fromReceiver =
        some { sys with server, fromReceiver := sys.fromReceiver ++ [msg] } := by
      simp only [Transfer.step, next, processed, Option.map_some]
    have calm : x.calm sys .fromReceiver = true := by
      simp [Transfer.calm, announced]
    exact stuck (h.advances_of_works step calm trivial)
  · by_contra ne
    obtain ⟨msg, rest, next⟩ := exists_next h.delivered.toSender ne
    have step : x.step sys .toSender = some { sys with
        sender := { sys.sender with c := sys.sender.c.receive msg }
        toSender := sys.toSender ++ [msg] } := by
      simp only [Transfer.step, next]
    exact stuck (h.advances_of_works step rfl trivial)
  · by_contra ne
    obtain ⟨msg, rest, next⟩ := exists_next h.delivered.toReceiver ne
    have step : x.step sys .toReceiver = some { sys with
        receiver := { sys.receiver with c := sys.receiver.c.receive msg }
        toReceiver := sys.toReceiver ++ [msg] } := by
      simp only [Transfer.step, next]
    exact stuck (h.advances_of_works step rfl trivial)

/-- The receiver waits for the server only within its session. -/
theorem Settled.receiver_stuck (h : Settled x context sys) (drained : Drained x sys)
    (waits : sys.receiver.Waits) (stuck : ¬ x.Advances sys) (announced : sys.fromSender ≠ []) :
    (sys.fromReceiver.length = 2 ∧ sys.receiver.pc = .session ∧ sys.receiver.session.pc = .loop ∧
      sys.receiver.session.Going ∧ sys.receiver.c.m_messages_in = []) ∨
    (sys.fromReceiver.length = 3 ∧ sys.receiver.pc = .returned true) := by
  have asked : sys.fromReceiver.length = sys.receiver.pc.due := by
    have most := sys.receiver.pc.due_le
    have three : (Receiver.requests x.download x.unset).length = 3 := rfl
    rw [drained.fromReceiver announced, h.calm.receiver.sent, List.length_take]
    omega
  unfold Receiver.Waits at waits
  cases pc : sys.receiver.pc with
  | connecting | requesting | establishing | asking | starting | finishing | flushing
  | awaiting =>
      rw [pc] at waits
      exact waits.elim
  | validating =>
      rw [pc] at waits asked
      obtain ⟨connected, validated⟩ := h.receiver_ready stuck (by rw [asked]; decide)
      rcases waits with disconnected | unvalidated
      · cases connected.symm.trans disconnected
      · cases validated.symm.trans unvalidated
  | waiting =>
      rw [pc] at waits asked
      have queue := h.calm.receiver.unread (Or.inl pc)
      have sent := h.calm.server.toReceiver
      rw [asked, ← drained.toReceiver, ← queue, waits] at sent
      cases sent
  | session =>
      rw [pc] at waits asked
      obtain ⟨loop, going, none⟩ := waits
      exact Or.inl ⟨asked, rfl, loop, going, none⟩
  | returned res =>
      rw [pc] at asked
      cases res with
      | true => exact Or.inr ⟨asked, rfl⟩
      | false => exact (h.calm.receiver.ok pc).elim

omit [DecidableEq κ] in
/-- With all of the file relayed and consumed, the loop of the receiver does not go on. -/
theorem Settled.not_starved (h : Settled x context sys) (drained : Drained x sys)
    (relayed : sys.fromSender = x.sendings) (asked : sys.fromReceiver.length = 2)
    (pc : sys.receiver.pc = .session) (loop : sys.receiver.session.pc = .loop)
    (going : sys.receiver.session.Going) (none : sys.receiver.c.m_messages_in = []) : False := by
  have stage := h.inv.receiver.stage
  unfold Receiver.Stage at stage
  rw [pc] at stage
  obtain ⟨consumed, queue, rebuilds⟩ := stage
  rw [none, List.append_nil] at queue
  have final : encode .FinalChunk {} ∈ consumed := by
    rw [queue, drained.toReceiver, h.calm.server.toReceiver, asked, relayed]
    exact List.mem_cons_of_mem _ (List.mem_append_right _ List.mem_cons_self)
  obtain ⟨-, unfinished, fine⟩ := going
  cases rebuilds with
  | start pc' | returned pc' => cases loop.symm.trans pc'
  | finished _ finish => cases unfinished.symm.trans finish
  | failed _ failed => cases fine.symm.trans failed
  | going ps _ _ _ _ some_pieces so_far =>
      have piece := List.mem_filter.mpr ⟨final, (rfl : carriesFile (encode .FinalChunk {}) = true)⟩
      change encode .FinalChunk {} ∈ fileMessages consumed at piece
      rw [so_far] at piece
      obtain ⟨data, -, same⟩ := List.mem_map.mp piece
      have id := congrArg (fun msg => msg.header.id) same
      rw [chunkMessage_id] at id
      cases id

/-- **No state is stuck.** -/
theorem Settled.goes_on (h : Settled x context sys) (offers : x.Offers context)
    (uncompleted : ¬ Completed sys) : x.Advances sys := by
  by_contra stuck
  have drained := h.drained offers stuck
  have senderWaits := h.sender_waits stuck
  have receiver := h.receiver_stuck drained (h.receiver_waits offers stuck) stuck
  have stage := h.inv.sender.stage
  unfold Sender.Waits at senderWaits
  unfold Sender.Stage at stage
  -- Once all of the file has been sent, the receiver has returned.
  have returned : sys.sender.c.sent = x.sendings →
      sys.fromReceiver.length = 3 ∧ sys.receiver.pc = .returned true := by
    intro sent
    have relayed := drained.fromSender.trans sent
    rcases receiver (by rw [relayed]; exact List.cons_ne_nil _ _) with
      ⟨asked, pc, loop, going, none⟩ | returned
    · exact (h.not_starved drained relayed asked pc loop going none).elim
    · exact returned
  have sendings_confirm : sys.sender.pc = .confirming ∨ sys.sender.pc = .draining →
      sys.sender.c.m_messages_in = [] → False := by
    intro pc none
    have sent := h.calm.sender.sent (pc.imp id Or.inl)
    obtain ⟨asked, -⟩ := returned sent
    have running : sys.sender.pc ≠ .returned true := by
      rcases pc with pc | pc <;> rw [pc] <;> exact Sender.Pc.noConfusion
    have success : encode .Success {} ∈ sys.toSender := by
      rw [drained.toSender, h.calm.server.toSender, asked]
      exact List.mem_cons_of_mem _ List.mem_cons_self
    have unread := h.calm.sender.unread running _ success (encode_id _ _)
    rw [none] at unread
    cases unread
  cases pc : sys.sender.pc with
  | connecting | announcing | establishing | session =>
      rw [pc] at senderWaits
      exact senderWaits.elim
  | validating =>
      rw [pc] at senderWaits stage
      have unsent : sys.sender.c.sent ≠ x.sendings := by
        rw [stage]
        exact Sender.sent_ne_sendings (Nat.zero_le 1)
      obtain ⟨connected, validated⟩ := h.sender_ready stuck (h.unsent unsent)
      rcases senderWaits with disconnected | unvalidated
      · cases connected.symm.trans disconnected
      · cases validated.symm.trans unvalidated
  | waiting =>
      rw [pc] at senderWaits stage
      obtain ⟨sent, queue⟩ := stage
      have announced : sys.fromSender ≠ [] := by
        rw [drained.fromSender, sent]
        exact List.cons_ne_nil _ _
      have answers := h.calm.server.toSender
      rw [← drained.toSender, ← queue, senderWaits] at answers
      rcases receiver announced with ⟨asked, -⟩ | ⟨asked, -⟩ <;> rw [asked] at answers <;>
        cases answers
  | confirming =>
      rw [pc] at senderWaits
      exact sendings_confirm (Or.inl pc) senderWaits
  | draining =>
      rw [pc] at senderWaits
      exact sendings_confirm (Or.inr pc) senderWaits
  | returned res =>
      cases res with
      | true =>
          have sent := h.calm.sender.sent (Or.inr (Or.inr pc))
          exact uncompleted ⟨pc, (returned sent).2⟩
      | false => exact h.calm.sender.ok pc

theorem progresses (offers : x.Offers context) :
    x.calmly.Progresses x.calmly.Reachable Completed x.work where
  keeps := by
    intro s e t reached step
    have settled := Reachable.settled offers reached
    exact ⟨reached.next step, (settled.work_step (Lts.only_step.mp step).2).1⟩
  goes_on := fun s reached => (Reachable.settled offers reached).goes_on offers

/-- **A transfer that nobody disturbs can be completed**, whatever has happened so far and in
whatever order.  It never fails; until both routines have returned true some step takes from the
work that is left, and no more steps do than there is work. -/
theorem calm_transfer_completes (x : Transfer κ) {sys : State κ}
    (reachable : x.calmly.Reachable sys) :
    (sys.sender.pc ≠ .returned false ∧ sys.receiver.pc ≠ .returned false) ∧
    (¬ Completed sys → x.Advances sys) ∧
    (∀ es t, x.calmly.runFrom sys es = some t →
      x.calmly.worked x.work sys es + x.work t ≤ x.work sys) ∧
    ∃ es t, x.calmly.runFrom sys es = some t ∧ Completed t ∧
      t.receiver.session.pc = .returned true ∧ t.receiver.session.ofs.written = x.file := by
  obtain ⟨context, offers⟩ := x.exists_offers
  have settled := Reachable.settled offers reachable
  have progress := progresses offers
  refine ⟨⟨settled.calm.sender.ok, settled.calm.receiver.ok⟩, settled.goes_on offers,
    fun es t run => progress.bounded reachable run, ?_⟩
  obtain ⟨es, t, run, completed⟩ := progress.reaches reachable
  have done := Reachable.settled offers (reachable.runFrom run)
  have sent := done.calm.receiver.sent
  rw [completed.2] at sent
  have rebuilt := done.inv.receiver.rebuilt (by rw [sent]; exact Nat.le_refl 3)
  exact ⟨es, t, run, completed, rebuilt.returned, rebuilt.whole.written⟩

/-- The server has the announcement, and the receiver has not asked yet. -/
def twoBytesAnnounced : State Nat :=
  (twoBytes.calmly.run (twoBytesEvents.take 14)).get (by decide +kernel)

theorem calm_transfer_completes_twoBytes :
    ∃ es t, twoBytes.calmly.runFrom twoBytesAnnounced es = some t ∧ Completed t ∧
      t.receiver.session.pc = .returned true ∧ t.receiver.session.ofs.written = [1, 2] :=
  (calm_transfer_completes twoBytes ⟨twoBytesEvents.take 14, (Option.some_get _).symm⟩).2.2.2

end PingPong.Transfer
