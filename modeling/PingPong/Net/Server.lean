import Mathlib.Data.List.Basic
import Mathlib.Data.Option.Basic
import PingPong.Net.Message

/-!
# The connection list of a server

`Net::ServerBase`: the list `m_connections` and the two operations that send to it.  A pointer may
be null; `isConnected` is what the socket of each connection says when the operation looks at it.
The calls an operation makes, of `Connection::send` and of `onClientDisconnect`, are listed in
order.

`messageAllClients` moves its message into the parameter of `send` on every turn of its loop, and
treats the ignored client as a lost one.  `messageClient` resets the pointer it is about to look
for.
-/

namespace PingPong.Net

/-- A message whose value was moved out: the vector is empty, the header was copied. -/
def Message.movedFrom {T : Type} (msg : Message T) : Message T := { msg with body := [] }

/-- What an operation of the server calls. -/
inductive Call (T κ : Type) where
  | send (client : Option κ) (msg : Message T)
  | onClientDisconnect (client : Option κ)
deriving DecidableEq

structure ServerBase (κ : Type) where
  m_connections : List (Option κ) := []
deriving DecidableEq

variable {T κ : Type}

/-- The messages handed to `send`, with their clients. -/
def handed (calls : List (Call T κ)) : List (Option κ × Message T) :=
  calls.filterMap fun
    | .send client msg => some (client, msg)
    | .onClientDisconnect _ => none

/-- The clients `onClientDisconnect` was called for. -/
def disconnects (calls : List (Call T κ)) : List (Option κ) :=
  calls.filterMap fun
    | .send _ _ => none
    | .onClientDisconnect client => some client

theorem handed_append (calls later : List (Call T κ)) :
    handed (calls ++ later) = handed calls ++ handed later := List.filterMap_append

theorem disconnects_append (calls later : List (Call T κ)) :
    disconnects (calls ++ later) = disconnects calls ++ disconnects later := List.filterMap_append

/-! ## Moving one message out again and again -/

theorem Message.movedFrom_eq_self_iff (msg : Message T) : msg.movedFrom = msg ↔ msg.body = [] := by
  constructor
  · intro same
    exact (congrArg Message.body same).symm
  · intro empty
    rw [Message.movedFrom, ← empty]

theorem Message.framed_movedFrom_iff {msg : Message T} (framed : msg.Framed) :
    msg.movedFrom.Framed ↔ msg.body = [] := by
  constructor
  · intro moved
    have empty : msg.size = 0 := framed.symm.trans moved
    exact List.eq_nil_of_length_eq_zero empty
  · intro empty
    rw [(movedFrom_eq_self_iff msg).mpr empty]
    exact framed

/-- What the clients are handed in turn: whoever comes after the first gets an empty body. -/
def inTurn (msg : Message T) : List (Option κ) → List (Option κ × Message T)
  | [] => []
  | client :: later => (client, msg) :: later.map fun client => (client, msg.movedFrom)

theorem inTurn_movedFrom (msg : Message T) (clients : List (Option κ)) :
    inTurn msg.movedFrom clients = clients.map fun client => (client, msg.movedFrom) := by
  cases clients with
  | nil => rfl
  | cons client later => rfl

theorem inTurn_eq_map_iff (msg : Message T) (clients : List (Option κ)) :
    inTurn msg clients = clients.map (fun client => (client, msg)) ↔
      msg.body = [] ∨ clients.length ≤ 1 := by
  rcases clients with _ | ⟨first, _ | ⟨second, later⟩⟩
  · simp [inTurn]
  · simp [inTurn]
  · have more : ¬ (first :: second :: later).length ≤ 1 := by simp
    rw [or_iff_left more, ← Message.movedFrom_eq_self_iff]
    constructor
    · intro same
      exact congrArg Prod.snd (List.cons.inj (List.cons.inj same).2).1
    · intro same
      rw [inTurn, same]
      rfl

theorem framed_inTurn_iff {msg : Message T} (framed : msg.Framed) (clients : List (Option κ)) :
    (∀ turn ∈ inTurn msg clients, turn.2.Framed) ↔ msg.body = [] ∨ clients.length ≤ 1 := by
  constructor
  · intro all
    rcases clients with _ | ⟨first, _ | ⟨second, later⟩⟩
    · exact .inr (Nat.zero_le _)
    · exact .inr (Nat.le_refl _)
    · exact .inl ((Message.framed_movedFrom_iff framed).mp
        (all (second, msg.movedFrom) (List.mem_cons_of_mem _ List.mem_cons_self)))
  · intro harmless turn member
    rw [(inTurn_eq_map_iff msg clients).mpr harmless] at member
    obtain ⟨client, -, rfl⟩ := List.mem_map.mp member
    exact framed

namespace ServerBase

variable [DecidableEq κ] (isConnected : κ → Bool)

def messageClient (s : ServerBase κ) (client : Option κ) (msg : Message T) :
    List (Call T κ) × ServerBase κ :=
  if client.any isConnected then ([.send client msg], s)
  else
    let reset : Option κ := none
    ([.onClientDisconnect client],
      { s with m_connections := s.m_connections.filter (· ≠ reset) })

/-- The test of the loop: neither null, nor closed, nor ignored. -/
def reaches (ignore_client client : Option κ) : Bool :=
  client.any isConnected && client ≠ ignore_client

/-- The state of the loop of `messageAllClients`; `m_connections` has the entries gone through. -/
structure Broadcast (T κ : Type) where
  msg : Message T
  m_connections : List (Option κ) := []
  some_clients_disconnected : Bool := false
  calls : List (Call T κ) := []

/-- One turn of the loop. -/
def Broadcast.next (ignore_client : Option κ) (b : Broadcast T κ) (client : Option κ) :
    Broadcast T κ :=
  if reaches isConnected ignore_client client then
    { b with
      msg := b.msg.movedFrom
      m_connections := b.m_connections ++ [client]
      calls := b.calls ++ [.send client b.msg] }
  else
    { b with
      m_connections := b.m_connections ++ [none]
      some_clients_disconnected := true
      calls := b.calls ++ [.onClientDisconnect client] }

def messageAllClients (s : ServerBase κ) (msg : Message T) (ignore_client : Option κ) :
    List (Call T κ) × ServerBase κ :=
  let b := s.m_connections.foldl (Broadcast.next isConnected ignore_client) { msg }
  (b.calls,
    { s with
      m_connections :=
        if b.some_clients_disconnected then b.m_connections.filter (· ≠ none)
        else b.m_connections })

/-! ## The loop -/

section Loop

variable {isConnected} {ignore_client : Option κ}

theorem isSome_of_reaches {client : Option κ} (reached : reaches isConnected ignore_client client) :
    client ≠ none := by
  intro null
  obtain rfl := null
  cases reached

theorem Broadcast.next_of_reaches {client : Option κ}
    (reached : reaches isConnected ignore_client client) (b : Broadcast T κ) :
    b.next isConnected ignore_client client =
      { b with
        msg := b.msg.movedFrom
        m_connections := b.m_connections ++ [client]
        calls := b.calls ++ [.send client b.msg] } := if_pos reached

theorem Broadcast.next_of_misses {client : Option κ}
    (missed : ¬ reaches isConnected ignore_client client) (b : Broadcast T κ) :
    b.next isConnected ignore_client client =
      { b with
        m_connections := b.m_connections ++ [none]
        some_clients_disconnected := true
        calls := b.calls ++ [.onClientDisconnect client] } := if_neg missed

theorem Broadcast.handed_foldl (b : Broadcast T κ) (clients : List (Option κ)) :
    handed (clients.foldl (next isConnected ignore_client) b).calls =
      handed b.calls ++ inTurn b.msg (clients.filter (reaches isConnected ignore_client)) := by
  induction clients generalizing b with
  | nil => exact (List.append_nil _).symm
  | cons client later ih =>
      rw [List.foldl_cons, ih]
      by_cases reached : reaches isConnected ignore_client client
      · rw [next_of_reaches reached, List.filter_cons_of_pos reached, handed_append,
          inTurn_movedFrom, List.append_assoc]
        rfl
      · rw [next_of_misses reached, List.filter_cons_of_neg reached, handed_append]
        exact congrArg (· ++ _) (List.append_nil _)

theorem Broadcast.disconnects_foldl (b : Broadcast T κ) (clients : List (Option κ)) :
    disconnects (clients.foldl (next isConnected ignore_client) b).calls =
      disconnects b.calls ++ clients.filter (!reaches isConnected ignore_client ·) := by
  induction clients generalizing b with
  | nil => exact (List.append_nil _).symm
  | cons client later ih =>
      rw [List.foldl_cons, ih]
      by_cases reached : reaches isConnected ignore_client client
      · rw [next_of_reaches reached, List.filter_cons_of_neg (by simp [reached]),
          disconnects_append]
        exact congrArg (· ++ _) (List.append_nil _)
      · rw [next_of_misses reached, List.filter_cons_of_pos (by simp [reached]),
          disconnects_append, List.append_assoc]
        rfl

/-- The pointers that are not null after the loop are those it reached. -/
theorem Broadcast.connections_foldl (b : Broadcast T κ) (clients : List (Option κ)) :
    (clients.foldl (next isConnected ignore_client) b).m_connections.filter (· ≠ none) =
      b.m_connections.filter (· ≠ none) ++
        clients.filter (reaches isConnected ignore_client) := by
  induction clients generalizing b with
  | nil => exact (List.append_nil _).symm
  | cons client later ih =>
      rw [List.foldl_cons, ih]
      by_cases reached : reaches isConnected ignore_client client
      · rw [next_of_reaches reached, List.filter_cons_of_pos reached, List.filter_append,
          List.filter_cons_of_pos (by simpa using isSome_of_reaches reached), List.append_assoc]
        rfl
      · rw [next_of_misses reached, List.filter_cons_of_neg reached, List.filter_append]
        exact congrArg (· ++ _) (List.append_nil _)

/-- Without a lost client the loop leaves no null behind that was not there. -/
theorem Broadcast.null_disconnects (b : Broadcast T κ)
    (nulls : none ∈ b.m_connections → b.some_clients_disconnected) (clients : List (Option κ)) :
    let b' := clients.foldl (next isConnected ignore_client) b
    none ∈ b'.m_connections → b'.some_clients_disconnected := by
  induction clients generalizing b with
  | nil => exact nulls
  | cons client later ih =>
      refine ih (b.next isConnected ignore_client client) ?_
      by_cases reached : reaches isConnected ignore_client client
      · rw [next_of_reaches reached]
        intro null
        rcases List.mem_append.mp null with before | last
        · exact nulls before
        · exact absurd (List.mem_singleton.mp last).symm (isSome_of_reaches reached)
      · rw [next_of_misses reached]
        exact fun _ => rfl

end Loop

/-! ## The two operations -/

section Operations

variable (msg : Message T) (ignore_client : Option κ)

theorem handed_messageAllClients (s : ServerBase κ) :
    handed (s.messageAllClients isConnected msg ignore_client).1 =
      inTurn msg (s.m_connections.filter (reaches isConnected ignore_client)) :=
  Broadcast.handed_foldl _ _

theorem disconnects_messageAllClients (s : ServerBase κ) :
    disconnects (s.messageAllClients isConnected msg ignore_client).1 =
      s.m_connections.filter (!reaches isConnected ignore_client ·) :=
  Broadcast.disconnects_foldl _ _

/-- Erasing the nulls only when a client was lost makes no difference. -/
theorem connections_messageAllClients (s : ServerBase κ) :
    (s.messageAllClients isConnected msg ignore_client).2.m_connections =
      s.m_connections.filter (reaches isConnected ignore_client) := by
  have kept := @Broadcast.connections_foldl T κ _ isConnected ignore_client { msg } s.m_connections
  have nulls := @Broadcast.null_disconnects T κ _ isConnected ignore_client { msg }
    (fun null => absurd null List.not_mem_nil) s.m_connections
  simp only [messageAllClients]
  split
  · exact kept
  · rename_i none_lost
    rw [List.filter_eq_self.mpr] at kept
    · exact kept
    · intro client member
      apply decide_eq_true
      intro same
      obtain rfl := same
      exact none_lost (nulls member)

end Operations

/-! ## Whether a broadcast is one message -/

/-- **A broadcast hands everyone the message.**  Every connected client but the ignored one is
handed the message itself exactly when it has no body or there is at most one such client; and a
message whose header announces its body reaches all of them so on exactly the same condition. -/
theorem broadcast_iff (clients : List (Option κ)) (msg : Message T) (ignore_client : Option κ) :
    let others := clients.filter (reaches isConnected ignore_client)
    let turns :=
      handed ((⟨clients⟩ : ServerBase κ).messageAllClients isConnected msg ignore_client).1
    (turns = others.map (fun client => (client, msg)) ↔ msg.body = [] ∨ others.length ≤ 1) ∧
      (msg.Framed → ((∀ turn ∈ turns, turn.2.Framed) ↔ msg.body = [] ∨ others.length ≤ 1)) := by
  intro others turns
  have in_turn : turns = inTurn msg others := handed_messageAllClients _ _ _ _
  rw [in_turn]
  exact ⟨inTurn_eq_map_iff msg others, fun framed => framed_inTurn_iff framed others⟩

/-- A message without a body reaches three clients, one of them ignored and one null. -/
theorem broadcast_empty :
    handed ((⟨[some 1, none, some 2, some 3]⟩ : ServerBase Nat).messageAllClients (fun _ => true)
      (⟨⟨7, 0⟩, []⟩ : Message Nat) (some 2)).1 =
        [(some 1, ⟨⟨7, 0⟩, []⟩), (some 3, ⟨⟨7, 0⟩, []⟩)] ∧
    ∀ turn ∈ handed ((⟨[some 1, none, some 2, some 3]⟩ : ServerBase Nat).messageAllClients
      (fun _ => true) (⟨⟨7, 0⟩, []⟩ : Message Nat) (some 2)).1, turn.2.Framed := by
  have framed : (⟨⟨7, 0⟩, []⟩ : Message Nat).Framed := by decide
  exact ⟨(broadcast_iff _ _ _ _).1.mpr (.inl rfl),
    ((broadcast_iff _ _ _ _).2 framed).mpr (.inl rfl)⟩

/-- The second of two clients is announced a byte that does not come. -/
theorem broadcast_emptied :
    handed ((⟨[some 1, some 2]⟩ : ServerBase Nat).messageAllClients (fun _ => true)
      (⟨⟨7, 1⟩, [5]⟩ : Message Nat) none).1 =
        [(some 1, ⟨⟨7, 1⟩, [5]⟩), (some 2, ⟨⟨7, 1⟩, []⟩)] ∧
    ¬ ∀ turn ∈ handed ((⟨[some 1, some 2]⟩ : ServerBase Nat).messageAllClients (fun _ => true)
      (⟨⟨7, 1⟩, [5]⟩ : Message Nat) none).1, turn.2.Framed := by decide

/-! ## Which connections are dropped -/

/-- After the operation the list has the connected clients, and the others, and only they, were
reported as disconnected. -/
def DropsTheDead (clients : List κ) (after : List (Call T κ) × ServerBase κ) : Prop :=
  after.2.m_connections = (clients.filter isConnected).map some ∧
    disconnects after.1 = (clients.filter (!isConnected ·)).map some

/-- After sending to one client the list has everyone but that client if it was closed, and everyone
if it was connected. -/
def DropsIfDead (clients : List κ) (client : κ) (after : List (Call T κ) × ServerBase κ) : Prop :=
  (isConnected client = false → after.2.m_connections = (clients.filter (· ≠ client)).map some) ∧
    (isConnected client = true → after.2.m_connections = clients.map some)

theorem filter_reaches_map_some (ignore_client : Option κ) (clients : List κ) :
    (clients.map some).filter (reaches isConnected ignore_client) =
      (clients.filter fun client => isConnected client && some client ≠ ignore_client).map some :=
  List.filter_map

theorem filter_misses_map_some (ignore_client : Option κ) (clients : List κ) :
    (clients.map some).filter (!reaches isConnected ignore_client ·) =
      (clients.filter fun client =>
        !(isConnected client && some client ≠ ignore_client)).map some :=
  List.filter_map

theorem messageAllClients_drops_iff (clients : List κ) (msg : Message T)
    (ignore_client : Option κ) :
    DropsTheDead isConnected clients
        ((⟨clients.map some⟩ : ServerBase κ).messageAllClients isConnected msg ignore_client) ↔
      ∀ client ∈ clients, isConnected client → some client ≠ ignore_client := by
  unfold DropsTheDead
  rw [connections_messageAllClients, disconnects_messageAllClients, filter_reaches_map_some,
    filter_misses_map_some]
  constructor
  · intro dropped client member connected
    have kept : some client ∈ (clients.filter isConnected).map some :=
      List.mem_map_of_mem (List.mem_filter.mpr ⟨member, connected⟩)
    rw [← dropped.1] at kept
    obtain ⟨_, reached, same⟩ := List.mem_map.mp kept
    cases same
    have both := (List.mem_filter.mp reached).2
    simp only [Bool.and_eq_true] at both
    exact of_decide_eq_true both.2
  · intro none_ignored
    have same : ∀ client ∈ clients,
        (isConnected client && decide (some client ≠ ignore_client)) = isConnected client := by
      intro client member
      cases connected : isConnected client with
      | false => rfl
      | true => exact decide_eq_true (none_ignored client member connected)
    constructor
    · rw [List.filter_congr same]
    · rw [List.filter_congr fun client member => congrArg (!·) (same client member)]

theorem messageClient_drops_iff (clients : List κ) (client : κ) (msg : Message T) :
    DropsIfDead isConnected clients client
        ((⟨clients.map some⟩ : ServerBase κ).messageClient isConnected (some client) msg) ↔
      isConnected client ∨ client ∉ clients := by
  unfold DropsIfDead messageClient
  cases connected : isConnected client with
  | true => simp [connected]
  | false =>
      have without_null : (clients.map some).filter (· ≠ none) = clients.map some := by
        apply List.filter_eq_self.mpr
        intro entry member
        obtain ⟨c, -, rfl⟩ := List.mem_map.mp member
        rfl
      rw [Option.any_some, connected]
      simp only [Bool.false_eq_true, if_false, false_or, without_null, true_implies, false_implies,
        and_true]
      rw [(List.map_injective_iff.mpr (Option.some_injective κ)).eq_iff, eq_comm,
        List.filter_eq_self]
      constructor
      · intro all member
        exact of_decide_eq_true (all client member) rfl
      · intro absent other member
        apply decide_eq_true
        intro same
        obtain rfl := same
        exact absent member

/-- **The connection list drops exactly the dead.**  A broadcast does so exactly when no connected
client is ignored; a message to one client does so exactly when it is connected, or was not in the
list anyway. -/
theorem drops_iff (clients : List κ) (ignore_client : Option κ) (client : κ) (msg : Message T) :
    (DropsTheDead isConnected clients
        ((⟨clients.map some⟩ : ServerBase κ).messageAllClients isConnected msg ignore_client) ↔
      ∀ client ∈ clients, isConnected client → some client ≠ ignore_client) ∧
    (DropsIfDead isConnected clients client
        ((⟨clients.map some⟩ : ServerBase κ).messageClient isConnected (some client) msg) ↔
      isConnected client ∨ client ∉ clients) :=
  ⟨messageAllClients_drops_iff isConnected clients msg ignore_client,
    messageClient_drops_iff isConnected clients client msg⟩

/-- Of two connected clients the ignored one is reported as lost and dropped; a closed client that a
message is sent to stays. -/
theorem drops_ignored_keeps_closed :
    ¬ DropsTheDead (fun _ => true) [1, 2] ((⟨[some 1, some 2]⟩ : ServerBase Nat).messageAllClients
      (fun _ => true) (⟨⟨7, 0⟩, []⟩ : Message Nat) (some 2)) ∧
    ¬ DropsIfDead (· = 1) [1, 2] 2 ((⟨[some 1, some 2]⟩ : ServerBase Nat).messageClient
      (· = 1) (some 2) (⟨⟨7, 0⟩, []⟩ : Message Nat)) := by
  constructor
  · intro drops
    exact absurd drops.1 (by decide)
  · intro drops
    exact absurd (drops.1 (by decide)) (by decide)

end ServerBase

end PingPong.Net
