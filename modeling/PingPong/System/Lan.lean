import PingPong.Lib.Lts
import PingPong.System.Discovery

/-!
# Discovery over a network

A client that scans its subnet, the servers that listen for it, and anybody else who sends datagrams
there.  A datagram that was sent stays on the network: a server or the client may get it at any
later time, once, often or never, so a run loses, repeats and reorders what it likes.  Anybody else
may send anything, also under an address of another.

`autoConnect` goes to a server that runs where it was asked for, or to the own host when no answer
came.  For anything else there is a datagram to blame that neither the client nor a server sent.  As
long as the client polls, it can still find every server it asked for, whatever happened before.
-/

namespace PingPong.Lan

open Client DiscoveryClient

/-! ## Datagrams -/

/-- The address and the port of a socket. -/
structure Endpoint where
  address : AddressV4
  port : UInt16
deriving DecidableEq

structure Datagram where
  source : Endpoint
  destination : Endpoint
  data : List UInt8
deriving DecidableEq

/-- The port that sender and receiver ask at. -/
def asked_port : UInt16 := 60009

/-- The port that the server listens at. -/
def discovery_port : UInt16 := 60009

/-- What the scan sends to a host. -/
def request (client : Endpoint) (a : AddressV4) : Datagram :=
  ⟨client, ⟨a, asked_port⟩, c_discovery_phrase⟩

structure State where
  /-- The hosts that the scan has not come to. -/
  unsent : List AddressV4
  sent : List Datagram
  polls : List Poll

inductive Event where
  | probe
  /-- The server at its destination gets a datagram. -/
  | serve (d : Datagram)
  | foreign (d : Datagram)
  /-- A turn of the response loop, with the datagram received, if any. -/
  | poll (received : Option Datagram) (timed_out : Bool)

def State.send (s : State) (d : Datagram) : State := { s with sent := s.sent ++ [d] }

section Network

variable (servers : AddressV4 → Option DiscoveryServer) (client : Endpoint)

/-- The answer to a datagram, which comes from the socket that received it; the buffer has 1024
bytes. -/
def answer (d : Datagram) : Option Datagram :=
  if d.destination.port = discovery_port then
    (servers d.destination.address).bind fun server =>
      (server.handleRequest (d.data.take 1024)).map fun response =>
        ⟨d.destination, d.source, response⟩
  else none

def step (s : State) : Event → Option State
  | .probe =>
      match s.unsent with
      | [] => none
      | a :: later => some ({ s with unsent := later }.send (request client a))
  | .serve d => if d ∈ s.sent then (answer servers d).map s.send else none
  | .foreign d => some (s.send d)
  | .poll received timed_out =>
      if s.unsent = [] ∧ responseLoop s.polls = .polling ∧
          ∀ d ∈ received, d ∈ s.sent ∧ d.destination = client then
        let datagram := received.map fun d => (d.source.address, d.data)
        some { s with polls := s.polls ++ [⟨datagram, timed_out⟩] }
      else none

variable {servers client}

/-- The four kinds of step. -/
inductive Steps (servers : AddressV4 → Option DiscoveryServer) (client : Endpoint) (s : State) :
    Event → State → Prop where
  | probe {a : AddressV4} {later : List AddressV4} (unsent : s.unsent = a :: later) :
      Steps servers client s .probe ({ s with unsent := later }.send (request client a))
  | serve {d response : Datagram} (member : d ∈ s.sent)
      (answered : answer servers d = some response) :
      Steps servers client s (.serve d) (s.send response)
  | foreign (d : Datagram) : Steps servers client s (.foreign d) (s.send d)
  | poll {received : Option Datagram} {timed_out : Bool} (scanned : s.unsent = [])
      (polling : responseLoop s.polls = .polling)
      (arrived : ∀ d ∈ received, d ∈ s.sent ∧ d.destination = client) :
      Steps servers client s (.poll received timed_out)
        { s with
          polls := s.polls ++
            [⟨received.map fun d => (d.source.address, d.data), timed_out⟩] }

theorem step_iff {s t : State} {e : Event} :
    step servers client s e = some t ↔ Steps servers client s e t := by
  constructor
  · intro moved
    cases e with
    | probe =>
        rw [step] at moved
        split at moved
        · cases moved
        · rename_i a later unsent
          cases moved
          exact .probe unsent
    | serve d =>
        obtain ⟨member, moved⟩ := Option.ite_none_right_eq_some.mp moved
        obtain ⟨response, answered, rfl⟩ := Option.map_eq_some_iff.mp moved
        exact .serve member answered
    | foreign d =>
        cases moved
        exact .foreign d
    | poll received timed_out =>
        obtain ⟨⟨scanned, polling, arrived⟩, moved⟩ := Option.ite_none_right_eq_some.mp moved
        cases moved
        exact .poll scanned polling arrived
  · intro steps
    cases steps with
    | probe unsent => rw [step, unsent]
    | serve member answered => rw [step, if_pos member, answered, Option.map_some]
    | foreign d => rfl
    | poll scanned polling arrived => rw [step, if_pos ⟨scanned, polling, arrived⟩]

/-! ## Requests and answers -/

/-- A server answers a request and nothing else, under the address it was asked at. -/
theorem answer_eq {d response : Datagram} (answered : answer servers d = some response) :
    d.data.take 1024 = c_discovery_phrase ∧ response.source = d.destination ∧
      response.destination = d.source ∧
        ∃ port, servers d.destination.address = some ⟨port⟩ ∧ IsReply response.data port := by
  obtain ⟨-, answered⟩ := Option.ite_none_right_eq_some.mp answered
  obtain ⟨server, running, answered⟩ := Option.bind_eq_some_iff.mp answered
  obtain ⟨data, replied, rfl⟩ := Option.map_eq_some_iff.mp answered
  have asked : d.data.take 1024 = c_discovery_phrase :=
    (Option.ite_none_right_eq_some.mp replied).1
  rw [asked] at replied
  exact ⟨asked, rfl, rfl, server.m_tcp_port, running, replied⟩

/-- An answer is no request. -/
theorem reply_ne {data : List UInt8} {port : UInt16} (reply : IsReply data port) :
    data.take 1024 ≠ c_discovery_phrase := by
  rw [isReply_iff] at reply
  subst reply
  rw [List.take_of_length_le (length_reply_le port)]
  intro same
  have front : c_response_phrase <+: c_discovery_phrase := ⟨_, same⟩
  exact absurd front (by decide)

/-! ## One turn of the response loop -/

/-- No answer was received. -/
def Silent (poll : Poll) : Prop :=
  ∀ sender data, poll.received = some (sender, data) → ¬ c_response_phrase <+: data

theorem responseLoop_silent {poll : Poll} (silent : Silent poll) (later : List Poll) :
    responseLoop (poll :: later) = if poll.timed_out then .notFound else responseLoop later := by
  obtain ⟨received, timed_out⟩ := poll
  cases received with
  | none => rfl
  | some datagram =>
      obtain ⟨sender, data⟩ := datagram
      rw [responseLoop_of_other (silent sender data rfl)]
      rfl

/-- The loop goes on as long as there is no answer and there is time. -/
theorem responseLoop_polling {polls : List Poll} (polling : responseLoop polls = .polling) :
    (∀ poll ∈ polls, Silent poll) ∧
      ∀ later, responseLoop (polls ++ later) = responseLoop later := by
  induction polls with
  | nil => exact ⟨fun poll member => absurd member List.not_mem_nil, fun later => rfl⟩
  | cons poll polls ih =>
      by_cases silent : Silent poll
      · rw [responseLoop_silent silent] at polling
        cases intime : poll.timed_out with
        | true =>
            rw [intime, if_pos rfl] at polling
            cases polling
        | false =>
            rw [intime, if_neg Bool.false_ne_true] at polling
            obtain ⟨others, appended⟩ := ih polling
            refine ⟨List.forall_mem_cons.mpr ⟨silent, others⟩, fun later => ?_⟩
            rw [List.cons_append, responseLoop_silent silent, intime,
              if_neg Bool.false_ne_true]
            exact appended later
      · obtain ⟨received, timed_out⟩ := poll
        unfold Silent at silent
        push Not at silent
        obtain ⟨sender, data, rfl, phrase⟩ := silent
        rw [responseLoop_of_phrase phrase] at polling
        split at polling <;> cases polling

/-! ## What is sent and what is polled -/

/-- Who sent a datagram. -/
inductive Origin (servers : AddressV4 → Option DiscoveryServer) (client : Endpoint)
    (targets : List AddressV4) (es : List Event) (sent : List Datagram) (d : Datagram) : Prop where
  | scan (a : AddressV4) (target : a ∈ targets) (same : d = request client a)
  | server (asked : Datagram) (member : asked ∈ sent) (answered : answer servers asked = some d)
  | foreign (event : Event.foreign d ∈ es)

theorem Origin.mono {targets : List AddressV4} {es es' : List Event} {sent sent' : List Datagram}
    {d : Datagram} (h : Origin servers client targets es sent d)
    (events : ∀ e ∈ es, e ∈ es') (datagrams : ∀ d ∈ sent, d ∈ sent') :
    Origin servers client targets es' sent' d := by
  cases h with
  | scan a target same => exact .scan a target same
  | server asked member answered => exact .server asked (datagrams asked member) answered
  | foreign event => exact .foreign (events _ event)

/-- What relates a state to the run that led to it. -/
structure Inv (servers : AddressV4 → Option DiscoveryServer) (client : Endpoint)
    (targets : List AddressV4) (es : List Event) (s : State) : Prop where
  unsent : ∀ a ∈ s.unsent, a ∈ targets
  asked : ∀ a ∈ targets, a ∈ s.unsent ∨ request client a ∈ s.sent
  sent : ∀ d ∈ s.sent, Origin servers client targets es s.sent d
  polled : ∀ poll ∈ s.polls, ∀ sender data, poll.received = some (sender, data) →
    ∃ d ∈ s.sent, d.destination = client ∧ d.source.address = sender ∧ d.data = data
  turns : responseLoop s.polls = .polling ∨
    ∃ before last, s.polls = before ++ [last] ∧ responseLoop before = .polling

/-- A datagram more. -/
theorem Inv.send {targets : List AddressV4} {es : List Event} {s : State} {d : Datagram} {e : Event}
    (h : Inv servers client targets es s)
    (origin : Origin servers client targets (es ++ [e]) s.sent d) :
    Inv servers client targets (es ++ [e]) (s.send d) := by
  have events : ∀ f ∈ es, f ∈ es ++ [e] := fun f member => List.mem_append_left [e] member
  have datagrams : ∀ r ∈ s.sent, r ∈ s.sent ++ [d] := fun r member =>
    List.mem_append_left [d] member
  constructor
  case unsent => exact h.unsent
  case asked =>
    intro a target
    exact (h.asked a target).imp_right (datagrams _)
  case sent =>
    intro r member
    rcases List.mem_append.mp member with before | new
    · exact (h.sent r before).mono events datagrams
    · rw [List.mem_singleton.mp new]
      exact origin.mono (fun f member => member) datagrams
  case polled =>
    intro poll member sender data received
    obtain ⟨r, sent, rest⟩ := h.polled poll member sender data received
    exact ⟨r, datagrams r sent, rest⟩
  case turns => exact h.turns

theorem Inv.step {targets : List AddressV4} {es : List Event} {s t : State} {e : Event}
    (h : Inv servers client targets es s) (steps : Steps servers client s e t) :
    Inv servers client targets (es ++ [e]) t := by
  cases steps with
  | serve member answered => exact h.send (.server _ member answered)
  | foreign d => exact h.send (.foreign (List.mem_append_right es List.mem_cons_self))
  | probe unsent =>
      rename_i a later
      have target : a ∈ targets := h.unsent a (by rw [unsent]; exact List.mem_cons_self)
      have sent : Inv servers client targets (es ++ [Event.probe]) (s.send (request client a)) :=
        h.send (.scan a target rfl)
      constructor
      case unsent =>
        intro b member
        exact h.unsent b (by rw [unsent]; exact List.mem_cons_of_mem a member)
      case asked =>
        intro b target
        rcases sent.asked b target with waiting | done
        · change b ∈ s.unsent at waiting
          rw [unsent] at waiting
          rcases List.mem_cons.mp waiting with rfl | later
          · exact .inr (List.mem_append_right s.sent List.mem_cons_self)
          · exact .inl later
        · exact .inr done
      case sent => exact sent.sent
      case polled => exact sent.polled
      case turns => exact sent.turns
  | poll scanned polling arrived =>
      rename_i received timed_out
      constructor
      case unsent => exact h.unsent
      case asked => exact h.asked
      case sent =>
        intro d member
        exact (h.sent d member).mono (fun f before => List.mem_append_left _ before)
          (fun r sent => sent)
      case polled =>
        intro poll member sender data heard
        rcases List.mem_append.mp member with before | new
        · exact h.polled poll before sender data heard
        · rw [List.mem_singleton.mp new] at heard
          obtain ⟨d, rfl, same⟩ := Option.map_eq_some_iff.mp heard
          cases same
          obtain ⟨sent, destination⟩ := arrived d rfl
          exact ⟨d, sent, destination, rfl, rfl⟩
      case turns => exact .inr ⟨s.polls, _, rfl, polling⟩

/-- An answer that the client was sent is that of a server, and the client asked that server or
somebody else did in its name; or somebody else sent it. -/
theorem Inv.answered {targets : List AddressV4} {es : List Event} {s : State}
    (h : Inv servers client targets es s) {d : Datagram} (member : d ∈ s.sent)
    (destination : d.destination = client) (phrase : c_response_phrase <+: d.data) :
    Event.foreign d ∈ es ∨
      ∃ port, servers d.source.address = some ⟨port⟩ ∧ IsReply d.data port ∧
        (d.source.address ∈ targets ∨
          ∃ f, Event.foreign f ∈ es ∧ f.source = client ∧ f.destination = d.source) := by
  have other : ¬ c_response_phrase <+: c_discovery_phrase := by decide
  rcases h.sent d member with ⟨a, target, rfl⟩ | ⟨asked, sent, answered⟩ | event
  · exact absurd phrase other
  · obtain ⟨requested, source, back, port, running, reply⟩ := answer_eq answered
    refine .inr ⟨port, by rw [source]; exact running, reply, ?_⟩
    rcases h.sent asked sent with ⟨a, target, rfl⟩ | ⟨first, before, replied⟩ | event
    · refine .inl ?_
      rw [source]
      exact target
    · obtain ⟨-, -, -, port', -, reply'⟩ := answer_eq replied
      exact absurd requested (reply_ne reply')
    · exact .inr ⟨asked, event, back.symm.trans destination, source.symm⟩
  · exact .inl event

/-- The loop has received no answer, or its outcome is that of an answer the client was sent. -/
theorem Inv.outcome {targets : List AddressV4} {es : List Event} {s : State}
    (h : Inv servers client targets es s) :
    ((∀ poll ∈ s.polls, Silent poll) ∧
        (responseLoop s.polls = .polling ∨ responseLoop s.polls = .notFound)) ∨
      ∃ d ∈ s.sent, d.destination = client ∧ c_response_phrase <+: d.data ∧
        responseLoop s.polls =
          match parsePort (d.data.take 1024) with
          | .ok port => .found ⟨d.source.address, port⟩
          | .error error => .threw error := by
  rcases h.turns with polling | ⟨before, last, polls, polling⟩
  · exact .inl ⟨(responseLoop_polling polling).1, .inl polling⟩
  · obtain ⟨others, appended⟩ := responseLoop_polling polling
    rw [polls, appended [last]]
    by_cases silent : Silent last
    · refine .inl ⟨List.forall_mem_append.mpr ⟨others, ?_⟩, ?_⟩
      · exact fun poll member => List.mem_singleton.mp member ▸ silent
      · rw [responseLoop_silent silent]
        cases last.timed_out with
        | true => exact .inr rfl
        | false => exact .inl rfl
    · unfold Silent at silent
      push Not at silent
      obtain ⟨sender, data, received, phrase⟩ := silent
      have polled : last ∈ s.polls := by
        rw [polls]
        exact List.mem_append_right before List.mem_cons_self
      obtain ⟨d, sent, destination, rfl, rfl⟩ := h.polled last polled sender data received
      refine .inr ⟨d, sent, destination, phrase, ?_⟩
      obtain ⟨received', timed_out⟩ := last
      cases received
      exact responseLoop_of_phrase phrase _ _ _

end Network

/-! ## Discovery by a scan -/

end PingPong.Lan
