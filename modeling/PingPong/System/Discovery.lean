import PingPong.Client.Interfaces
import PingPong.Client.SubnetScan
import PingPong.Lib.Decimal

/-!
# Discovery

`discovery_server.cpp` and `discovery_client.cpp`: a client asks for a server by a datagram to every
host of its subnet, or by one to all of them, and takes the first answer that starts with the
response phrase.  What happens at one turn of its response loop is a `Poll`: the datagram received,
if any, and whether the time is over after it.

The server answers with the phrase, a slash and its port.  The client does not ask for the slash nor
for a port, and where there is no number behind the slash the conversion throws.
-/

namespace PingPong

open Client Decimal

/-! ## The server -/

structure DiscoveryServer where
  m_tcp_port : UInt16

namespace DiscoveryServer

def c_discovery_phrase : List UInt8 := ascii "pingpong_discover_v1"

def c_response_phrase : List UInt8 := ascii "pingpong_server_v1"

def response (m_tcp_port : UInt16) : List UInt8 :=
  c_response_phrase ++ ascii "/" ++ to_string m_tcp_port.toNat

/-- The answer to a datagram, if there is one. -/
def handleRequest (s : DiscoveryServer) (data : List UInt8) : Option (List UInt8) :=
  if data = c_discovery_phrase then some (response s.m_tcp_port) else none

end DiscoveryServer

/-! ## The client -/

namespace DiscoveryClient

def c_discovery_phrase : List UInt8 := ascii "pingpong_discover_v1"

def c_response_phrase : List UInt8 := ascii "pingpong_server_v1"

structure DiscoveredServer where
  address : AddressV4
  port : UInt16
deriving DecidableEq

/-- A datagram and its sender, if one was there, and whether the loop ends for lack of time. -/
structure Poll where
  received : Option (AddressV4 × List UInt8)
  timed_out : Bool
deriving DecidableEq

inductive Outcome where
  | found (server : DiscoveredServer)
  | notFound
  | threw (error : StoiError)
  /-- The loop goes on after the given polls. -/
  | polling
deriving DecidableEq

/-- The port of an answer, after a test for the phrase at its start. -/
def parsePort (data : List UInt8) : Except StoiError UInt16 :=
  match data.findIdx? (· = 47) with
  | none => .ok 0
  | some slash => (stoi (data.drop (slash + 1))).map UInt16.ofInt

/-- The response loop that both ways of discovery run, with a buffer of 1024 bytes. -/
def responseLoop : List Poll → Outcome
  | [] => .polling
  | poll :: later =>
      let continued := if poll.timed_out then .notFound else responseLoop later
      match poll.received with
      | none => continued
      | some (sender, datagram) =>
          let data := datagram.take 1024
          if 0 < data.length ∧ c_response_phrase <+: data then
            match parsePort data with
            | .ok port => .found ⟨sender, port⟩
            | .error error => .threw error
          else continued

/-- One datagram to all, then the loop. -/
def discoverServerByBroadcast (polls : List Poll) : Outcome := responseLoop polls

/-- A datagram to each host, then the loop; `fuel` is for the probes. -/
def discoverServerByUnicastBruteforce (fuel : Nat) (ifaddr ifaddr' : Option (List Ifaddrs))
    (polls : List Poll) : Outcome :=
  match (getLocalIPv4 ifaddr []).1 with
  | none => .notFound
  | some local_ip =>
      match getNetmaskForIP ifaddr' local_ip with
      | none => .notFound
      | some netmask =>
          match probes local_ip (getSubnetRange local_ip netmask) fuel with
          | none => .polling
          | some _ => responseLoop polls

/-- There are an address and a netmask, and the probes have been sent. -/
def ReachesLoop (fuel : Nat) (ifaddr ifaddr' : Option (List Ifaddrs)) : Prop :=
  ∃ local_ip netmask probed, (getLocalIPv4 ifaddr []).1 = some local_ip ∧
    getNetmaskForIP ifaddr' local_ip = some netmask ∧
      probes local_ip (getSubnetRange local_ip netmask) fuel = some probed

theorem discoverServerByUnicastBruteforce_eq {fuel : Nat} {ifaddr ifaddr' : Option (List Ifaddrs)}
    (reaches : ReachesLoop fuel ifaddr ifaddr') :
    discoverServerByUnicastBruteforce fuel ifaddr ifaddr' = responseLoop := by
  obtain ⟨local_ip, netmask, probed, address, mask, scanned⟩ := reaches
  funext polls
  simp only [discoverServerByUnicastBruteforce, address, mask, scanned]

/-! ## Replies -/

/-- The reply of a server on a TCP port. -/
def IsReply (datagram : List UInt8) (port : UInt16) : Prop :=
  (⟨port⟩ : DiscoveryServer).handleRequest c_discovery_phrase = some datagram

theorem isReply_iff (datagram : List UInt8) (port : UInt16) :
    IsReply datagram port ↔
      datagram = c_response_phrase ++ 47 :: to_string port.toNat := by
  have response : (⟨port⟩ : DiscoveryServer).handleRequest c_discovery_phrase =
      some (c_response_phrase ++ 47 :: to_string port.toNat) := by
    rw [DiscoveryServer.handleRequest, if_pos (by decide), DiscoveryServer.response,
      List.append_assoc]
    rfl
  unfold IsReply
  rw [response, Option.some.injEq, eq_comm]

theorem parsePort_reply (port : UInt16) :
    parsePort (c_response_phrase ++ 47 :: to_string port.toNat) = .ok port := by
  have no_slash : c_response_phrase.findIdx? (· = 47) = none := by decide
  have slash : (c_response_phrase ++ 47 :: to_string port.toNat).findIdx? (· = 47) =
      some c_response_phrase.length := by
    rw [List.findIdx?_append, no_slash, List.findIdx?_cons]
    simp
  have behind : (c_response_phrase ++ 47 :: to_string port.toNat).drop
      (c_response_phrase.length + 1) = to_string port.toNat := by
    rw [← List.drop_drop, List.drop_left]
    rfl
  have small : port.toNat < 2 ^ 31 := Nat.lt_trans port.toNat_lt (by decide)
  have narrowed : UInt16.ofInt (port.toNat : Int) = port := by
    have in_range : (port.toNat : Int) % 2 ^ 16 = port.toNat := by
      have bound := port.toNat_lt
      omega
    rw [UInt16.ofInt, in_range, Int.toNat_natCast, UInt16.ofNat_toNat]
  unfold parsePort
  rw [slash]
  simp only [behind, stoi_to_string small, Except.map, narrowed]

theorem length_reply_le (port : UInt16) :
    (c_response_phrase ++ 47 :: to_string port.toNat).length ≤ 1024 := by
  have digits : (to_string port.toNat).length ≤ 5 := by
    unfold to_string
    rw [List.length_map, Nat.length_toDigits_le_iff (by decide) (by decide)]
    exact Nat.lt_trans port.toNat_lt (by decide)
  have phrase : c_response_phrase.length = 18 := by decide
  rw [List.length_append, List.length_cons, phrase]
  omega

/-! ## One turn of the loop -/

/-- Only the start of a datagram decides whether the loop goes on. -/
theorem responseLoop_of_other {datagram : List UInt8} (other : ¬ c_response_phrase <+: datagram)
    (sender : AddressV4) (timed_out : Bool) (later : List Poll) :
    responseLoop (⟨some (sender, datagram), timed_out⟩ :: later) =
      responseLoop (⟨none, timed_out⟩ :: later) := by
  have other' : ¬ (0 < (datagram.take 1024).length ∧ c_response_phrase <+: datagram.take 1024) := by
    intro accepted
    obtain ⟨-, front⟩ := accepted
    exact other (List.prefix_take_iff.mp front).1
  simp only [responseLoop, if_neg other']

theorem responseLoop_of_phrase {datagram : List UInt8} (phrase : c_response_phrase <+: datagram)
    (sender : AddressV4) (timed_out : Bool) (later : List Poll) :
    responseLoop (⟨some (sender, datagram), timed_out⟩ :: later) =
      match parsePort (datagram.take 1024) with
      | .ok port => .found ⟨sender, port⟩
      | .error error => .threw error := by
  have front : c_response_phrase <+: datagram.take 1024 :=
    List.prefix_take_iff.mpr ⟨phrase, by decide⟩
  have some_byte : 0 < (datagram.take 1024).length :=
    Nat.lt_of_lt_of_le (by decide) front.length_le
  simp only [responseLoop, if_pos (And.intro some_byte front)]

/-- A reply ends the loop with its port; after any other datagram the loop is where it would be
without it. -/
def AcceptsExactlyReplies (discover : List Poll → Outcome) (datagram : List UInt8) : Prop :=
  ∀ sender timed_out later,
    (∀ port, IsReply datagram port →
      discover (⟨some (sender, datagram), timed_out⟩ :: later) = .found ⟨sender, port⟩) ∧
    ((∀ port, ¬ IsReply datagram port) →
      discover (⟨some (sender, datagram), timed_out⟩ :: later) =
        discover (⟨none, timed_out⟩ :: later))

theorem responseLoop_of_reply {datagram : List UInt8} {port : UInt16}
    (reply : IsReply datagram port) (sender : AddressV4) (timed_out : Bool) (later : List Poll) :
    responseLoop (⟨some (sender, datagram), timed_out⟩ :: later) = .found ⟨sender, port⟩ := by
  rw [isReply_iff] at reply
  subst reply
  rw [responseLoop_of_phrase (List.prefix_append _ _),
    List.take_of_length_le (length_reply_le port), parsePort_reply]

theorem responseLoop_accepts_iff (datagram : List UInt8) :
    AcceptsExactlyReplies responseLoop datagram ↔
      ¬ c_response_phrase <+: datagram ∨ ∃ port, IsReply datagram port := by
  constructor
  · intro accepts
    by_contra neither
    obtain ⟨phrase, no_reply⟩ := not_or.mp neither
    have skipped := (accepts 0 true []).2 (not_exists.mp no_reply)
    rw [responseLoop_of_phrase (not_not.mp phrase)] at skipped
    change _ = Outcome.notFound at skipped
    split at skipped <;> cases skipped
  · intro either sender timed_out later
    rcases either with other | ⟨port, reply⟩
    · refine ⟨fun port reply => ?_, fun _ => responseLoop_of_other other sender timed_out later⟩
      rw [isReply_iff] at reply
      exact absurd ⟨_, reply.symm⟩ other
    · refine ⟨fun port' reply' => ?_, fun no_reply => absurd reply (no_reply port)⟩
      exact responseLoop_of_reply reply' sender timed_out later

/-- **The discovery client accepts exactly the server's replies**, by either way of discovery, as
far as datagrams go that do not start with the response phrase or are replies. -/
theorem accepts_exactly_replies_iff (datagram : List UInt8) :
    (AcceptsExactlyReplies discoverServerByBroadcast datagram ↔
      ¬ c_response_phrase <+: datagram ∨ ∃ port, IsReply datagram port) ∧
    ∀ fuel ifaddr ifaddr', ReachesLoop fuel ifaddr ifaddr' →
      (AcceptsExactlyReplies (discoverServerByUnicastBruteforce fuel ifaddr ifaddr') datagram ↔
        ¬ c_response_phrase <+: datagram ∨ ∃ port, IsReply datagram port) := by
  refine ⟨responseLoop_accepts_iff datagram, fun fuel ifaddr ifaddr' reaches => ?_⟩
  rw [discoverServerByUnicastBruteforce_eq reaches]
  exact responseLoop_accepts_iff datagram

/-- An interface with a mask of 30 bits. -/
def smallSubnet : Option (List Ifaddrs) :=
  some [⟨some [48], 1, some ⟨AF_INET, host⟩, some ⟨AF_INET, #v[255, 255, 255, 252]⟩⟩]

/-- Something else than an answer does not end the scan of that subnet. -/
theorem accepts_other_datagram :
    AcceptsExactlyReplies (discoverServerByUnicastBruteforce 3 smallSubnet smallSubnet)
      (ascii "hello") := by
  have reaches : ReachesLoop 3 smallSubnet smallSubnet :=
    ⟨0xC0A80005, 0xFFFFFFFC, [0xC0A80006], by decide, by decide, by decide⟩
  exact ((accepts_exactly_replies_iff _).2 _ _ _ reaches).mpr (.inl (by decide))

/-- The phrase alone gives a server on port 0, a number that is too large one on another port, and
no number at all an exception. -/
theorem accepts_more_than_replies :
    ¬ AcceptsExactlyReplies discoverServerByBroadcast (ascii "pingpong_server_v1") ∧
      discoverServerByBroadcast [⟨some (1, ascii "pingpong_server_v1"), false⟩] =
        .found ⟨1, 0⟩ ∧
      discoverServerByBroadcast [⟨some (1, ascii "pingpong_server_v1/65616"), false⟩] =
        .found ⟨1, 80⟩ ∧
      discoverServerByBroadcast [⟨some (1, ascii "pingpong_server_v1/x"), false⟩] =
        .threw .invalid_argument := by
  refine ⟨?_, by decide, by decide, by decide⟩
  intro accepts
  have no_reply : ∀ port, ¬ IsReply c_response_phrase port := by
    intro port reply
    rw [isReply_iff, List.self_eq_append_right] at reply
    cases reply
  exact absurd ((accepts 1 true []).2 no_reply) (by decide)

end DiscoveryClient

end PingPong
