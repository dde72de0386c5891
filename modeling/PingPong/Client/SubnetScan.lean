import Mathlib.Data.Nat.Basic
import Mathlib.Data.Set.Card
import Mathlib.Order.Interval.Finset.Nat
import PingPong.Client.UnixIpUtils
import PingPong.Lib.Blocks

/-!
# The subnet scan

The first half of `discoverServerByUnicastBruteforce`: a probe is sent to every host of the subnet
but the own address.  The loop runs over 32-bit addresses up to and including the last host, so it
would not end if that were the largest address.

A contiguous netmask cuts the addresses into blocks; a subnet is one of them, with the network
address at its start and the broadcast address at its end.
-/

namespace PingPong.Client

open Blocks

/-! ## The probe loop -/

/-- The addresses probed from `addr_int` on; no result where the fuel is too little. -/
def probeLoop (local_ip last_host_int : AddressV4) : Nat → AddressV4 → Option (List AddressV4)
  | 0, _ => none
  | fuel + 1, addr_int =>
      if addr_int ≤ last_host_int then
        if addr_int = local_ip then probeLoop local_ip last_host_int fuel (addr_int + 1)
        else
          (probeLoop local_ip last_host_int fuel (addr_int + 1)).map (addr_int :: ·)
      else some []

def probes (local_ip : AddressV4) (subrange : SubnetRange) (fuel : Nat) : Option (List AddressV4) :=
  probeLoop local_ip subrange.last_host fuel subrange.first_host

/-- The addresses of an interval without one of them. -/
def others (local_ip : AddressV4) (start count : Nat) : List AddressV4 :=
  ((List.range' start count).map UInt32.ofNat).filter (· ≠ local_ip)

theorem others_succ (local_ip : AddressV4) (start count : Nat) :
    others local_ip start (count + 1) =
      if UInt32.ofNat start = local_ip then others local_ip (start + 1) count
      else UInt32.ofNat start :: others local_ip (start + 1) count := by
  unfold others
  rw [List.range'_succ, List.map_cons, List.filter_cons]
  split <;> split <;> simp_all

theorem mem_others {local_ip a : AddressV4} {start count : Nat} (small : start + count ≤ 2 ^ 32) :
    a ∈ others local_ip start count ↔
      start ≤ a.toNat ∧ a.toNat < start + count ∧ a ≠ local_ip := by
  unfold others
  rw [List.mem_filter, List.mem_map, decide_eq_true_iff, ← and_assoc]
  refine and_congr_left fun _ => ?_
  constructor
  · intro probed
    obtain ⟨n, member, rfl⟩ := probed
    have bounds := List.mem_range'_1.mp member
    have same : (UInt32.ofNat n).toNat = n := UInt32.toNat_ofNat_of_lt' (by
      change n < 2 ^ 32
      omega)
    rw [same]
    exact bounds
  · intro bounds
    exact ⟨a.toNat, List.mem_range'_1.mpr bounds, UInt32.ofNat_toNat⟩

theorem nodup_others {local_ip : AddressV4} {start count : Nat} (small : start + count ≤ 2 ^ 32) :
    (others local_ip start count).Nodup := by
  apply List.Nodup.filter
  refine List.Nodup.map_on ?_ List.nodup_range'
  intro n member n' member' same
  have bounds := List.mem_range'_1.mp member
  have bounds' := List.mem_range'_1.mp member'
  have value := congrArg UInt32.toNat same
  rw [UInt32.toNat_ofNat', UInt32.toNat_ofNat', Nat.mod_eq_of_lt (by omega),
    Nat.mod_eq_of_lt (by omega)] at value
  exact value

/-- The loop ends unless its last address is the largest one. -/
theorem probeLoop_ends {local_ip last_host_int : AddressV4}
    (bounded : last_host_int.toNat + 1 < 2 ^ 32) {fuel count : Nat} {addr_int : AddressV4}
    (enough : count < fuel) (left : addr_int.toNat + count = last_host_int.toNat + 1) :
    probeLoop local_ip last_host_int fuel addr_int =
      some (others local_ip addr_int.toNat count) := by
  induction fuel generalizing count addr_int with
  | zero => exact absurd enough (Nat.not_lt_zero _)
  | succ fuel ih =>
      cases count with
      | zero =>
          have past : ¬ addr_int ≤ last_host_int := by
            rw [UInt32.le_iff_toNat_le]
            omega
          exact if_neg past
      | succ count =>
          have inside : addr_int ≤ last_host_int := by
            rw [UInt32.le_iff_toNat_le]
            omega
          have next : (addr_int + 1).toNat = addr_int.toNat + 1 := by
            rw [UInt32.toNat_add, UInt32.toNat_one]
            omega
          have later := ih (Nat.lt_of_succ_lt_succ enough) (by
            rw [next]
            omega : (addr_int + 1).toNat + count = last_host_int.toNat + 1)
          rw [probeLoop, if_pos inside, later, next, others_succ, UInt32.ofNat_toNat]
          split <;> rfl

/-! ## Netmasks -/

/-- The contiguous netmask of a prefix length, which is at most 32. -/
def netmask (prefixLength : Nat) : AddressV4 := UInt32.ofNat (2 ^ 32 - 2 ^ (32 - prefixLength))

theorem toNat_netmask (k : Nat) : (netmask k).toNat = 2 ^ 32 - 2 ^ (32 - k) := by
  have positive : 0 < 2 ^ (32 - k) := Nat.two_pow_pos _
  rw [netmask, UInt32.toNat_ofNat', Nat.mod_eq_of_lt]
  omega

theorem toNat_and_netmask (a : AddressV4) (k : Nat) :
    (a &&& netmask k).toNat = first (32 - k) a.toNat := by
  rw [UInt32.toNat_and, toNat_netmask]
  exact and_high a.toNat_lt (Nat.sub_le 32 k)

theorem toNat_not_netmask (k : Nat) : (~~~ netmask k).toNat = 2 ^ (32 - k) - 1 := by
  have fits : 2 ^ (32 - k) ≤ 2 ^ 32 := Nat.pow_le_pow_right Nat.two_pos (Nat.sub_le 32 k)
  rw [UInt32.toNat_not, toNat_netmask]
  change 2 ^ 32 - 1 - _ = _
  omega

/-- An address is in the subnet when it is between the ends of the block. -/
theorem in_subnet_iff (a ip : AddressV4) (k : Nat) :
    a &&& netmask k = ip &&& netmask k ↔
      first (32 - k) ip.toNat ≤ a.toNat ∧ a.toNat ≤ last (32 - k) ip.toNat := by
  rw [← UInt32.toNat_inj, toNat_and_netmask, toNat_and_netmask]
  exact first_eq_first_iff _ _ _

/-! ## The range of a subnet -/

section Range

variable (ip : AddressV4) (k : Nat)

theorem toNat_network :
    (getSubnetRange ip (netmask k)).network.toNat = first (32 - k) ip.toNat := by
  rw [getSubnetRange_network]
  exact toNat_and_netmask ip k

theorem toNat_or_netmask :
    (ip &&& netmask k ||| ~~~ netmask k).toNat = last (32 - k) ip.toNat := by
  rw [UInt32.toNat_or, toNat_and_netmask, toNat_not_netmask]
  exact first_or_low _ _

theorem toNat_broadcast :
    (getSubnetRange ip (netmask k)).broadcast.toNat = last (32 - k) ip.toNat := by
  rw [getSubnetRange_broadcast]
  exact toNat_or_netmask ip k

theorem toNat_width :
    ((ip &&& netmask k ||| ~~~ netmask k) - (ip &&& netmask k)).toNat = 2 ^ (32 - k) - 1 := by
  have ends : first (32 - k) ip.toNat ≤ last (32 - k) ip.toNat :=
    Nat.le_trans (first_le _ _) (le_last _ _)
  rw [UInt32.toNat_sub_of_le, toNat_or_netmask, toNat_and_netmask, last_eq]
  · omega
  · rw [UInt32.le_iff_toNat_le, toNat_or_netmask, toNat_and_netmask]
    exact ends

/-- What a scan goes through: an interval of the subnet that ends before the largest address. -/
structure Scanned (range : SubnetRange) (start count : Nat) : Prop where
  first_host : range.first_host.toNat = start
  last_host : range.last_host.toNat + 1 = start + count
  bounded : range.last_host.toNat + 1 < 2 ^ 32
  inside : first (32 - k) ip.toNat ≤ start ∧ start + count ≤ last (32 - k) ip.toNat + 1

/-- From a prefix length of 30 down the hosts are all addresses between the ends. -/
theorem scanned_of_wide (wide : k ≤ 30) :
    Scanned ip k (getSubnetRange ip (netmask k)) (first (32 - k) ip.toNat + 1)
        (2 ^ (32 - k) - 2) ∧
      (getSubnetRange ip (netmask k)).host_count.toNat = 2 ^ (32 - k) - 2 := by
  have size : 2 ^ 2 ≤ 2 ^ (32 - k) := Nat.pow_le_pow_right Nat.two_pos (by omega)
  have top : last (32 - k) ip.toNat < 2 ^ 32 := last_lt ip.toNat_lt (Nat.sub_le 32 k)
  have ends : last (32 - k) ip.toNat = first (32 - k) ip.toNat + (2 ^ (32 - k) - 1) := last_eq _ _
  have width := toNat_width ip k
  have hosts : 2 ≤ (ip &&& netmask k ||| ~~~ netmask k) - (ip &&& netmask k) := by
    rw [UInt32.le_iff_toNat_le, width]
    change 2 ≤ _
    omega
  rw [getSubnetRange_of_wide hosts]
  have first_host : ((ip &&& netmask k) + 1).toNat = first (32 - k) ip.toNat + 1 := by
    rw [UInt32.toNat_add, toNat_and_netmask, UInt32.toNat_one]
    omega
  have one_le : (1 : UInt32) ≤ (ip &&& netmask k ||| ~~~ netmask k) := by
    rw [UInt32.le_iff_toNat_le, toNat_or_netmask]
    change 1 ≤ _
    omega
  have last_host : ((ip &&& netmask k ||| ~~~ netmask k) - 1).toNat =
      last (32 - k) ip.toNat - 1 := by
    rw [UInt32.toNat_sub_of_le _ _ one_le, toNat_or_netmask]
    rfl
  refine ⟨⟨first_host, ?_, ?_, ?_⟩, ?_⟩
  · change (_ - 1 : UInt32).toNat + 1 = _
    rw [last_host]
    omega
  · change (_ - 1 : UInt32).toNat + 1 < _
    rw [last_host]
    omega
  · omega
  · have one_le_width : (1 : UInt32) ≤
        (ip &&& netmask k ||| ~~~ netmask k) - (ip &&& netmask k) := by
      rw [UInt32.le_iff_toNat_le, width]
      change 1 ≤ _
      omega
    change (_ - 1 : UInt32).toNat = _
    rw [UInt32.toNat_sub_of_le _ _ one_le_width, width]
    change 2 ^ (32 - k) - 1 - 1 = _
    omega

/-- The subnets of one and two addresses are scanned at their first address only. -/
theorem scanned_of_narrow (narrow : 30 < k) (ip_lt : ip ≠ 0xFFFFFFFF) :
    Scanned ip k (getSubnetRange ip (netmask k)) (first (32 - k) ip.toNat) 1 := by
  have size : 2 ^ (32 - k) ≤ 2 ^ 1 := Nat.pow_le_pow_right Nat.two_pos (by omega)
  have ip_le : ip.toNat ≤ 2 ^ 32 - 1 := Nat.le_sub_one_of_lt ip.toNat_lt
  have ip_ne : ip.toNat ≠ 2 ^ 32 - 1 := by
    intro top
    apply ip_lt
    apply UInt32.toNat_inj.mp
    exact top
  have start : first (32 - k) ip.toNat ≤ ip.toNat := first_le _ _
  have no_hosts : ¬ 2 ≤ (ip &&& netmask k ||| ~~~ netmask k) - (ip &&& netmask k) := by
    rw [UInt32.le_iff_toNat_le, toNat_width]
    change ¬ 2 ≤ _
    omega
  rw [getSubnetRange_of_narrow no_hosts]
  have network := toNat_and_netmask ip k
  have ends : first (32 - k) ip.toNat ≤ last (32 - k) ip.toNat :=
    Nat.le_trans (first_le _ _) (le_last _ _)
  refine ⟨network, ?_, ?_, ?_⟩
  · change (ip &&& netmask k).toNat + 1 = _
    rw [network]
  · change (ip &&& netmask k).toNat + 1 < _
    rw [network]
    omega
  · omega

/-- The addresses of a subnet. -/
def subnet : Set AddressV4 := { a | a &&& netmask k = ip &&& netmask k }

theorem mem_subnet_iff (a : AddressV4) :
    a ∈ subnet ip k ↔ first (32 - k) ip.toNat ≤ a.toNat ∧ a.toNat ≤ last (32 - k) ip.toNat :=
  in_subnet_iff a ip k

/-- The range names the least and the greatest address of the subnet. -/
structure Ends (range : SubnetRange) : Prop where
  network_mem : range.network ∈ subnet ip k
  broadcast_mem : range.broadcast ∈ subnet ip k
  between : ∀ a ∈ subnet ip k, range.network ≤ a ∧ a ≤ range.broadcast

theorem getSubnetRange_ends : Ends ip k (getSubnetRange ip (netmask k)) := by
  have ends : first (32 - k) ip.toNat ≤ last (32 - k) ip.toNat :=
    Nat.le_trans (first_le _ _) (le_last _ _)
  constructor
  case network_mem =>
    rw [mem_subnet_iff, toNat_network]
    exact ⟨Nat.le_refl _, ends⟩
  case broadcast_mem =>
    rw [mem_subnet_iff, toNat_broadcast]
    exact ⟨ends, Nat.le_refl _⟩
  case between =>
    intro a member
    rw [UInt32.le_iff_toNat_le, UInt32.le_iff_toNat_le, toNat_network, toNat_broadcast]
    exact (mem_subnet_iff ip k a).mp member

/-- The members of a subnet without its ends. -/
def hosts : Set AddressV4 :=
  { a | a ∈ subnet ip k ∧ a ≠ (getSubnetRange ip (netmask k)).network ∧
    a ≠ (getSubnetRange ip (netmask k)).broadcast }

theorem mem_hosts_iff (a : AddressV4) :
    a ∈ hosts ip k ↔ first (32 - k) ip.toNat < a.toNat ∧ a.toNat < last (32 - k) ip.toNat := by
  have network : a = (getSubnetRange ip (netmask k)).network ↔
      a.toNat = first (32 - k) ip.toNat := by
    rw [← UInt32.toNat_inj, toNat_network]
  have broadcast : a = (getSubnetRange ip (netmask k)).broadcast ↔
      a.toNat = last (32 - k) ip.toNat := by
    rw [← UInt32.toNat_inj, toNat_broadcast]
  change a ∈ subnet ip k ∧ ¬ _ ∧ ¬ _ ↔ _
  rw [mem_subnet_iff, network, broadcast]
  omega

theorem ncard_hosts : (hosts ip k).ncard = 2 ^ (32 - k) - 2 := by
  have top : last (32 - k) ip.toNat < 2 ^ 32 := last_lt ip.toNat_lt (Nat.sub_le 32 k)
  have image : UInt32.toNat '' hosts ip k =
      (Finset.Ioo (first (32 - k) ip.toNat) (last (32 - k) ip.toNat) : Set Nat) := by
    ext n
    rw [Finset.coe_Ioo]
    constructor
    · intro counted
      obtain ⟨a, member, rfl⟩ := counted
      exact (mem_hosts_iff ip k a).mp member
    · intro inside
      have value : (UInt32.ofNat n).toNat = n :=
        UInt32.toNat_ofNat_of_lt' (Nat.lt_trans inside.2 top)
      refine ⟨UInt32.ofNat n, (mem_hosts_iff ip k _).mpr ?_, value⟩
      rw [value]
      exact inside
  have injective : Function.Injective UInt32.toNat := fun _ _ same => UInt32.toNat_inj.mp same
  rw [← Set.ncard_image_of_injective _ injective, image, Set.ncard_coe_finset, Nat.card_Ioo,
    last_eq]
  omega

end Range

/-! ## The scan -/

/-- What the probe loop has to do with a subnet: the addresses it probes are other members, each
probed once. -/
structure ProbesInside (ip : AddressV4) (k : Nat) (probed : List AddressV4) : Prop where
  ends : ∃ enough, ∀ fuel, enough ≤ fuel →
    probes ip (getSubnetRange ip (netmask k)) fuel = some probed
  members : ∀ a ∈ probed, a ∈ subnet ip k ∧ a ≠ ip
  once : probed.Nodup

theorem Scanned.probes {ip : AddressV4} {k start count : Nat}
    (scanned : Scanned ip k (getSubnetRange ip (netmask k)) start count) :
    ProbesInside ip k (others ip start count) := by
  obtain ⟨first_host, last_host, bounded, lower, upper⟩ := scanned
  have small : start + count ≤ 2 ^ 32 := by omega
  constructor
  case ends =>
    refine ⟨count + 1, fun fuel enough => ?_⟩
    unfold Client.probes
    rw [probeLoop_ends bounded enough (by rw [first_host, last_host]), first_host]
  case members =>
    intro a member
    obtain ⟨after, before, other⟩ := (mem_others small).mp member
    exact ⟨(mem_subnet_iff ip k a).mpr (by omega), other⟩
  case once => exact nodup_others small

/-- **The subnet scan covers the subnet and stops.** -/
theorem subnet_scan (ip : AddressV4) (k : Nat) (limited : ip ≠ 0xFFFFFFFF) :
    Ends ip k (getSubnetRange ip (netmask k)) ∧
      ∃ probed, ProbesInside ip k probed ∧
        (k ≤ 30 →
          (∀ a, a ∈ probed ↔ a ∈ hosts ip k ∧ a ≠ ip) ∧
            (getSubnetRange ip (netmask k)).host_count.toNat = (hosts ip k).ncard) := by
  refine ⟨getSubnetRange_ends ip k, ?_⟩
  rcases Nat.lt_or_ge 30 k with narrow | wide
  · exact ⟨_, (scanned_of_narrow ip k narrow limited).probes,
      fun wide => absurd wide (Nat.not_le_of_lt narrow)⟩
  · obtain ⟨scanned, count⟩ := scanned_of_wide ip k wide
    refine ⟨_, scanned.probes, fun _ => ⟨fun a => ?_, ?_⟩⟩
    · have top : last (32 - k) ip.toNat < 2 ^ 32 := last_lt ip.toNat_lt (Nat.sub_le 32 k)
      have ends : last (32 - k) ip.toNat = first (32 - k) ip.toNat + (2 ^ (32 - k) - 1) :=
        last_eq _ _
      have size : 2 ^ 2 ≤ 2 ^ (32 - k) := Nat.pow_le_pow_right Nat.two_pos (by omega)
      rw [mem_others (by omega), mem_hosts_iff, ← and_assoc]
      refine and_congr_left fun _ => ?_
      omega
    · rw [count, ncard_hosts]

/-- A private address with a mask of 24 bits: the 254 hosts, of which the own address is one. -/
theorem subnet_scan_private :
    ∃ probed, ProbesInside 0xC0A80117 24 probed ∧
      (∀ a, a ∈ probed ↔ a ∈ hosts 0xC0A80117 24 ∧ a ≠ 0xC0A80117) ∧
      (hosts 0xC0A80117 24).ncard = 254 := by
  obtain ⟨-, probed, inside, whole⟩ := subnet_scan 0xC0A80117 24 (by decide)
  obtain ⟨covers, count⟩ := whole (by decide)
  exact ⟨probed, inside, covers, count.symm.trans (by decide)⟩

end PingPong.Client
