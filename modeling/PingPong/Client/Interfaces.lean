import Mathlib.Data.List.Find
import Mathlib.Data.Option.Basic
import PingPong.Client.UnixIpUtils

/-!
# Whose address and netmask are scanned

`getLocalIPv4` looks at every flag of an entry before it takes its address; `getNetmaskForIP` goes
through the list a second time and takes the mask of the first IPv4 entry with that address, whether
it is up or not.  The two answers belong together exactly when the entry the mask was taken from
agrees with an eligible one.
-/

namespace PingPong.Client

/-! ## Entries -/

namespace Ifaddrs

/-- The address in host byte order, if there is one. -/
def address (ifa : Ifaddrs) : Option AddressV4 := ifa.ifa_addr.map fun sa => ntohl sa.s_addr

/-- The address of an entry that has one. -/
def host (ifa : Ifaddrs) : AddressV4 := ifa.address.getD 0

def netmask (ifa : Ifaddrs) : Option AddressV4 := ifa.ifa_netmask.map fun sa => ntohl sa.s_addr

def name (ifa : Ifaddrs) : List UInt8 := ifa.ifa_name.getD []

def isIPv4 (ifa : Ifaddrs) : Bool := ifa.ifa_addr.any (·.sa_family = AF_INET)

/-- IPv4, up, not loopback and not link-local. -/
def eligible (ifa : Ifaddrs) : Bool :=
  ifa.isIPv4 && ifa.ifa_flags &&& IFF_UP ≠ 0 && ifa.ifa_flags &&& IFF_LOOPBACK = 0 &&
    ifa.address.any (!isLinkLocalIPv4 ·)

def isPrivate (ifa : Ifaddrs) : Bool := ifa.address.any isPrivateIPv4

end Ifaddrs

open Ifaddrs

/-- The first private one of the eligible entries, or else the first of them. -/
def preferred (entries : List Ifaddrs) : Option Ifaddrs :=
  (entries.find? fun ifa => ifa.eligible && ifa.isPrivate) <|> entries.find? eligible

/-! ## The first pass -/

/-- What one turn of the loop does, by what the entry is. -/
theorem Candidates.next_eq (s : Candidates) (ifa : Ifaddrs) :
    s.next ifa =
      if ifa.eligible then
        if ifa.isPrivate then
          if s.best_private.isNone then
            { s with best_private := ifa.address, best_private_ifc := ifa.name }
          else s
        else if s.best_nonloopback.isNone then
          { s with best_nonloopback := ifa.address, best_nonloopback_if := ifa.name }
        else s
      else s := by
  obtain ⟨ifa_name, ifa_flags, ifa_addr, ifa_netmask⟩ := ifa
  cases ifa_addr with
  | none => rfl
  | some sa =>
      by_cases family : sa.sa_family = AF_INET
      case neg => simp [next, eligible, isIPv4, family]
      by_cases up : ifa_flags &&& IFF_UP = 0
      case pos => simp [next, eligible, up]
      by_cases loopback : ifa_flags &&& IFF_LOOPBACK = 0
      case neg => simp [next, eligible, loopback]
      by_cases link_local : isLinkLocalIPv4 (ntohl sa.s_addr)
      case pos => simp [next, eligible, address, link_local]
      simp [next, eligible, isIPv4, isPrivate, address, name, family, up, loopback, link_local]

theorem address_of_eligible {ifa : Ifaddrs} (h : ifa.eligible) : ifa.address = some ifa.host := by
  cases addr : ifa.address with
  | none => simp [eligible, addr] at h
  | some ip => rw [host, addr, Option.getD_some]

/-- What the loop knows when these are the private and the other entry it met first. -/
def Candidates.of (privateEntry other : Option Ifaddrs) : Candidates where
  best_private := privateEntry.map host
  best_nonloopback := other.map host
  best_private_ifc := (privateEntry.map name).getD []
  best_nonloopback_if := (other.map name).getD []

theorem Candidates.next_of (privateEntry other : Option Ifaddrs) (ifa : Ifaddrs) :
    (of privateEntry other).next ifa =
      of (privateEntry <|> if ifa.eligible && ifa.isPrivate then some ifa else none)
        (other <|> if ifa.eligible && !ifa.isPrivate then some ifa else none) := by
  rw [next_eq]
  cases chosen : ifa.eligible with
  | false => simp
  | true =>
      have addr := address_of_eligible chosen
      cases ifa.isPrivate with
      | true => cases privateEntry <;> simp [of, addr]
      | false => cases other <;> simp [of, addr]

theorem Candidates.foldl_next (privateEntry other : Option Ifaddrs) (entries : List Ifaddrs) :
    entries.foldl next (of privateEntry other) =
      of (privateEntry <|> entries.find? fun ifa => ifa.eligible && ifa.isPrivate)
        (other <|> entries.find? fun ifa => ifa.eligible && !ifa.isPrivate) := by
  induction entries generalizing privateEntry other with
  | nil => simp
  | cons ifa later ih =>
      rw [List.foldl_cons, next_of, ih, List.find?_cons, List.find?_cons]
      cases ifa.eligible <;> cases ifa.isPrivate <;>
        cases privateEntry <;> cases other <;> rfl

/-- The other entry only counts where no eligible entry is private. -/
theorem preferred_eq (entries : List Ifaddrs) :
    preferred entries =
      ((entries.find? fun ifa => ifa.eligible && ifa.isPrivate) <|>
        entries.find? fun ifa => ifa.eligible && !ifa.isPrivate) := by
  unfold preferred
  cases private_entry : entries.find? fun ifa => ifa.eligible && ifa.isPrivate with
  | some ifa => rfl
  | none =>
      have none_private := List.find?_eq_none.mp private_entry
      have same : ∀ ifa ∈ entries, ifa.eligible = (ifa.eligible && !ifa.isPrivate) := by
        intro ifa member
        have not_both := none_private ifa member
        cases chosen : ifa.eligible with
        | false => rfl
        | true =>
            rw [chosen, Bool.true_and, Bool.not_eq_true] at not_both
            rw [not_both]
            rfl
      exact List.find?_congr same

/-- The first pass answers with the address and the name of the preferred entry. -/
theorem getLocalIPv4_eq (entries : List Ifaddrs) (out_ifc_name : List UInt8) :
    getLocalIPv4 (some entries) out_ifc_name =
      match preferred entries with
      | some ifa => (some ifa.host, ifa.name)
      | none => (none, out_ifc_name) := by
  have start : ({} : Candidates) = Candidates.of none none := rfl
  rw [getLocalIPv4, start, Candidates.foldl_next, preferred_eq]
  cases entries.find? fun ifa => ifa.eligible && ifa.isPrivate with
  | some ifa => rfl
  | none =>
      cases entries.find? fun ifa => ifa.eligible && !ifa.isPrivate with
      | some ifa => rfl
      | none => rfl

theorem preferred_mem {entries : List Ifaddrs} {ifa : Ifaddrs}
    (h : preferred entries = some ifa) : ifa ∈ entries ∧ ifa.eligible := by
  unfold preferred at h
  cases first : entries.find? fun ifa => ifa.eligible && ifa.isPrivate with
  | some found =>
      rw [first] at h
      cases h
      have both := List.find?_some first
      exact ⟨List.mem_of_find?_eq_some first, (Bool.and_eq_true_iff.mp both).1⟩
  | none =>
      rw [first] at h
      exact ⟨List.mem_of_find?_eq_some h, List.find?_some h⟩

/-! ## The second pass -/

/-- An IPv4 entry with a mask whose address is `ip`; its flags are not looked at. -/
def donates (ip : AddressV4) (ifa : Ifaddrs) : Bool :=
  ifa.isIPv4 && ifa.netmask.isSome && ifa.address = some ip

theorem findNetmask_eq (ip : AddressV4) (entries : List Ifaddrs) :
    findNetmask ip entries = (entries.find? (donates ip)).bind netmask := by
  induction entries with
  | nil => rfl
  | cons ifa later ih =>
      obtain ⟨ifa_name, ifa_flags, ifa_addr, ifa_netmask⟩ := ifa
      rw [List.find?_cons, findNetmask]
      cases ifa_addr with
      | none => simpa [donates, isIPv4] using ih
      | some addr =>
          cases ifa_netmask with
          | none => simpa [donates, netmask] using ih
          | some mask =>
              by_cases family : addr.sa_family = AF_INET
              case neg => simpa [donates, isIPv4, family] using ih
              by_cases same : ntohl addr.s_addr = ip
              case neg => simpa [donates, isIPv4, netmask, address, family, same] using ih
              simp [donates, isIPv4, netmask, address, family, same]

/-- The entry whose address and name the first pass answers with. -/
theorem preferred_of_local {entries : List Ifaddrs} {out_ifc_name ifc : List UInt8}
    {ip : AddressV4} (local_ip : getLocalIPv4 (some entries) out_ifc_name = (some ip, ifc)) :
    ∃ chosen, preferred entries = some chosen ∧ chosen.host = ip ∧ chosen.name = ifc := by
  rw [getLocalIPv4_eq] at local_ip
  cases first : preferred entries with
  | some chosen =>
      rw [first] at local_ip
      cases local_ip
      exact ⟨chosen, rfl, rfl, rfl⟩
  | none =>
      rw [first] at local_ip
      cases local_ip

/-- The entry whose mask the second pass answers with. -/
theorem donor_of_netmask {entries : List Ifaddrs} {ip mask : AddressV4}
    (netmask : getNetmaskForIP (some entries) ip = some mask) :
    ∃ donor, entries.find? (donates ip) = some donor ∧ donor.netmask = some mask := by
  rw [getNetmaskForIP, Option.bind_some, findNetmask_eq] at netmask
  exact Option.bind_eq_some_iff.mp netmask

/-! ## One entry -/

/-- The address, the mask and the name are those of one eligible entry, and the address is that of
the first private one among the eligible entries, or else of the first of them. -/
structure FromOneEntry (entries : List Ifaddrs) (ip mask : AddressV4) (ifc : List UInt8) :
    Prop where
  entry : ∃ ifa ∈ entries, ifa.eligible ∧ ifa.address = some ip ∧ ifa.netmask = some mask ∧
    ifa.name = ifc
  preference : (preferred entries).bind address = some ip

/-- The first IPv4 entry with a mask at the preferred address has the mask of an eligible entry of
that address and name. -/
def MaskAgrees (entries : List Ifaddrs) : Prop :=
  ∃ chosen ∈ preferred entries, ∃ donor ∈ entries.find? (donates chosen.host),
    ∃ ifa ∈ entries, ifa.eligible ∧ ifa.host = chosen.host ∧ ifa.name = chosen.name ∧
      ifa.netmask = donor.netmask

/-- **The scanned address and netmask come from one eligible interface** exactly when the entry the
netmask is looked up from agrees with one. -/
theorem scanned_entry_iff {entries : List Ifaddrs} {out_ifc_name ifc : List UInt8}
    {ip mask : AddressV4}
    (local_ip : getLocalIPv4 (some entries) out_ifc_name = (some ip, ifc))
    (netmask : getNetmaskForIP (some entries) ip = some mask) :
    FromOneEntry entries ip mask ifc ↔ MaskAgrees entries := by
  obtain ⟨chosen, preference, rfl, rfl⟩ := preferred_of_local local_ip
  obtain ⟨donor, donates, donor_mask⟩ := donor_of_netmask netmask
  have address := address_of_eligible (preferred_mem preference).2
  constructor
  · intro one
    obtain ⟨⟨ifa, member, eligible, same_address, same_mask, same_name⟩, -⟩ := one
    have same_host : ifa.host = chosen.host := by
      rw [host, same_address, Option.getD_some]
    exact ⟨chosen, preference, donor, donates, ifa, member, eligible, same_host, same_name,
      same_mask.trans donor_mask.symm⟩
  · rintro ⟨chosen', preference', donor', donates', ifa, member, eligible, same_host, same_name,
      same_mask⟩
    cases preference.symm.trans preference'
    cases donates.symm.trans donates'
    constructor
    case entry =>
      refine ⟨ifa, member, eligible, ?_, same_mask.trans donor_mask, same_name⟩
      rw [address_of_eligible eligible, same_host]
    case preference => rw [preference, Option.bind_some, address]

/-- They do where no two IPv4 entries with the address have different masks. -/
theorem maskAgrees_of_one_mask {entries : List Ifaddrs} {out_ifc_name ifc : List UInt8}
    {ip mask : AddressV4}
    (local_ip : getLocalIPv4 (some entries) out_ifc_name = (some ip, ifc))
    (netmask : getNetmaskForIP (some entries) ip = some mask)
    (one : ∀ ifa ∈ entries, ∀ other ∈ entries, ifa.isIPv4 → other.isIPv4 →
      ifa.address = some ip → other.address = some ip → ifa.netmask = other.netmask) :
    MaskAgrees entries := by
  obtain ⟨chosen, preference, rfl, rfl⟩ := preferred_of_local local_ip
  obtain ⟨donor, donated, donor_mask⟩ := donor_of_netmask netmask
  obtain ⟨member, eligible⟩ := preferred_mem preference
  have matched := List.find?_some donated
  simp only [donates, Bool.and_eq_true, decide_eq_true_eq] at matched
  obtain ⟨⟨ipv4, -⟩, address⟩ := matched
  have chosen_ipv4 : chosen.isIPv4 := by
    simp only [Ifaddrs.eligible, Bool.and_eq_true] at eligible
    exact eligible.1.1.1
  refine ⟨chosen, preference, donor, donated, chosen, member, eligible, rfl, rfl, ?_⟩
  exact one chosen member donor (List.mem_of_find?_eq_some donated) chosen_ipv4 ipv4
    (address_of_eligible eligible) address

def host : Vector UInt8 4 := #v[192, 168, 0, 5]

/-- The addresses 192.168.0.5 with a mask of 16 bits, down, and with one of 24 bits, up. -/
def twoEntries : List Ifaddrs :=
  [⟨some [48], 0, some ⟨AF_INET, host⟩, some ⟨AF_INET, #v[255, 255, 0, 0]⟩⟩,
    ⟨some [49], 1, some ⟨AF_INET, host⟩, some ⟨AF_INET, #v[255, 255, 255, 0]⟩⟩]

/-- Alone, the second one is taken whole. -/
theorem scanned_entry_up : FromOneEntry twoEntries.tail 0xC0A80005 0xFFFFFF00 [49] :=
  (@scanned_entry_iff twoEntries.tail [] _ _ _ (by decide) (by decide)).mpr
    ⟨_, rfl, _, rfl, _, List.mem_singleton_self _, by decide⟩

/-- The address is that of the second entry, which is up, and the mask that of the first. -/
theorem scanned_entry_mixed :
    getLocalIPv4 (some twoEntries) [] = (some 0xC0A80005, [49]) ∧
      getNetmaskForIP (some twoEntries) 0xC0A80005 = some 0xFFFF0000 ∧
      ¬ FromOneEntry twoEntries 0xC0A80005 0xFFFF0000 [49] := by
  refine ⟨by decide, by decide, ?_⟩
  intro one
  exact absurd one.entry (by decide)

end PingPong.Client
