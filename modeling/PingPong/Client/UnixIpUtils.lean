/-!
# Interfaces and subnets

`unix_ip_utils.cpp`: the choice of the local address and of its netmask among the entries of
`getifaddrs`, and the range of addresses of a subnet.  An `address_v4` is its value in host byte
order.  A `getifaddrs` that fails has no list; where an address is read as a `sockaddr_in` without a
look at its family, `s_addr` stands for the four bytes that are there.
-/

namespace PingPong.Client

abbrev AddressV4 : Type := UInt32

/-! ## Interface entries -/

abbrev AF_INET : UInt16 := 2

abbrev IFF_UP : UInt32 := 0x1

abbrev IFF_LOOPBACK : UInt32 := 0x8

/-- A socket address read as `sockaddr_in`; `s_addr` is in network byte order. -/
structure Sockaddr where
  sa_family : UInt16
  s_addr : Vector UInt8 4
deriving DecidableEq

/-- An entry of the list, whose pointers may be null. -/
structure Ifaddrs where
  ifa_name : Option (List UInt8)
  ifa_flags : UInt32
  ifa_addr : Option Sockaddr
  ifa_netmask : Option Sockaddr
deriving DecidableEq

/-- Network byte order is the highest byte first. -/
def ntohl (net : Vector UInt8 4) : UInt32 :=
  net[0].toUInt32 <<< 24 ||| net[1].toUInt32 <<< 16 ||| net[2].toUInt32 <<< 8 ||| net[3].toUInt32

def isPrivateIPv4 (horder_addr : UInt32) : Bool :=
  if horder_addr &&& 0xFF000000 = 0x0A000000 then true
  else if horder_addr &&& 0xFFF00000 = 0xAC100000 then true
  else if horder_addr &&& 0xFFFF0000 = 0xC0A80000 then true
  else false

def isLinkLocalIPv4 (hostOrderAddr : UInt32) : Bool :=
  hostOrderAddr &&& 0xFFFF0000 = 0xA9FE0000

/-! ## The local address -/

/-- The variables of the loop of `getLocalIPv4`. -/
structure Candidates where
  best_private : Option AddressV4 := none
  best_nonloopback : Option AddressV4 := none
  best_private_ifc : List UInt8 := []
  best_nonloopback_if : List UInt8 := []

def Candidates.next (s : Candidates) (ifa : Ifaddrs) : Candidates :=
  match ifa.ifa_addr with
  | none => s
  | some sa =>
      let flags := ifa.ifa_flags
      let addr_host := ntohl sa.s_addr
      let ifc_name := ifa.ifa_name.getD []
      if sa.sa_family ≠ AF_INET then s
      else if flags &&& IFF_UP = 0 then s
      else if flags &&& IFF_LOOPBACK ≠ 0 then s
      else if isLinkLocalIPv4 addr_host then s
      else if isPrivateIPv4 addr_host then
        if s.best_private.isNone then
          { s with best_private := some addr_host, best_private_ifc := ifc_name }
        else s
      else if s.best_nonloopback.isNone then
        { s with best_nonloopback := some addr_host, best_nonloopback_if := ifc_name }
      else s

/-- The address, and `out_ifc_name` afterwards. -/
def getLocalIPv4 (ifaddr : Option (List Ifaddrs)) (out_ifc_name : List UInt8) :
    Option AddressV4 × List UInt8 :=
  match ifaddr with
  | none => (none, out_ifc_name)
  | some list =>
      let s := list.foldl Candidates.next {}
      if s.best_private.isSome then (s.best_private, s.best_private_ifc)
      else if s.best_nonloopback.isSome then (s.best_nonloopback, s.best_nonloopback_if)
      else (none, out_ifc_name)

/-! ## Its netmask -/

/-- The loop of `getNetmaskForIP`, which stops at the first match. -/
def findNetmask (ip : AddressV4) : List Ifaddrs → Option AddressV4
  | [] => none
  | ifa :: later =>
      match ifa.ifa_addr, ifa.ifa_netmask with
      | some addr, some mask =>
          if addr.sa_family ≠ AF_INET then findNetmask ip later
          else if ntohl addr.s_addr = ip then some (ntohl mask.s_addr)
          else findNetmask ip later
      | _, _ => findNetmask ip later

def getNetmaskForIP (ifaddr : Option (List Ifaddrs)) (ip : AddressV4) : Option AddressV4 :=
  ifaddr.bind (findNetmask ip)

/-! ## The subnet -/

structure SubnetRange where
  network : AddressV4
  broadcast : AddressV4
  first_host : AddressV4
  last_host : AddressV4
  host_count : UInt32
deriving DecidableEq

def getSubnetRange (ip mask : AddressV4) : SubnetRange :=
  let net_int := ip &&& mask
  let broadcast_int := net_int ||| ~~~mask
  if 2 ≤ broadcast_int - net_int then
    { network := net_int
      broadcast := broadcast_int
      first_host := net_int + 1
      last_host := broadcast_int - 1
      host_count := broadcast_int - net_int - 1 }
  else
    { network := net_int
      broadcast := broadcast_int
      first_host := net_int
      last_host := net_int
      host_count := 0 }

theorem getSubnetRange_network (ip mask : AddressV4) :
    (getSubnetRange ip mask).network = ip &&& mask := by
  simp only [getSubnetRange]
  split <;> rfl

theorem getSubnetRange_broadcast (ip mask : AddressV4) :
    (getSubnetRange ip mask).broadcast = ip &&& mask ||| ~~~mask := by
  simp only [getSubnetRange]
  split <;> rfl

/-- A range with hosts between the network and the broadcast address. -/
theorem getSubnetRange_of_wide {ip mask : AddressV4}
    (wide : 2 ≤ (ip &&& mask ||| ~~~mask) - (ip &&& mask)) :
    getSubnetRange ip mask =
      { network := ip &&& mask
        broadcast := ip &&& mask ||| ~~~mask
        first_host := (ip &&& mask) + 1
        last_host := (ip &&& mask ||| ~~~mask) - 1
        host_count := (ip &&& mask ||| ~~~mask) - (ip &&& mask) - 1 } := if_pos wide

theorem getSubnetRange_of_narrow {ip mask : AddressV4}
    (narrow : ¬ 2 ≤ (ip &&& mask ||| ~~~mask) - (ip &&& mask)) :
    getSubnetRange ip mask =
      { network := ip &&& mask
        broadcast := ip &&& mask ||| ~~~mask
        first_host := ip &&& mask
        last_host := ip &&& mask
        host_count := 0 } := if_neg narrow

end PingPong.Client
