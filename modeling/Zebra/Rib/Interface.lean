import Zebra.Rib.Types

/-!
# Interfaces and their addresses

An `Interface` is known by its index.  It belongs to one VRF, holds its kernel flags (up,
loopback) and its addresses, one `IfAddrSlice` per family.  Each address is a `*IfAddr`; the
RIB compares these pointers, as the `Src` of a connected route and as the item of a router-id
candidate, so an address carries the identity of its pointer.

The handlers read what the kernel reports through `IfInfo` (link events) and `IfAddrInfo`
(address events).
-/

namespace Zebra

open Zebra.Netutil

/-- `syscall.IFF_UP`. -/
def iffUp : Nat := 0x1

/-- `syscall.IFF_LOOPBACK`. -/
def iffLoopback : Nat := 0x8

/-- `IfAddr`: the address and prefix length the kernel reports (`Prefix`), with the identity
of the pointer.  Its `Flags` and `Label` are stored and never read. -/
structure IfAddr where
  id : Nat
  pfx : Prefix
deriving DecidableEq, Repr

/-- `IfAddrSlice`. -/
abbrev IfAddrSlice := List IfAddr

namespace IfAddrSlice

/-- `IfAddrSlice.Lookup`: the first address whose prefix is `Equal` to `p`. -/
def lookup (addrs : IfAddrSlice) (p : Prefix) : Option IfAddr :=
  addrs.find? (·.pfx.equal p)

/-- `IfAddrSlice.Delete`: the addresses whose prefix is not `Equal` to `p`, and the last one
that is. -/
def delete (addrs : IfAddrSlice) (p : Prefix) : IfAddrSlice × Option IfAddr :=
  (addrs.filter (!·.pfx.equal p), (addrs.filter (·.pfx.equal p)).getLast?)

end IfAddrSlice

/-- `Interface`, with the fields the handlers read.  `vrf` is the VRF object its `Vrf` field
points to, as an index into the VRF objects made so far; `vrfIndex` is the table id it keeps
next to it.  `Mtu`, `Metric`, `HwAddr`, `Description`, `Stats` and `VIFs` are left out. -/
structure Interface where
  name : String
  index : Nat
  vrfIndex : Nat
  vrf : Nat
  flags : Nat
  addrs : Afi → IfAddrSlice
  master : Nat

namespace Interface

/-- `IsUp`. -/
def isUp (ifp : Interface) : Bool := ifp.flags &&& iffUp != 0

/-- `IsLoopback`. -/
def isLoopback (ifp : Interface) : Bool := ifp.flags &&& iffLoopback != 0

/-- The addresses in the order `IfDownRibRemove` and `IfUpRibAdd` visit them: `AFI_IP`, then
`AFI_IP6`. -/
def allAddrs (ifp : Interface) : List IfAddr := ifp.addrs .ip ++ ifp.addrs .ip6

end Interface

/-- `IfInfo`, the link message, with the fields `IfAdd` and `IfSync` act on (`Mtu` only
changes the interface's own `Mtu`, and is left out with it). -/
structure IfInfo where
  name : String
  index : Nat
  flags : Nat
  table : Nat
  master : Nat
deriving DecidableEq, Repr

/-- `IfAddrInfo`, the address message, with the fields `IfAddrAdd` and `IfAddrDelete` read. -/
structure IfAddrInfo where
  pfx : Prefix
  index : Nat
deriving DecidableEq, Repr

/-- The connected route the handlers build for an address:
`&Rib{Type: RIB_CONNECTED, Nexthops: []*Nexthop{NewNexthopIf(index)}, Src: addr}`. -/
def connectedRib (index : Nat) (addr : IfAddr) : Rib :=
  ⟨0, 0, ribConnected, 0, 0, 0, 0, [newNexthopIf index], [], .ifAddr addr.id⟩

end Zebra
