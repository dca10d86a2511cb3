import Zebra.Rib.Types
import Zebra.Netutil.Ptree

/-!
# The VRF: its route tables, its watchers and what it says to the outside

A `Vrf` holds one prefix tree of route slices per address family and the watchers that
asked for redistribution.  What the RIB does to the outside world is a list of calls: a
route pushed to or withdrawn from the kernel (`NetlinkRouteAdd`, `NetlinkRouteDelete`) and a
route message handed to a watcher (`Notify`).

Three fields have no Go counterpart and record what pointers do in the code: `nextPtr`
hands out the identity of each new `*Rib`, `removed` keeps the ribs taken out of their slice
(a pointer outlives its slice), and `calls` is the list of calls made so far.
-/

namespace Zebra

open Zebra.Netutil

/-- A `RibSlice`. -/
abbrev RibSlice := List Rib

/-- `pb.Op`. -/
inductive Op
  | routeAdd
  | routeDelete
deriving DecidableEq, Repr

/-- `pb.Route` as `Rib2Route` fills it (`Tag` and `Color` are always zero here). -/
structure Route where
  op : Op
  vrfId : Nat
  addr : List UInt8
  length : Nat
  type : UInt8
  subType : UInt8
  distance : UInt8
  metric : UInt32
  nexthops : List (Option (List UInt8) × Nat)
  aux : List UInt8
deriving DecidableEq, Repr

/-- A call out of the RIB. -/
inductive Call
  | netlinkRouteAdd (p : Prefix) (rib : Rib) (vrfId : Nat)
  | netlinkRouteDelete (p : Prefix) (rib : Rib) (vrfId : Nat)
  | notify (w : RibSrc) (route : Route)
deriving DecidableEq, Repr

/-- `WatcherRedist`: the watchers of each route type (`typ`, `RIB_MAX` of them) and of the
default route (`def`, here `dflt`). -/
structure WatcherRedist where
  typ : Fin ribMax → List RibSrc
  dflt : List RibSrc

/-- No watcher at all. -/
def WatcherRedist.empty : WatcherRedist := ⟨fun _ => [], []⟩

/-- The package variables the RIB reads: `AddPathDefault`, `LocalPolicy` and the all-VRF
watchers `Redist`. -/
structure Globals where
  addPathDefault : Bool
  localPolicy : Bool
  redist : Afi → WatcherRedist

/-- `RouterIdTypeUnset`, `RouterIdTypeConfig`, `RouterIdTypeLoopback`,
`RouterIdTypeAutomatic`: where the router id in use came from. -/
inductive RouterIdType
  | unset
  | config
  | loopback
  | automatic
deriving DecidableEq, Repr

/-- `RouterId`: the configured id, the id in use, and the IPv4 addresses of the loopback
interfaces and of the others, each in a tree of width 32 ordered in reverse, so that its first
node is its greatest address.  A node's item is the `*IfAddr` that put the address there, kept
as its identity. -/
structure RouterId where
  type : RouterIdType
  configured : Bool
  configId : List UInt8
  id : List UInt8
  loopbackAddrs : Ptree Nat
  otherAddrs : Ptree Nat

/-- `RouterId.Init` on the zero value: the id `0.0.0.0` and two empty trees. -/
def RouterId.init : RouterId :=
  { type := .unset
    configured := false
    configId := []
    id := [0, 0, 0, 0]
    loopbackAddrs := Ptree.empty 32 true
    otherAddrs := Ptree.empty 32 true }

/-- `Vrf`, with the fields the RIB reads and the three ghost fields described above. -/
structure Vrf where
  id : Nat
  ribTable : Afi → Ptree RibSlice
  redist : Afi → WatcherRedist
  routerId : RouterId
  nextPtr : Nat
  removed : List Rib
  calls : List Call

/-- `NewVrf`: empty trees of width 32 and 128, no watchers, and `routerId.Init()`. -/
def Vrf.new (id : Nat) : Vrf :=
  { id
    ribTable := fun afi => Ptree.empty afi.maxKeyBits
    redist := fun _ => WatcherRedist.empty
    routerId := RouterId.init
    nextPtr := 0
    removed := []
    calls := [] }

/-- `NexthopEncode`: address and interface index of each next hop. -/
def nexthopEncode (rib : Rib) : List (Option (List UInt8) × Nat) :=
  rib.nexthops.map fun n => (n.ip, n.index)

/-- `Rib2Route`. -/
def rib2Route (vrfId : Nat) (op : Op) (p : Prefix) (rib : Rib) : Route :=
  { op, vrfId
    addr := p.ip
    -- `uint32(p.Length)`
    length := (p.length % 2 ^ 32).toNat
    type := rib.type
    subType := rib.subType
    distance := rib.distance
    metric := rib.metric
    nexthops := nexthopEncode rib
    aux := rib.aux }

/-- `notifyFunc` of `Redistribute` for one watcher set: the default-route watchers for the
default prefix, else the watchers of the rib's type, each told unless it is the rib's own
source.  `wr.typ[rib.Type]` panics (`none`) for a type past `RIB_MAX`. -/
def notifyFunc (vrfId : Nat) (op : Op) (p : Prefix) (rib : Rib) (wr : WatcherRedist) :
    Option (List Call) := do
  let watchers ← if p.isDefault then some wr.dflt
    else if h : rib.type.toNat < ribMax then some (wr.typ ⟨rib.type.toNat, h⟩) else none
  return (watchers.filter (· != rib.src)).map fun w => .notify w (rib2Route vrfId op p rib)

/-- `Vrf.Redistribute`: nothing for a kernel default route under a local policy, else the
all-VRF watchers then the VRF's own.  `Redist[p.AFI()]` panics for `AFI_MAX`. -/
def redistribute (g : Globals) (v : Vrf) (op : Op) (p : Prefix) (rib : Rib) :
    Option (List Call) := do
  if g.localPolicy && p.isDefault && rib.type == ribKernel then return []
  let afi ← p.afi
  let c₁ ← notifyFunc v.id op p rib (g.redist afi)
  let c₂ ← notifyFunc v.id op p rib (v.redist afi)
  return c₁ ++ c₂

/-- The table `Resolve` searches for a next hop address: by its length, 4 or 16 bytes. -/
def nexthopTable (v : Vrf) (ip : List UInt8) : Option (Ptree RibSlice) :=
  if ip.length = 4 then some (v.ribTable .ip)
  else if ip.length = 16 then some (v.ribTable .ip6)
  else none

/-- `Vrf.Resolve`: a static or BGP route is resolved when it has one next hop with an
address that some node of the tree covers; an interface next hop is left unresolved (a
`TODO` in the code); every other route is resolved. -/
def resolve (v : Vrf) (ri : Rib) : Rib :=
  if ri.type = ribStatic ∨ ri.type = ribBgp then
    let ri := ri.unsetFlag ribFlagResolved
    match ri.nexthops with
    | [nhop] =>
      match nhop.ip with
      | none => ri
      | some ip =>
        match nexthopTable v ip with
        | some t => if (t.match ip (ip.length * 8)).isSome then ri.setFlag ribFlagResolved else ri
        | none => ri
    | _ => ri
  else ri.setFlag ribFlagResolved

end Zebra
