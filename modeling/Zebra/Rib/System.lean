import Zebra.Rib.Table
import Zebra.Rib.RouterId

/-!
# The interface handlers

The package state the interface handlers change: every VRF object made so far (a `*Vrf` is
its place in that list), `VrfTable` from ids to them, `IfTable` from indices to interfaces, and
the identity the next `*IfAddr` gets.  `IfUpdate`, `IfDelete`, `IfAddrAdd` and `IfAddrDelete`
handle the kernel's link and address events; `RouterIdSet` and `RouterIdUnset` come from the
configuration.  A handler is `none` where the code panics.

What the handlers do that none of them reads back is left out: the configuration
(`InterfaceConfigSync`, `ConfigPush`, `ConfigPull`), the hooks, the watchers' interface and
address messages, the timer of `IfForceUp`, each VRF's own interface table, and the
`NetlinkIpAddrAdd` of configured addresses, whose effect comes back as an address event.
-/

namespace Zebra

open Zebra.Netutil

/-- `VRF_ID_MIN`. -/
def vrfIdMin : Nat := 1

/-- `VRF_ID_MAX`. -/
def vrfIdMax : Nat := 253

/-- `VRF_TABLE_SIZE`. -/
def vrfTableSize : Nat := 254

/-- The package state of the handlers: the VRF objects made so far, `VrfTable`, `IfTable` and
the identity of the next `*IfAddr`. -/
structure System where
  vrfs : List Vrf
  vrfTable : Nat → Option Nat
  ifTable : List Interface
  nextAddr : Nat

/-- A kernel or configuration event. -/
inductive Event
  | ifUpdate (ifi : IfInfo)
  | ifDelete (ifi : IfInfo)
  | ifAddrAdd (ai : IfAddrInfo)
  | ifAddrDelete (ai : IfAddrInfo)
  | routerIdSet (vrfId : Nat) (id : List UInt8)
  | routerIdUnset (vrfId : Nat)

namespace System

/-- The state the server starts from: `NewVrf("", 0)` and no interface. -/
def init : System :=
  { vrfs := [Vrf.new 0]
    vrfTable := fun id => if id = 0 then some 0 else none
    ifTable := []
    nextAddr := 0 }

/-- `VrfLookupByIndex`: nil from `VRF_ID_MAX` on. -/
def vrfLookupByIndex (s : System) (id : Nat) : Option Nat :=
  if vrfIdMax ≤ id then none else s.vrfTable id

/-- `NewVrf(name, id)`: a new VRF object in `VrfTable[id]`, a store past the table's
`VRF_TABLE_SIZE` entries panicking.  Its name and `VrfMap` are left out. -/
def newVrf (s : System) (id : Nat) : Option (System × Nat) :=
  if id < vrfTableSize then
    some ({ s with
      vrfs := s.vrfs ++ [Vrf.new id]
      vrfTable := Function.update s.vrfTable id (some s.vrfs.length) }, s.vrfs.length)
  else none

/-- `VrfAssignIndex`: the first free id from `VRF_ID_MIN + 100` to `VRF_ID_MAX`, else `0`. -/
def vrfAssignIndex (s : System) : Nat :=
  ((List.range' (vrfIdMin + 100) (vrfIdMax + 1 - (vrfIdMin + 100))).find?
    fun i => (s.vrfTable i).isNone).getD 0

/-- `VrfAssign(name, id)`: id `0` asks for a free id; with none free the VRF is nil. -/
def vrfAssign (s : System) (id : Nat) : Option (System × Option Nat) :=
  let id := if id = 0 then s.vrfAssignIndex else id
  if id = 0 then some (s, none)
  else (s.newVrf id).map fun r => (r.1, some r.2)

/-- `IfLookupByIndex`. -/
def ifLookupByIndex (s : System) (index : Nat) : Option Interface :=
  s.ifTable.find? (·.index == index)

/-- `IfRegister`: the interface joins `IfTable` (`IfMap` is left out). -/
def ifRegister (s : System) (ifp : Interface) : System :=
  { s with ifTable := s.ifTable ++ [ifp] }

/-- `IfUnregister`. -/
def ifUnregister (s : System) (ifp : Interface) : System :=
  { s with ifTable := s.ifTable.filter (·.index != ifp.index) }

/-- The interface `ifp` stands for, changed in place. -/
def setIf (s : System) (ifp : Interface) : System :=
  { s with ifTable := s.ifTable.map fun i => if i.index = ifp.index then ifp else i }

/-- `f` run on the VRF object `i`, in place. -/
def onVrf (s : System) (i : Nat) (f : Vrf → Option Vrf) : Option System := do
  let v ← s.vrfs[i]?
  let v ← f v
  pure { s with vrfs := s.vrfs.set i v }

variable (g : Globals)

/-- `RibWalker()`: each VRF's walker on both families. -/
def ribWalkerAll (s : System) : Option System := do
  let vrfs ← s.vrfs.mapM fun v => (v.ribWalker g .ip).bind (·.ribWalker g .ip6)
  pure { s with vrfs }

/-- One address's connected route going in, as `IfAddrAdd` and `IfUpRibAdd` make it: `RibAdd` of
the address's prefix, then `RouterIdAdd`, on the interface's VRF. -/
def connectedAdd (s : System) (ifp : Interface) (index : Nat) (addr : IfAddr) : Option System :=
  s.onVrf ifp.vrf fun v =>
    (v.ribAdd g addr.pfx (connectedRib index addr)).bind (·.routerIdAdd ifp addr)

/-- One address's connected route going out, as `IfAddrDelete` and `IfDownRibRemove` take it:
`RibDelete`, then `RouterIdDelete`, on the interface's VRF. -/
def connectedDelete (s : System) (ifp : Interface) (index : Nat) (addr : IfAddr) :
    Option System :=
  s.onVrf ifp.vrf fun v =>
    (v.ribDelete g addr.pfx (connectedRib index addr)).map (·.routerIdDelete ifp addr)

/-- `IfDownRibRemove`. -/
def ifDownRibRemove (s : System) (ifp : Interface) : Option System :=
  ifp.allAddrs.foldlM (fun s addr => s.connectedDelete g ifp ifp.index addr) s

/-- `IfUpRibAdd`, and the same loop in `IfSync` for an interface coming up. -/
def ifUpRibAdd (s : System) (ifp : Interface) : Option System :=
  ifp.allAddrs.foldlM (fun s addr => s.connectedAdd g ifp ifp.index addr) s

/-- The VRF, table id and master `IfAdd` takes from a master: a known master with a known VRF
gives its own; otherwise the master is forgotten. -/
def ifAddMaster (s : System) (ifi : IfInfo) (vrf : Option Nat) : Option Nat × Nat × Nat :=
  if ifi.master ≠ 0 then
    match s.ifLookupByIndex ifi.master with
    | none => (vrf, ifi.table, 0)
    | some master =>
      match s.vrfLookupByIndex master.vrfIndex with
      | none => (vrf, ifi.table, 0)
      | some masterVrf => (some masterVrf, master.vrfIndex, ifi.master)
  else (vrf, ifi.table, ifi.master)

/-- The VRF `IfAdd` starts from: the one of the table, made by `VrfAssign` when there is
none. -/
def ifAddVrf (s : System) (table : Nat) : Option (System × Option Nat) :=
  match s.vrfLookupByIndex table with
  | some i => some (s, some i)
  | none => s.vrfAssign table

/-- `IfAdd`: the VRF of the table, made when there is none, or the master's; then the new
interface, with no address, and the walker. -/
def ifAdd (s : System) (ifi : IfInfo) : Option System := do
  let (s, vrf) ← s.ifAddVrf ifi.table
  let (vrf, table, master) := s.ifAddMaster ifi vrf
  -- `vrf.IfRegister(ifp)` dereferences a nil VRF
  let vrf ← vrf
  let ifp : Interface :=
    { name := ifi.name, index := ifi.index, vrfIndex := table, vrf, flags := ifi.flags
      addrs := fun _ => [], master }
  (s.ifRegister ifp).ribWalkerAll g

/-- The VRF `IfSync` moves an interface to on a new master: `none` where the code gives up
(`Can't find master interface`, `Can't find vrf`), else what `VrfLookupByIndex` gives, for
master `0` that of the default VRF. -/
def syncMasterVrf (s : System) (master : Nat) : Option (Option Nat) :=
  if master ≠ 0 then do
    let m ← s.ifLookupByIndex master
    let nvrf ← s.vrfLookupByIndex m.vrfIndex
    pure (some nvrf)
  else some (s.vrfLookupByIndex 0)

/-- The master change of `IfSync`: the connected routes leave the old VRF, the interface moves,
and it brings them into the new one if it is up.  The outer `none` is a panic, the inner one
the early return. -/
def ifSyncMaster (s : System) (ifp : Interface) (ifi : IfInfo) :
    Option (Option (System × Interface)) :=
  match s.syncMasterVrf ifi.master with
  | none => some none
  | some nvrf => do
    let s ← s.ifDownRibRemove g ifp
    -- `nvrf.IfRegister(ifp)` dereferences a nil VRF
    let nvrf ← nvrf
    let v ← s.vrfs[nvrf]?
    let ifp := { ifp with master := ifi.master, vrfIndex := v.id, vrf := nvrf }
    let s := s.setIf ifp
    let s ← if ifp.isUp then s.ifUpRibAdd g ifp else pure s
    pure (some (s, ifp))

/-- The name change of `IfSync`, made only when the interface's VRF is found. -/
def ifSyncName (s : System) (ifp : Interface) (ifi : IfInfo) : System × Interface :=
  if ifi.name ≠ ifp.name ∧ (s.vrfLookupByIndex ifp.vrfIndex).isSome then
    let ifp := { ifp with name := ifi.name }
    (s.setIf ifp, ifp)
  else (s, ifp)

/-- The flag change of `IfSync`: an interface going down loses its connected routes, one coming
up gets them; then it takes the new flags and the walker runs. -/
def ifSyncFlags (s : System) (ifp : Interface) (ifi : IfInfo) : Option System :=
  if ifp.flags ≠ ifi.flags then do
    let s ← if ifp.isUp then
        if ifi.flags &&& iffUp = 0 then s.ifDownRibRemove g ifp else pure s
      else if ifi.flags &&& iffUp ≠ 0 then s.ifUpRibAdd g ifp else pure s
    (s.setIf { ifp with flags := ifi.flags }).ribWalkerAll g
  else some s

/-- `IfSync`: master, then name, then flags. -/
def ifSync (s : System) (ifp : Interface) (ifi : IfInfo) : Option System := do
  let some (s', ifp) ← if ifp.master ≠ ifi.master then s.ifSyncMaster g ifp ifi
      else some (some (s, ifp))
    | pure s
  let (s', ifp) := s'.ifSyncName ifp ifi
  s'.ifSyncFlags g ifp ifi

/-- `IfUpdate`. -/
def ifUpdate (s : System) (ifi : IfInfo) : Option System :=
  match s.ifLookupByIndex ifi.index with
  | none => s.ifAdd g ifi
  | some ifp => s.ifSync g ifp ifi

/-- `IfDelete`: the connected routes go, then the interface. -/
def ifDelete (s : System) (ifi : IfInfo) : Option System :=
  match s.ifLookupByIndex ifi.index with
  | none => some s
  | some ifp => (s.ifDownRibRemove g ifp).map (·.ifUnregister ifp)

/-- `IfAddrAdd`: a new address of a known interface, with its connected route when the
interface is up. -/
def ifAddrAdd (s : System) (ai : IfAddrInfo) : Option System :=
  match s.ifLookupByIndex ai.index, ai.pfx.afi with
  | some ifp, some afi =>
    if ((ifp.addrs afi).lookup ai.pfx).isSome then some s
    else
      let addr : IfAddr := ⟨s.nextAddr, ai.pfx⟩
      let ifp := { ifp with addrs := Function.update ifp.addrs afi (ifp.addrs afi ++ [addr]) }
      let s := { s.setIf ifp with nextAddr := s.nextAddr + 1 }
      if ifp.isUp then s.connectedAdd g ifp ai.index addr else some s
  | _, _ => some s

/-- `IfAddrDelete`: the address leaves its interface, with its connected route when the
interface is up. -/
def ifAddrDelete (s : System) (ai : IfAddrInfo) : Option System :=
  match s.ifLookupByIndex ai.index, ai.pfx.afi with
  | some ifp, some afi =>
    match (ifp.addrs afi).delete ai.pfx with
    | (_, none) => some s
    | (addrs, some found) => do
      let s ← if ifp.isUp then s.connectedDelete g ifp ai.index found else pure s
      pure (s.setIf { ifp with addrs := Function.update ifp.addrs afi addrs })
  | _, _ => some s

/-- `RouterIdSet` on the VRF in `VrfTable[vrfId]`, as `VrfDefault().RouterIdSet(id)` does for
`0`; a nil VRF is dereferenced. -/
def routerIdSet (s : System) (vrfId : Nat) (id : List UInt8) : Option System :=
  (s.vrfTable vrfId).bind fun i => s.onVrf i fun v => some (v.routerIdSet id)

/-- `RouterIdUnset` on the VRF in `VrfTable[vrfId]`. -/
def routerIdUnset (s : System) (vrfId : Nat) : Option System :=
  (s.vrfTable vrfId).bind fun i => s.onVrf i fun v => some v.routerIdUnset

/-- One event. -/
def step (s : System) : Event → Option System
  | .ifUpdate ifi => s.ifUpdate g ifi
  | .ifDelete ifi => s.ifDelete g ifi
  | .ifAddrAdd ai => s.ifAddrAdd g ai
  | .ifAddrDelete ai => s.ifAddrDelete g ai
  | .routerIdSet vrfId id => s.routerIdSet vrfId id
  | .routerIdUnset vrfId => s.routerIdUnset vrfId

/-- A run of events, `none` once one panics. -/
def run (s : System) : List Event → Option System
  | [] => some s
  | e :: es => (s.step g e).bind fun s' => s'.run es

end System

end Zebra
