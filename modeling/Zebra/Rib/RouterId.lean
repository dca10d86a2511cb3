import Zebra.Rib.Vrf
import Zebra.Rib.Interface

/-!
# The router id of a VRF

`RouterIdAdd` and `RouterIdDelete` keep the IPv4 addresses outside `127.0.0.0/8` of a VRF's
up interfaces as candidates, in one tree for the loopback interfaces and one for the others.
`RouterIdUpdate` takes the configured id, else the first (greatest) loopback candidate, else the
first other candidate, else `0.0.0.0`.

A candidate node holds one item.  `AcquireWithItem` gives back the reference it took when the
address is there already, and `ReleaseWithItem` lets the address go only when its item is the
releasing `*IfAddr`: an address is a candidate once, for the first interface that brought it.
-/

namespace Zebra

open Zebra.Netutil

/-- `copy(dst, src)`: as many bytes as both hold, from `src` over the start of `dst`. -/
def copyBytes (dst src : List UInt8) : List UInt8 :=
  src.take dst.length ++ dst.drop src.length

/-- `net.IP.IsLoopback` on the four-byte addresses it is given here: `127.0.0.0/8`. -/
def ipIsLoopback (ip : List UInt8) : Bool := ip.head? == some 127

/-- The id `RouterIdUpdate` settles on, and its type: the configured id, else the key of the
first loopback candidate, else that of the first other candidate, else `0.0.0.0` with the type
left `Unset`. -/
def RouterId.choice (r : RouterId) : List UInt8 × RouterIdType :=
  if r.configured then (r.configId, .config)
  else match r.loopbackAddrs.lookupTop with
    | some n => (n.key, .loopback)
    | none =>
      match r.otherAddrs.lookupTop with
      | some n => (n.key, .automatic)
      | none => ([0, 0, 0, 0], .unset)

namespace Vrf

/-- `routerIdAddrsGet`: the loopback tree for a loopback interface, the other tree otherwise. -/
def routerIdAddrsGet (v : Vrf) (ifp : Interface) : Ptree Nat :=
  if ifp.isLoopback then v.routerId.loopbackAddrs else v.routerId.otherAddrs

/-- The tree `routerIdAddrsGet` returns, changed in place. -/
def routerIdAddrsSet (v : Vrf) (ifp : Interface) (q : Ptree Nat) : Vrf :=
  { v with
    routerId := if ifp.isLoopback then { v.routerId with loopbackAddrs := q }
      else { v.routerId with otherAddrs := q } }

/-- `RouterIdUpdate`: the chosen id is copied into the id in use when it is not `Equal` to it.
`NotifyRouterId` is left out. -/
def routerIdUpdate (v : Vrf) : Vrf :=
  let r := v.routerId
  let c := r.choice
  if !ipEqual r.id c.1 then { v with routerId := { r with id := copyBytes r.id c.1, type := c.2 } }
  else v

/-- `RouterIdAdd`: an IPv4 address outside `127.0.0.0/8` becomes a candidate of the interface's
kind, then the id is updated.  `none` stands for the nil node `AcquireWithItem` dereferences
past the tree's width. -/
def routerIdAdd (v : Vrf) (ifp : Interface) (addr : IfAddr) : Option Vrf :=
  if addr.pfx.ip.length ≠ 4 then some v
  else if ipIsLoopback addr.pfx.ip then some v
  else
    ((v.routerIdAddrsGet ifp).acquireWithItem addr.pfx.ip 32 addr.id).map fun q =>
      (v.routerIdAddrsSet ifp q).routerIdUpdate

/-- `RouterIdDelete`: the address stops being a candidate if this `*IfAddr` made it one, then
the id is updated. -/
def routerIdDelete (v : Vrf) (ifp : Interface) (addr : IfAddr) : Vrf :=
  if addr.pfx.ip.length ≠ 4 then v
  else if ipIsLoopback addr.pfx.ip then v
  else
    (v.routerIdAddrsSet ifp
      ((v.routerIdAddrsGet ifp).releaseWithItem addr.pfx.ip 32 addr.id)).routerIdUpdate

/-- `RouterIdSet`. -/
def routerIdSet (v : Vrf) (id : List UInt8) : Vrf :=
  ({ v with routerId := { v.routerId with configured := true, configId := id } } : Vrf).routerIdUpdate

/-- `RouterIdUnset`. -/
def routerIdUnset (v : Vrf) : Vrf :=
  ({ v with routerId := { v.routerId with configured := false } } : Vrf).routerIdUpdate

/-! ### The route tables are not the router id's business -/

@[simp] lemma routerIdAddrsSet_ribTable (v : Vrf) (ifp : Interface) (q : Ptree Nat) :
    (v.routerIdAddrsSet ifp q).ribTable = v.ribTable := rfl

@[simp] lemma routerIdUpdate_ribTable (v : Vrf) : v.routerIdUpdate.ribTable = v.ribTable := by
  simp only [routerIdUpdate]
  split <;> rfl

lemma routerIdAdd_ribTable {v v' : Vrf} {ifp : Interface} {addr : IfAddr}
    (h : v.routerIdAdd ifp addr = some v') : v'.ribTable = v.ribTable := by
  unfold routerIdAdd at h
  split_ifs at h
  · cases h
    rfl
  · cases h
    rfl
  · obtain ⟨q, -, rfl⟩ := Option.map_eq_some_iff.1 h
    simp

@[simp] lemma routerIdDelete_ribTable (v : Vrf) (ifp : Interface) (addr : IfAddr) :
    (v.routerIdDelete ifp addr).ribTable = v.ribTable := by
  unfold routerIdDelete
  split_ifs <;> simp

end Vrf

end Zebra
