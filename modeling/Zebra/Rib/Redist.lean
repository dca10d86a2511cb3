import Zebra.Rib.Selection

/-!
# Redistribution to a subscribing watcher

`RedistSubscribe(w, false, vrfId, afi, typ)` adds the watcher to the VRF's watchers of the
route type and, through `RedistSync`, sends it a `RouteAdd` for each selected FIB route of the
type in the family's table, the default prefix aside.  From then on `Redistribute` tells it of
every change of a selected route that `RibProcess` makes.

The two paths differ.  `Redistribute` never tells a route's own source about it, and sends the
prefix `RibProcess` was given; `RedistSync` tells every route to the watcher, its own
included, and rebuilds each prefix from the node's key copied into a four-byte slice, in both
families, where `RibWalker` takes four or sixteen bytes by the family.
-/

namespace Zebra

open Zebra.Netutil

/-- `RedistWatcherAdd`: the watcher joins the list unless it is in it. -/
def redistWatcherAdd (watchers : List RibSrc) (w : RibSrc) : List RibSrc :=
  if watchers.any (· == w) then watchers else watchers ++ [w]

/-- The calls `RedistSync` makes at one node: a `RouteAdd` of each selected FIB route of the
type, for the prefix rebuilt from `ip := make([]byte, 4); copy(ip, n.Key())`, unless that
prefix is the default. -/
def redistSyncNode (vrfId : Nat) (w : RibSrc) (typ : UInt8) (n : PtreeNode RibSlice) :
    List Call :=
  let p := Prefix.fromKey 4 n.key n.keyLength
  ((n.item.getD []).filter fun rib => rib.isSelectedFib && rib.type == typ).flatMap fun rib =>
    if !p.isDefault then [.notify w (rib2Route vrfId .routeAdd p rib)] else []

namespace Vrf

/-- `Vrf.RedistSync(w, afi, typ)`: every node holding a slice, in tree order. -/
def redistSync (v : Vrf) (w : RibSrc) (afi : Afi) (typ : UInt8) : List Call :=
  (v.ribTable afi).items.flatMap (redistSyncNode v.id w typ)

/-- `Server.RedistSubscribe(w, false, vrfId, afi, typ)` on the VRF of `vrfId`: the watcher joins
the VRF's watchers of the type, then `RedistSync` runs.  `typ` indexes the `RIB_MAX` watcher
lists, and the code panics (`none`) past them. -/
def redistSubscribe (v : Vrf) (w : RibSrc) (afi : Afi) (typ : UInt8) : Option Vrf :=
  if h : typ.toNat < ribMax then
    let wr := v.redist afi
    let i : Fin ribMax := ⟨typ.toNat, h⟩
    let wr' : WatcherRedist :=
      { wr with typ := Function.update wr.typ i (redistWatcherAdd (wr.typ i) w) }
    some { v with
      redist := Function.update v.redist afi wr'
      calls := v.calls ++ v.redistSync w afi typ }
  else none

end Vrf

/-! ### What the two paths send -/

/-- `notifyFunc` tells no route to its own source. -/
lemma notifyFunc_ne_src {vrfId : Nat} {op : Op} {p : Prefix} {rib : Rib} {wr : WatcherRedist}
    {cs : List Call} (h : notifyFunc vrfId op p rib wr = some cs) :
    ∀ w r, Call.notify w r ∈ cs → w ≠ rib.src := by
  -- whichever watcher list is read, the calls are those of its members other than the source
  have hcs : ∃ watchers : List RibSrc,
      cs = (watchers.filter (· != rib.src)).map fun w => .notify w (rib2Route vrfId op p rib) := by
    unfold notifyFunc at h
    split at h
    · exact ⟨_, (Option.some.inj h).symm⟩
    · split at h
      · exact ⟨_, (Option.some.inj h).symm⟩
      · cases h
  obtain ⟨watchers, rfl⟩ := hcs
  intro w r hc
  obtain ⟨w', hw', he⟩ := List.mem_map.1 hc
  cases he
  simpa using (List.mem_filter.1 hw').2

/-- `Redistribute` tells no route to its own source. -/
theorem redistribute_ne_src {g : Globals} {v : Vrf} {op : Op} {p : Prefix} {rib : Rib}
    {cs : List Call} (h : redistribute g v op p rib = some cs) :
    ∀ w r, Call.notify w r ∈ cs → w ≠ rib.src := by
  unfold redistribute at h
  split at h
  · cases h
    intro w r hc
    cases hc
  · obtain ⟨afi, -, h⟩ := Option.bind_eq_some_iff.1 h
    obtain ⟨c₁, h₁, h⟩ := Option.bind_eq_some_iff.1 h
    obtain ⟨c₂, h₂, h⟩ := Option.bind_eq_some_iff.1 h
    cases h
    intro w r hc
    rcases List.mem_append.1 hc with hc | hc
    · exact notifyFunc_ne_src h₁ w r hc
    · exact notifyFunc_ne_src h₂ w r hc

/-- Every message of `RedistSync` goes to the watcher and carries a four-byte address,
whatever the family of the table. -/
theorem redistSync_addr_length (v : Vrf) (w : RibSrc) (afi : Afi) (typ : UInt8) :
    ∀ c ∈ v.redistSync w afi typ, ∃ r, c = .notify w r ∧ r.addr.length = 4 := by
  intro c hc
  obtain ⟨n, -, hc⟩ := List.mem_flatMap.1 hc
  unfold redistSyncNode at hc
  obtain ⟨rib, -, hc⟩ := List.mem_flatMap.1 hc
  split at hc
  · rw [List.mem_singleton] at hc
    subst hc
    refine ⟨_, rfl, ?_⟩
    simp only [rib2Route, Prefix.fromKey, List.length_append, List.length_take,
      List.length_replicate]
    omega
  · cases hc

/-- `2001:db8::/32`. -/
def net6 : Prefix := ⟨[0x20, 0x01, 0x0d, 0xb8, 0, 0, 0, 0, 0, 0, 0, 0, 0, 0, 0, 0], 32⟩

/-- A connected route of client 1 on interface 1. -/
def client1Connected : Rib := ⟨0, 0, ribConnected, 0, 0, 0, 0, [newNexthopIf 1], [], .client 1⟩

/-- Client 1 adds a connected route for `2001:db8::/32` and then subscribes to connected
routes of IPv6: `RedistSync` sends it its own route, for the prefix `32.1.13.184/32`. -/
theorem redistSubscribe_ipv6_own_route :
    (((Vrf.new 0).ribAdd plainGlobals net6 client1Connected).bind fun v =>
        v.redistSubscribe (.client 1) .ip6 ribConnected).map (fun v =>
      v.calls.map fun c => match c with
        | .notify w r => some (w, r.addr, r.length)
        | _ => none) =
      some [some (.client 1, [32, 1, 13, 184], 32)] := by
  decide

end Zebra
