import Zebra.Rib.Redist
import Zebra.Rib.System

/-!
# The watcher lists

The server keeps watchers in lists: each VRF's watchers of each watch type (`vrf.Watchers`), its
redistribution watchers of each family and route type and of the default route (`vrf.redist`),
and the same for all VRFs (`Redist`).  A subscribe adds the watcher to one list unless it is
there; an unsubscribe takes it out of one list, and `WatcherUnsubscribe` out of every list of the
VRFs `VrfMap` holds and of `Redist`, and then `RibClearSrc` takes its routes out of those VRFs.

A removal deletes from the slice while ranging over it: the range runs over the indices of the
slice it started with and reads the array the removal rewrites, so after a removal it skips the
next element, and a second removal in one call reads past the slice's end and panics
(`redistWatcherRemove`).  On a list that holds the watcher at most once it takes the watcher out
(`redistWatcherRemove_eq_erase`), and every subscribe keeps the lists free of repeats.
-/

namespace Zebra

open Zebra.Netutil

/-! ### Removing from a list while ranging over it -/

/-- One pass of `RedistWatcherRemove`'s range at index `i`, on the slice's backing array and its
length: when the element there is the watcher, `append(watchers[:i], watchers[i+1:]...)` copies
the rest of the slice one place down in the same array, and panics (`none`) when `i + 1` is past
the slice's end. -/
def removeStep (w : RibSrc) (st : List RibSrc × Nat) (i : Nat) : Option (List RibSrc × Nat) :=
  if st.1[i]? = some w then
    if i + 1 ≤ st.2 then some ((st.1.take st.2).eraseIdx i ++ st.1.drop (st.2 - 1), st.2 - 1)
    else none
  else some st

/-- `RedistWatcherRemove`: the range runs over the indices of the slice it started with, reading
the array its removals rewrite. -/
def redistWatcherRemove (watchers : List RibSrc) (w : RibSrc) : Option (List RibSrc) :=
  ((List.range watchers.length).foldlM (removeStep w) (watchers, watchers.length)).map
    fun st => st.1.take st.2

/-- A second copy right behind the first is skipped. -/
example : redistWatcherRemove [.client 1, .client 1, .client 2] (.client 1) =
    some [.client 1, .client 2] := by decide

/-- A second copy the range still reaches is removed past the slice's end. -/
example : redistWatcherRemove [.client 1, .client 2, .client 1] (.client 1) = none := by decide

section Remove

variable {w : RibSrc}

lemma foldlM_removeStep_of_ne {st : List RibSrc × Nat} :
    ∀ is : List Nat, (∀ i ∈ is, st.1[i]? ≠ some w) → is.foldlM (removeStep w) st = some st
  | [], _ => rfl
  | i :: is, h => by
    have hi : removeStep w st i = some st := by rw [removeStep, if_neg (h i List.mem_cons_self)]
    rw [List.foldlM_cons, hi]
    exact foldlM_removeStep_of_ne is fun j hj => h j (List.mem_cons_of_mem i hj)

lemma nodup_getElem?_inj {l : List RibSrc} (h : l.Nodup) {i j : Nat} {a : RibSrc}
    (hi : l[i]? = some a) (hj : l[j]? = some a) : i = j := by
  obtain ⟨hil, rfl⟩ := List.getElem?_eq_some_iff.1 hi
  obtain ⟨hjl, hij⟩ := List.getElem?_eq_some_iff.1 hj
  exact (h.getElem_inj_iff.1 hij).symm

/-- After the removal at `k`, the array holds at every later index of the range an element of
another index of the list. -/
lemma getElem?_removed {l : List RibSrc} {k i : Nat} (hk : k < i) (hi : i < l.length) :
    ∃ j, j ≠ k ∧ (l.eraseIdx k ++ l.drop (l.length - 1))[i]? = l[j]? := by
  have hlen : (l.eraseIdx k).length = l.length - 1 := List.length_eraseIdx_of_lt (by omega)
  by_cases hlast : i < l.length - 1
  · refine ⟨i + 1, by omega, ?_⟩
    rw [List.getElem?_append_left (by omega), List.getElem?_eraseIdx_of_ge (by omega)]
  · refine ⟨l.length - 1, by omega, ?_⟩
    rw [List.getElem?_append_right (by omega), List.getElem?_drop]
    congr 1
    omega

/-- On a list that holds the watcher at most once, `RedistWatcherRemove` takes it out: the one
removal copies the rest of the slice down, and the range meets the watcher no more. -/
theorem redistWatcherRemove_eq_erase {watchers : List RibSrc} (h : watchers.Nodup) (w : RibSrc) :
    redistWatcherRemove watchers w = some (watchers.erase w) := by
  by_cases hw : w ∈ watchers
  · -- the range splits at the watcher's index `k`
    set k := watchers.idxOf w with hkdef
    set n := watchers.length
    have hk : k < n := List.idxOf_lt_length_iff.2 hw
    have hwk : watchers[k]? = some w := List.getElem?_idxOf hw
    have hrange : List.range n = List.range' 0 k ++ k :: List.range' (k + 1) (n - (k + 1)) := by
      obtain ⟨m, hm⟩ : ∃ m, n = k + (m + 1) := ⟨n - (k + 1), by omega⟩
      rw [List.range_eq_range', hm, ← List.range'_append, List.range'_succ]
      simp only [Nat.zero_add, Nat.one_mul]
      congr 3
      omega
    have hbefore : ∀ i ∈ List.range' 0 k, (watchers, n).1[i]? ≠ some w := by
      intro i hi hiw
      have := nodup_getElem?_inj h hiw hwk
      simp only [List.mem_range'_1] at hi
      omega
    have hstep : removeStep w (watchers, n) k =
        some (watchers.eraseIdx k ++ watchers.drop (n - 1), n - 1) := by
      rw [removeStep, if_pos hwk, if_pos (by omega), List.take_length]
    have hafter : ∀ i ∈ List.range' (k + 1) (n - (k + 1)),
        (watchers.eraseIdx k ++ watchers.drop (n - 1), n - 1).1[i]? ≠ some w := by
      intro i hi hiw
      simp only [List.mem_range'_1] at hi
      obtain ⟨j, hjk, hj⟩ := getElem?_removed (l := watchers) (by omega : k < i) (by omega)
      exact hjk (nodup_getElem?_inj h (hj ▸ hiw) hwk)
    have hlen : (watchers.eraseIdx k).length = n - 1 := List.length_eraseIdx_of_lt hk
    rw [redistWatcherRemove, hrange, List.foldlM_append, foldlM_removeStep_of_ne _ hbefore,
      Option.bind_eq_bind, Option.bind_some, List.foldlM_cons, hstep, Option.bind_eq_bind,
      Option.bind_some, foldlM_removeStep_of_ne _ hafter, Option.map_some,
      List.take_left' hlen, hkdef, List.eraseIdx_idxOf_eq_erase]
  · -- the watcher is nowhere: every pass leaves the array as it is
    have hne : ∀ i ∈ List.range watchers.length, (watchers, watchers.length).1[i]? ≠ some w :=
      fun _ _ hi => hw (List.mem_of_getElem? hi)
    rw [redistWatcherRemove, foldlM_removeStep_of_ne _ hne, Option.map_some, List.take_length,
      List.erase_of_not_mem hw]

end Remove

/-! ### The lists of a `WatcherRedist` -/

/-- One list of a `WatcherRedist`: the watchers of a route type, or of the default route. -/
inductive RedistList
  | typ (t : Fin ribMax)
  | dflt
deriving DecidableEq

/-- `typ` as an index of `typ[RIB_MAX]`, which panics (`none`) from `RIB_MAX` on. -/
def redistTyp (typ : UInt8) : Option RedistList :=
  if h : typ.toNat < ribMax then some (.typ ⟨typ.toNat, h⟩) else none

namespace WatcherRedist

def get (wr : WatcherRedist) : RedistList → List RibSrc
  | .typ t => wr.typ t
  | .dflt => wr.dflt

def set (wr : WatcherRedist) : RedistList → List RibSrc → WatcherRedist
  | .typ t, l => { wr with typ := Function.update wr.typ t l }
  | .dflt, l => { wr with dflt := l }

@[simp] lemma get_set (wr : WatcherRedist) (r r' : RedistList) (l : List RibSrc) :
    (wr.set r l).get r' = if r' = r then l else wr.get r' := by
  cases r <;> cases r' <;> simp [get, set, Function.update_apply]

/-- `WatcherUnsubscribe` on one `WatcherRedist`: the watcher out of `def`, then out of each
`typ[t]` in order. -/
def removeAll (wr : WatcherRedist) (w : RibSrc) : Option WatcherRedist := do
  let dflt ← redistWatcherRemove wr.dflt w
  (List.finRange ribMax).foldlM
    (fun wr t => (redistWatcherRemove (wr.typ t) w).map (wr.set (.typ t))) (wr.set .dflt dflt)

end WatcherRedist

/-- The redistribution watchers of both families without the watcher, `AFI_IP` first. -/
def removeRedist (redist : Afi → WatcherRedist) (w : RibSrc) : Option (Afi → WatcherRedist) := do
  let wr ← (redist .ip).removeAll w
  let wr6 ← (redist .ip6).removeAll w
  pure (Function.update (Function.update redist .ip wr) .ip6 wr6)

namespace Vrf

/-- The list `r` of `redist[afi]` without the watcher. -/
def redistRemove (v : Vrf) (afi : Afi) (r : RedistList) (w : RibSrc) : Option Vrf :=
  (redistWatcherRemove ((v.redist afi).get r) w).map fun l =>
    { v with redist := Function.update v.redist afi ((v.redist afi).set r l) }

/-- `RedistDefaultSync(w, afi)`: a `RouteAdd` of each selected FIB route at the family's default
prefix, up to the first kernel route when `LocalPolicy` is set. -/
def redistDefaultSync (g : Globals) (v : Vrf) (w : RibSrc) (afi : Afi) : List Call :=
  let p := Prefix.newAfi afi
  match ((v.ribTable afi).lookup p.ip p.length.toNat).bind (·.item) with
  | none => []
  | some ribs =>
    ((ribs.filter (·.isSelectedFib)).takeWhile
      fun rib => !(g.localPolicy && rib.type == ribKernel)).map
        fun rib => .notify w (rib2Route v.id .routeAdd p rib)

/-- `Server.RedistDefaultSubscribe(w, false, vrfId, afi)` on the VRF of `vrfId`: the watcher
joins `redist[afi].def`, then `RedistDefaultSync` runs. -/
def redistDefaultSubscribe (g : Globals) (v : Vrf) (w : RibSrc) (afi : Afi) : Vrf :=
  { v with
    redist := Function.update v.redist afi
      ((v.redist afi).set .dflt (redistWatcherAdd (v.redist afi).dflt w))
    calls := v.calls ++ v.redistDefaultSync g w afi }

end Vrf

/-! ### The server's watchers and the calls -/

/-- `WATCH_TYPE_MAX`. -/
def watchTypeMax : Nat := 4

/-- `WATCH_TYPE_INTERFACE`. -/
def watchTypeInterface : Fin watchTypeMax := ⟨0, by decide⟩

/-- `WATCH_TYPE_ROUTER_ID`. -/
def watchTypeRouterId : Fin watchTypeMax := ⟨1, by decide⟩

/-- The state the watcher calls read and change: the VRF objects and `VrfTable` (`System`), the
package variables with the all-VRF watchers `Redist` (`Globals`), the VRF objects `VrfMap`
holds, in the order a range over it visits them, and each VRF object's `Watchers`. -/
structure WatchState where
  sys : System
  g : Globals
  vrfMap : List Nat
  watchers : Nat → Fin watchTypeMax → List RibSrc

/-- The error of a call whose VRF `VrfLookupByIndex` does not find. -/
def vrfNotFound (vrfId : Nat) : String := "Can\x27t find VRF by VRF ID: " ++ toString vrfId

namespace WatchState

def setWatchers (s : WatchState) (i : Nat) (t : Fin watchTypeMax) (l : List RibSrc) :
    WatchState :=
  { s with watchers := Function.update s.watchers i (Function.update (s.watchers i) t l) }

def setRedist (s : WatchState) (afi : Afi) (wr : WatcherRedist) : WatchState :=
  { s with g := { s.g with redist := Function.update s.g.redist afi wr } }

/-- `f` on the VRF of `vrfId`; the call's error when `VrfLookupByIndex` finds none. -/
def onVrfId (s : WatchState) (vrfId : Nat) (f : Vrf → Option Vrf) :
    Option (WatchState × Option String) :=
  match s.sys.vrfLookupByIndex vrfId with
  | none => some (s, some (vrfNotFound vrfId))
  | some i => (s.sys.onVrf i f).map fun sys => ({ s with sys }, none)

/-- `for _, vrf := range VrfMap { sync(vrf) }`: each VRF's messages go to its calls. -/
def syncAll (s : WatchState) (sync : Vrf → List Call) : Option WatchState :=
  (s.vrfMap.foldlM
    (fun (sys : System) i => sys.onVrf i fun v => some { v with calls := v.calls ++ sync v })
    s.sys).map fun sys => { s with sys }

/-- `Server.InterfaceSubscribe` and `Server.RouterIdSubscribe`, on the watchers of type `t` of the
VRF of `vrfId`.  Their loop that returns when the watcher is in the list is `RedistWatcherAdd`'s;
the messages that tell a new watcher the interfaces or the router id are left out. -/
def watchSubscribe (t : Fin watchTypeMax) (s : WatchState) (w : RibSrc) (vrfId : Nat) :
    WatchState × Option String :=
  match s.sys.vrfLookupByIndex vrfId with
  | none => (s, some (vrfNotFound vrfId))
  | some i => (s.setWatchers i t (redistWatcherAdd (s.watchers i t) w), none)

/-- `Server.InterfaceUnsubscribe` and `Server.RouterIdUnsubscribe`: their loop is
`RedistWatcherRemove`'s, written out in place. -/
def watchUnsubscribe (t : Fin watchTypeMax) (s : WatchState) (w : RibSrc) (vrfId : Nat) :
    Option (WatchState × Option String) :=
  match s.sys.vrfLookupByIndex vrfId with
  | none => some (s, some (vrfNotFound vrfId))
  | some i => (redistWatcherRemove (s.watchers i t) w).map fun l => (s.setWatchers i t l, none)

/-- `Server.InterfaceSubscribe`. -/
def interfaceSubscribe (s : WatchState) (w : RibSrc) (vrfId : Nat) : WatchState × Option String :=
  s.watchSubscribe watchTypeInterface w vrfId

/-- `Server.InterfaceUnsubscribe`. -/
def interfaceUnsubscribe (s : WatchState) (w : RibSrc) (vrfId : Nat) :
    Option (WatchState × Option String) :=
  s.watchUnsubscribe watchTypeInterface w vrfId

/-- `Server.RouterIdSubscribe`. -/
def routerIdSubscribe (s : WatchState) (w : RibSrc) (vrfId : Nat) : WatchState × Option String :=
  s.watchSubscribe watchTypeRouterId w vrfId

/-- `Server.RouterIdUnsubscribe`. -/
def routerIdUnsubscribe (s : WatchState) (w : RibSrc) (vrfId : Nat) :
    Option (WatchState × Option String) :=
  s.watchUnsubscribe watchTypeRouterId w vrfId

/-- `Server.RedistSubscribe`: with `allVrf` the watcher joins `Redist[afi].typ[typ]` and
`RedistSync` runs on every VRF of `VrfMap`; otherwise `RedistSubscribe` on the VRF of `vrfId`. -/
def redistSubscribe (s : WatchState) (w : RibSrc) (allVrf : Bool) (vrfId : Nat) (afi : Afi)
    (typ : UInt8) : Option (WatchState × Option String) :=
  if allVrf then
    (redistTyp typ).bind fun r =>
      let wr := s.g.redist afi
      ((s.setRedist afi (wr.set r (redistWatcherAdd (wr.get r) w))).syncAll
        fun v => v.redistSync w afi typ).map (·, none)
  else s.onVrfId vrfId fun v => v.redistSubscribe w afi typ

/-- `Server.RedistUnsubscribe`. -/
def redistUnsubscribe (s : WatchState) (w : RibSrc) (allVrf : Bool) (vrfId : Nat) (afi : Afi)
    (typ : UInt8) : Option (WatchState × Option String) :=
  if allVrf then
    (redistTyp typ).bind fun r =>
      let wr := s.g.redist afi
      (redistWatcherRemove (wr.get r) w).map fun l => (s.setRedist afi (wr.set r l), none)
  else s.onVrfId vrfId fun v => (redistTyp typ).bind fun r => v.redistRemove afi r w

/-- `Server.RedistDefaultSubscribe`. -/
def redistDefaultSubscribe (s : WatchState) (w : RibSrc) (allVrf : Bool) (vrfId : Nat)
    (afi : Afi) : Option (WatchState × Option String) :=
  if allVrf then
    let wr := s.g.redist afi
    ((s.setRedist afi (wr.set .dflt (redistWatcherAdd wr.dflt w))).syncAll
      fun v => v.redistDefaultSync s.g w afi).map (·, none)
  else s.onVrfId vrfId fun v => some (v.redistDefaultSubscribe s.g w afi)

/-- `Server.RedistDefaultUnsubscribe`. -/
def redistDefaultUnsubscribe (s : WatchState) (w : RibSrc) (allVrf : Bool) (vrfId : Nat)
    (afi : Afi) : Option (WatchState × Option String) :=
  if allVrf then
    let wr := s.g.redist afi
    (redistWatcherRemove wr.dflt w).map fun l => (s.setRedist afi (wr.set .dflt l), none)
  else s.onVrfId vrfId fun v => v.redistRemove afi .dflt w

/-- `WatcherUnsubscribe` on one VRF of `VrfMap`: the watcher out of its `Watchers` of each type,
then out of its redistribution watchers. -/
def unsubscribeVrf (w : RibSrc) (s : WatchState) (i : Nat) : Option WatchState := do
  let ws ← (List.finRange watchTypeMax).foldlM
    (fun ws t => (redistWatcherRemove (ws t) w).map (Function.update ws t)) (s.watchers i)
  let sys ← s.sys.onVrf i fun v => (removeRedist v.redist w).map fun redist => { v with redist }
  pure { s with sys, watchers := Function.update s.watchers i ws }

/-- `RibClearSrc(src)`: `RibClean` on each VRF of `VrfMap`. -/
def ribClearSrc (s : WatchState) (src : RibSrc) : Option System :=
  s.vrfMap.foldlM (fun (sys : System) i => sys.onVrf i fun v => v.ribClean s.g src) s.sys

/-- `Server.WatcherUnsubscribe`: the watcher out of `Redist`, out of every list of each VRF of
`VrfMap`, and its routes out of those VRFs. -/
def watcherUnsubscribe (s : WatchState) (w : RibSrc) : Option (WatchState × Option String) := do
  let redist ← removeRedist s.g.redist w
  let s ← s.vrfMap.foldlM (unsubscribeVrf w) { s with g := { s.g with redist } }
  let sys ← s.ribClearSrc w
  pure ({ s with sys }, none)

end WatchState

/-- The watcher calls of the server. -/
inductive WatchCall
  | interfaceSubscribe (w : RibSrc) (vrfId : Nat)
  | interfaceUnsubscribe (w : RibSrc) (vrfId : Nat)
  | routerIdSubscribe (w : RibSrc) (vrfId : Nat)
  | routerIdUnsubscribe (w : RibSrc) (vrfId : Nat)
  | redistSubscribe (w : RibSrc) (allVrf : Bool) (vrfId : Nat) (afi : Afi) (typ : UInt8)
  | redistUnsubscribe (w : RibSrc) (allVrf : Bool) (vrfId : Nat) (afi : Afi) (typ : UInt8)
  | redistDefaultSubscribe (w : RibSrc) (allVrf : Bool) (vrfId : Nat) (afi : Afi)
  | redistDefaultUnsubscribe (w : RibSrc) (allVrf : Bool) (vrfId : Nat) (afi : Afi)
  | watcherUnsubscribe (w : RibSrc)

namespace WatchState

/-- A call: the state after it and its error, `none` where the code panics. -/
def call (s : WatchState) : WatchCall → Option (WatchState × Option String)
  | .interfaceSubscribe w vrfId => some (s.interfaceSubscribe w vrfId)
  | .interfaceUnsubscribe w vrfId => s.interfaceUnsubscribe w vrfId
  | .routerIdSubscribe w vrfId => some (s.routerIdSubscribe w vrfId)
  | .routerIdUnsubscribe w vrfId => s.routerIdUnsubscribe w vrfId
  | .redistSubscribe w allVrf vrfId afi typ => s.redistSubscribe w allVrf vrfId afi typ
  | .redistUnsubscribe w allVrf vrfId afi typ => s.redistUnsubscribe w allVrf vrfId afi typ
  | .redistDefaultSubscribe w allVrf vrfId afi => s.redistDefaultSubscribe w allVrf vrfId afi
  | .redistDefaultUnsubscribe w allVrf vrfId afi => s.redistDefaultUnsubscribe w allVrf vrfId afi
  | .watcherUnsubscribe w => s.watcherUnsubscribe w

/-- Calls one after the other; an error leaves the state for the next call. -/
def run (s : WatchState) (cs : List WatchCall) : Option WatchState :=
  cs.foldlM (fun s c => (s.call c).map Prod.fst) s

end WatchState

end Zebra
