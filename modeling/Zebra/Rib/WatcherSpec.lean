import Zebra.Lib.ListFamily
import Zebra.Rib.Watcher
import Zebra.Rib.ConnectedSystem
import Zebra.Rib.Clean

/-!
# The watcher registry over whole runs

What the watcher calls are for, list by list: each call names one list (`WatchCall.target`)
and subscribes its watcher there or takes it out, and `WatcherUnsubscribe` takes it out of the
lists of `Redist` and of every VRF of `VrfMap` (`WatchCall.effect`).  The step theorem
(`call_list`) says that each call changes every list by that effect and nothing else; by
induction over the run (`run_list`), a watcher is in a list exactly when the last call that
changed it there subscribed it.  Removal is `List.erase` on the lists without repeats that every
subscribe keeps, and `RibClearSrc` leaves no route of the watcher (`Zebra.Rib.Clean`), so after
a last `WatcherUnsubscribe(w)` nothing of `w` is left (`watcher_registry_invariant`).
-/

namespace Zebra

open Zebra.Netutil

/-! ### The lists of the server, one by one -/

/-- A watcher list of the server: a VRF object's watchers of a watch type, one of its
redistribution lists, or one of the lists of `Redist`. -/
inductive WatchList
  | watchers (vrf : Nat) (t : Fin watchTypeMax)
  | vrfRedist (vrf : Nat) (afi : Afi) (r : RedistList)
  | redist (afi : Afi) (r : RedistList)
deriving DecidableEq

/-- The VRF object a list belongs to; none for the lists of `Redist`. -/
def WatchList.vrf? : WatchList → Option Nat
  | .watchers i _ => some i
  | .vrfRedist i _ _ => some i
  | .redist _ _ => none

/-- The list `L` of the state; a VRF object that does not exist has empty lists. -/
def WatchState.list (s : WatchState) : WatchList → List RibSrc
  | .watchers i t => s.watchers i t
  | .vrfRedist i afi r => ((s.sys.vrfs[i]?).map fun v => (v.redist afi).get r).getD []
  | .redist afi r => (s.g.redist afi).get r

namespace WatchCall

/-- The watcher a call names. -/
def watcher : WatchCall → RibSrc
  | .interfaceSubscribe w _ | .interfaceUnsubscribe w _ | .routerIdSubscribe w _
  | .routerIdUnsubscribe w _ | .redistSubscribe w _ _ _ _ | .redistUnsubscribe w _ _ _ _
  | .redistDefaultSubscribe w _ _ _ | .redistDefaultUnsubscribe w _ _ _
  | .watcherUnsubscribe w => w

def isSubscribe : WatchCall → Bool
  | .interfaceSubscribe .. | .routerIdSubscribe .. | .redistSubscribe ..
  | .redistDefaultSubscribe .. => true
  | _ => false

/-- The list of `Redist`, or of the VRF of `vrfId`, a redistribution call names. -/
def redistTarget (lookup : Nat → Option Nat) (allVrf : Bool) (vrfId : Nat) (afi : Afi)
    (r : RedistList) : Option WatchList :=
  if allVrf then some (.redist afi r) else (lookup vrfId).map fun i => .vrfRedist i afi r

/-- The one list a subscribe or an unsubscribe names, its VRF found by `lookup`
(`VrfLookupByIndex`): none when the VRF is not found, and for `WatcherUnsubscribe`. -/
def target (lookup : Nat → Option Nat) : WatchCall → Option WatchList
  | .interfaceSubscribe _ vrfId | .interfaceUnsubscribe _ vrfId =>
    (lookup vrfId).map (.watchers · watchTypeInterface)
  | .routerIdSubscribe _ vrfId | .routerIdUnsubscribe _ vrfId =>
    (lookup vrfId).map (.watchers · watchTypeRouterId)
  | .redistSubscribe _ allVrf vrfId afi typ | .redistUnsubscribe _ allVrf vrfId afi typ =>
    (redistTyp typ).bind (redistTarget lookup allVrf vrfId afi)
  | .redistDefaultSubscribe _ allVrf vrfId afi | .redistDefaultUnsubscribe _ allVrf vrfId afi =>
    redistTarget lookup allVrf vrfId afi .dflt
  | .watcherUnsubscribe _ => none

/-- What a call does to watcher `w` in list `L`: `some true` subscribes it, `some false`
unsubscribes it, `none` leaves it.  `WatcherUnsubscribe` unsubscribes it from
the lists of `Redist` and of the VRF objects of `vrfMap`. -/
def effect (lookup : Nat → Option Nat) (vrfMap : List Nat) (L : WatchList) (w : RibSrc)
    (c : WatchCall) : Option Bool :=
  if c.watcher = w then
    match c with
    | .watcherUnsubscribe _ => if L.vrf?.all (· ∈ vrfMap) then some false else none
    | c => if c.target lookup = some L then some c.isSubscribe else none
  else none

end WatchCall

/-- The list after an effect on watcher `w`: a subscribe adds it unless it is there, an
unsubscribe takes it out. -/
def applyEffect (w : RibSrc) (l : List RibSrc) : Option Bool → List RibSrc
  | some true => redistWatcherAdd l w
  | some false => l.erase w
  | none => l

section Lists

variable {w x : RibSrc} {l : List RibSrc}

lemma mem_redistWatcherAdd : x ∈ redistWatcherAdd l w ↔ x = w ∨ x ∈ l := by
  unfold redistWatcherAdd
  split
  · next h =>
    -- the watcher is in the list already
    have hw : w ∈ l := by simpa using h
    exact ⟨Or.inr, by rintro (rfl | hx); exacts [hw, hx]⟩
  · simp [or_comm]

lemma nodup_redistWatcherAdd (h : l.Nodup) : (redistWatcherAdd l w).Nodup := by
  unfold redistWatcherAdd
  split
  · exact h
  · next hw =>
    have hw' : w ∉ l := by simpa using hw
    exact h.append (List.nodup_singleton w) (List.disjoint_singleton.2 hw')

/-- A list without repeats keeps none when the watcher may have been taken out. -/
lemma nodup_erase_if (h : l.Nodup) (p : Prop) [Decidable p] :
    (if p then l.erase w else l).Nodup := by
  split_ifs
  · exact h.erase w
  · exact h

lemma nodup_applyEffect (h : l.Nodup) (e : Option Bool) : (applyEffect w l e).Nodup := by
  rcases e with _ | _ | _
  · exact h
  · exact h.erase w
  · exact nodup_redistWatcherAdd h

/-- Membership after an effect: the watcher's is the effect's, or what it was when there is
none; every other watcher's stays. -/
lemma decide_mem_applyEffect (h : l.Nodup) (e : Option Bool) :
    decide (x ∈ applyEffect w l e) = if x = w then e.getD (decide (x ∈ l)) else decide (x ∈ l) := by
  by_cases hx : x = w
  · subst hx
    rcases e with _ | _ | _
    · rw [if_pos rfl]
      exact decide_eq_decide.2 Iff.rfl
    · simp [applyEffect, h.not_mem_erase]
    · simp [applyEffect, mem_redistWatcherAdd]
  · rcases e with _ | _ | _
    · rw [if_neg hx]
      exact decide_eq_decide.2 Iff.rfl
    · simp [applyEffect, hx, h.mem_erase_iff]
    · simp [applyEffect, hx, mem_redistWatcherAdd]

end Lists

/-! ### Changes that keep the redistribution lists -/

namespace Vrf

lemma cleanNode_redist {g : Globals} {src : RibSrc} {afi : Afi} {v v' : Vrf}
    {n : PtreeNode RibSlice} (h : cleanNode g src afi v n = some v') : v'.redist = v.redist := by
  rcases cleanNode_eq_some h with ⟨-, rfl⟩ | ⟨-, hp⟩
  · rfl
  · obtain ⟨_, -, rfl⟩ := process_eq_some hp
    rfl

lemma foldlM_cleanNode_redist {g : Globals} {src : RibSrc} {afi : Afi} :
    ∀ (ns : List (PtreeNode RibSlice)) (v v' : Vrf),
      ns.foldlM (cleanNode g src afi) v = some v' → v'.redist = v.redist
  | [], v, v', h => by cases h; rfl
  | n :: ns, v, v', h => by
    rw [List.foldlM_cons] at h
    obtain ⟨v₁, h₁, h⟩ := Option.bind_eq_some_iff.1 h
    rw [foldlM_cleanNode_redist ns v₁ v' h, cleanNode_redist h₁]

/-- `RibClean` changes routes only. -/
lemma ribClean_redist {g : Globals} {v v' : Vrf} {src : RibSrc} (h : v.ribClean g src = some v') :
    v'.redist = v.redist := by
  obtain ⟨v₁, h₁, h₂⟩ := ribClean_eq_some h
  rw [foldlM_cleanNode_redist _ _ _ h₂, foldlM_cleanNode_redist _ _ _ h₁]

end Vrf

namespace System

/-- `sys'` has the `VrfTable`, the number of VRF objects and the redistribution watchers of
`sys`. -/
structure RedistSame (sys sys' : System) : Prop where
  vrfTable : sys'.vrfTable = sys.vrfTable
  length : sys'.vrfs.length = sys.vrfs.length
  redist : ∀ i : Nat, (sys'.vrfs[i]?).map Vrf.redist = (sys.vrfs[i]?).map Vrf.redist

lemma RedistSame.trans {sys₁ sys₂ sys₃ : System} (h₁ : RedistSame sys₁ sys₂)
    (h₂ : RedistSame sys₂ sys₃) : RedistSame sys₁ sys₃ :=
  ⟨h₂.vrfTable.trans h₁.vrfTable, h₂.length.trans h₁.length,
    fun i => (h₂.redist i).trans (h₁.redist i)⟩

lemma redistSame_onVrf {sys sys' : System} {i : Nat} {f : Vrf → Option Vrf}
    (hf : ∀ v v', f v = some v' → v'.redist = v.redist) (h : sys.onVrf i f = some sys') :
    RedistSame sys sys' := by
  obtain ⟨v, v', hv, hv', rfl⟩ := onVrf_eq_some h
  refine ⟨rfl, List.length_set, fun j => ?_⟩
  rw [List.getElem?_set]
  split_ifs with hij hlt
  · subst hij
    rw [hv, Option.map_some, Option.map_some, hf v v' hv']
  · exact absurd (List.getElem?_eq_some_iff.1 hv).1 (by omega)
  · rfl

/-- A run of changes of VRF objects, each keeping the redistribution watchers, keeps them. -/
lemma redistSame_foldlM {F : Nat → Vrf → Option Vrf}
    (hF : ∀ i v v', F i v = some v' → v'.redist = v.redist) :
    ∀ (is : List Nat) (sys sys' : System),
      is.foldlM (fun sys i => sys.onVrf i (F i)) sys = some sys' → RedistSame sys sys'
  | [], sys, sys', h => by
    cases h
    exact ⟨rfl, rfl, fun _ => rfl⟩
  | i :: is, sys, sys', h => by
    rw [List.foldlM_cons] at h
    obtain ⟨sys₁, h₁, h⟩ := Option.bind_eq_some_iff.1 h
    exact (redistSame_onVrf (hF i) h₁).trans (redistSame_foldlM hF is sys₁ sys' h)

end System

/-! ### The calls, list by list -/

namespace WatchState

variable {s s' s₁ s₂ : WatchState}

/-- `s'` has the VRF configuration of `s`: its `VrfTable`, its `VrfMap` and as many VRF
objects. -/
structure SameVrfs (s s' : WatchState) : Prop where
  vrfTable : s'.sys.vrfTable = s.sys.vrfTable
  vrfMap : s'.vrfMap = s.vrfMap
  length : s'.sys.vrfs.length = s.sys.vrfs.length

lemma SameVrfs.refl (s : WatchState) : SameVrfs s s := ⟨rfl, rfl, rfl⟩

lemma SameVrfs.trans (h₁ : SameVrfs s s₁) (h₂ : SameVrfs s₁ s₂) : SameVrfs s s₂ :=
  ⟨h₂.vrfTable.trans h₁.vrfTable, h₂.vrfMap.trans h₁.vrfMap, h₂.length.trans h₁.length⟩

lemma SameVrfs.lookup (h : SameVrfs s s') :
    s'.sys.vrfLookupByIndex = s.sys.vrfLookupByIndex := by
  funext vrfId
  simp only [System.vrfLookupByIndex, h.vrfTable]

lemma list_setWatchers (i : Nat) (t : Fin watchTypeMax) (l : List RibSrc) (L : WatchList) :
    (s.setWatchers i t l).list L = if L = .watchers i t then l else s.list L := by
  cases L with
  | watchers j t' =>
    by_cases hj : j = i
    · subst hj
      by_cases ht : t' = t
      · subst ht
        simp [setWatchers, list]
      · simp [setWatchers, list, ht]
    · simp [setWatchers, list, hj]
  | vrfRedist => rfl
  | redist => rfl

lemma list_setRedist (afi : Afi) (r : RedistList) (l : List RibSrc) (L : WatchList) :
    (s.setRedist afi ((s.g.redist afi).set r l)).list L =
      if L = .redist afi r then l else s.list L := by
  cases L with
  | redist afi' r' =>
    by_cases ha : afi' = afi
    · subst ha
      by_cases hr : r' = r
      · subst hr
        simp [setRedist, list]
      · simp [setRedist, list, hr]
    · simp [setRedist, list, ha]
  | watchers => rfl
  | vrfRedist => rfl

/-- The VRF objects changed keeping the redistribution watchers: every list stays. -/
lemma list_of_redistSame {sys : System} (h : System.RedistSame s.sys sys) (L : WatchList) :
    ({ s with sys }).list L = s.list L := by
  cases L with
  | vrfRedist i afi r =>
    have hi := h.redist i
    simp only [list]
    cases hv : s.sys.vrfs[i]? <;> cases hv' : sys.vrfs[i]? <;> simp_all
  | watchers => rfl
  | redist => rfl

lemma sameVrfs_of_redistSame {sys : System} (h : System.RedistSame s.sys sys) :
    SameVrfs s { s with sys } :=
  ⟨h.vrfTable, rfl, h.length⟩

/-- A change of VRF object `i` that sets its list `r` of `redist[afi]` to `F` of what it was. -/
lemma list_onVrf {i : Nat} {f : Vrf → Option Vrf} {sys : System} {afi : Afi} {r : RedistList}
    {F : List RibSrc → List RibSrc}
    (hf : ∀ v v', s.sys.vrfs[i]? = some v → f v = some v' →
      v'.redist = Function.update v.redist afi ((v.redist afi).set r (F ((v.redist afi).get r))))
    (h : s.sys.onVrf i f = some sys) (L : WatchList) :
    ({ s with sys }).list L = if L = .vrfRedist i afi r then F (s.list L) else s.list L := by
  obtain ⟨v, v', hv, hv', rfl⟩ := System.onVrf_eq_some h
  have hlt := (List.getElem?_eq_some_iff.1 hv).1
  cases L with
  | vrfRedist j afi' r' =>
    by_cases hj : j = i
    · subst hj
      simp only [list, List.getElem?_set_self hlt, hv, Option.map_some, Option.getD_some,
        hf v v' hv hv', Function.update_apply, WatchList.vrfRedist.injEq, true_and]
      by_cases ha : afi' = afi
      · subst ha
        by_cases hr : r' = r <;> simp [hr]
      · simp [ha]
    · simp [list, List.getElem?_set_ne (Ne.symm hj), hj]
  | watchers => rfl
  | redist => rfl

lemma sameVrfs_onVrf {i : Nat} {f : Vrf → Option Vrf} {sys : System}
    (h : s.sys.onVrf i f = some sys) : SameVrfs s { s with sys } := by
  obtain ⟨v, v', -, -, rfl⟩ := System.onVrf_eq_some h
  exact ⟨rfl, rfl, List.length_set⟩

end WatchState

namespace Vrf

lemma redistSubscribe_redist {v v' : Vrf} {w : RibSrc} {afi : Afi} {typ : UInt8}
    {r : RedistList} (hr : redistTyp typ = some r) (h : v.redistSubscribe w afi typ = some v') :
    v'.redist = Function.update v.redist afi
      ((v.redist afi).set r (redistWatcherAdd ((v.redist afi).get r) w)) := by
  unfold redistSubscribe at h
  split at h
  · next hlt =>
    cases h
    rw [redistTyp, dif_pos hlt, Option.some.injEq] at hr
    subst hr
    rfl
  · cases h

lemma redistSubscribe_of_redistTyp {v : Vrf} {w : RibSrc} {afi : Afi} {typ : UInt8}
    (hr : redistTyp typ = none) : v.redistSubscribe w afi typ = none := by
  unfold redistTyp at hr
  unfold redistSubscribe
  split
  · simp_all
  · rfl

end Vrf

namespace WatchState

variable {s s' s₁ : WatchState} {w : RibSrc} {vrfId : Nat} {err : Option String}

/-- `s'` is `s` with the list `T` names, when it names one, changed by the effect `e` on watcher
`w`, and nothing else of the lists or of the VRFs changed. -/
structure ChangesList (w : RibSrc) (T : Option WatchList) (e : Bool) (s s' : WatchState) :
    Prop where
  list : ∀ L, s'.list L = if T = some L then applyEffect w (s.list L) (some e) else s.list L
  same : SameVrfs s s'

lemma ChangesList.refl (w : RibSrc) (e : Bool) (s : WatchState) : ChangesList w none e s s :=
  ⟨fun L => by simp, SameVrfs.refl s⟩

/-- A change of the VRF objects that keeps their redistribution watchers, after a change of a
list. -/
lemma ChangesList.redistSame {T : Option WatchList} {e : Bool} (h : ChangesList w T e s s₁)
    {sys : System} (hs : System.RedistSame s₁.sys sys) : ChangesList w T e s { s₁ with sys } :=
  ⟨fun L => by rw [list_of_redistSame hs, h.list], h.same.trans (sameVrfs_of_redistSame hs)⟩

lemma syncAll_eq_some {sync : Vrf → List Call} (h : s.syncAll sync = some s') :
    ∃ sys, System.RedistSame s.sys sys ∧ s' = { s with sys } := by
  obtain ⟨sys, hsys, rfl⟩ := Option.map_eq_some_iff.1 h
  exact ⟨sys, System.redistSame_foldlM (fun _ _ _ h => by cases h; rfl) _ _ _ hsys, rfl⟩

/-- An all-VRF subscribe returns the state its sync leaves, with no error. -/
lemma map_syncAll_eq_some {sync : Vrf → List Call}
    (h : (s.syncAll sync).map (·, none) = some (s', err)) : s.syncAll sync = some s' := by
  obtain ⟨s₁, hs₁, hs'⟩ := Option.map_eq_some_iff.1 h
  cases hs'
  exact hs₁

lemma setWatchers_changes {i : Nat} {t : Fin watchTypeMax} {e : Bool} :
    ChangesList w (some (.watchers i t)) e s
      (s.setWatchers i t (applyEffect w (s.watchers i t) (some e))) := by
  refine ⟨fun L => ?_, ⟨rfl, rfl, rfl⟩⟩
  rw [list_setWatchers]
  by_cases hL : L = .watchers i t
  · subst hL
    simp [list]
  · simp [hL, Ne.symm hL]

lemma setRedist_changes {afi : Afi} {r : RedistList} {e : Bool} :
    ChangesList w (some (.redist afi r)) e s
      (s.setRedist afi ((s.g.redist afi).set r (applyEffect w ((s.g.redist afi).get r) (some e)))) := by
  refine ⟨fun L => ?_, ⟨rfl, rfl, rfl⟩⟩
  rw [list_setRedist]
  by_cases hL : L = .redist afi r
  · subst hL
    simp [list]
  · simp [hL, Ne.symm hL]

/-- A change of the VRF of `vrfId` that applies the effect to its list `r` of `redist[afi]`. -/
lemma onVrfId_changes {f : Vrf → Option Vrf} {afi : Afi} {r : RedistList} {e : Bool}
    (hf : ∀ (i : Nat) v v', s.sys.vrfs[i]? = some v → f v = some v' →
      v'.redist = Function.update v.redist afi
        ((v.redist afi).set r (applyEffect w ((v.redist afi).get r) (some e))))
    (h : s.onVrfId vrfId f = some (s', err)) :
    ChangesList w ((s.sys.vrfLookupByIndex vrfId).map (.vrfRedist · afi r)) e s s' := by
  unfold onVrfId at h
  cases hi : s.sys.vrfLookupByIndex vrfId with
  | none =>
    rw [hi] at h
    cases h
    exact ChangesList.refl w e s
  | some i =>
    rw [hi] at h
    obtain ⟨sys, hsys, hs'⟩ := Option.map_eq_some_iff.1 h
    cases hs'
    refine ⟨fun L => ?_, sameVrfs_onVrf hsys⟩
    rw [list_onVrf (F := fun l => applyEffect w l (some e)) (hf i) hsys, Option.map_some]
    by_cases hL : L = .vrfRedist i afi r
    · subst hL
      simp
    · simp [hL, Ne.symm hL]

/-- A call whose VRF is not found changes nothing, and one that names no VRF has none to find. -/
lemma onVrfId_of_none {f : Vrf → Option Vrf} (hf : ∀ v, f v = none)
    (h : s.onVrfId vrfId f = some (s', err)) : s' = s := by
  unfold onVrfId at h
  split at h
  · cases h
    rfl
  · simp [System.onVrf, hf] at h

end WatchState

namespace Vrf

lemma redistRemove_redist {v v' : Vrf} {afi : Afi} {r : RedistList} {w : RibSrc}
    (hnd : ((v.redist afi).get r).Nodup) (h : v.redistRemove afi r w = some v') :
    v'.redist = Function.update v.redist afi ((v.redist afi).set r (((v.redist afi).get r).erase w)) := by
  rw [redistRemove, redistWatcherRemove_eq_erase hnd, Option.map_some, Option.some.injEq] at h
  subst h
  rfl

end Vrf

namespace WatchState

variable {s s' : WatchState} {w : RibSrc} {vrfId : Nat} {err : Option String}

lemma list_vrfRedist_of {i : Nat} {v : Vrf} (hv : s.sys.vrfs[i]? = some v) (afi : Afi)
    (r : RedistList) : s.list (.vrfRedist i afi r) = (v.redist afi).get r := by
  simp [list, hv]

section Calls

variable (hnd : ∀ L, (s.list L).Nodup)
include hnd

lemma watchUnsubscribe_changes {t : Fin watchTypeMax}
    (h : s.watchUnsubscribe t w vrfId = some (s', err)) :
    ChangesList w ((s.sys.vrfLookupByIndex vrfId).map (.watchers · t)) false s s' := by
  unfold watchUnsubscribe at h
  cases hi : s.sys.vrfLookupByIndex vrfId with
  | none =>
    rw [hi] at h
    cases h
    exact ChangesList.refl w false s
  | some i =>
    have hw : (s.watchers i t).Nodup := hnd (.watchers i t)
    simp only [hi, redistWatcherRemove_eq_erase hw, Option.map_some, Option.some.injEq,
      Prod.mk.injEq] at h
    obtain ⟨rfl, -⟩ := h
    exact setWatchers_changes

lemma redistUnsubscribe_changes {allVrf : Bool} {afi : Afi} {typ : UInt8}
    (h : s.redistUnsubscribe w allVrf vrfId afi typ = some (s', err)) :
    ChangesList w ((redistTyp typ).bind
      (WatchCall.redistTarget s.sys.vrfLookupByIndex allVrf vrfId afi)) false s s' := by
  unfold redistUnsubscribe at h
  cases hr : redistTyp typ with
  | none =>
    cases allVrf
    · simp only [Bool.false_eq_true, if_false, hr, Option.bind_none] at h
      obtain rfl := onVrfId_of_none (fun _ => rfl) h
      exact ChangesList.refl _ _ _
    · simp [hr] at h
  | some r =>
    cases allVrf
    · simp only [Bool.false_eq_true, if_false, hr, Option.bind_some] at h
      simp only [Option.bind_some, WatchCall.redistTarget, Bool.false_eq_true, if_false]
      refine onVrfId_changes (fun i v v' hv hv' => ?_) h
      exact Vrf.redistRemove_redist (list_vrfRedist_of hv afi r ▸ hnd _) hv'
    · have hw : ((s.g.redist afi).get r).Nodup := hnd (.redist afi r)
      simp only [if_true, hr, Option.bind_some, redistWatcherRemove_eq_erase hw,
        Option.map_some, Option.some.injEq, Prod.mk.injEq] at h
      obtain ⟨rfl, -⟩ := h
      exact setRedist_changes

lemma redistDefaultUnsubscribe_changes {allVrf : Bool} {afi : Afi}
    (h : s.redistDefaultUnsubscribe w allVrf vrfId afi = some (s', err)) :
    ChangesList w (WatchCall.redistTarget s.sys.vrfLookupByIndex allVrf vrfId afi .dflt) false
      s s' := by
  unfold redistDefaultUnsubscribe at h
  cases allVrf
  · simp only [Bool.false_eq_true, if_false] at h
    simp only [WatchCall.redistTarget, Bool.false_eq_true, if_false]
    refine onVrfId_changes (fun i v v' hv hv' => ?_) h
    exact Vrf.redistRemove_redist (list_vrfRedist_of hv afi .dflt ▸ hnd _) hv'
  · have hw : (s.g.redist afi).dflt.Nodup := hnd (.redist afi .dflt)
    simp only [if_true, redistWatcherRemove_eq_erase hw, Option.map_some, Option.some.injEq,
      Prod.mk.injEq] at h
    obtain ⟨rfl, -⟩ := h
    exact setRedist_changes

end Calls

lemma watchSubscribe_changes (t : Fin watchTypeMax) :
    ChangesList w ((s.sys.vrfLookupByIndex vrfId).map (.watchers · t)) true s
      (s.watchSubscribe t w vrfId).1 := by
  unfold watchSubscribe
  cases s.sys.vrfLookupByIndex vrfId with
  | none => exact ChangesList.refl w true s
  | some i => exact setWatchers_changes

lemma redistSubscribe_changes {allVrf : Bool} {afi : Afi} {typ : UInt8}
    (h : s.redistSubscribe w allVrf vrfId afi typ = some (s', err)) :
    ChangesList w ((redistTyp typ).bind
      (WatchCall.redistTarget s.sys.vrfLookupByIndex allVrf vrfId afi)) true s s' := by
  unfold redistSubscribe at h
  cases hr : redistTyp typ with
  | none =>
    cases allVrf
    · simp only [Bool.false_eq_true, if_false] at h
      obtain rfl := onVrfId_of_none (fun _ => Vrf.redistSubscribe_of_redistTyp hr) h
      exact ChangesList.refl _ _ _
    · simp [hr] at h
  | some r =>
    cases allVrf
    · simp only [Bool.false_eq_true, if_false] at h
      simp only [Option.bind_some, WatchCall.redistTarget, Bool.false_eq_true, if_false]
      exact onVrfId_changes (fun _ _ _ _ hv' => Vrf.redistSubscribe_redist hr hv') h
    · simp only [if_true, hr, Option.bind_some] at h
      obtain ⟨sys, hsys, rfl⟩ := syncAll_eq_some (map_syncAll_eq_some h)
      exact setRedist_changes.redistSame hsys

lemma redistDefaultSubscribe_changes {allVrf : Bool} {afi : Afi}
    (h : s.redistDefaultSubscribe w allVrf vrfId afi = some (s', err)) :
    ChangesList w (WatchCall.redistTarget s.sys.vrfLookupByIndex allVrf vrfId afi .dflt) true
      s s' := by
  unfold redistDefaultSubscribe at h
  cases allVrf
  · simp only [Bool.false_eq_true, if_false] at h
    simp only [WatchCall.redistTarget, Bool.false_eq_true, if_false]
    refine onVrfId_changes (fun _ v v' _ hv' => ?_) h
    cases hv'
    rfl
  · simp only [if_true] at h
    obtain ⟨sys, hsys, rfl⟩ := syncAll_eq_some (map_syncAll_eq_some h)
    exact setRedist_changes.redistSame hsys

end WatchState

/-! ### `WatcherUnsubscribe`, list by list -/

namespace WatcherRedist

/-- `WatcherUnsubscribe` on one `WatcherRedist` whose lists have no duplicates: the watcher out
of every list. -/
lemma removeAll_get {wr wr' : WatcherRedist} {w : RibSrc} (hnd : ∀ r, (wr.get r).Nodup)
    (h : wr.removeAll w = some wr') (r : RedistList) : wr'.get r = (wr.get r).erase w := by
  have hd : wr.dflt.Nodup := hnd .dflt
  simp only [removeAll, redistWatcherRemove_eq_erase hd, Option.bind_eq_bind,
    Option.bind_some] at h
  have hnd₁ : ∀ r, ((wr.set .dflt (wr.dflt.erase w)).get r).Nodup := by
    intro r
    rw [get_set]
    split_ifs
    · exact hd.erase w
    · exact hnd r
  -- the lists of the types are erased one type after the other, `def` before them
  rw [Lib.foldlM_erase get set RedistList.typ get_set
    (fun l hl => redistWatcherRemove_eq_erase hl w) (List.finRange ribMax) _ wr' hnd₁ h r]
  cases r with
  | typ t => simp [List.mem_finRange, get_set]
  | dflt => simp [get, set]

end WatcherRedist

lemma removeRedist_get {redist redist' : Afi → WatcherRedist} {w : RibSrc}
    (hnd : ∀ afi r, ((redist afi).get r).Nodup) (h : removeRedist redist w = some redist')
    (afi : Afi) (r : RedistList) : (redist' afi).get r = ((redist afi).get r).erase w := by
  obtain ⟨wr, hwr, h⟩ := Option.bind_eq_some_iff.1 h
  obtain ⟨wr6, hwr6, h⟩ := Option.bind_eq_some_iff.1 h
  cases h
  cases afi with
  | ip => simp [WatcherRedist.removeAll_get (hnd .ip) hwr]
  | ip6 => simp [WatcherRedist.removeAll_get (hnd .ip6) hwr6]

namespace System

/-- What `onVrf` did: `f` on object `i`, which exists, and the other objects as they were. -/
lemma getElem?_onVrf {sys sys' : System} {i : Nat} {f : Vrf → Option Vrf}
    (h : sys.onVrf i f = some sys') :
    ∃ v v', sys.vrfs[i]? = some v ∧ f v = some v' ∧
      ∀ j, sys'.vrfs[j]? = if j = i then some v' else sys.vrfs[j]? := by
  obtain ⟨v, v', hv, hv', rfl⟩ := onVrf_eq_some h
  refine ⟨v, v', hv, hv', fun j => ?_⟩
  by_cases hj : j = i
  · subst hj
    rw [if_pos rfl, List.getElem?_set_self (List.getElem?_eq_some_iff.1 hv).1]
  · rw [if_neg hj, List.getElem?_set_ne (Ne.symm hj)]

end System

namespace WatchState

variable {s s' : WatchState} {w : RibSrc} {err : Option String}

/-- `WatcherUnsubscribe` on VRF object `i`: the watcher out of each of its lists. -/
lemma unsubscribeVrf_list (hnd : ∀ L, (s.list L).Nodup) {i : Nat}
    (h : unsubscribeVrf w s i = some s') :
    SameVrfs s s' ∧ ∀ L, s'.list L = if L.vrf? = some i then (s.list L).erase w else s.list L := by
  obtain ⟨ws, hws, h⟩ := Option.bind_eq_some_iff.1 h
  obtain ⟨sys, hsys, h⟩ := Option.bind_eq_some_iff.1 h
  cases h
  obtain ⟨v, v', hv, hv', hget⟩ := System.getElem?_onVrf hsys
  obtain ⟨redist, hredist, rfl⟩ := Option.map_eq_some_iff.1 hv'
  -- its watchers of each type, one type after the other
  have hws' : ∀ t, ws t = (s.watchers i t).erase w := by
    intro t
    have := Lib.foldlM_erase (fun (ws : Fin watchTypeMax → List RibSrc) t => ws t)
      Function.update id (fun ws t t' l => Function.update_apply ws t l t')
      (fun l hl => redistWatcherRemove_eq_erase hl w) (List.finRange watchTypeMax) _ ws
      (fun t => hnd (.watchers i t)) hws t
    simpa [List.mem_finRange, list] using this
  have hredist' := removeRedist_get
    (fun afi r => list_vrfRedist_of hv afi r ▸ hnd (.vrfRedist i afi r)) hredist
  have hsame := sameVrfs_onVrf hsys
  refine ⟨⟨hsame.vrfTable, rfl, hsame.length⟩, fun L => ?_⟩
  cases L with
  | watchers j t =>
    by_cases hj : j = i
    · subst hj
      simp [list, WatchList.vrf?, hws']
    · simp [list, WatchList.vrf?, hj]
  | vrfRedist j afi r =>
    by_cases hj : j = i
    · subst hj
      simp [list, WatchList.vrf?, hget, hv, hredist']
    · simp [list, WatchList.vrf?, hget, hj]
  | redist afi r => simp [list, WatchList.vrf?]

/-- `WatcherUnsubscribe` over the VRF objects `is`: the watcher out of each of their lists. -/
lemma foldlM_unsubscribeVrf {is : List Nat} (hnd : ∀ L, (s.list L).Nodup)
    (h : is.foldlM (unsubscribeVrf w) s = some s') :
    SameVrfs s s' ∧ ∀ L, s'.list L =
      if ∃ i ∈ is, L.vrf? = some i then (s.list L).erase w else s.list L := by
  induction is generalizing s with
  | nil =>
    cases h
    exact ⟨SameVrfs.refl _, fun L => by simp⟩
  | cons i is ih =>
    obtain ⟨s₁, h₁, h⟩ := Option.bind_eq_some_iff.1 h
    obtain ⟨hsame₁, hl₁⟩ := unsubscribeVrf_list hnd h₁
    have hnd₁ : ∀ L, (s₁.list L).Nodup := by
      intro L
      rw [hl₁]
      exact nodup_erase_if (hnd L) _
    obtain ⟨hsame, hl⟩ := ih hnd₁ h
    refine ⟨hsame₁.trans hsame, fun L => ?_⟩
    rw [hl, hl₁]
    -- an object visited twice loses the watcher once
    by_cases hi : L.vrf? = some i
    · simp [hi, Lib.erase_erase_of_nodup (hnd L)]
    · simp [hi]

/-- `WatcherUnsubscribe(w)`: the watcher out of the lists of `Redist` and of every VRF object of
`VrfMap`, and the VRF configuration kept. -/
lemma watcherUnsubscribe_list (hnd : ∀ L, (s.list L).Nodup)
    (h : s.watcherUnsubscribe w = some (s', err)) :
    SameVrfs s s' ∧ ∀ L, s'.list L =
      if L.vrf?.all (· ∈ s.vrfMap) then (s.list L).erase w else s.list L := by
  obtain ⟨redist, hredist, h⟩ := Option.bind_eq_some_iff.1 h
  obtain ⟨s₁, hs₁, h⟩ := Option.bind_eq_some_iff.1 h
  obtain ⟨sys, hsys, h⟩ := Option.bind_eq_some_iff.1 h
  cases h
  -- first the lists of `Redist`
  have hredist' := removeRedist_get (fun afi r => hnd (.redist afi r)) hredist
  have hl₀ : ∀ L, ({ s with g := { s.g with redist } } : WatchState).list L =
      if L.vrf? = none then (s.list L).erase w else s.list L := by
    intro L
    cases L <;> simp [list, WatchList.vrf?, hredist']
  have hnd₀ : ∀ L, (({ s with g := { s.g with redist } } : WatchState).list L).Nodup := by
    intro L
    rw [hl₀]
    exact nodup_erase_if (hnd L) _
  -- then the lists of each VRF object of `VrfMap`; the routes of the watcher go last
  obtain ⟨hsame₁, hl₁⟩ := foldlM_unsubscribeVrf hnd₀ hs₁
  have hrs := System.redistSame_foldlM (fun _ _ _ h => Vrf.ribClean_redist h) _ _ _ hsys
  refine ⟨((⟨rfl, rfl, rfl⟩ : SameVrfs s { s with g := { s.g with redist } }).trans
    hsame₁).trans (sameVrfs_of_redistSame hrs), fun L => ?_⟩
  rw [list_of_redistSame hrs, hl₁, hl₀]
  cases L.vrf? with
  | none => simp
  | some i => simp

end WatchState

namespace WatchCall

variable {lookup : Nat → Option Nat} {vrfMap : List Nat} {L : WatchList}

/-- A call has no effect on a watcher it does not name. -/
lemma effect_of_ne {c : WatchCall} {x : RibSrc} (hx : c.watcher ≠ x) :
    c.effect lookup vrfMap L x = none := by
  unfold effect
  rw [if_neg hx]

/-- The effect of a call other than `WatcherUnsubscribe` on the watcher it names is on its
target. -/
lemma effect_of_target {c : WatchCall} (hc : ∀ w, c ≠ .watcherUnsubscribe w) :
    c.effect lookup vrfMap L c.watcher =
      if c.target lookup = some L then some c.isSubscribe else none := by
  unfold effect
  rw [if_pos rfl]
  cases c <;> first | rfl | exact absurd rfl (hc _)

lemma effect_watcherUnsubscribe (w : RibSrc) :
    (watcherUnsubscribe w).effect lookup vrfMap L w =
      if L.vrf?.all (· ∈ vrfMap) then some false else none := by
  unfold effect
  rw [if_pos (show (watcherUnsubscribe w).watcher = w from rfl)]

/-- Whether a watcher is in a list after a call, read off the call's effect on that watcher. -/
lemma getD_effect (c : WatchCall) (x : RibSrc) (b : Bool) :
    (if x = c.watcher then (c.effect lookup vrfMap L c.watcher).getD b else b) =
      (c.effect lookup vrfMap L x).getD b := by
  by_cases hx : x = c.watcher
  · rw [if_pos hx, hx]
  · rw [if_neg hx, effect_of_ne (Ne.symm hx)]
    rfl

end WatchCall

namespace WatchState

variable {s s' : WatchState} {err : Option String}

/-- A change of one list by a call other than `WatcherUnsubscribe`, as the call's effect. -/
lemma ChangesList.effect {c : WatchCall} (hc : ∀ w, c ≠ .watcherUnsubscribe w)
    (h : ChangesList c.watcher (c.target s.sys.vrfLookupByIndex) c.isSubscribe s s') :
    SameVrfs s s' ∧ ∀ L, s'.list L = applyEffect c.watcher (s.list L)
      (c.effect s.sys.vrfLookupByIndex s.vrfMap L c.watcher) := by
  refine ⟨h.same, fun L => ?_⟩
  rw [h.list, WatchCall.effect_of_target hc]
  split_ifs <;> rfl

/-- One call from a state whose lists have no duplicates: every list changes by the call's
effect on the watcher it names, and the VRF configuration stays. -/
theorem call_list (hnd : ∀ L, (s.list L).Nodup) {c : WatchCall}
    (h : s.call c = some (s', err)) :
    SameVrfs s s' ∧ ∀ L, s'.list L = applyEffect c.watcher (s.list L)
      (c.effect s.sys.vrfLookupByIndex s.vrfMap L c.watcher) := by
  cases c with
  | interfaceSubscribe w vrfId =>
    obtain rfl : (s.interfaceSubscribe w vrfId).1 = s' := congrArg Prod.fst (Option.some.inj h)
    exact ChangesList.effect (fun _ => nofun) (watchSubscribe_changes watchTypeInterface)
  | interfaceUnsubscribe =>
    exact ChangesList.effect (fun _ => nofun) (watchUnsubscribe_changes hnd h)
  | routerIdSubscribe w vrfId =>
    obtain rfl : (s.routerIdSubscribe w vrfId).1 = s' := congrArg Prod.fst (Option.some.inj h)
    exact ChangesList.effect (fun _ => nofun) (watchSubscribe_changes watchTypeRouterId)
  | routerIdUnsubscribe =>
    exact ChangesList.effect (fun _ => nofun) (watchUnsubscribe_changes hnd h)
  | redistSubscribe =>
    exact ChangesList.effect (fun _ => nofun) (redistSubscribe_changes h)
  | redistUnsubscribe =>
    exact ChangesList.effect (fun _ => nofun) (redistUnsubscribe_changes hnd h)
  | redistDefaultSubscribe =>
    exact ChangesList.effect (fun _ => nofun) (redistDefaultSubscribe_changes h)
  | redistDefaultUnsubscribe =>
    exact ChangesList.effect (fun _ => nofun) (redistDefaultUnsubscribe_changes hnd h)
  | watcherUnsubscribe w =>
    obtain ⟨hsame, hl⟩ := watcherUnsubscribe_list hnd h
    refine ⟨hsame, fun L => ?_⟩
    rw [hl, show (WatchCall.watcherUnsubscribe w).watcher = w from rfl,
      WatchCall.effect_watcherUnsubscribe]
    split_ifs <;> rfl

/-- A run of calls from a state whose lists have no duplicates: the lists keep none, the VRF
configuration stays, and whether a watcher is in a list is what the calls' effects on it leave,
one after the other. -/
theorem run_list (hnd : ∀ L, (s.list L).Nodup) {cs : List WatchCall}
    (h : s.run cs = some s') :
    SameVrfs s s' ∧ (∀ L, (s'.list L).Nodup) ∧ ∀ L x, decide (x ∈ s'.list L) =
      cs.foldl (fun b c => (c.effect s.sys.vrfLookupByIndex s.vrfMap L x).getD b)
        (decide (x ∈ s.list L)) := by
  induction cs generalizing s with
  | nil =>
    cases h
    exact ⟨SameVrfs.refl _, hnd, fun _ _ => rfl⟩
  | cons c cs ih =>
    obtain ⟨s₁, h₁, h⟩ := Option.bind_eq_some_iff.1 h
    obtain ⟨⟨s₁, err⟩, hc, rfl⟩ := Option.map_eq_some_iff.1 h₁
    obtain ⟨hsame₁, hl₁⟩ := call_list hnd hc
    have hnd₁ : ∀ L, (s₁.list L).Nodup := by
      intro L
      rw [hl₁]
      exact nodup_applyEffect (hnd L) _
    obtain ⟨hsame, hnd', hfold⟩ := ih hnd₁ h
    refine ⟨hsame₁.trans hsame, hnd', fun L x => ?_⟩
    rw [hfold, List.foldl_cons, hsame₁.lookup, hsame₁.vrfMap, hl₁,
      decide_mem_applyEffect (hnd L), WatchCall.getD_effect]

end WatchState

/-! ### The routes of the VRF objects -/

namespace System

/-- Every table of every VRF object is keyed by masked prefixes of its family. -/
def TablesKeyed (sys : System) : Prop :=
  ∀ (i : Nat) (v : Vrf), sys.vrfs[i]? = some v → ∀ afi, (v.ribTable afi).Keyed afi.ipLen

/-- No route of VRF object `i` has the source `src`. -/
def SrcFree (sys : System) (src : RibSrc) (i : Nat) : Prop :=
  ∀ v : Vrf, sys.vrfs[i]? = some v → ∀ afi,
    (v.ribTable afi).ItemsSatisfy fun ribs => ∀ r ∈ ribs, r.src ≠ src

variable {sys sys' : System} {i : Nat} {f : Vrf → Option Vrf}

lemma TablesKeyed.onVrf (hk : sys.TablesKeyed)
    (hf : ∀ v v', f v = some v' → (∀ afi, (v.ribTable afi).Keyed afi.ipLen) →
      ∀ afi, (v'.ribTable afi).Keyed afi.ipLen)
    (h : sys.onVrf i f = some sys') : sys'.TablesKeyed := by
  obtain ⟨v, v', hv, hv', hget⟩ := getElem?_onVrf h
  intro j u hu
  rw [hget] at hu
  split_ifs at hu with hj
  · cases hu
    exact hf v v' hv' (hk i v hv)
  · exact hk j u hu

/-- A change of a VRF object that keeps its tables. -/
lemma TablesKeyed.onVrf_of_ribTable (hk : sys.TablesKeyed)
    (hf : ∀ v v', f v = some v' → v'.ribTable = v.ribTable) (h : sys.onVrf i f = some sys') :
    sys'.TablesKeyed :=
  hk.onVrf (fun v v' hv' hkv => by rw [hf v v' hv']; exact hkv) h

lemma TablesKeyed.foldlM_of_ribTable {F : Nat → Vrf → Option Vrf}
    (hF : ∀ i v v', F i v = some v' → v'.ribTable = v.ribTable) {is : List Nat}
    (hk : sys.TablesKeyed) (h : is.foldlM (fun sys i => sys.onVrf i (F i)) sys = some sys') :
    sys'.TablesKeyed := by
  induction is generalizing sys with
  | nil =>
    cases h
    exact hk
  | cons i is ih =>
    obtain ⟨sys₁, h₁, h⟩ := Option.bind_eq_some_iff.1 h
    exact ih (hk.onVrf_of_ribTable (hF i) h₁) h

/-- `RibClearSrc` over `is`: the tables stay keyed, and each VRF object of `is` is left with no
route of the source. -/
lemma foldlM_ribClean {g : Globals} {src : RibSrc} {is : List Nat} (hk : sys.TablesKeyed)
    (h : is.foldlM (fun (sys : System) i => sys.onVrf i fun v => v.ribClean g src) sys =
      some sys') :
    sys'.TablesKeyed ∧ ∀ i, i ∈ is ∨ sys.SrcFree src i → sys'.SrcFree src i := by
  induction is generalizing sys with
  | nil =>
    cases h
    exact ⟨hk, fun i hi => hi.resolve_left (by simp)⟩
  | cons j is ih =>
    obtain ⟨sys₁, h₁, h⟩ := Option.bind_eq_some_iff.1 h
    obtain ⟨v, v', hv, hv', hget⟩ := getElem?_onVrf h₁
    have hk₁ : sys₁.TablesKeyed :=
      hk.onVrf (fun _ _ hv' hkv afi => (Vrf.ribClean_itemsSatisfy hkv hv' afi).1) h₁
    obtain ⟨hk', hfree⟩ := ih hk₁ h
    refine ⟨hk', fun i hi => hfree i ?_⟩
    by_cases hij : i = j
    · -- the object just cleaned
      subst hij
      refine .inr fun u hu afi => ?_
      rw [hget, if_pos rfl, Option.some.injEq] at hu
      subst hu
      exact (Vrf.ribClean_itemsSatisfy (hk i v hv) hv' afi).2
    · refine hi.imp (fun hi => (List.mem_cons.1 hi).resolve_left hij) (fun hi u hu => hi u ?_)
      rwa [hget, if_neg hij] at hu

end System

namespace Vrf

variable {v v' : Vrf} {w : RibSrc} {afi : Afi}

lemma redistSubscribe_ribTable {typ : UInt8} (h : v.redistSubscribe w afi typ = some v') :
    v'.ribTable = v.ribTable := by
  unfold redistSubscribe at h
  split at h
  · cases h
    rfl
  · cases h

lemma redistRemove_ribTable {r : RedistList} (h : v.redistRemove afi r w = some v') :
    v'.ribTable = v.ribTable := by
  obtain ⟨l, -, rfl⟩ := Option.map_eq_some_iff.1 h
  rfl

end Vrf

namespace WatchState

variable {s s' : WatchState} {w : RibSrc} {vrfId : Nat} {err : Option String}

lemma onVrfId_tablesKeyed {f : Vrf → Option Vrf}
    (hf : ∀ v v', f v = some v' → v'.ribTable = v.ribTable) (hk : s.sys.TablesKeyed)
    (h : s.onVrfId vrfId f = some (s', err)) : s'.sys.TablesKeyed := by
  unfold onVrfId at h
  split at h
  · cases h
    exact hk
  · obtain ⟨sys, hsys, hs'⟩ := Option.map_eq_some_iff.1 h
    cases hs'
    exact hk.onVrf_of_ribTable hf hsys

lemma syncAll_tablesKeyed {sync : Vrf → List Call} (h : s.syncAll sync = some s')
    (hk : s.sys.TablesKeyed) : s'.sys.TablesKeyed := by
  obtain ⟨sys, hsys, rfl⟩ := Option.map_eq_some_iff.1 h
  exact hk.foldlM_of_ribTable (fun _ _ _ h => by cases h; rfl) hsys

lemma foldlM_unsubscribeVrf_tablesKeyed {is : List Nat} (hk : s.sys.TablesKeyed)
    (h : is.foldlM (unsubscribeVrf w) s = some s') : s'.sys.TablesKeyed := by
  induction is generalizing s with
  | nil =>
    cases h
    exact hk
  | cons i is ih =>
    obtain ⟨s₁, h₁, h⟩ := Option.bind_eq_some_iff.1 h
    refine ih ?_ h
    obtain ⟨ws, -, h₁⟩ := Option.bind_eq_some_iff.1 h₁
    obtain ⟨sys, hsys, h₁⟩ := Option.bind_eq_some_iff.1 h₁
    cases h₁
    refine hk.onVrf_of_ribTable (fun v v' hv' => ?_) hsys
    obtain ⟨redist, -, rfl⟩ := Option.map_eq_some_iff.1 hv'
    rfl

/-- `WatcherUnsubscribe(w)` keeps the tables keyed and leaves no route of `w` in any VRF object
of `VrfMap`. -/
lemma watcherUnsubscribe_srcFree (hk : s.sys.TablesKeyed)
    (h : s.watcherUnsubscribe w = some (s', err)) :
    s'.sys.TablesKeyed ∧ ∀ i ∈ s'.vrfMap, s'.sys.SrcFree w i := by
  obtain ⟨redist, -, h⟩ := Option.bind_eq_some_iff.1 h
  obtain ⟨s₁, hs₁, h⟩ := Option.bind_eq_some_iff.1 h
  obtain ⟨sys, hsys, h⟩ := Option.bind_eq_some_iff.1 h
  cases h
  obtain ⟨hk', hfree⟩ := System.foldlM_ribClean
    (foldlM_unsubscribeVrf_tablesKeyed (s := { s with g := { s.g with redist } }) hk hs₁) hsys
  exact ⟨hk', fun i hi => hfree i (.inl hi)⟩

lemma watchSubscribe_sys (t : Fin watchTypeMax) : (s.watchSubscribe t w vrfId).1.sys = s.sys := by
  unfold watchSubscribe
  split <;> rfl

lemma watchUnsubscribe_sys {t : Fin watchTypeMax}
    (h : s.watchUnsubscribe t w vrfId = some (s', err)) : s'.sys = s.sys := by
  unfold watchUnsubscribe at h
  split at h
  · cases h
    rfl
  · obtain ⟨l, -, hs'⟩ := Option.map_eq_some_iff.1 h
    cases hs'
    rfl

/-- Every call keeps the tables of the VRF objects keyed. -/
lemma call_tablesKeyed (hk : s.sys.TablesKeyed) {c : WatchCall}
    (h : s.call c = some (s', err)) : s'.sys.TablesKeyed := by
  cases c with
  | interfaceSubscribe w vrfId =>
    obtain rfl : (s.interfaceSubscribe w vrfId).1 = s' := congrArg Prod.fst (Option.some.inj h)
    rw [interfaceSubscribe, watchSubscribe_sys]
    exact hk
  | routerIdSubscribe w vrfId =>
    obtain rfl : (s.routerIdSubscribe w vrfId).1 = s' := congrArg Prod.fst (Option.some.inj h)
    rw [routerIdSubscribe, watchSubscribe_sys]
    exact hk
  | interfaceUnsubscribe | routerIdUnsubscribe =>
    rw [watchUnsubscribe_sys h]
    exact hk
  | redistSubscribe w allVrf vrfId afi typ =>
    change s.redistSubscribe w allVrf vrfId afi typ = some (s', err) at h
    unfold redistSubscribe at h
    split at h
    · -- all VRFs: `Redist` and the messages of each VRF
      obtain ⟨r, -, h⟩ := Option.bind_eq_some_iff.1 h
      exact syncAll_tablesKeyed (map_syncAll_eq_some h) hk
    · exact onVrfId_tablesKeyed (fun _ _ => Vrf.redistSubscribe_ribTable) hk h
  | redistUnsubscribe w allVrf vrfId afi typ =>
    change s.redistUnsubscribe w allVrf vrfId afi typ = some (s', err) at h
    unfold redistUnsubscribe at h
    split at h
    · obtain ⟨r, -, h⟩ := Option.bind_eq_some_iff.1 h
      obtain ⟨l, -, hs'⟩ := Option.map_eq_some_iff.1 h
      cases hs'
      exact hk
    · refine onVrfId_tablesKeyed (fun v v' hv' => ?_) hk h
      obtain ⟨r, -, hv'⟩ := Option.bind_eq_some_iff.1 hv'
      exact Vrf.redistRemove_ribTable hv'
  | redistDefaultSubscribe w allVrf vrfId afi =>
    change s.redistDefaultSubscribe w allVrf vrfId afi = some (s', err) at h
    unfold redistDefaultSubscribe at h
    split at h
    · exact syncAll_tablesKeyed (map_syncAll_eq_some h) hk
    · exact onVrfId_tablesKeyed (fun _ _ hv' => by cases hv'; rfl) hk h
  | redistDefaultUnsubscribe w allVrf vrfId afi =>
    change s.redistDefaultUnsubscribe w allVrf vrfId afi = some (s', err) at h
    unfold redistDefaultUnsubscribe at h
    split at h
    · obtain ⟨l, -, hs'⟩ := Option.map_eq_some_iff.1 h
      cases hs'
      exact hk
    · exact onVrfId_tablesKeyed (fun _ _ => Vrf.redistRemove_ribTable) hk h
  | watcherUnsubscribe w => exact (watcherUnsubscribe_srcFree hk h).1

/-- A run of calls keeps the tables of the VRF objects keyed. -/
lemma run_tablesKeyed (hk : s.sys.TablesKeyed) {cs : List WatchCall} (h : s.run cs = some s') :
    s'.sys.TablesKeyed := by
  induction cs generalizing s with
  | nil =>
    cases h
    exact hk
  | cons c cs ih =>
    obtain ⟨s₁, h₁, h⟩ := Option.bind_eq_some_iff.1 h
    obtain ⟨⟨s₁, err⟩, hc, rfl⟩ := Option.map_eq_some_iff.1 h₁
    exact ih (call_tablesKeyed hk hc) h

end WatchState

/-! ### The registry over whole runs -/

namespace WatchCall

variable {lookup : Nat → Option Nat} {vrfMap : List Nat} {L : WatchList}

/-- A list a redistribution call names is one of `Redist`, or one of a VRF that `lookup` finds. -/
lemma redistTarget_vrf? (hmap : ∀ vrfId i, lookup vrfId = some i → i ∈ vrfMap)
    {allVrf : Bool} {vrfId : Nat} {afi : Afi} {r : RedistList}
    (h : redistTarget lookup allVrf vrfId afi r = some L) : L.vrf?.all (· ∈ vrfMap) = true := by
  unfold redistTarget at h
  split_ifs at h
  · cases h
    rfl
  · obtain ⟨i, hi, rfl⟩ := Option.map_eq_some_iff.1 h
    simpa [WatchList.vrf?] using hmap vrfId i hi

/-- A list a call names is one of `Redist`, or one of a VRF that `lookup` finds. -/
lemma target_vrf? (hmap : ∀ vrfId i, lookup vrfId = some i → i ∈ vrfMap) {c : WatchCall}
    (h : c.target lookup = some L) : L.vrf?.all (· ∈ vrfMap) = true := by
  cases c with
  | interfaceSubscribe _ vrfId | interfaceUnsubscribe _ vrfId | routerIdSubscribe _ vrfId
  | routerIdUnsubscribe _ vrfId =>
    obtain ⟨i, hi, rfl⟩ := Option.map_eq_some_iff.1 h
    simpa [WatchList.vrf?] using hmap vrfId i hi
  | redistSubscribe | redistUnsubscribe =>
    obtain ⟨r, -, h⟩ := Option.bind_eq_some_iff.1 h
    exact redistTarget_vrf? hmap h
  | redistDefaultSubscribe | redistDefaultUnsubscribe => exact redistTarget_vrf? hmap h
  | watcherUnsubscribe => cases h

/-- A call subscribes a watcher only to a list of `Redist` or of a VRF that `lookup` finds. -/
lemma all_vrf?_of_effect (hmap : ∀ vrfId i, lookup vrfId = some i → i ∈ vrfMap) {c : WatchCall}
    {x : RibSrc} (h : c.effect lookup vrfMap L x = some true) :
    L.vrf?.all (· ∈ vrfMap) = true := by
  by_cases hx : c.watcher = x
  · subst hx
    by_cases hc : ∃ w, c = .watcherUnsubscribe w
    · -- `WatcherUnsubscribe` subscribes nobody
      obtain ⟨w, rfl⟩ := hc
      rw [show (watcherUnsubscribe w).watcher = w from rfl, effect_watcherUnsubscribe] at h
      by_cases hv : L.vrf?.all (· ∈ vrfMap) = true
      · exact hv
      · rw [if_neg hv] at h
        cases h
    · rw [effect_of_target fun w hw => hc ⟨w, hw⟩] at h
      by_cases ht : c.target lookup = some L
      · exact target_vrf? hmap ht
      · rw [if_neg ht] at h
        cases h
  · rw [effect_of_ne hx] at h
    cases h

end WatchCall

namespace WatchState

/-- From a state with no watcher, where `VrfLookupByIndex` finds only VRF objects of `VrfMap` and
every table is keyed, a run of the watcher calls that does not panic leaves every list without
duplicates, holding a watcher exactly when a call subscribed it there and no later call took it
out; after a last `WatcherUnsubscribe(w)`, no list holds `w` and no VRF of `VrfMap` has a route
of `w`. -/
theorem watcher_registry_invariant {s₀ s : WatchState} {cs : List WatchCall}
    (hempty : ∀ L, s₀.list L = [])
    (hmap : ∀ vrfId i, s₀.sys.vrfLookupByIndex vrfId = some i → i ∈ s₀.vrfMap)
    (hk : s₀.sys.TablesKeyed) (h : s₀.run cs = some s) :
    (∀ L, (s.list L).Nodup) ∧
    (∀ L w, w ∈ s.list L ↔ ∃ pre c post, cs = pre ++ c :: post ∧
      c.effect s₀.sys.vrfLookupByIndex s₀.vrfMap L w = some true ∧
      ∀ c' ∈ post, c'.effect s₀.sys.vrfLookupByIndex s₀.vrfMap L w ≠ some false) ∧
    ∀ pre w, cs = pre ++ [.watcherUnsubscribe w] →
      (∀ L, w ∉ s.list L) ∧ ∀ i ∈ s.vrfMap, s.sys.SrcFree w i := by
  have hnd₀ : ∀ L, (s₀.list L).Nodup := by
    intro L
    rw [hempty]
    exact List.nodup_nil
  obtain ⟨-, hnd, hfold⟩ := run_list hnd₀ h
  -- a watcher is in a list when the last call that changes it there subscribed it
  have hmem : ∀ L w, w ∈ s.list L ↔ ∃ pre c post, cs = pre ++ c :: post ∧
      c.effect s₀.sys.vrfLookupByIndex s₀.vrfMap L w = some true ∧
      ∀ c' ∈ post, c'.effect s₀.sys.vrfLookupByIndex s₀.vrfMap L w ≠ some false := by
    intro L w
    rw [← decide_eq_true_iff (p := w ∈ s.list L), hfold, hempty, Lib.foldl_getD_eq_true_iff]
    simp
  refine ⟨hnd, hmem, fun pre w hcs => ⟨fun L hw => ?_, ?_⟩⟩
  · obtain ⟨pre', c, post, hsplit, hc, hpost⟩ := (hmem L w).1 hw
    have hall := WatchCall.all_vrf?_of_effect hmap hc
    -- the last call, `WatcherUnsubscribe(w)`, is `c` or comes after it
    have hlast : WatchCall.watcherUnsubscribe w ∈ c :: post := by
      apply List.mem_of_getLast?
      rw [← List.getLast?_append_cons pre', ← hsplit, hcs, List.getLast?_concat]
    rcases List.mem_cons.1 hlast with hu | hu
    · subst hu
      rw [WatchCall.effect_watcherUnsubscribe, if_pos hall] at hc
      cases hc
    · apply hpost _ hu
      rw [WatchCall.effect_watcherUnsubscribe, if_pos hall]
  · -- the tables are keyed before the last call, which clears the routes of `w`
    rw [hcs, run, List.foldlM_append] at h
    obtain ⟨s₁, h₁, h⟩ := Option.bind_eq_some_iff.1 h
    simp only [List.foldlM_cons, List.foldlM_nil, bind_pure] at h
    obtain ⟨⟨s', err⟩, hc, rfl⟩ := Option.map_eq_some_iff.1 h
    exact (watcherUnsubscribe_srcFree (run_tablesKeyed hk h₁) hc).2

/-- The server before any watcher: the default VRF alone, and no watcher in any list. -/
def watchStart : WatchState :=
  { sys := System.init, g := plainGlobals, vrfMap := [0], watchers := fun _ _ => [] }

/-- The server before any watcher, its default VRF holding the kernel route of client 1. -/
def watchStartRoute : WatchState :=
  { watchStart with
    sys := { System.init with
      vrfs := [((Vrf.new 0).ribAdd plainGlobals net24 kernelRoute).getD (Vrf.new 0)] } }

theorem watcher_registry_unsubscribed :
    (∀ L, watchStartRoute.list L = []) ∧
    (∀ vrfId i, watchStartRoute.sys.vrfLookupByIndex vrfId = some i →
      i ∈ watchStartRoute.vrfMap) ∧
    watchStartRoute.sys.TablesKeyed ∧ ¬ watchStartRoute.sys.SrcFree (.client 1) 0 ∧
    ∃ s, watchStartRoute.run [.interfaceSubscribe (.client 1) 0, .watcherUnsubscribe (.client 1)] =
        some s ∧
      (∀ L, RibSrc.client 1 ∉ s.list L) ∧ ∀ i ∈ s.vrfMap, s.sys.SrcFree (.client 1) i := by
  have hempty : ∀ L, watchStartRoute.list L = [] := by
    intro L
    cases L with
    | watchers => rfl
    | vrfRedist i afi r => cases i <;> cases r <;> rfl
    | redist afi r => cases r <;> rfl
  have hmap : ∀ vrfId i, watchStartRoute.sys.vrfLookupByIndex vrfId = some i →
      i ∈ watchStartRoute.vrfMap := by
    intro vrfId i h
    simp only [System.vrfLookupByIndex, watchStartRoute, watchStart, System.init] at h
    split_ifs at h
    simp_all [watchStartRoute, watchStart]
  have hadd : (Vrf.new 0).ribAdd plainGlobals net24 kernelRoute =
      some (((Vrf.new 0).ribAdd plainGlobals net24 kernelRoute).getD (Vrf.new 0)) := rfl
  have hk : watchStartRoute.sys.TablesKeyed := by
    intro i v hv afi
    cases i with
    | zero =>
      cases hv
      exact (Vrf.ribAdd_tablesInv (Vrf.tablesInv_new 0) hadd afi).keyed
    | succ i => cases hv
  -- the kernel route of client 1 stands in the default VRF
  have hroute : ¬ watchStartRoute.sys.SrcFree (.client 1) 0 := by
    intro hfree
    have hany : ((((Vrf.new 0).ribAdd plainGlobals net24 kernelRoute).getD (Vrf.new 0)).ribTable
        .ip).nodes.any (fun n => (n.item.getD []).any (·.src == .client 1)) = true := by decide
    obtain ⟨n, hn, hr⟩ := List.any_eq_true.1 hany
    obtain ⟨r, hr, hsrc⟩ := List.any_eq_true.1 hr
    cases hi : n.item with
    | none => simp [hi] at hr
    | some R =>
      rw [hi, Option.getD_some] at hr
      exact hfree _ rfl .ip n hn R hi r hr (by simpa using hsrc)
  obtain ⟨s, hs⟩ : ∃ s, watchStartRoute.run
      [.interfaceSubscribe (.client 1) 0, .watcherUnsubscribe (.client 1)] = some s :=
    Option.isSome_iff_exists.1 (by decide)
  exact ⟨hempty, hmap, hk, hroute, s, hs,
    (watcher_registry_invariant hempty hmap hk hs).2.2 [.interfaceSubscribe (.client 1) 0]
      (.client 1) rfl⟩

end WatchState

end Zebra
