import Zebra.Rib.Vrf

/-!
# `RibProcess`: choosing the FIB routes and the selected route of a prefix

`RibProcess(p, ribs, dels, resolve)` runs on the slice `ribs` of a prefix and the ribs
`dels` just taken out of it.  It collects the old FIB routes and the old selected route from
both lists, re-resolves the slice if asked, picks the new FIB routes (the resolved routes
of least distance) and the new selected route (the first resolved route of least distance,
then least metric), withdraws old FIB routes that are not new ones, installs the new ones,
and moves the selected flag, telling the watchers.

The code changes the ribs through their pointers.  Here the two lists are the state, and a
rib is changed through its `ptr`; `get?` reads a rib as it is now.
-/

namespace Zebra

open Zebra.Netutil

/-- Change every rib with pointer `ptr`. -/
def modifyPtr (ptr : Nat) (f : Rib → Rib) (l : List Rib) : List Rib :=
  l.map fun r => if r.ptr = ptr then f r else r

/-- What `RibProcess` works on: the slice, the removed ribs, and the calls it made. -/
structure ProcessState where
  ribs : List Rib
  dels : List Rib
  calls : List Call

namespace ProcessState

/-- Change the rib behind `ptr` in place. -/
def modify (s : ProcessState) (ptr : Nat) (f : Rib → Rib) : ProcessState :=
  ⟨modifyPtr ptr f s.ribs, modifyPtr ptr f s.dels, s.calls⟩

/-- The rib behind `ptr`, as it is now. -/
def get? (s : ProcessState) (ptr : Nat) : Option Rib :=
  (s.ribs ++ s.dels).find? (·.ptr = ptr)

/-- Append calls. -/
def emit (s : ProcessState) (c : List Call) : ProcessState := ⟨s.ribs, s.dels, s.calls ++ c⟩

/-- `FibDelete`: withdraw the route from the kernel unless it is a system route, then clear
its FIB flag. -/
def fibDelete (s : ProcessState) (vrfId : Nat) (p : Prefix) (ptr : Nat) : ProcessState :=
  match s.get? ptr with
  | some rib =>
    (s.emit (if rib.isSystem then [] else [.netlinkRouteDelete p rib vrfId])).modify ptr
      (·.unsetFlag ribFlagFib)
  | none => s

/-- `FibAdd`: push the route to the kernel unless it is a system route, then set its FIB
flag. -/
def fibAdd (s : ProcessState) (vrfId : Nat) (p : Prefix) (ptr : Nat) : ProcessState :=
  match s.get? ptr with
  | some rib =>
    (s.emit (if rib.isSystem then [] else [.netlinkRouteAdd p rib vrfId])).modify ptr
      (·.setFlag ribFlagFib)
  | none => s

/-- One turn of the "new FIB to be added" loop: a route not yet in the FIB is added, and a
static or BGP route already there is added again. -/
def fibAddStep (s : ProcessState) (vrfId : Nat) (p : Prefix) (ptr : Nat) : ProcessState :=
  match s.get? ptr with
  | some rib =>
    if !rib.isFib then s.fibAdd vrfId p ptr
    else if rib.type = ribStatic ∨ rib.type = ribBgp then s.fibAdd vrfId p ptr
    else s
  | none => s

/-- `RedistAdd` / `RedistDelete` of the rib behind `ptr`. -/
def redist (s : ProcessState) (g : Globals) (v : Vrf) (op : Op) (p : Prefix) (ptr : Nat) :
    Option ProcessState :=
  match s.get? ptr with
  | some rib => (redistribute g v op p rib).map s.emit
  | none => some s

end ProcessState

/-- One turn of the selection loop over the slice: an unresolved route is skipped; under
`AddPathDefault` a kernel default route is set aside as `def`; otherwise the route becomes
the selected one on a smaller distance (resetting the FIB list), joins the FIB list on an
equal distance (becoming selected on a smaller metric), and is ignored on a larger one. -/
def selectStep (addPathDefault : Bool) (p : Prefix) :
    Option Rib × List Rib × Option Rib → Rib → Option Rib × List Rib × Option Rib
  | (nSelected, nFibs, dflt), rib =>
    if !rib.isResolved then (nSelected, nFibs, dflt)
    else if addPathDefault && p.isDefault && rib.type == ribKernel then (nSelected, nFibs, some rib)
    else
      match nSelected with
      | none => (some rib, [rib], dflt)
      | some s =>
        if rib.distance < s.distance then (some rib, [rib], dflt)
        else if rib.distance = s.distance then
          (if rib.metric < s.metric then some rib else some s, nFibs ++ [rib], dflt)
        else (nSelected, nFibs, dflt)

/-- The selected-route sync at the end of `RibProcess`: nothing when the selected pointer is
unchanged; a change within one route type moves the flag and sends only the add; otherwise
the old route is unselected and withdrawn, and the new one selected and announced. -/
def syncSelected (g : Globals) (v : Vrf) (p : Prefix) (s : ProcessState)
    (oSelected nSelected : Option Rib) : Option ProcessState :=
  if oSelected.map (·.ptr) = nSelected.map (·.ptr) then some s
  else
    match oSelected, nSelected with
    | some o, some n =>
      if o.type = n.type then
        ((s.modify o.ptr (·.unsetFlag ribFlagSelected)).modify n.ptr
          (·.setFlag ribFlagSelected)).redist g v .routeAdd p n.ptr
      else do
        let s ← (s.modify o.ptr (·.unsetFlag ribFlagSelected)).redist g v .routeDelete p o.ptr
        (s.modify n.ptr (·.setFlag ribFlagSelected)).redist g v .routeAdd p n.ptr
    | some o, none => (s.modify o.ptr (·.unsetFlag ribFlagSelected)).redist g v .routeDelete p o.ptr
    | none, some n => (s.modify n.ptr (·.setFlag ribFlagSelected)).redist g v .routeAdd p n.ptr
    | none, none => some s

/-- The new FIB list and the new selected route after the selection loop, with the kernel
default route set aside under `AddPathDefault` put back: it is selected only when nothing
else is, and always joins the FIB list. -/
def newFibs (acc : Option Rib × List Rib × Option Rib) : Option Rib × List Rib :=
  match acc with
  | (nSelected, nFibs, none) => (nSelected, nFibs)
  | (_, nFibs, some d) => (if nFibs.isEmpty then some d else nFibs.head?, nFibs ++ [d])

/-- `Vrf.RibProcess`; `none` when telling a watcher panics.  With `resolve` the slice is
resolved again against the tables of `v`; `Resolve` changes only the rib it is given, so
resolving each rib in the loop is resolving the slice before it. -/
def ribProcess (g : Globals) (v : Vrf) (p : Prefix) (ribs dels : List Rib) (resolve? : Bool) :
    Option ProcessState :=
  -- existing FIBs and the existing selected route, from both lists
  let oFibs := (ribs ++ dels).filter Rib.isFib
  let oSelected := ((ribs ++ dels).filter Rib.isSelected).getLast?
  let rs := if resolve? then ribs.map (resolve v) else ribs
  let (nSelected, nFibs) := newFibs (rs.foldl (selectStep g.addPathDefault p) (none, [], none))
  let s₀ : ProcessState := ⟨rs, dels, []⟩
  -- old FIB routes that are not new ones are removed
  let s₁ := oFibs.foldl (fun s ofib =>
    if nFibs.any (·.ptr == ofib.ptr) then s else s.fibDelete v.id p ofib.ptr) s₀
  -- new FIB routes are added
  let s₂ := nFibs.foldl (fun s nfib => s.fibAddStep v.id p nfib.ptr) s₁
  syncSelected g v p s₂ oSelected nSelected

end Zebra
