import Zebra.Rib.Process
import Zebra.Lib.Scan

/-!
# What `RibProcess` leaves behind

Every step of `RibProcess` changes ribs through their pointers, and only their flags.  So
whatever it does, the slice and the removed ribs it returns are the ones it was given, each
changed by one flag map `G`.  Following `G` through the steps gives its effect on each flag:
a rib ends in the FIB exactly when its pointer is among the new FIB routes, and ends
selected exactly when it is the new selected route, provided at most one rib was selected
before.  The new FIB routes and the new selected route are those of the scan of
`Zebra.Lib.Scan` over the resolved routes.
-/

namespace Zebra

open Zebra.Netutil Zebra.Lib

/-! ### Keys of the selection -/

/-- The distance of a rib, as a number. -/
def distKey (r : Rib) : Nat := r.distance.toNat

/-- The metric of a rib, as a number. -/
def metricKey (r : Rib) : Nat := r.metric.toNat

/-- The key the selected route is least for: distance, then metric. -/
def selKey (r : Rib) : Nat ×ₗ Nat := lexKey distKey metricKey r

/-- The flags of a slice are those `RibProcess` gives it: the FIB routes are the resolved
routes of least distance, and the selected route is the first resolved route of least
distance and metric. -/
def NodeSel (R : List Rib) : Prop :=
  (∀ r ∈ R, r.isFib = true ↔ r ∈ minClass distKey (R.filter Rib.isResolved)) ∧
    (∀ r ∈ R, r.isSelected = true ↔ (R.filter Rib.isResolved).argmin selKey = some r)

/-! ### Flag maps -/

/-- A rib without its flags: its pointer and its data. -/
def Rib.data (r : Rib) : Rib := { r with flags := 0 }

@[simp] lemma Rib.data_ptr (r : Rib) : r.data.ptr = r.ptr := rfl
@[simp] lemma Rib.setFlag_data (r : Rib) (f : RibFlag) : (r.setFlag f).data = r.data := rfl
@[simp] lemma Rib.unsetFlag_data (r : Rib) (f : RibFlag) : (r.unsetFlag f).data = r.data := rfl

lemma Rib.ptr_eq_of_data_eq {r r' : Rib} (h : r'.data = r.data) : r'.ptr = r.ptr := by
  rw [← Rib.data_ptr r', h, Rib.data_ptr]

lemma Rib.distance_eq_of_data_eq {r r' : Rib} (h : r'.data = r.data) :
    r'.distance = r.distance :=
  (congrArg Rib.distance h :)

lemma Rib.metric_eq_of_data_eq {r r' : Rib} (h : r'.data = r.data) : r'.metric = r.metric :=
  (congrArg Rib.metric h :)

/-- A map of ribs that changes only flags. -/
def FlagMap (G : Rib → Rib) : Prop := ∀ r, (G r).data = r.data

/-- `Resolve` clears the resolved flag of a static or BGP route and may set it again, and sets
it on every other route. -/
lemma resolve_cases (v : Vrf) (r : Rib) :
    resolve v r = r.unsetFlag ribFlagResolved ∨
      resolve v r = (r.unsetFlag ribFlagResolved).setFlag ribFlagResolved ∨
      resolve v r = r.setFlag ribFlagResolved := by
  unfold resolve
  dsimp only
  split
  · split
    · split
      · exact .inl rfl
      · split
        · split
          · exact .inr (.inl rfl)
          · exact .inl rfl
        · exact .inl rfl
    · exact .inl rfl
  · exact .inr (.inr rfl)

lemma resolve_data (v : Vrf) (r : Rib) : (resolve v r).data = r.data := by
  rcases resolve_cases v r with h | h | h <;> rw [h] <;> rfl

lemma resolve_testBit (v : Vrf) (r : Rib) {i : Nat} (hi : i ≠ 4) :
    (resolve v r).flags.testBit i = r.flags.testBit i := by
  rcases resolve_cases v r with h | h | h <;> rw [h] <;> simp [hi]

/-- A set flag is set again to no effect. -/
lemma Rib.setFlag_of_testBit {r : Rib} {k : Nat} (h : r.flags.testBit k = true) :
    r.setFlag (1 <<< k) = r := by
  have hf : Zebra.setFlag r.flags (1 <<< k) = r.flags := by
    apply Nat.eq_of_testBit_eq
    intro i
    rw [testBit_setFlag, Nat.shiftLeft_eq, one_mul, Nat.testBit_two_pow]
    by_cases hi : k = i
    · subst hi; simp [h]
    · simp [hi]
  simp only [Rib.setFlag]
  rw [hf]

/-! ### Changing ribs by pointer -/

lemma modifyPtr_map {ptr : Nat} {f G : Rib → Rib} (hG : FlagMap G) (l : List Rib) :
    modifyPtr ptr f (l.map G) = l.map fun r => if r.ptr = ptr then f (G r) else G r := by
  simp only [modifyPtr, List.map_map]
  apply List.map_congr_left
  intro r _
  simp [Rib.ptr_eq_of_data_eq (hG r)]

lemma modifyPtr_of_forall {ptr : Nat} {f : Rib → Rib} {l : List Rib}
    (h : ∀ r ∈ l, r.ptr = ptr → f r = r) : modifyPtr ptr f l = l := by
  conv_rhs => rw [← List.map_id l]
  apply List.map_congr_left
  intro r hr
  by_cases hp : r.ptr = ptr
  · simp [hp, h r hr hp]
  · simp [hp]

/-- Changing through a pointer keeps a flag map. -/
lemma FlagMap.update {G f : Rib → Rib} (hG : FlagMap G) (hf : FlagMap f) (ptr : Nat) :
    FlagMap fun r => if r.ptr = ptr then f (G r) else G r := by
  intro r
  by_cases hp : r.ptr = ptr
  · simp only [hp, if_true]; rw [hf, hG]
  · simp only [hp, if_false]; exact hG r

lemma flagMap_setFlag (f : RibFlag) : FlagMap (·.setFlag f) := fun _ => rfl
lemma flagMap_unsetFlag (f : RibFlag) : FlagMap (·.unsetFlag f) := fun _ => rfl

lemma ptr_inj_of_nodup {l : List Rib} (hnd : (l.map Rib.ptr).Nodup) {a b : Rib} (ha : a ∈ l)
    (hb : b ∈ l) (h : a.ptr = b.ptr) : a = b :=
  List.inj_on_of_nodup_map hnd ha hb h

/-- The bits of a rib changed through its pointer. -/
@[simp] lemma testBit_update_setFlag (G : Rib → Rib) (ptr : Nat) (f : RibFlag) (r : Rib)
    (i : Nat) : (if r.ptr = ptr then (G r).setFlag f else G r).flags.testBit i =
      ((G r).flags.testBit i || (decide (r.ptr = ptr) && f.testBit i)) := by
  by_cases hp : r.ptr = ptr <;> simp [hp]

@[simp] lemma testBit_update_unsetFlag (G : Rib → Rib) (ptr : Nat) (f : RibFlag) (r : Rib)
    (i : Nat) : (if r.ptr = ptr then (G r).unsetFlag f else G r).flags.testBit i =
      ((G r).flags.testBit i && !(decide (r.ptr = ptr) && f.testBit i)) := by
  by_cases hp : r.ptr = ptr <;> simp [hp]

/-- Among the ribs of `R`, the selected flag is held exactly by the rib behind `q`. -/
def SelectedAt (G : Rib → Rib) (R : List Rib) (q : Option Nat) : Prop :=
  ∀ r ∈ R, (G r).flags.testBit 0 = decide (q = some r.ptr)

/-- `G'` differs from `G` in the selected flag at most. -/
def SameOffSelected (G G' : Rib → Rib) : Prop :=
  ∀ r i, i ≠ 0 → (G' r).flags.testBit i = (G r).flags.testBit i

section

variable {G : Rib → Rib}

/-- The sync withdraws the selected flag from the old selected rib only; in a slice where that
rib is the only one holding it, the flag is left on no rib. -/
lemma SelectedAt.unset {R : List Rib} {ptr : Nat} (h : SelectedAt G R (some ptr)) :
    SelectedAt (fun r => if r.ptr = ptr then (G r).unsetFlag ribFlagSelected else G r) R none := by
  intro r hr
  simp only [testBit_update_unsetFlag, testBit_ribFlagSelected, h r hr]
  by_cases hp : r.ptr = ptr <;> simp [hp, Ne.symm]

lemma SelectedAt.set {R : List Rib} {ptr : Nat} (h : SelectedAt G R none) :
    SelectedAt (fun r => if r.ptr = ptr then (G r).setFlag ribFlagSelected else G r) R
      (some ptr) := by
  intro r hr
  simp only [testBit_update_setFlag, testBit_ribFlagSelected, h r hr]
  by_cases hp : r.ptr = ptr <;> simp [hp, Ne.symm]

lemma sameOffSelected_unset (ptr : Nat) :
    SameOffSelected G fun r => if r.ptr = ptr then (G r).unsetFlag ribFlagSelected else G r := by
  intro r i hi
  simp [hi]

lemma sameOffSelected_set (ptr : Nat) :
    SameOffSelected G fun r => if r.ptr = ptr then (G r).setFlag ribFlagSelected else G r := by
  intro r i hi
  simp [hi]

lemma SameOffSelected.trans {G₁ G₂ : Rib → Rib} (h₁ : SameOffSelected G G₁)
    (h₂ : SameOffSelected G₁ G₂) : SameOffSelected G G₂ :=
  fun r i hi => (h₂ r i hi).trans (h₁ r i hi)

end

/-! ### The state of `RibProcess` as an image -/

namespace ProcessState

/-- `s` holds the ribs of `A` and of `B`, each changed by the flag map `G`. -/
structure Image (s : ProcessState) (A B : List Rib) (G : Rib → Rib) : Prop where
  flagMap : FlagMap G
  ribs_eq : s.ribs = A.map G
  dels_eq : s.dels = B.map G

variable {s : ProcessState} {A B : List Rib} {G : Rib → Rib}

lemma Image.modify (hs : s.Image A B G) {f : Rib → Rib} (hf : FlagMap f) (ptr : Nat) :
    (s.modify ptr f).Image A B fun r => if r.ptr = ptr then f (G r) else G r :=
  ⟨hs.flagMap.update hf ptr,
    by rw [show (s.modify ptr f).ribs = modifyPtr ptr f s.ribs from rfl, hs.ribs_eq,
      modifyPtr_map hs.flagMap],
    by rw [show (s.modify ptr f).dels = modifyPtr ptr f s.dels from rfl, hs.dels_eq,
      modifyPtr_map hs.flagMap]⟩

lemma Image.emit (hs : s.Image A B G) (c : List Call) : (s.emit c).Image A B G :=
  ⟨hs.flagMap, hs.ribs_eq, hs.dels_eq⟩

/-- An image under another flag map that agrees on the ribs. -/
lemma Image.congr (hs : s.Image A B G) {G' : Rib → Rib} (hG' : FlagMap G')
    (h : ∀ r ∈ A ++ B, G' r = G r) : s.Image A B G' := by
  refine ⟨hG', ?_, ?_⟩
  · rw [hs.ribs_eq]
    exact List.map_congr_left fun r hr => (h r (List.mem_append_left _ hr)).symm
  · rw [hs.dels_eq]
    exact List.map_congr_left fun r hr => (h r (List.mem_append_right _ hr)).symm

lemma Image.mem_iff (hs : s.Image A B G) {x : Rib} :
    x ∈ s.ribs ++ s.dels ↔ ∃ r ∈ A ++ B, G r = x := by
  rw [hs.ribs_eq, hs.dels_eq, ← List.map_append, List.mem_map]

lemma Image.nodup (hs : s.Image A B G) (hnd : ((A ++ B).map Rib.ptr).Nodup) :
    ((s.ribs ++ s.dels).map Rib.ptr).Nodup := by
  rw [hs.ribs_eq, hs.dels_eq, ← List.map_append, List.map_map]
  have : Rib.ptr ∘ G = Rib.ptr := funext fun r => Rib.ptr_eq_of_data_eq (hs.flagMap r)
  rwa [this]

lemma get?_some {ptr : Nat} {rib : Rib} (h : s.get? ptr = some rib) :
    rib ∈ s.ribs ++ s.dels ∧ rib.ptr = ptr := by
  have := List.find?_some h
  exact ⟨List.mem_of_find?_eq_some h, by simpa using this⟩

lemma get?_none {ptr : Nat} (h : s.get? ptr = none) : ∀ r ∈ s.ribs ++ s.dels, r.ptr ≠ ptr := by
  intro r hr hp
  have := List.find?_eq_none.1 h r hr
  simp [hp] at this

/-- A pointer no rib has changes nothing. -/
lemma Image.update_of_none (hs : s.Image A B G) {f : Rib → Rib} (hf : FlagMap f) {ptr : Nat}
    (h : s.get? ptr = none) : s.Image A B fun r => if r.ptr = ptr then f (G r) else G r := by
  refine hs.congr (hs.flagMap.update hf ptr) fun r hr => ?_
  have hne : (G r).ptr ≠ ptr := get?_none h _ (hs.mem_iff.2 ⟨r, hr, rfl⟩)
  rw [Rib.ptr_eq_of_data_eq (hs.flagMap r)] at hne
  simp [hne]

lemma Image.fibDelete (hs : s.Image A B G) (vrfId : Nat) (p : Prefix) (ptr : Nat) :
    (s.fibDelete vrfId p ptr).Image A B
      fun r => if r.ptr = ptr then (G r).unsetFlag ribFlagFib else G r := by
  unfold ProcessState.fibDelete
  cases h : s.get? ptr with
  | some rib => exact (hs.emit _).modify (flagMap_unsetFlag _) ptr
  | none => exact hs.update_of_none (flagMap_unsetFlag _) h

lemma Image.fibAdd (hs : s.Image A B G) (vrfId : Nat) (p : Prefix) (ptr : Nat) :
    (s.fibAdd vrfId p ptr).Image A B
      fun r => if r.ptr = ptr then (G r).setFlag ribFlagFib else G r := by
  unfold ProcessState.fibAdd
  cases h : s.get? ptr with
  | some rib => exact (hs.emit _).modify (flagMap_setFlag _) ptr
  | none => exact hs.update_of_none (flagMap_setFlag _) h

lemma Image.fibAddStep (hs : s.Image A B G) (hnd : ((A ++ B).map Rib.ptr).Nodup)
    (vrfId : Nat) (p : Prefix) (ptr : Nat) :
    (s.fibAddStep vrfId p ptr).Image A B
      fun r => if r.ptr = ptr then (G r).setFlag ribFlagFib else G r := by
  unfold ProcessState.fibAddStep
  cases h : s.get? ptr with
  | none => exact hs.update_of_none (flagMap_setFlag _) h
  | some rib =>
    obtain ⟨hmem, hptr⟩ := get?_some h
    dsimp only
    split_ifs with h₁ h₂
    · exact hs.fibAdd vrfId p ptr
    · exact hs.fibAdd vrfId p ptr
    · -- the rib is in the FIB already: setting the flag again changes nothing
      refine hs.congr (hs.flagMap.update (flagMap_setFlag _) ptr) fun r hr => ?_
      by_cases hp : r.ptr = ptr
      · have hGr : G r = rib := by
          refine ptr_inj_of_nodup (hs.nodup hnd) (hs.mem_iff.2 ⟨r, hr, rfl⟩) hmem ?_
          rw [Rib.ptr_eq_of_data_eq (hs.flagMap r), hp, hptr]
        have hfib : rib.flags.testBit 1 = true := by simpa using h₁
        simp only [hp, if_true, hGr]
        exact Rib.setFlag_of_testBit hfib
      · simp [hp]

lemma Image.redist (hs : s.Image A B G) {g : Globals} {v : Vrf} {op : Op} {p : Prefix}
    {ptr : Nat} {s' : ProcessState} (h : s.redist g v op p ptr = some s') : s'.Image A B G := by
  unfold ProcessState.redist at h
  split at h
  · obtain ⟨c, -, rfl⟩ := Option.map_eq_some_iff.1 h
    exact hs.emit c
  · cases h
    exact hs

/-- The loop withdrawing old FIB routes clears the FIB flag of exactly the ribs whose
pointer it visits without keeping, and no other flag. -/
lemma Image.foldl_fibDelete (vrfId : Nat) (p : Prefix) (keep : Rib → Bool) :
    ∀ (L : List Rib) (s : ProcessState) (G : Rib → Rib), s.Image A B G →
      ∃ G', (L.foldl (fun s o => if keep o then s else s.fibDelete vrfId p o.ptr) s).Image A B G' ∧
        ∀ r i, (G' r).flags.testBit i = ((G r).flags.testBit i &&
          !(decide (i = 1) && ((L.filter fun o => !keep o).map Rib.ptr).contains r.ptr))
  | [], s, G, hs => ⟨G, hs, fun r i => by simp⟩
  | o :: L, s, G, hs => by
    by_cases hk : keep o
    · obtain ⟨G', hG', hbits⟩ := foldl_fibDelete vrfId p keep L s G hs
      have hf : (o :: L).filter (fun o => !keep o) = L.filter fun o => !keep o := by
        simp [hk]
      refine ⟨G', by simpa [hk] using hG', fun r i => ?_⟩
      rw [hbits, hf]
    · obtain ⟨G', hG', hbits⟩ := foldl_fibDelete vrfId p keep L _ _ (hs.fibDelete vrfId p o.ptr)
      have hf : (o :: L).filter (fun o => !keep o) = o :: L.filter fun o => !keep o := by
        simp [hk]
      refine ⟨G', by simpa [hk] using hG', fun r i => ?_⟩
      rw [hbits, hf]
      by_cases hp : r.ptr = o.ptr
      · by_cases hi : i = 1 <;> simp [hp, hi]
      · have hb : (r.ptr == o.ptr) = false := beq_false_of_ne hp
        simp [hp, hb]

/-- The loop adding new FIB routes sets the FIB flag of exactly the ribs whose pointer it
visits, and no other flag. -/
lemma Image.foldl_fibAddStep (hnd : ((A ++ B).map Rib.ptr).Nodup) (vrfId : Nat) (p : Prefix) :
    ∀ (L : List Rib) (s : ProcessState) (G : Rib → Rib), s.Image A B G →
      ∃ G', (L.foldl (fun s n => s.fibAddStep vrfId p n.ptr) s).Image A B G' ∧
        ∀ r i, (G' r).flags.testBit i = ((G r).flags.testBit i ||
          (decide (i = 1) && (L.map Rib.ptr).contains r.ptr))
  | [], s, G, hs => ⟨G, hs, fun r i => by simp⟩
  | n :: L, s, G, hs => by
    obtain ⟨G', hG', hbits⟩ :=
      foldl_fibAddStep hnd vrfId p L _ _ (hs.fibAddStep hnd vrfId p n.ptr)
    refine ⟨G', hG', fun r i => ?_⟩
    rw [hbits]
    by_cases hp : r.ptr = n.ptr
    · by_cases hi : i = 1 <;> simp [hp, hi]
    · simp [hp]

/-- The selected-route sync leaves the selected flag on the rib behind the new selected
pointer and on no other, provided the old selected rib was the only one holding it, and it
touches no other flag. -/
lemma Image.syncSelected (hs : s.Image A B G) {g : Globals} {v : Vrf} {p : Prefix}
    {oSel nSel : Option Rib} {s' : ProcessState}
    (hold : SelectedAt G (A ++ B) (oSel.map Rib.ptr))
    (h : syncSelected g v p s oSel nSel = some s') :
    ∃ G', s'.Image A B G' ∧ SelectedAt G' (A ++ B) (nSel.map Rib.ptr) ∧ SameOffSelected G G' := by
  unfold Zebra.syncSelected at h
  split_ifs at h with heq
  · -- the selected pointer is unchanged: nothing happens
    cases h
    exact ⟨G, hs, heq ▸ hold, fun _ _ _ => rfl⟩
  · rcases oSel with _ | o <;> rcases nSel with _ | n
    · exact absurd rfl heq
    · exact ⟨_, (hs.modify (flagMap_setFlag _) n.ptr).redist h, hold.set,
        sameOffSelected_set n.ptr⟩
    · exact ⟨_, (hs.modify (flagMap_unsetFlag _) o.ptr).redist h, hold.unset,
        sameOffSelected_unset o.ptr⟩
    · dsimp only at h
      split_ifs at h with hty
      · -- one route type: the flag moves, and only the new route is announced
        have hs' :=
          ((hs.modify (flagMap_unsetFlag _) o.ptr).modify (flagMap_setFlag _) n.ptr).redist h
        exact ⟨_, hs', hold.unset.set,
          (sameOffSelected_unset o.ptr).trans (sameOffSelected_set n.ptr)⟩
      · obtain ⟨s₁, h₁, h₂⟩ := Option.bind_eq_some_iff.1 h
        have hs₁ := (hs.modify (flagMap_unsetFlag _) o.ptr).redist h₁
        exact ⟨_, (hs₁.modify (flagMap_setFlag _) n.ptr).redist h₂, hold.unset.set,
          (sameOffSelected_unset o.ptr).trans (sameOffSelected_set n.ptr)⟩

end ProcessState

/-! ### The selection loop is the scan -/

/-- Without `AddPathDefault` a turn of the selection loop skips an unresolved route and is a
turn of the scan on a resolved one; no route is set aside. -/
lemma selectStep_false (p : Prefix) (a : Option Rib) (b : List Rib) (rib : Rib) :
    selectStep false p (a, b, none) rib =
      if rib.isResolved then
        ((scanStep distKey metricKey (a, b) rib).1, (scanStep distKey metricKey (a, b) rib).2, none)
      else (a, b, none) := by
  by_cases hr : rib.flags.testBit 4 = true
  · cases a with
    | none => simp [selectStep, scanStep, hr]
    | some s =>
      simp only [selectStep, scanStep, distKey, metricKey, Rib.isResolved_eq, hr, Bool.not_true,
        Bool.false_and, Bool.false_eq_true, if_false, if_true, UInt8.lt_iff_toNat_lt,
        UInt32.lt_iff_toNat_lt, UInt8.toNat_inj]
      by_cases hd : rib.distance.toNat < s.distance.toNat
      · simp [hd]
      · by_cases he : rib.distance = s.distance
        · by_cases hm : rib.metric.toNat < s.metric.toNat <;> simp [he, hm]
        · simp [hd, he]
  · simp [selectStep, hr]

lemma foldl_selectStep_false (p : Prefix) :
    ∀ (rs : List Rib) (a : Option Rib) (b : List Rib),
      rs.foldl (selectStep false p) (a, b, none) =
        (((rs.filter Rib.isResolved).foldl (scanStep distKey metricKey) (a, b)).1,
          ((rs.filter Rib.isResolved).foldl (scanStep distKey metricKey) (a, b)).2, none)
  | [], a, b => rfl
  | rib :: rs, a, b => by
    rw [List.foldl_cons, selectStep_false]
    by_cases hr : rib.isResolved
    · rw [if_pos hr, foldl_selectStep_false p rs, List.filter_cons_of_pos hr, List.foldl_cons]
    · rw [if_neg hr, foldl_selectStep_false p rs, List.filter_cons_of_neg hr]

/-- Without `AddPathDefault` the selection loop picks as new selected route the first
resolved route of least distance and metric, and as new FIB routes the resolved routes of
least distance. -/
theorem newFibs_selection (p : Prefix) (rs : List Rib) :
    newFibs (rs.foldl (selectStep false p) (none, [], none)) =
      ((rs.filter Rib.isResolved).argmin selKey, minClass distKey (rs.filter Rib.isResolved)) := by
  rw [foldl_selectStep_false, newFibs, ← scan, scan_eq]
  rfl

/-! ### The whole of `RibProcess` -/

/-- The new selected route and the new FIB routes that the selection loop of `RibProcess`
picks from the slice `rs`, with the default route put back. -/
def selection (addPathDefault : Bool) (p : Prefix) (rs : List Rib) : Option Rib × List Rib :=
  newFibs (rs.foldl (selectStep addPathDefault p) (none, [], none))

/-- The slice `RibProcess` selects from: resolved again against `v` when asked. -/
def resolveSlice (v : Vrf) (res : Bool) (ribs : List Rib) : List Rib :=
  if res then ribs.map (resolve v) else ribs

/-- `RibProcess`, whatever the globals, with the selection loop named. -/
lemma ribProcess_eq_selection (g : Globals) (v : Vrf) (p : Prefix) (ribs dels : List Rib)
    (res : Bool) :
    ribProcess g v p ribs dels res =
      let rs := resolveSlice v res ribs
      let nFibs := (selection g.addPathDefault p rs).2
      let s₁ := ((ribs ++ dels).filter Rib.isFib).foldl (fun s ofib =>
        if nFibs.any (·.ptr == ofib.ptr) then s else s.fibDelete v.id p ofib.ptr) ⟨rs, dels, []⟩
      let s₂ := nFibs.foldl (fun s nfib => s.fibAddStep v.id p nfib.ptr) s₁
      syncSelected g v p s₂ ((ribs ++ dels).filter Rib.isSelected).getLast?
        (selection g.addPathDefault p rs).1 := by
  unfold ribProcess
  rfl

lemma map_ptr_resolveSlice (v : Vrf) (res : Bool) (ribs : List Rib) :
    (resolveSlice v res ribs).map Rib.ptr = ribs.map Rib.ptr := by
  unfold resolveSlice
  split
  · rw [List.map_map]
    exact List.map_congr_left fun r _ => Rib.ptr_eq_of_data_eq (resolve_data v r)
  · rfl

/-- A rib of the resolved slice or of the removed ribs is one it was given, with at most its
resolved flag changed. -/
lemma mem_resolveSlice_append {v : Vrf} {res : Bool} {ribs dels : List Rib} {r : Rib}
    (h : r ∈ resolveSlice v res ribs ++ dels) :
    ∃ r₀ ∈ ribs ++ dels, r.data = r₀.data ∧ ∀ i, i ≠ 4 → r.flags.testBit i = r₀.flags.testBit i := by
  rcases List.mem_append.1 h with h | h
  · unfold resolveSlice at h
    split at h
    · obtain ⟨r₀, hr₀, rfl⟩ := List.mem_map.1 h
      exact ⟨r₀, List.mem_append_left _ hr₀, resolve_data v r₀,
        fun i hi => resolve_testBit v r₀ hi⟩
    · exact ⟨r, List.mem_append_left _ h, rfl, fun _ _ => rfl⟩
  · exact ⟨r, List.mem_append_right _ h, rfl, fun _ _ => rfl⟩

/-- With distinct pointers and at most one rib selected, the selected flag is held exactly by
the last selected rib, the one `RibProcess` takes as the old selected route. -/
lemma selectedAt_getLast {L : List Rib} (hnd : (L.map Rib.ptr).Nodup)
    (hsel : (L.filter Rib.isSelected).length ≤ 1) :
    SelectedAt id L ((L.filter Rib.isSelected).getLast?.map Rib.ptr) := by
  intro r hr
  by_cases hs : r.flags.testBit 0 = true
  · -- `r` is the only selected rib
    have hmem : r ∈ L.filter Rib.isSelected := List.mem_filter.2 ⟨hr, by simpa using hs⟩
    have hone : L.filter Rib.isSelected = [r] := by
      rcases hF : L.filter Rib.isSelected with _ | ⟨a, _ | ⟨b, t⟩⟩
      · rw [hF] at hmem; cases hmem
      · rw [hF, List.mem_singleton] at hmem; rw [hmem]
      · rw [hF] at hsel; simp at hsel
    simp [hone, hs]
  · -- another selected rib would share `r`'s pointer
    rw [Bool.not_eq_true] at hs
    rw [id, hs, eq_comm, decide_eq_false_iff_not]
    intro hsome
    obtain ⟨o, ho, hop⟩ := Option.map_eq_some_iff.1 hsome
    have hoL := List.mem_of_getLast? ho
    have hor : o = r := ptr_inj_of_nodup hnd (List.mem_filter.1 hoL).1 hr hop
    have hos := (List.mem_filter.1 hoL).2
    rw [hor, Rib.isSelected_eq, hs] at hos
    cases hos

/-- What `RibProcess` leaves behind, whatever the globals, given a slice and removed ribs with
distinct pointers of which at most one is selected: the ribs it was given, re-resolved when
asked, with only their FIB and selected flags changed; the FIB flag on exactly the new FIB
routes of its selection, and the selected flag on exactly its new selected route. -/
theorem ribProcess_image {g : Globals} {v : Vrf} {p : Prefix} {ribs dels : List Rib}
    {res : Bool} {s : ProcessState}
    (hnd : ((ribs ++ dels).map Rib.ptr).Nodup)
    (hsel : ((ribs ++ dels).filter Rib.isSelected).length ≤ 1)
    (h : ribProcess g v p ribs dels res = some s) :
    ∃ G, s.Image (resolveSlice v res ribs) dels G ∧
      (∀ r ∈ resolveSlice v res ribs ++ dels, (G r).isFib = true ↔
        r.ptr ∈ (selection g.addPathDefault p (resolveSlice v res ribs)).2.map Rib.ptr) ∧
      SelectedAt G (resolveSlice v res ribs ++ dels)
        ((selection g.addPathDefault p (resolveSlice v res ribs)).1.map Rib.ptr) ∧
      ∀ r i, i ≠ 0 → i ≠ 1 → (G r).flags.testBit i = r.flags.testBit i := by
  rw [ribProcess_eq_selection] at h
  set rs := resolveSlice v res ribs
  set nFibs := (selection g.addPathDefault p rs).2
  set keep : Rib → Bool := fun ofib => nFibs.any (·.ptr == ofib.ptr)
  have hnd' : ((rs ++ dels).map Rib.ptr).Nodup := by
    rwa [List.map_append, map_ptr_resolveSlice, ← List.map_append]
  have hs₀ : ProcessState.Image ⟨rs, dels, []⟩ rs dels id :=
    ⟨fun _ => rfl, (List.map_id _).symm, (List.map_id _).symm⟩
  obtain ⟨G₁, hs₁, hb₁⟩ := ProcessState.Image.foldl_fibDelete v.id p keep
    ((ribs ++ dels).filter Rib.isFib) _ _ hs₀
  obtain ⟨G₂, hs₂, hb₂⟩ := ProcessState.Image.foldl_fibAddStep hnd' v.id p nFibs _ _ hs₁
  -- the FIB loops leave the selected flags as they were given
  have hold : SelectedAt G₂ (rs ++ dels)
      (((ribs ++ dels).filter Rib.isSelected).getLast?.map Rib.ptr) := by
    intro r hr
    obtain ⟨r₀, hr₀, hd, hb⟩ := mem_resolveSlice_append hr
    rw [hb₂, hb₁, Rib.ptr_eq_of_data_eq hd]
    simp only [id, show (0 : Nat) ≠ 1 by decide, decide_false, Bool.false_and, Bool.not_false,
      Bool.and_true, Bool.or_false]
    rw [hb 0 (by decide)]
    exact selectedAt_getLast hnd hsel r₀ hr₀
  obtain ⟨G₃, hs₃, hsel₃, hsame⟩ := hs₂.syncSelected hold h
  refine ⟨G₃, hs₃, fun r hr => ?_, hsel₃, fun r i hi0 hi1 => ?_⟩
  · rw [Rib.isFib_eq, hsame r 1 one_ne_zero, hb₂, hb₁]
    by_cases hn : r.ptr ∈ nFibs.map Rib.ptr
    · simp [hn]
    · -- a rib in the FIB before that is not a new FIB route was withdrawn
      obtain ⟨r₀, hr₀, hd, hb⟩ := mem_resolveSlice_append hr
      have hp := Rib.ptr_eq_of_data_eq hd
      have hdel : (id r).flags.testBit 1 = true →
          ((((ribs ++ dels).filter Rib.isFib).filter fun o => !keep o).map Rib.ptr).contains
            r.ptr = true := by
        intro h1
        have hkeep : keep r₀ = false := by
          simp only [keep, List.any_eq_false, beq_iff_eq]
          intro x hx hxp
          exact hn (hp ▸ hxp ▸ List.mem_map_of_mem hx)
        have hmem : r₀ ∈ ((ribs ++ dels).filter Rib.isFib).filter fun o => !keep o := by
          refine List.mem_filter.2 ⟨List.mem_filter.2 ⟨hr₀, ?_⟩, by simp [hkeep]⟩
          rw [Rib.isFib_eq, ← hb 1 (by decide)]
          exact h1
        rw [List.contains_iff_mem, hp]
        exact List.mem_map_of_mem hmem
      have hn' : (nFibs.map Rib.ptr).contains r.ptr = false := by simpa using hn
      rw [hn']
      by_cases h1 : (id r).flags.testBit 1 = true
      · rw [h1, hdel h1]
        simp [hn]
      · rw [Bool.not_eq_true] at h1
        rw [h1]
        simp [hn]
  · rw [hsame r i hi0, hb₂, hb₁]
    simp [hi1]

/-- What `RibProcess` leaves behind without `AddPathDefault`, given a slice and removed ribs
with distinct pointers of which at most one is selected: the ribs it was given, re-resolved
when asked, with only their FIB and selected flags changed; the FIB flag on exactly the
resolved routes of least distance, and the selected flag on exactly the first resolved route
of least distance and metric. -/
theorem ribProcess_spec {g : Globals} {v : Vrf} {p : Prefix} {ribs dels : List Rib} {res : Bool}
    {s : ProcessState} (hg : g.addPathDefault = false)
    (hnd : ((ribs ++ dels).map Rib.ptr).Nodup)
    (hsel : ((ribs ++ dels).filter Rib.isSelected).length ≤ 1)
    (h : ribProcess g v p ribs dels res = some s) :
    ∃ G, s.Image (resolveSlice v res ribs) dels G ∧
      (∀ r ∈ resolveSlice v res ribs ++ dels, (G r).isFib = true ↔
        r.ptr ∈ (minClass distKey ((resolveSlice v res ribs).filter Rib.isResolved)).map Rib.ptr) ∧
      SelectedAt G (resolveSlice v res ribs ++ dels)
        ((((resolveSlice v res ribs).filter Rib.isResolved).argmin selKey).map Rib.ptr) ∧
      ∀ r i, i ≠ 0 → i ≠ 1 → (G r).flags.testBit i = r.flags.testBit i := by
  have h' := ribProcess_image hnd hsel h
  rwa [hg, selection, newFibs_selection] at h'

/-! ### The slice left behind -/

section Slice

variable {rs : List Rib}

lemma ptr_mem_map_iff (hnd : (rs.map Rib.ptr).Nodup) {l : List Rib} (hsub : ∀ a ∈ l, a ∈ rs) {r : Rib} (hr : r ∈ rs) :
    r.ptr ∈ l.map Rib.ptr ↔ r ∈ l := by
  refine ⟨fun h => ?_, List.mem_map_of_mem⟩
  obtain ⟨a, ha, hp⟩ := List.mem_map.1 h
  rwa [ptr_inj_of_nodup hnd (hsub a ha) hr hp] at ha

lemma ptr_map_eq_some_iff (hnd : (rs.map Rib.ptr).Nodup) {o : Option Rib} (hsub : ∀ a ∈ o, a ∈ rs) {r : Rib} (hr : r ∈ rs) :
    o.map Rib.ptr = some r.ptr ↔ o = some r := by
  refine ⟨fun h => ?_, fun h => by rw [h]; rfl⟩
  obtain ⟨a, ha, hp⟩ := Option.map_eq_some_iff.1 h
  rwa [ptr_inj_of_nodup hnd (hsub a ha) hr hp] at ha

lemma FlagMap.mem_map_iff {G : Rib → Rib} (hG : FlagMap G) (hnd : (rs.map Rib.ptr).Nodup)
    {l : List Rib}
    (hsub : ∀ a ∈ l, a ∈ rs) {r : Rib} (hr : r ∈ rs) : G r ∈ l.map G ↔ r ∈ l := by
  refine ⟨fun h => ?_, List.mem_map_of_mem⟩
  obtain ⟨a, ha, he⟩ := List.mem_map.1 h
  have hp : a.ptr = r.ptr := by
    rw [← Rib.ptr_eq_of_data_eq (hG a), he, Rib.ptr_eq_of_data_eq (hG r)]
  rwa [ptr_inj_of_nodup hnd (hsub a ha) hr hp] at ha

lemma FlagMap.map_eq_some_iff {G : Rib → Rib} (hG : FlagMap G) (hnd : (rs.map Rib.ptr).Nodup)
    {o : Option Rib}
    (hsub : ∀ a ∈ o, a ∈ rs) {r : Rib} (hr : r ∈ rs) : o.map G = some (G r) ↔ o = some r := by
  refine ⟨fun h => ?_, fun h => by rw [h]; rfl⟩
  obtain ⟨a, ha, he⟩ := Option.map_eq_some_iff.1 h
  have hp : a.ptr = r.ptr := by
    rw [← Rib.ptr_eq_of_data_eq (hG a), he, Rib.ptr_eq_of_data_eq (hG r)]
  rwa [ptr_inj_of_nodup hnd (hsub a ha) hr hp] at ha

end Slice

lemma FlagMap.distKey_comp {G : Rib → Rib} (hG : FlagMap G) : distKey ∘ G = distKey :=
  funext fun r => by simp [distKey, Rib.distance_eq_of_data_eq (hG r)]

lemma FlagMap.selKey_comp {G : Rib → Rib} (hG : FlagMap G) : selKey ∘ G = selKey :=
  funext fun r => by
    simp [selKey, lexKey, distKey, metricKey, Rib.distance_eq_of_data_eq (hG r),
      Rib.metric_eq_of_data_eq (hG r)]

/-- A slice changed by a flag map that keeps the resolved flag has the flags `NodeSel`
describes once its FIB and selected flags are those of the scan of the slice. -/
lemma nodeSel_map {rs : List Rib} {G : Rib → Rib} (hG : FlagMap G) (hnd : (rs.map Rib.ptr).Nodup)
    (hres : ∀ r, (G r).isResolved = r.isResolved)
    (hfib : ∀ r ∈ rs, (G r).isFib = true ↔
      r.ptr ∈ (minClass distKey (rs.filter Rib.isResolved)).map Rib.ptr)
    (hsel : SelectedAt G rs (((rs.filter Rib.isResolved).argmin selKey).map Rib.ptr)) :
    NodeSel (rs.map G) := by
  have hF : (rs.map G).filter Rib.isResolved = (rs.filter Rib.isResolved).map G := by
    rw [List.filter_map]
    congr 1
    exact List.filter_congr fun r _ => by simp only [Function.comp_apply, hres]
  -- the new FIB routes and the new selected route lie in the slice
  have hsubF : ∀ a ∈ minClass distKey (rs.filter Rib.isResolved), a ∈ rs :=
    fun a ha => (List.mem_filter.1 (mem_minClass.1 ha).1).1
  have hsubS : ∀ a ∈ (rs.filter Rib.isResolved).argmin selKey, a ∈ rs :=
    fun a ha => (List.mem_filter.1 (List.argmin_mem ha)).1
  refine ⟨fun x hx => ?_, fun x hx => ?_⟩
  · obtain ⟨r, hr, rfl⟩ := List.mem_map.1 hx
    rw [hF, minClass_map, hG.distKey_comp, hG.mem_map_iff hnd hsubF hr, hfib r hr,
      ptr_mem_map_iff hnd hsubF hr]
  · obtain ⟨r, hr, rfl⟩ := List.mem_map.1 hx
    rw [hF, argmin_map, hG.selKey_comp, Rib.isSelected_eq, hsel r hr, decide_eq_true_iff,
      ptr_map_eq_some_iff hnd hsubS hr, hG.map_eq_some_iff hnd hsubS hr]

/-- `RibProcess` leaves its slice with the flags `NodeSel` describes, and the ribs it was
given as removed out of the FIB and unselected. -/
theorem ribProcess_nodeSel {g : Globals} {v : Vrf} {p : Prefix} {ribs dels : List Rib}
    {res : Bool} {s : ProcessState} (hg : g.addPathDefault = false)
    (hnd : ((ribs ++ dels).map Rib.ptr).Nodup)
    (hsel : ((ribs ++ dels).filter Rib.isSelected).length ≤ 1)
    (h : ribProcess g v p ribs dels res = some s) :
    NodeSel s.ribs ∧ ∀ r ∈ s.dels, r.isFib = false ∧ r.isSelected = false := by
  obtain ⟨G, hs, hfib, hsel', hbits⟩ := ribProcess_spec hg hnd hsel h
  set rs := resolveSlice v res ribs
  have hnd' : (rs.map Rib.ptr ++ dels.map Rib.ptr).Nodup := by
    rwa [map_ptr_resolveSlice, ← List.map_append]
  obtain ⟨hndrs, -, hdisj⟩ := List.nodup_append.1 hnd'
  refine ⟨?_, ?_⟩
  · rw [hs.ribs_eq]
    refine nodeSel_map hs.flagMap hndrs (fun r => ?_) (fun r hr => hfib r (List.mem_append_left _ hr))
      (fun r hr => hsel' r (List.mem_append_left _ hr))
    simp only [Rib.isResolved_eq]
    exact hbits r 4 (by decide) (by decide)
  · rw [hs.dels_eq]
    intro x hx
    obtain ⟨r, hr, rfl⟩ := List.mem_map.1 hx
    -- a removed rib shares its pointer with no rib of the slice
    have hout : ∀ a ∈ rs, a.ptr ≠ r.ptr := fun a ha =>
      hdisj _ (List.mem_map_of_mem ha) _ (List.mem_map_of_mem hr)
    constructor
    · rw [Bool.eq_false_iff]
      intro hf
      obtain ⟨a, ha, hp⟩ := List.mem_map.1 ((hfib r (List.mem_append_right _ hr)).1 hf)
      exact hout a (List.mem_filter.1 (mem_minClass.1 ha).1).1 hp
    · rw [Rib.isSelected_eq, hsel' r (List.mem_append_right _ hr), decide_eq_false_iff_not]
      intro hsome
      obtain ⟨a, ha, hp⟩ := Option.map_eq_some_iff.1 hsome
      exact hout a (List.mem_filter.1 (List.argmin_mem ha)).1 hp

end Zebra
