import Zebra.Rib.System
import Zebra.Rib.Connected
import Zebra.Lib.KeyedList

/-!
# The connected routes of every VRF object

`RibsAre s Q` says that every VRF object of `s` keeps the RIB's shape and that the connected
routes of object `i` are those of the pairs `Q i`.  The handlers change the VRF objects through
`connectedAdd`, `connectedDelete`, the loops `IfUpRibAdd` and `IfDownRibRemove`, `RibWalker()`,
`NewVrf` and the router-id calls; each lemma here says how `Q` changes, and that the rest of the
state (`VrfTable`, `IfTable`, the next `*IfAddr`, the number of VRF objects) does not.
-/

namespace Zebra

open Zebra.Netutil Zebra.Lib

namespace System

variable {g : Globals} {s s' s₁ : System}

/-- `s'` differs from `s` in its VRF objects only, and has as many. -/
structure VrfsOnly (s s' : System) : Prop where
  vrfTable : s'.vrfTable = s.vrfTable
  ifTable : s'.ifTable = s.ifTable
  nextAddr : s'.nextAddr = s.nextAddr
  length : s'.vrfs.length = s.vrfs.length

lemma VrfsOnly.refl (s : System) : s.VrfsOnly s := ⟨rfl, rfl, rfl, rfl⟩

lemma VrfsOnly.trans (h₁ : s.VrfsOnly s₁) (h₂ : s₁.VrfsOnly s') : s.VrfsOnly s' :=
  ⟨h₂.vrfTable.trans h₁.vrfTable, h₂.ifTable.trans h₁.ifTable, h₂.nextAddr.trans h₁.nextAddr,
    h₂.length.trans h₁.length⟩

/-- Every VRF object keeps the RIB's shape, and the connected routes of object `i` are those of
the pairs `Q i`. -/
structure RibsAre (s : System) (Q : Nat → List (Nat × IfAddr)) : Prop where
  tables : ∀ v ∈ s.vrfs, v.TablesInv
  view : ∀ i v, s.vrfs[i]? = some v → ViewIs v (Q i)

lemma RibsAre.congr {Q Q' : Nat → List (Nat × IfAddr)} (h : s.RibsAre Q)
    (hQ : ∀ i, (Q i).Perm (Q' i)) : s.RibsAre Q' :=
  ⟨h.tables, fun i v hv => (h.view i v hv).perm (hQ i)⟩

/-- `RibsAre` reads the VRF objects only. -/
lemma RibsAre.of_vrfs {Q : Nat → List (Nat × IfAddr)} (h : s.RibsAre Q) (hv : s'.vrfs = s.vrfs) :
    s'.RibsAre Q :=
  ⟨fun v hv' => h.tables v (hv ▸ hv'), fun i v hv' => h.view i v (hv ▸ hv')⟩

/-! ### Changing one VRF object -/

lemma onVrf_eq_some {i : Nat} {f : Vrf → Option Vrf} (h : s.onVrf i f = some s') :
    ∃ v v', s.vrfs[i]? = some v ∧ f v = some v' ∧ s' = { s with vrfs := s.vrfs.set i v' } := by
  simp only [onVrf, Option.bind_eq_bind, Option.bind_eq_some_iff, pure, Option.some.injEq] at h
  obtain ⟨v, hv, v', hv', rfl⟩ := h
  exact ⟨v, v', hv, hv', rfl⟩

/-- Changing object `i` to one that keeps the RIB's shape and has the connected routes of `P`
sets `Q i` to `P`. -/
theorem RibsAre.onVrf {Q : Nat → List (Nat × IfAddr)} {i : Nat} {f : Vrf → Option Vrf}
    {P : List (Nat × IfAddr)} (h : s.RibsAre Q) (hs : s.onVrf i f = some s')
    (hf : ∀ v v', v.TablesInv → ViewIs v (Q i) → f v = some v' → v'.TablesInv ∧ ViewIs v' P) :
    s'.RibsAre (Function.update Q i P) ∧ s.VrfsOnly s' := by
  obtain ⟨v, v', hv, hv', rfl⟩ := onVrf_eq_some hs
  obtain ⟨hti, hvi⟩ := hf v v' (h.tables v (List.mem_of_getElem? hv)) (h.view i v hv) hv'
  refine ⟨⟨fun w hw => ?_, fun j w hw => ?_⟩, ⟨rfl, rfl, rfl, List.length_set⟩⟩
  · rcases List.mem_or_eq_of_mem_set hw with hw | rfl
    · exact h.tables w hw
    · exact hti
  · have hi : i < s.vrfs.length := (List.getElem?_eq_some_iff.1 hv).1
    by_cases hj : j = i
    · subst hj
      rw [List.getElem?_set_self hi, Option.some.injEq] at hw
      subst hw
      rw [Function.update_self]
      exact hvi
    · rw [List.getElem?_set_ne (Ne.symm hj)] at hw
      rw [Function.update_of_ne hj]
      exact h.view j w hw

/-- `connectedAdd` adds the pair of the address to the interface's VRF object, when no pair
there holds its pointer. -/
theorem RibsAre.connectedAdd {Q : Nat → List (Nat × IfAddr)} {ifp : Interface} {index : Nat}
    {addr : IfAddr} (h : s.RibsAre Q) (hfresh : ∀ e ∈ Q ifp.vrf, e.2.id ≠ addr.id)
    (hs : s.connectedAdd g ifp index addr = some s') :
    s'.RibsAre (Function.update Q ifp.vrf (Q ifp.vrf ++ [(index, addr)])) ∧ s.VrfsOnly s' := by
  refine h.onVrf hs fun v v'' hti hvi hf => ?_
  obtain ⟨v', hadd, hrid⟩ := Option.bind_eq_some_iff.1 hf
  obtain ⟨afi, hafi⟩ := Vrf.ribAdd_afi hadd
  have hrt := Vrf.routerIdAdd_ribTable hrid
  refine ⟨fun afi' => ?_, ?_⟩
  · rw [hrt]
    exact Vrf.ribAdd_tablesInv hti hadd afi'
  · exact (hvi.ribAdd_connected (hti afi) hafi hfresh hadd).of_ribTable hrt

/-- `connectedDelete` takes the pairs of the address's pointer out of the interface's VRF
object, when the only one there is the pair of the address and the index. -/
theorem RibsAre.connectedDelete {Q : Nat → List (Nat × IfAddr)} {ifp : Interface} {index : Nat}
    {addr : IfAddr} (h : s.RibsAre Q) (hQ : ∀ e ∈ Q ifp.vrf, e.2.id = addr.id → e = (index, addr))
    (hs : s.connectedDelete g ifp index addr = some s') :
    s'.RibsAre (Function.update Q ifp.vrf ((Q ifp.vrf).filter fun e => e.2.id ≠ addr.id)) ∧
      s.VrfsOnly s' := by
  refine h.onVrf hs fun v v'' hti hvi hf => ?_
  obtain ⟨v', hdel, rfl⟩ := Option.map_eq_some_iff.1 hf
  obtain ⟨afi, hafi⟩ := Vrf.ribDelete_afi hdel
  have hrt := Vrf.routerIdDelete_ribTable v' ifp addr
  refine ⟨fun afi' => ?_, ?_⟩
  · rw [hrt]
    exact Vrf.ribDelete_tablesInv hti hdel afi'
  · exact (hvi.ribDelete_connected (hti afi) hafi hQ hdel).of_ribTable hrt

/-! ### The loops over an interface's addresses -/

/-- The `IfUpRibAdd` loop over addresses with distinct pointers that no pair of the VRF object
holds adds their pairs. -/
theorem RibsAre.foldlM_connectedAdd {ifp : Interface} {index : Nat} :
    ∀ (A : List IfAddr) (s : System) (Q : Nat → List (Nat × IfAddr)), s.RibsAre Q →
      (A.map (·.id)).Nodup → (∀ e ∈ Q ifp.vrf, e.2.id ∉ A.map (·.id)) →
      A.foldlM (fun s a => s.connectedAdd g ifp index a) s = some s' →
      s'.RibsAre (Function.update Q ifp.vrf (Q ifp.vrf ++ A.map (index, ·))) ∧ s.VrfsOnly s'
  | [], s, Q, h, _, _, hs => by
    cases hs
    exact ⟨by simpa using h, VrfsOnly.refl _⟩
  | a :: A, s, Q, h, hnd, hfresh, hs => by
    rw [List.foldlM_cons] at hs
    obtain ⟨s₁, h₁, hs⟩ := Option.bind_eq_some_iff.1 hs
    obtain ⟨ha, hnd'⟩ := List.nodup_cons.1 hnd
    obtain ⟨r₁, f₁⟩ := h.connectedAdd (fun e he hid => hfresh e he (hid ▸ List.mem_cons_self)) h₁
    -- the next addresses are fresh after this one too
    have hfresh₁ : ∀ e ∈ Function.update Q ifp.vrf (Q ifp.vrf ++ [(index, a)]) ifp.vrf,
        e.2.id ∉ A.map (·.id) := by
      intro e he
      rw [Function.update_self, List.mem_append, List.mem_singleton] at he
      rcases he with he | rfl
      · exact fun hA => hfresh e he (List.mem_cons_of_mem _ hA)
      · exact ha
    obtain ⟨r', f'⟩ := foldlM_connectedAdd A s₁ _ r₁ hnd' hfresh₁ hs
    refine ⟨by simpa using r', f₁.trans f'⟩

/-- The `IfDownRibRemove` loop takes out the pairs of the addresses' pointers, when the only pair
of such a pointer is the pair of its address and the index. -/
theorem RibsAre.foldlM_connectedDelete {ifp : Interface} {index : Nat} :
    ∀ (A : List IfAddr) (s : System) (Q : Nat → List (Nat × IfAddr)), s.RibsAre Q →
      (∀ e ∈ Q ifp.vrf, ∀ a ∈ A, e.2.id = a.id → e = (index, a)) →
      A.foldlM (fun s a => s.connectedDelete g ifp index a) s = some s' →
      s'.RibsAre (Function.update Q ifp.vrf
        ((Q ifp.vrf).filter fun e => e.2.id ∉ A.map (·.id))) ∧ s.VrfsOnly s'
  | [], s, Q, h, _, hs => by
    cases hs
    exact ⟨by simpa using h, VrfsOnly.refl _⟩
  | a :: A, s, Q, h, hQ, hs => by
    rw [List.foldlM_cons] at hs
    obtain ⟨s₁, h₁, hs⟩ := Option.bind_eq_some_iff.1 hs
    obtain ⟨r₁, f₁⟩ := h.connectedDelete (fun e he hid => hQ e he a List.mem_cons_self hid) h₁
    have hQ₁ : ∀ e ∈ Function.update Q ifp.vrf ((Q ifp.vrf).filter fun e => e.2.id ≠ a.id)
        ifp.vrf, ∀ b ∈ A, e.2.id = b.id → e = (index, b) := by
      intro e he b hb hid
      rw [Function.update_self] at he
      exact hQ e (List.mem_filter.1 he).1 b (List.mem_cons_of_mem _ hb) hid
    obtain ⟨r', f'⟩ := foldlM_connectedDelete A s₁ _ r₁ hQ₁ hs
    -- the two filters are one
    have hfilter : (((Q ifp.vrf).filter fun e => e.2.id ≠ a.id).filter
        fun e => e.2.id ∉ A.map (·.id)) = (Q ifp.vrf).filter fun e => e.2.id ∉ (a :: A).map (·.id) := by
      rw [List.filter_filter]
      congr 1
      funext e
      simp [Bool.and_comm]
    rw [Function.update_self, Function.update_idem, hfilter] at r'
    exact ⟨r', f₁.trans f'⟩

theorem RibsAre.ifUpRibAdd {Q : Nat → List (Nat × IfAddr)} {ifp : Interface} (h : s.RibsAre Q)
    (hnd : (ifp.allAddrs.map (·.id)).Nodup) (hfresh : ∀ e ∈ Q ifp.vrf, e.2.id ∉ ifp.allAddrs.map (·.id))
    (hs : s.ifUpRibAdd g ifp = some s') :
    s'.RibsAre (Function.update Q ifp.vrf (Q ifp.vrf ++ ifp.allAddrs.map (ifp.index, ·))) ∧
      s.VrfsOnly s' :=
  foldlM_connectedAdd _ s Q h hnd hfresh hs

theorem RibsAre.ifDownRibRemove {Q : Nat → List (Nat × IfAddr)} {ifp : Interface}
    (h : s.RibsAre Q) (hQ : ∀ e ∈ Q ifp.vrf, ∀ a ∈ ifp.allAddrs, e.2.id = a.id → e = (ifp.index, a))
    (hs : s.ifDownRibRemove g ifp = some s') :
    s'.RibsAre (Function.update Q ifp.vrf
      ((Q ifp.vrf).filter fun e => e.2.id ∉ ifp.allAddrs.map (·.id))) ∧ s.VrfsOnly s' :=
  foldlM_connectedDelete _ s Q h hQ hs

/-! ### The walker, new VRF objects and the router id -/

/-- `RibWalker()` keeps every object's shape and connected routes. -/
theorem RibsAre.ribWalkerAll {Q : Nat → List (Nat × IfAddr)} (h : s.RibsAre Q)
    (hs : s.ribWalkerAll g = some s') : s'.RibsAre Q ∧ s.VrfsOnly s' := by
  simp only [System.ribWalkerAll, Option.bind_eq_bind, Option.bind_eq_some_iff, pure,
    Option.some.injEq] at hs
  obtain ⟨vrfs, hvrfs, rfl⟩ := hs
  -- each object is walked on both families
  have hwalk : ∀ v w, (v.ribWalker g .ip).bind (·.ribWalker g .ip6) = some w → v.TablesInv →
      w.TablesInv ∧ ∀ P, ViewIs v P → ViewIs w P := by
    intro v w hw hti
    obtain ⟨v₁, h₁, h₂⟩ := Option.bind_eq_some_iff.1 hw
    obtain ⟨t₁, e₁⟩ := Vrf.ribWalker_tablesInv hti h₁
    obtain ⟨t₂, e₂⟩ := Vrf.ribWalker_tablesInv t₁ h₂
    exact ⟨t₂, fun P hv => (hv.of_tableView e₁).of_tableView e₂⟩
  have hget := getElem?_of_mapM_eq_some hvrfs
  refine ⟨⟨fun w hw => ?_, fun i w hw => ?_⟩,
    ⟨rfl, rfl, rfl, length_of_mapM_eq_some hvrfs⟩⟩
  · obtain ⟨i, hi⟩ := List.mem_iff_getElem?.1 hw
    rw [hget i] at hi
    obtain ⟨v, hv, hvw⟩ := Option.bind_eq_some_iff.1 hi
    exact (hwalk v w hvw (h.tables v (List.mem_of_getElem? hv))).1
  · rw [hget i] at hw
    obtain ⟨v, hv, hvw⟩ := Option.bind_eq_some_iff.1 hw
    exact (hwalk v w hvw (h.tables v (List.mem_of_getElem? hv))).2 _ (h.view i v hv)

/-- A new VRF object has no connected route. -/
theorem RibsAre.newVrf {Q : Nat → List (Nat × IfAddr)} {id : Nat} {i : Nat} (h : s.RibsAre Q)
    (hQ : Q s.vrfs.length = []) (hs : s.newVrf id = some (s', i)) :
    s'.RibsAre Q ∧ i = s.vrfs.length ∧ s'.vrfs.length = s.vrfs.length + 1 ∧
      s'.ifTable = s.ifTable ∧ s'.nextAddr = s.nextAddr ∧
      s'.vrfTable = Function.update s.vrfTable id (some s.vrfs.length) := by
  unfold System.newVrf at hs
  split_ifs at hs
  cases hs
  refine ⟨⟨fun w hw => ?_, fun j w hw => ?_⟩, rfl, by simp, rfl, rfl, rfl⟩
  · rcases List.mem_append.1 hw with hw | hw
    · exact h.tables w hw
    · rw [List.mem_singleton.1 hw]
      exact Vrf.tablesInv_new id
  · by_cases hj : j < s.vrfs.length
    · rw [List.getElem?_append_left hj] at hw
      exact h.view j w hw
    · -- the new object, at the end
      rw [List.getElem?_append_right (by omega), List.getElem?_singleton] at hw
      split_ifs at hw with h0
      cases hw
      rw [show j = s.vrfs.length by omega, hQ]
      exact viewIs_new id

end System

end Zebra
