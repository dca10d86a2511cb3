import Zebra.Rib.TableView

/-!
# The walker run twice

`RibWalker` runs `RibProcess` with resolving on every slice of a family.  Its second run
changes nothing: the first leaves each slice *settled* (`Settled`), with every route resolved
as `Resolve` resolves it and the FIB and selected flags on the routes the selection of
`RibProcess` picks, and `RibProcess` on a settled slice only pushes its static and BGP FIB
routes to the kernel again.  Three facts carry this.  The selection reads a route's data and
resolved flag only, so it is the same on the slice before and after its FIB and selected
flags move (`selection_map`); `Resolve` reads the tables only through `Match`, which no
change of an item affects; and the walker changes each node once, at its own place.

What the first run needs of a slice is what `RibProcess` needs: distinct pointers and at most
one selected route.  Every operation keeps that, whatever `AddPathDefault` is, as long as the
route handed to `RibAdd` is not marked selected, as no caller does.  A route handed over
marked selected leaves two selected routes in a slice, and then each run of the walker
unselects one of them (`ribWalker_twice_unselects`).
-/

namespace Zebra

open Zebra.Netutil

/-! ### The selection up to flags -/

lemma Rib.type_eq_of_data_eq {r r' : Rib} (h : r'.data = r.data) : r'.type = r.type :=
  (congrArg Rib.type h :)

section FlagMap

variable {G : Rib → Rib}

/-- A turn of the selection loop reads a route's resolved flag, type, distance and metric
only, so it commutes with a flag map that keeps the resolved flag. -/
lemma selectStep_map (hG : FlagMap G) (hres : ∀ r, (G r).isResolved = r.isResolved)
    (b : Bool) (p : Prefix) (a : Option Rib) (l : List Rib) (d : Option Rib) (rib : Rib) :
    selectStep b p (a.map G, l.map G, d.map G) (G rib) =
      ((selectStep b p (a, l, d) rib).1.map G, (selectStep b p (a, l, d) rib).2.1.map G,
        (selectStep b p (a, l, d) rib).2.2.map G) := by
  have ht := Rib.type_eq_of_data_eq (hG rib)
  have hd := Rib.distance_eq_of_data_eq (hG rib)
  cases a with
  | none =>
    simp only [selectStep, hres, ht, Option.map_none]
    split_ifs <;> simp
  | some s =>
    have hds := Rib.distance_eq_of_data_eq (hG s)
    have hm := Rib.metric_eq_of_data_eq (hG rib)
    have hms := Rib.metric_eq_of_data_eq (hG s)
    simp only [selectStep, hres, ht, hd, hm, hds, hms, Option.map_some]
    split_ifs <;> simp

lemma foldl_selectStep_map (hG : FlagMap G) (hres : ∀ r, (G r).isResolved = r.isResolved)
    (b : Bool) (p : Prefix) :
    ∀ (rs : List Rib) (a : Option Rib) (l : List Rib) (d : Option Rib),
      (rs.map G).foldl (selectStep b p) (a.map G, l.map G, d.map G) =
        ((rs.foldl (selectStep b p) (a, l, d)).1.map G,
          (rs.foldl (selectStep b p) (a, l, d)).2.1.map G,
          (rs.foldl (selectStep b p) (a, l, d)).2.2.map G)
  | [], _, _, _ => rfl
  | r :: rs, a, l, d => by
    rw [List.map_cons, List.foldl_cons, List.foldl_cons, selectStep_map hG hres]
    exact foldl_selectStep_map hG hres b p rs _ _ _

/-- The selection of a slice changed by such a flag map is the selection of the slice,
changed by the map. -/
theorem selection_map (hG : FlagMap G) (hres : ∀ r, (G r).isResolved = r.isResolved)
    (b : Bool) (p : Prefix) (rs : List Rib) :
    selection b p (rs.map G) = ((selection b p rs).1.map G, (selection b p rs).2.map G) := by
  have h := foldl_selectStep_map hG hres b p rs none [] none
  simp only [Option.map_none, List.map_nil] at h
  rw [selection, h, selection]
  -- the default route set aside is put back after the map as before it
  rcases rs.foldl (selectStep b p) (none, [], none) with ⟨nSel, nFibs, _ | d⟩
  · rfl
  · by_cases hn : nFibs = [] <;> simp [newFibs, hn, List.head?_map]

end FlagMap

/-- The selection loop only ever holds routes of the slice. -/
lemma foldl_selectStep_mem (b : Bool) (p : Prefix) (S : List Rib) :
    ∀ (rs : List Rib) (a : Option Rib) (l : List Rib) (d : Option Rib), (∀ r ∈ rs, r ∈ S) →
      (∀ x ∈ a, x ∈ S) → (∀ x ∈ l, x ∈ S) → (∀ x ∈ d, x ∈ S) →
      (∀ x ∈ (rs.foldl (selectStep b p) (a, l, d)).1, x ∈ S) ∧
        (∀ x ∈ (rs.foldl (selectStep b p) (a, l, d)).2.1, x ∈ S) ∧
        (∀ x ∈ (rs.foldl (selectStep b p) (a, l, d)).2.2, x ∈ S)
  | [], _, _, _, _, ha, hl, hd => ⟨ha, hl, hd⟩
  | rib :: rs, a, l, d, hrs, ha, hl, hd => by
    have hrib := hrs rib List.mem_cons_self
    have hrest : ∀ r ∈ rs, r ∈ S := fun r hr => hrs r (List.mem_cons_of_mem rib hr)
    rw [List.foldl_cons]
    -- each turn keeps what it held or takes the route it visits
    have happ : ∀ x ∈ l ++ [rib], x ∈ S := by
      intro x hx
      rcases List.mem_append.1 hx with hx | hx
      · exact hl x hx
      · rw [List.mem_singleton.1 hx]
        exact hrib
    have hstep : (∀ x ∈ (selectStep b p (a, l, d) rib).1, x ∈ S) ∧
        (∀ x ∈ (selectStep b p (a, l, d) rib).2.1, x ∈ S) ∧
        (∀ x ∈ (selectStep b p (a, l, d) rib).2.2, x ∈ S) := by
      cases a with
      | none =>
        simp only [selectStep]
        split_ifs
        · exact ⟨ha, hl, hd⟩
        · exact ⟨ha, hl, by simpa using hrib⟩
        · exact ⟨by simpa using hrib, by simpa using hrib, hd⟩
      | some s =>
        simp only [selectStep]
        split_ifs
        · exact ⟨ha, hl, hd⟩
        · exact ⟨ha, hl, by simpa using hrib⟩
        · exact ⟨by simpa using hrib, by simpa using hrib, hd⟩
        · exact ⟨by simpa using hrib, happ, hd⟩
        · exact ⟨ha, happ, hd⟩
        · exact ⟨ha, hl, hd⟩
    exact foldl_selectStep_mem b p S rs _ _ _ hrest hstep.1 hstep.2.1 hstep.2.2

/-- The new selected route is a route of the slice. -/
lemma mem_of_mem_selection_fst {b : Bool} {p : Prefix} {rs : List Rib} {x : Rib}
    (hx : x ∈ (selection b p rs).1) : x ∈ rs := by
  obtain ⟨ha, hl, hd⟩ := foldl_selectStep_mem b p rs rs none [] none (fun _ h => h)
    (by simp) (by simp) (by simp)
  unfold selection newFibs at hx
  split at hx
  · rename_i h
    rw [h] at ha
    exact ha x hx
  · rename_i h
    rw [h] at hl hd
    split_ifs at hx
    · exact hd x (by simpa using hx)
    · exact hl x (List.mem_of_mem_head? hx)

/-! ### What `Resolve` reads -/

lemma Rib.ext_of_data {r r' : Rib} (hd : r.data = r'.data) (hf : r.flags = r'.flags) : r = r' := by
  cases r
  cases r'
  simp only [Rib.data, Rib.mk.injEq] at hd hf ⊢
  obtain ⟨hp, -, hrest⟩ := hd
  exact ⟨hp, hf, hrest⟩

/-- The resolved flag `Resolve` leaves depends on the route up to flags. -/
lemma isResolved_resolve_congr (v : Vrf) {x y : Rib} (h : x.data = y.data) :
    (resolve v x).isResolved = (resolve v y).isResolved := by
  have ht : x.type = y.type := Rib.type_eq_of_data_eq h
  have hn : x.nexthops = y.nexthops := (congrArg Rib.nexthops h :)
  simp only [resolve, Rib.unsetFlag, ht, hn]
  split
  · split
    · split
      · simp
      · split
        · split <;> simp
        · simp
    · simp
  · simp

/-- A route whose resolved flag is the one `Resolve` gives a route with its data is left as it
is. -/
lemma resolve_eq_self {v : Vrf} {x y : Rib} (h : x.data = y.data)
    (hres : x.isResolved = (resolve v y).isResolved) : resolve v x = x := by
  refine Rib.ext_of_data (resolve_data v x) (Nat.eq_of_testBit_eq fun i => ?_)
  by_cases hi : i = 4
  · subst hi
    rw [← Rib.isResolved_eq, ← Rib.isResolved_eq, isResolved_resolve_congr v h, hres]
  · exact resolve_testBit v x hi

/-- `Resolve` reads the tables only through whether `Match` finds a node. -/
lemma resolve_congr {v w : Vrf}
    (h : ∀ afi key len, ((w.ribTable afi).match key len).isSome =
      ((v.ribTable afi).match key len).isSome) : resolve w = resolve v := by
  funext r
  simp only [resolve]
  split_ifs
  · -- a static or BGP route: only the search for its one next hop reads the tables
    split
    · split
      · rfl
      · simp only [nexthopTable]
        split_ifs <;> simp [h]
    · rfl
  · rfl

/-- `RibProcess` on a node sets its item only, so `Resolve` resolves every route afterwards as
it did before. -/
lemma resolve_process {g : Globals} {v v' : Vrf} {afi : Afi} {key : List UInt8} {len : Nat}
    {p : Prefix} {ribs dels : List Rib} {res : Bool}
    (h : v.process g afi key len p ribs dels res = some v') : resolve v' = resolve v := by
  obtain ⟨s, -, rfl⟩ := Vrf.process_eq_some h
  refine resolve_congr fun afi' k l => ?_
  by_cases ha : afi' = afi
  · subst ha
    simp [Ptree.match_isSome_setItem]
  · simp [ha]

/-! ### Settled slices -/

/-- A slice the walker leaves as it finds it: nonempty, with distinct pointers, every route
resolved as `Resolve` resolves it against `v`, and the FIB and selected flags on exactly the
routes the selection of `RibProcess` picks at the prefix `p`. -/
structure Settled (g : Globals) (v : Vrf) (p : Prefix) (R : List Rib) : Prop where
  ne_nil : R ≠ []
  nodup : (R.map Rib.ptr).Nodup
  resolved : ∀ r ∈ R, resolve v r = r
  fib : ∀ r ∈ R, r.isFib = true ↔ r.ptr ∈ (selection g.addPathDefault p R).2.map Rib.ptr
  selected : SelectedAt id R ((selection g.addPathDefault p R).1.map Rib.ptr)

lemma Settled.congr {g : Globals} {v w : Vrf} {p : Prefix} {R : List Rib} (h : Settled g v p R)
    (hw : resolve w = resolve v) : Settled g w p R :=
  ⟨h.ne_nil, h.nodup, fun r hr => by rw [hw]; exact h.resolved r hr, h.fib, h.selected⟩

/-- A call that pushes a route to the kernel, `NetlinkRouteAdd`. -/
def Call.isRouteAdd : Call → Bool
  | .netlinkRouteAdd .. => true
  | _ => false

namespace ProcessState

@[simp] lemma emit_nil (s : ProcessState) : s.emit [] = s := by
  cases s
  simp [emit]

lemma emit_emit (s : ProcessState) (a b : List Call) : (s.emit a).emit b = s.emit (a ++ b) := by
  simp [emit, List.append_assoc]

@[simp] lemma dels_emit (s : ProcessState) (c : List Call) : (s.emit c).dels = s.dels := rfl

variable {s : ProcessState} {ptr : Nat}

/-- `FibAdd` of a route in the FIB already pushes it to the kernel again and changes no
flag. -/
lemma fibAdd_of_isFib (vrfId : Nat) (p : Prefix)
    (h : ∀ r ∈ s.ribs ++ s.dels, r.ptr = ptr → r.isFib = true) :
    ∃ cs, s.fibAdd vrfId p ptr = s.emit cs ∧ ∀ c ∈ cs, c.isRouteAdd = true := by
  unfold fibAdd
  cases s.get? ptr with
  | none => exact ⟨[], (emit_nil s).symm, by simp⟩
  | some rib =>
    refine ⟨if rib.isSystem then [] else [.netlinkRouteAdd p rib vrfId], ?_, ?_⟩
    · have hset : ∀ l : List Rib, (∀ r ∈ l, r ∈ s.ribs ++ s.dels) →
          modifyPtr ptr (·.setFlag ribFlagFib) l = l := fun l hl =>
        modifyPtr_of_forall fun r hr hp =>
          Rib.setFlag_of_testBit (k := 1) (by simpa using h r (hl r hr) hp)
      simp only [modify, emit, ProcessState.mk.injEq]
      exact ⟨hset s.ribs fun r hr => List.mem_append_left _ hr,
        hset s.dels fun r hr => List.mem_append_right _ hr, trivial⟩
    · split <;> simp [Call.isRouteAdd]

lemma fibAddStep_of_isFib (vrfId : Nat) (p : Prefix)
    (h : ∀ r ∈ s.ribs ++ s.dels, r.ptr = ptr → r.isFib = true) :
    ∃ cs, s.fibAddStep vrfId p ptr = s.emit cs ∧ ∀ c ∈ cs, c.isRouteAdd = true := by
  unfold fibAddStep
  cases s.get? ptr with
  | none => exact ⟨[], (emit_nil s).symm, by simp⟩
  | some rib =>
    dsimp only
    split_ifs
    · exact fibAdd_of_isFib vrfId p h
    · exact fibAdd_of_isFib vrfId p h
    · exact ⟨[], (emit_nil s).symm, by simp⟩

/-- The loop adding new FIB routes, over routes all in the FIB already, only pushes routes to
the kernel again. -/
lemma foldl_fibAddStep_of_isFib (vrfId : Nat) (p : Prefix) :
    ∀ (L : List Rib) (s : ProcessState),
      (∀ r ∈ s.ribs ++ s.dels, r.ptr ∈ L.map Rib.ptr → r.isFib = true) →
      ∃ cs, L.foldl (fun s n => s.fibAddStep vrfId p n.ptr) s = s.emit cs ∧
        ∀ c ∈ cs, c.isRouteAdd = true
  | [], s, _ => ⟨[], (emit_nil s).symm, by simp⟩
  | n :: L, s, h => by
    obtain ⟨cs₁, h₁, hc₁⟩ := fibAddStep_of_isFib vrfId p
      fun r hr hp => h r hr (hp ▸ List.mem_map_of_mem List.mem_cons_self)
    obtain ⟨cs₂, h₂, hc₂⟩ := foldl_fibAddStep_of_isFib vrfId p L (s.emit cs₁)
      fun r hr hp => h r (by simpa using hr) (List.mem_cons_of_mem _ hp)
    refine ⟨cs₁ ++ cs₂, ?_, fun c hc => ?_⟩
    · rw [List.foldl_cons, h₁, h₂, emit_emit]
    · rcases List.mem_append.1 hc with hc | hc
      · exact hc₁ c hc
      · exact hc₂ c hc

end ProcessState

/-- A fold whose steps keep the state at every element it visits keeps it. -/
lemma foldl_ite_of_forall {α β : Type} (keep : β → Bool) (f : α → β → α) :
    ∀ (L : List β) (a : α), (∀ b ∈ L, keep b = true) →
      L.foldl (fun a b => if keep b then a else f a b) a = a
  | [], _, _ => rfl
  | b :: L, a, h => by
    rw [List.foldl_cons, if_pos (h b List.mem_cons_self)]
    exact foldl_ite_of_forall keep f L a fun b' hb' => h b' (List.mem_cons_of_mem b hb')

/-- Where the selected flag is held exactly by the route behind `o`, a route of the slice,
the last selected route, the one `RibProcess` takes as the old selected route, is `o`. -/
lemma map_ptr_getLast?_filter_selected {R : List Rib} {o : Option Rib}
    (hs : SelectedAt id R (o.map Rib.ptr)) (hmem : ∀ x ∈ o, x ∈ R) :
    ((R.filter Rib.isSelected).getLast?).map Rib.ptr = o.map Rib.ptr := by
  cases o with
  | none =>
    -- no route is selected
    have hnil : R.filter Rib.isSelected = [] := by
      rw [List.filter_eq_nil_iff]
      intro r hr
      simpa using hs r hr
    rw [hnil]
    rfl
  | some x =>
    have hx : x ∈ R.filter Rib.isSelected := List.mem_filter.2 ⟨hmem x rfl, by simpa using hs x (hmem x rfl)⟩
    obtain ⟨y, hy⟩ := Option.isSome_iff_exists.1
      (List.getLast?_isSome.2 (List.ne_nil_of_mem hx))
    obtain ⟨hyR, hysel⟩ := List.mem_filter.1 (List.mem_of_getLast? hy)
    have hp := hs y hyR
    rw [id, ← Rib.isSelected_eq, hysel, eq_comm, decide_eq_true_iff, Option.map_some] at hp
    rw [hy, Option.map_some, Option.map_some, hp]

/-! ### `RibProcess` on a slice, twice -/

/-- `RibProcess` with resolving on a settled slice keeps it as it is and only pushes routes to
the kernel again. -/
theorem ribProcess_of_settled {g : Globals} {v : Vrf} {p : Prefix} {R : List Rib}
    (h : Settled g v p R) :
    ∃ cs, ribProcess g v p R [] true = some ⟨R, [], cs⟩ ∧ ∀ c ∈ cs, c.isRouteAdd = true := by
  have hrs : resolveSlice v true R = R := by
    rw [resolveSlice, if_pos rfl]
    conv_rhs => rw [← List.map_id R]
    exact List.map_congr_left h.resolved
  -- the routes in the FIB are new FIB routes: none is withdrawn
  have hkeep : ∀ o ∈ (R ++ []).filter Rib.isFib,
      (selection g.addPathDefault p R).2.any (·.ptr == o.ptr) = true := by
    intro o ho
    rw [List.append_nil, List.mem_filter] at ho
    obtain ⟨x, hx, hxp⟩ := List.mem_map.1 ((h.fib o ho.1).1 ho.2)
    exact List.any_eq_true.2 ⟨x, hx, by simp [hxp]⟩
  -- the new FIB routes are in the FIB already
  obtain ⟨cs, hadd, hcs⟩ := ProcessState.foldl_fibAddStep_of_isFib v.id p
    (selection g.addPathDefault p R).2 ⟨R, [], []⟩ fun r hr hp => (h.fib r (by simpa using hr)).2 hp
  -- the route selected is the new selected route
  have hsel : (((R ++ []).filter Rib.isSelected).getLast?).map Rib.ptr =
      (selection g.addPathDefault p R).1.map Rib.ptr := by
    rw [List.append_nil]
    exact map_ptr_getLast?_filter_selected h.selected fun x hx => mem_of_mem_selection_fst hx
  have hdel : ((R ++ []).filter Rib.isFib).foldl (fun (s : ProcessState) (ofib : Rib) =>
      if (selection g.addPathDefault p R).2.any (·.ptr == ofib.ptr) then s
      else s.fibDelete v.id p ofib.ptr) ⟨R, [], []⟩ = ⟨R, [], []⟩ :=
    foldl_ite_of_forall _ _ _ _ hkeep
  refine ⟨cs, ?_, hcs⟩
  rw [ribProcess_eq_selection]
  dsimp only
  rw [hrs, hdel, hadd]
  unfold syncSelected
  rw [if_pos hsel]
  simp [ProcessState.emit]

/-- `RibProcess` with resolving leaves a nonempty slice settled, against the tables it ran on
or any that `Match` reads the same way. -/
theorem ribProcess_settles {g : Globals} {v w : Vrf} {p : Prefix} {R₀ : List Rib}
    {s : ProcessState} (hnd : (R₀.map Rib.ptr).Nodup)
    (hsel : (R₀.filter Rib.isSelected).length ≤ 1) (h : ribProcess g v p R₀ [] true = some s)
    (hne : s.ribs ≠ []) (hw : resolve w = resolve v) : Settled g w p s.ribs := by
  obtain ⟨G, hs, hfib, hselG, hbits⟩ :=
    ribProcess_image (by simpa using hnd) (by simpa using hsel) h
  have hrs : resolveSlice v true R₀ = R₀.map (resolve v) := if_pos rfl
  have hres : ∀ r, (G r).isResolved = r.isResolved := fun r => by
    simp only [Rib.isResolved_eq]
    exact hbits r 4 (by decide) (by decide)
  have hptr : Rib.ptr ∘ G = Rib.ptr := funext fun r => Rib.ptr_eq_of_data_eq (hs.flagMap r)
  -- the selection of the slice left behind is that of the resolved slice
  have hsm := selection_map hs.flagMap hres g.addPathDefault p (resolveSlice v true R₀)
  have hribs : s.ribs = (resolveSlice v true R₀).map G := hs.ribs_eq
  refine ⟨hne, ?_, ?_, ?_, ?_⟩ <;> rw [hribs]
  · rw [List.map_map, hptr, map_ptr_resolveSlice]
    exact hnd
  · intro x hx
    obtain ⟨r, hr, rfl⟩ := List.mem_map.1 hx
    rw [hrs] at hr
    obtain ⟨r₀, -, rfl⟩ := List.mem_map.1 hr
    rw [hw]
    refine resolve_eq_self ((hs.flagMap _).trans (resolve_data v r₀)) ?_
    rw [hres]
  · intro x hx
    obtain ⟨r, hr, rfl⟩ := List.mem_map.1 hx
    rw [hsm, List.map_map, hptr, Rib.ptr_eq_of_data_eq (hs.flagMap r)]
    exact hfib r (List.mem_append_left _ hr)
  · intro x hx
    obtain ⟨r, hr, rfl⟩ := List.mem_map.1 hx
    rw [hsm, Option.map_map, hptr, Rib.ptr_eq_of_data_eq (hs.flagMap r)]
    exact hselG r (List.mem_append_left _ hr)

/-! ### The walker, twice -/

section Walk

variable {g : Globals} {afi : Afi}

/-- The walker's step over a node whose slice is settled changes nothing but the calls. -/
lemma walkNode_of_settled {u : Vrf} {n : PtreeNode RibSlice}
    (hk : (u.ribTable afi).Keyed afi.ipLen) (hn : n ∈ (u.ribTable afi).nodes)
    (hs : ∀ R, n.item = some R → Settled g u (Prefix.fromKey afi.ipLen n.key n.keyLength) R) :
    ∃ cs, Vrf.walkNode g afi u n = some { u with calls := u.calls ++ cs } ∧
      ∀ c ∈ cs, c.isRouteAdd = true := by
  cases hi : n.item with
  | none => exact ⟨[], by simp [Vrf.walkNode_of_item_none hi], by simp⟩
  | some R =>
    obtain ⟨cs, hproc, hcs⟩ := ribProcess_of_settled (hs R hi)
    refine ⟨cs, ?_, hcs⟩
    -- `RibProcess` hands back the slice the node holds, which is stored again
    have hitem : (if R.isEmpty then none else some R) = n.item := by
      rw [hi]
      cases R with
      | nil => exact absurd rfl (hs [] hi).ne_nil
      | cons _ _ => rfl
    simp only [Vrf.walkNode_of_item_some hi, Vrf.process_of_ribProcess hproc, hitem,
      Ptree.setItem_of_mem hk hn, Vrf.setTable_same, List.append_nil]

/-- The walker over nodes of a keyed table whose slices are all settled changes nothing but
the calls. -/
lemma foldlM_walkNode_of_settled {u₀ : Vrf} (hk : (u₀.ribTable afi).Keyed afi.ipLen)
    (hs : ∀ n ∈ (u₀.ribTable afi).nodes, ∀ R, n.item = some R →
      Settled g u₀ (Prefix.fromKey afi.ipLen n.key n.keyLength) R) :
    ∀ (L : List (PtreeNode RibSlice)) (cs₀ : List Call), (∀ n ∈ L, n ∈ (u₀.ribTable afi).nodes) →
      ∃ cs, L.foldlM (Vrf.walkNode g afi) { u₀ with calls := u₀.calls ++ cs₀ } =
        some { u₀ with calls := u₀.calls ++ cs₀ ++ cs } ∧ ∀ c ∈ cs, c.isRouteAdd = true
  | [], cs₀, _ => ⟨[], by simp, by simp⟩
  | n :: L, cs₀, hL => by
    have hn := hL n List.mem_cons_self
    -- the calls made so far change nothing `Resolve` reads
    obtain ⟨cs₁, h₁, hc₁⟩ := walkNode_of_settled (u := { u₀ with calls := u₀.calls ++ cs₀ }) hk hn
      fun R hR => (hs n hn R hR).congr rfl
    obtain ⟨cs₂, h₂, hc₂⟩ := foldlM_walkNode_of_settled hk hs L (cs₀ ++ cs₁)
      fun m hm => hL m (List.mem_cons_of_mem n hm)
    refine ⟨cs₁ ++ cs₂, ?_, fun c hc => ?_⟩
    · rw [List.foldlM_cons, h₁, Option.bind_eq_bind, Option.bind_some]
      simpa [List.append_assoc] using h₂
    · rcases List.mem_append.1 hc with hc | hc
      · exact hc₁ c hc
      · exact hc₂ c hc

/-- `RibWalker` on a keyed table whose slices are all settled changes nothing but the calls,
and those only push routes to the kernel again. -/
theorem ribWalker_of_settled {u : Vrf} (hk : (u.ribTable afi).Keyed afi.ipLen)
    (hs : ∀ n ∈ (u.ribTable afi).nodes, ∀ R, n.item = some R →
      Settled g u (Prefix.fromKey afi.ipLen n.key n.keyLength) R) :
    ∃ cs, u.ribWalker g afi = some { u with calls := u.calls ++ cs } ∧
      ∀ c ∈ cs, c.isRouteAdd = true := by
  obtain ⟨cs, h, hcs⟩ := foldlM_walkNode_of_settled hk hs (u.ribTable afi).items []
    fun n hn => Ptree.mem_of_mem_items hn
  refine ⟨cs, ?_, hcs⟩
  simpa [Vrf.ribWalker] using h

/-- One step of the walker: the node it visits is settled, the nodes at other places stay, and
every other slice settled before is settled still. -/
lemma walkNode_settles {v v₁ : Vrf} {n : PtreeNode RibSlice} {L : List (PtreeNode RibSlice)}
    (hk : (v.ribTable afi).Keyed afi.ipLen) (hn : n ∈ (v.ribTable afi).nodes)
    (hpre : ∀ R, n.item = some R → (R.map Rib.ptr).Nodup ∧ (R.filter Rib.isSelected).length ≤ 1)
    (hdone : ∀ m ∈ (v.ribTable afi).nodes, m.place ∉ (n :: L).map PtreeNode.place →
      ∀ R, m.item = some R → Settled g v (Prefix.fromKey afi.ipLen m.key m.keyLength) R)
    (h : Vrf.walkNode g afi v n = some v₁) :
    (v₁.ribTable afi).Keyed afi.ipLen ∧
      (∀ m ∈ (v.ribTable afi).nodes, m.place ≠ n.place → m ∈ (v₁.ribTable afi).nodes) ∧
      (∀ m ∈ (v₁.ribTable afi).nodes, m.place ∉ L.map PtreeNode.place → ∀ R, m.item = some R →
        Settled g v₁ (Prefix.fromKey afi.ipLen m.key m.keyLength) R) := by
  obtain ⟨hmn, hwn, -⟩ := hk.masked n hn
  cases hi : n.item with
  | none =>
    rw [Vrf.walkNode_of_item_none hi] at h
    cases h
    refine ⟨hk, fun m hm _ => hm, fun m hm hnot R hR => hdone m hm ?_ R hR⟩
    -- the node at `n`'s place is `n`, which holds no slice
    intro hmem
    rw [List.map_cons, List.mem_cons] at hmem
    rcases hmem with hp | hp
    · rw [List.inj_on_of_nodup_map hk.nodup hm hn hp, hi] at hR
      cases hR
    · exact hnot hp
  | some R₀ =>
    rw [Vrf.walkNode_of_item_some hi] at h
    have hres := resolve_process h
    obtain ⟨s, hs, rfl⟩ := Vrf.process_eq_some h
    simp only [Vrf.setTable_ribTable_self]
    refine ⟨hk.setItem _ _ _, fun m hm hne => ?_, fun m hm hnot R hR => ?_⟩
    · have hat : m.isAt n.key n.keyLength = false := by
        rw [Bool.eq_false_iff]
        exact fun hat => hne ((hk.isAt_iff hm hmn hwn).1 hat)
      exact List.mem_map.2 ⟨m, hm, PtreeNode.updateAt_of_not_isAt (by simp [hat])⟩
    · obtain ⟨m₀, hm₀, hkey, hlen, hitem⟩ := Ptree.mem_setItem hm
      have hpfx : Prefix.fromKey afi.ipLen m.key m.keyLength =
          Prefix.fromKey afi.ipLen m₀.key m₀.keyLength := by rw [hkey, hlen]
      have hplace : m.place = m₀.place := by simp [PtreeNode.place, hkey, hlen]
      rw [hpfx]
      by_cases hat : m₀.isAt n.key n.keyLength = true
      · -- the node just processed: `RibProcess` settled its slice
        have hp : m₀.place = n.place := (hk.isAt_iff hm₀ hmn hwn).1 hat
        rw [hitem, if_pos hat] at hR
        have hne : s.ribs ≠ [] := by
          intro hnil
          simp [hnil] at hR
        have hR' : s.ribs = R := by
          simpa [List.isEmpty_iff, hne] using hR
        obtain ⟨hnd, hsel⟩ := hpre R₀ hi
        have hkp := PtreeNode.place_eq_place_iff.1 hp
        rw [hkp.1, hkp.2, ← hR']
        exact ribProcess_settles hnd hsel hs hne hres
      · -- a node at another place keeps its slice, settled before
        rw [hitem, if_neg hat] at hR
        have hp : m₀.place ≠ n.place := fun hp => hat ((hk.isAt_iff hm₀ hmn hwn).2 hp)
        refine (hdone m₀ hm₀ ?_ R hR).congr hres
        rw [List.map_cons, List.mem_cons, not_or]
        exact ⟨hp, hplace ▸ hnot⟩

/-- The walker over the nodes `L`, still as they were: each visited node's slice is settled,
and so are those settled before. -/
lemma foldlM_walkNode_settles :
    ∀ (L : List (PtreeNode RibSlice)) (v v' : Vrf), (v.ribTable afi).Keyed afi.ipLen →
      (L.map PtreeNode.place).Nodup → (∀ n ∈ L, n ∈ (v.ribTable afi).nodes) →
      (∀ n ∈ L, ∀ R, n.item = some R →
        (R.map Rib.ptr).Nodup ∧ (R.filter Rib.isSelected).length ≤ 1) →
      (∀ m ∈ (v.ribTable afi).nodes, m.place ∉ L.map PtreeNode.place → ∀ R, m.item = some R →
        Settled g v (Prefix.fromKey afi.ipLen m.key m.keyLength) R) →
      L.foldlM (Vrf.walkNode g afi) v = some v' →
      ∀ m ∈ (v'.ribTable afi).nodes, ∀ R, m.item = some R →
        Settled g v' (Prefix.fromKey afi.ipLen m.key m.keyLength) R
  | [], v, v', _, _, _, _, hdone, h => by
    cases h
    exact fun m hm R hR => hdone m hm (by simp) R hR
  | n :: L, v, v', hk, hnd, hpend, hpre, hdone, h => by
    rw [List.foldlM_cons] at h
    obtain ⟨v₁, h₁, h⟩ := Option.bind_eq_some_iff.1 h
    rw [List.map_cons, List.nodup_cons] at hnd
    obtain ⟨hk₁, hstay, hdone₁⟩ :=
      walkNode_settles hk (hpend n List.mem_cons_self) (hpre n List.mem_cons_self) hdone h₁
    refine foldlM_walkNode_settles L v₁ v' hk₁ hnd.2 (fun m hm => ?_)
      (fun m hm => hpre m (List.mem_cons_of_mem n hm)) hdone₁ h
    -- a node still to visit stands at another place than `n`
    refine hstay m (hpend m (List.mem_cons_of_mem n hm)) fun hp => hnd.1 ?_
    rw [← hp]
    exact List.mem_map_of_mem hm

/-- `RibWalker` leaves every slice of the family settled, given slices with distinct pointers
and at most one selected route. -/
theorem ribWalker_settles {v v₁ : Vrf} (hk : (v.ribTable afi).Keyed afi.ipLen)
    (hpre : (v.ribTable afi).ItemsSatisfy fun R =>
      (R.map Rib.ptr).Nodup ∧ (R.filter Rib.isSelected).length ≤ 1)
    (h : v.ribWalker g afi = some v₁) :
    ∀ m ∈ (v₁.ribTable afi).nodes, ∀ R, m.item = some R →
      Settled g v₁ (Prefix.fromKey afi.ipLen m.key m.keyLength) R := by
  refine foldlM_walkNode_settles _ v v₁ hk ?_ (fun n hn => Ptree.mem_of_mem_items hn)
    (fun n hn => hpre n (Ptree.mem_of_mem_items hn)) ?_ h
  · exact hk.nodup.sublist ((List.filter_sublist).map _)
  · -- every node holding a slice is visited
    intro m hm hnot R hR
    exact absurd (List.mem_map_of_mem (List.mem_filter.2 ⟨hm, by simp [hR]⟩)) hnot

/-- `RibWalker` run on what `RibWalker` left changes nothing but the calls, and those only push
routes to the kernel again. -/
theorem ribWalker_ribWalker {v v₁ : Vrf} (hk : (v.ribTable afi).Keyed afi.ipLen)
    (hpre : (v.ribTable afi).ItemsSatisfy fun R =>
      (R.map Rib.ptr).Nodup ∧ (R.filter Rib.isSelected).length ≤ 1)
    (h : v.ribWalker g afi = some v₁) :
    ∃ cs, v₁.ribWalker g afi = some { v₁ with calls := v₁.calls ++ cs } ∧
      ∀ c ∈ cs, c.isRouteAdd = true :=
  ribWalker_of_settled (Vrf.ribWalker_changesAt hk h (Prefix.mk [] 0)).table.keyed
    (ribWalker_settles hk hpre h)

end Walk

/-! ### What every operation keeps, whatever the globals -/

/-- What `RibProcess` needs of the routes it is given: distinct pointers, all handed out
already, and at most one selected route. -/
structure SlicePre (nextPtr : Nat) (R : List Rib) : Prop where
  nodup : (R.map Rib.ptr).Nodup
  ptr_lt : ∀ r ∈ R, r.ptr < nextPtr
  one_selected : (R.filter Rib.isSelected).length ≤ 1

/-- With distinct pointers, the routes a test picks that all share one pointer are one route
at most. -/
lemma length_filter_le_one_of_ptr {L : List Rib} (hnd : (L.map Rib.ptr).Nodup) {q : Rib → Bool}
    {c : Nat} (h : ∀ r ∈ L, q r = true → r.ptr = c) : (L.filter q).length ≤ 1 := by
  have hnd' : ((L.filter q).map Rib.ptr).Nodup := hnd.sublist (List.filter_sublist.map _)
  have hrep : (L.filter q).map Rib.ptr = List.replicate (L.filter q).length c := by
    rw [List.eq_replicate_iff]
    refine ⟨by simp, fun b hb => ?_⟩
    obtain ⟨r, hr, rfl⟩ := List.mem_map.1 hb
    obtain ⟨hrL, hq⟩ := List.mem_filter.1 hr
    exact h r hrL hq
  rw [hrep, List.nodup_replicate] at hnd'
  exact hnd'

namespace SlicePre

variable {k : Nat} {R : List Rib}

lemma nil (k : Nat) : SlicePre k [] := ⟨List.nodup_nil, by simp, by simp⟩

lemma mono (h : SlicePre k R) {k' : Nat} (hk : k ≤ k') : SlicePre k' R :=
  ⟨h.nodup, fun r hr => lt_of_lt_of_le (h.ptr_lt r hr) hk, h.one_selected⟩

/-- Part of a rearrangement of a slice. -/
lemma sublist_perm (h : SlicePre k R) {l l' : List Rib} (hs : l.Sublist l') (hp : l'.Perm R) :
    SlicePre k l := by
  have hnd : (l'.map Rib.ptr).Nodup := (hp.map Rib.ptr).nodup_iff.2 h.nodup
  refine ⟨hnd.sublist (hs.map _), fun r hr => h.ptr_lt r (hp.subset (hs.subset hr)), ?_⟩
  calc (l.filter Rib.isSelected).length
      ≤ (l'.filter Rib.isSelected).length := (hs.filter _).length_le
    _ = (R.filter Rib.isSelected).length := (hp.filter _).length_eq
    _ ≤ 1 := h.one_selected

/-- The routes `RibAdd` hands to `RibProcess`: those of the slice it keeps, the new route under
the next pointer, and those it takes out. -/
lemma add (h : SlicePre k R) (q : Rib → Bool) {n : Rib} (hn : n.ptr = k)
    (hsel : n.isSelected = false) :
    SlicePre (k + 1) (R.filter (fun r => !q r) ++ [n] ++ R.filter q) := by
  have hperm : (R.filter (fun r => !q r) ++ [n] ++ R.filter q).Perm (R ++ [n]) := by
    rw [List.append_assoc]
    exact (List.Perm.append_left _ List.perm_append_comm).trans
      (by rw [← List.append_assoc]; exact (filter_not_append_filter_perm q R).append_right [n])
  -- the new pointer is past every pointer of the slice
  have hext : SlicePre (k + 1) (R ++ [n]) := by
    refine ⟨?_, fun r hr => ?_, ?_⟩
    · rw [List.map_append]
      refine List.nodup_append.2 ⟨h.nodup, by simp, fun a ha b hb => ?_⟩
      obtain ⟨r, hr, rfl⟩ := List.mem_map.1 ha
      rw [List.map_singleton, List.mem_singleton] at hb
      rw [hb, hn]
      exact (h.ptr_lt r hr).ne
    · rcases List.mem_append.1 hr with hr | hr
      · exact Nat.lt_succ_of_lt (h.ptr_lt r hr)
      · rw [List.mem_singleton.1 hr, hn]
        exact Nat.lt_succ_self k
    · rw [List.filter_append, List.filter_singleton, hsel, cond_false, List.append_nil]
      exact h.one_selected
  exact hext.sublist_perm (List.Sublist.refl _) hperm

/-- `RibProcess` leaves its slice as `RibProcess` needs it. -/
lemma ribProcess {g : Globals} {v : Vrf} {p : Prefix} {ribs dels : List Rib} {res : Bool}
    {s : ProcessState} (h : SlicePre k (ribs ++ dels))
    (hp : ribProcess g v p ribs dels res = some s) : SlicePre k s.ribs := by
  obtain ⟨G, hs, -, hsel, -⟩ := ribProcess_image h.nodup h.one_selected hp
  have hptr : Rib.ptr ∘ G = Rib.ptr := funext fun r => Rib.ptr_eq_of_data_eq (hs.flagMap r)
  have hnd : (s.ribs.map Rib.ptr).Nodup := by
    rw [hs.ribs_eq, List.map_map, hptr, map_ptr_resolveSlice]
    exact (List.map_append (f := Rib.ptr) ▸ h.nodup).of_append_left
  refine ⟨hnd, fun x hx => ?_, ?_⟩
  · rw [hs.ribs_eq] at hx
    obtain ⟨r, hr, rfl⟩ := List.mem_map.1 hx
    obtain ⟨r₀, hr₀, hd, -⟩ := mem_resolveSlice_append (List.mem_append_left dels hr)
    rw [Rib.ptr_eq_of_data_eq (hs.flagMap r), Rib.ptr_eq_of_data_eq hd]
    exact h.ptr_lt r₀ hr₀
  · -- every selected route stands behind the new selected pointer
    refine length_filter_le_one_of_ptr hnd (c := ((selection g.addPathDefault p
      (resolveSlice v res ribs)).1.map Rib.ptr).getD 0) fun x hx hxs => ?_
    rw [hs.ribs_eq] at hx
    obtain ⟨r, hr, rfl⟩ := List.mem_map.1 hx
    have hb := hsel r (List.mem_append_left dels hr)
    rw [← Rib.isSelected_eq, hxs, eq_comm, decide_eq_true_iff] at hb
    rw [hb, Option.getD_some, Rib.ptr_eq_of_data_eq (hs.flagMap r)]

end SlicePre

/-- Both tables keyed by masked prefixes, and every slice as `RibProcess` needs it. -/
structure WalkInv (v : Vrf) : Prop where
  keyed : ∀ afi, (v.ribTable afi).Keyed afi.ipLen
  slices : ∀ afi, (v.ribTable afi).ItemsSatisfy (SlicePre v.nextPtr)

/-- The invariant while an operation changes the slice at `(key, len)` of `afi`. -/
structure WalkInvExcept (v : Vrf) (afi : Afi) (key : List UInt8) (len : Nat) : Prop where
  keyed : ∀ afi, (v.ribTable afi).Keyed afi.ipLen
  others : ∀ afi', afi' ≠ afi → (v.ribTable afi').ItemsSatisfy (SlicePre v.nextPtr)
  node : (v.ribTable afi).ItemsSatisfyExcept (SlicePre v.nextPtr) key len

section Inv

variable {g : Globals} {v v' : Vrf} {afi : Afi}

lemma WalkInv.except (hv : WalkInv v) (afi : Afi) (key : List UInt8) (len : Nat) :
    WalkInvExcept v afi key len :=
  ⟨hv.keyed, fun afi' _ => hv.slices afi', (hv.slices afi).except key len⟩

lemma keyed_setTable (hk : ∀ afi, (v.ribTable afi).Keyed afi.ipLen) {t : Ptree RibSlice}
    (ht : t.Keyed afi.ipLen) : ∀ afi', ((v.setTable afi t).ribTable afi').Keyed afi'.ipLen := by
  intro afi'
  by_cases h : afi' = afi
  · subst h
    simpa using ht
  · simpa [h] using hk afi'

lemma WalkInv.setTable (hv : WalkInv v) {t : Ptree RibSlice} (ht : t.Keyed afi.ipLen)
    (hs : t.ItemsSatisfy (SlicePre v.nextPtr)) : WalkInv (v.setTable afi t) := by
  refine ⟨keyed_setTable hv.keyed ht, fun afi' => ?_⟩
  by_cases h : afi' = afi
  · subst h
    simpa using hs
  · simpa [h] using hv.slices afi'

/-- `RibProcess` on the node being changed restores the invariant. -/
theorem process_walkInv {key : List UInt8} {len : Nat} {p : Prefix} {ribs dels : List Rib}
    {res : Bool} (hv : WalkInvExcept v afi key len) (hpre : SlicePre v.nextPtr (ribs ++ dels))
    (h : v.process g afi key len p ribs dels res = some v') :
    WalkInv v' ∧ v'.nextPtr = v.nextPtr := by
  obtain ⟨s, hs, rfl⟩ := Vrf.process_eq_some h
  have hslice := hpre.ribProcess hs
  refine ⟨⟨keyed_setTable hv.keyed ((hv.keyed afi).setItem _ _ _), fun afi' => ?_⟩, rfl⟩
  by_cases hafi : afi' = afi
  · subst hafi
    have hitem : ∀ a, (if s.ribs.isEmpty then none else some s.ribs) = some a →
        SlicePre v.nextPtr a := by
      intro a ha
      rw [eq_of_ite_isEmpty_eq_some ha]
      exact hslice
    simpa using hv.node.setItem hitem
  · simpa [hafi] using hv.others afi' hafi

lemma walkNode_walkInv {n : PtreeNode RibSlice} (hv : WalkInv v)
    (hn : ∀ R, n.item = some R → SlicePre v.nextPtr R) (h : Vrf.walkNode g afi v n = some v') :
    WalkInv v' ∧ v'.nextPtr = v.nextPtr := by
  cases hR : n.item with
  | none =>
    rw [Vrf.walkNode_of_item_none hR] at h
    cases h
    exact ⟨hv, rfl⟩
  | some R =>
    rw [Vrf.walkNode_of_item_some hR] at h
    exact process_walkInv (hv.except afi _ _) (by simpa using hn R hR) h

theorem ribWalker_walkInv (hv : WalkInv v) (h : v.ribWalker g afi = some v') :
    WalkInv v' ∧ v'.nextPtr = v.nextPtr :=
  foldlM_inv (fun _ _ _ hv hn h => walkNode_walkInv hv hn h) _ v v' hv
    (fun n hn => hv.slices afi n (Ptree.mem_of_mem_items hn)) h

/-- `RibAdd` of a route not marked selected keeps the invariant, whatever the globals. -/
theorem ribAdd_walkInv {p₀ : Prefix} {ri : Rib} (hv : WalkInv v) (hsel : ri.isSelected = false)
    (h : v.ribAdd g p₀ ri = some v') : WalkInv v' := by
  obtain ⟨afi, t, h0, hafi, ht, h⟩ := Vrf.ribAdd_eq_some h
  set key := p₀.mask.ip
  set len := p₀.mask.length.toNat
  have hkt : t.Keyed afi.ipLen :=
    (hv.keyed afi).acquire (Prefix.masked_mask h0) (Prefix.ip_length_mask_of_afi hafi) ht
  have htP : t.ItemsSatisfy (SlicePre v.nextPtr) := (hv.slices afi).acquire ht
  set ri' := resolve (v.setTable afi t) ri
  set old := ((t.lookup key len).bind (·.item)).getD []
  have hold : SlicePre v.nextPtr old := lookup_item_of_itemsSatisfy (SlicePre.nil _) htP key len
  rcases h with ⟨-, rfl⟩ | ⟨-, v₃, hproc, hwalk⟩
  · -- the same route from the same source: the reference just taken is given back
    simpa using hv.setTable (hkt.release key len) (htP.release key len)
  · -- the table with the slice replaced, before `RibProcess`
    set t₂ := if (old.filter (·.equal ri')).isEmpty then t else t.release key len
    have ht₂ : t₂.Keyed afi.ipLen ∧ t₂.ItemsSatisfy (SlicePre v.nextPtr) := by
      by_cases he : (old.filter (·.equal ri')).isEmpty
      · simpa [t₂, he] using And.intro hkt htP
      · simpa [t₂, he] using And.intro (hkt.release key len) (htP.release key len)
    have hsel' : (newRib v.nextPtr ri').isSelected = false := by
      rw [isSelected_newRib, Rib.isSelected_eq, resolve_testBit _ _ (by decide)]
      simpa using hsel
    have hpre := hold.add (·.equal ri') (n := newRib v.nextPtr ri') rfl hsel'
    refine (ribWalker_walkInv (process_walkInv ?_ ?_ hproc).1 hwalk).1
    · refine ⟨keyed_setTable hv.keyed (ht₂.1.setItem _ _ _), fun afi' hafi => ?_, ?_⟩
      · simpa [hafi] using (hv.slices afi').mono fun R hR => hR.mono (Nat.le_succ _)
      · simpa using ((ht₂.2.mono fun R hR => hR.mono (Nat.le_succ _)).except key len).setItem_except _
    · exact hpre

/-- `RibDelete` keeps the invariant: the route handed to `RibProcess` as removed is one of those
taken out of the slice. -/
theorem ribDelete_walkInv {p₀ : Prefix} {ri : Rib} (hv : WalkInv v)
    (h : v.ribDelete g p₀ ri = some v') : WalkInv v' := by
  obtain ⟨afi, -, -, h⟩ := Vrf.ribDelete_eq_some h
  set key := p₀.mask.ip
  set len := p₀.mask.length.toNat
  rcases h with ⟨-, rfl⟩ | ⟨n, old, found, v₃, hn, hold, hfound, hproc, hwalk⟩
  · -- the early returns leave `v`
    exact hv
  · have hsl : SlicePre v.nextPtr old := hv.slices afi n (Ptree.mem_of_lookup hn) old hold
    have hpre : SlicePre v.nextPtr (old.filter (fun r => !r.equal ri) ++ [found]) :=
      hsl.sublist_perm ((List.singleton_sublist.2 (List.mem_of_getLast? hfound)).append_left _)
        (filter_not_append_filter_perm (·.equal ri) old)
    refine (ribWalker_walkInv (process_walkInv ?_ ?_ hproc).1 hwalk).1
    · refine ⟨keyed_setTable hv.keyed (((hv.keyed afi).setItem _ _ _).release _ _),
        fun afi' hafi => by simpa [hafi] using hv.slices afi', ?_⟩
      simpa using (((hv.slices afi).except key len).setItem_except _).release key len
    · exact hpre

/-- One node of `RibClean` keeps the invariant. -/
lemma cleanNode_walkInv {src : RibSrc} {n : PtreeNode RibSlice} (hv : WalkInv v)
    (hn : ∀ R, n.item = some R → SlicePre v.nextPtr R)
    (h : Vrf.cleanNode g src afi v n = some v') : WalkInv v' ∧ v'.nextPtr = v.nextPtr := by
  have hsl : SlicePre v.nextPtr (n.item.getD []) := by
    cases hi : n.item with
    | none => exact SlicePre.nil _
    | some R => exact hn R hi
  rcases Vrf.cleanNode_eq_some h with ⟨-, rfl⟩ | ⟨-, h⟩
  · -- no route of the source at the node
    exact ⟨hv, rfl⟩
  · have hf : (n.item.getD []).filter (fun r => !decide (r.src = src)) =
        (n.item.getD []).filter fun r => decide (r.src ≠ src) := by
      simp only [decide_not]
    have hpre := hsl.sublist_perm (List.Sublist.refl _)
      (filter_not_append_filter_perm (fun r => decide (r.src = src)) (n.item.getD []))
    rw [hf] at hpre
    -- the VRF `RibProcess` runs on: the slice replaced and one reference given back per route
    generalize hw : v.setTable afi _ = w at h
    have hex : WalkInvExcept w afi n.key n.keyLength := by
      rw [← hw]
      refine ⟨keyed_setTable hv.keyed ?_, fun afi' hafi => by simpa [hafi] using hv.slices afi', ?_⟩
      · exact Function.Iterate.rec (fun t : Ptree RibSlice => t.Keyed afi.ipLen)
          ((hv.keyed afi).setItem _ _ _)
          (fun (t : Ptree RibSlice) (ht : t.Keyed afi.ipLen) => ht.release _ _) _
      · simpa using (((hv.slices afi).except _ _).setItem_except _).release_iterate _ _ _
    have hk : w.nextPtr = v.nextPtr := by
      rw [← hw]
      rfl
    obtain ⟨hv', hk'⟩ := process_walkInv hex (hk ▸ hpre) h
    exact ⟨hv', hk'.trans hk⟩

/-- `RibClean` keeps the invariant. -/
theorem ribClean_walkInv {src : RibSrc} (hv : WalkInv v) (h : v.ribClean g src = some v') :
    WalkInv v' := by
  obtain ⟨v₁, h₁, h₂⟩ := Vrf.ribClean_eq_some h
  obtain ⟨hv₁, -⟩ := foldlM_inv (fun _ _ _ hv hn h => cleanNode_walkInv hv hn h) _ v v₁ hv
    (fun n hn => hv.slices .ip n (Ptree.mem_of_mem_items hn)) h₁
  exact (foldlM_inv (fun _ _ _ hv hn h => cleanNode_walkInv hv hn h) _ v₁ v' hv₁
    (fun n hn => hv₁.slices .ip6 n (Ptree.mem_of_mem_items hn)) h₂).1

lemma WalkInv.init (ht : ∀ afi, (v.ribTable afi).nodes = []) : WalkInv v :=
  ⟨fun afi => ⟨by simp [ht afi], by simp [ht afi], by simp [ht afi]⟩,
    fun afi n hn => by rw [ht afi] at hn; cases hn⟩

end Inv

/-! ### Runs -/

/-- One operation of a run as the callers make it: `RibAdd` of a route not marked selected,
`RibDelete` of any route, and `RibClean` of any source. -/
inductive UnselectedStep (g : Globals) : Vrf → Vrf → Prop
  | add {v v' : Vrf} (p : Prefix) (ri : Rib) : ri.isSelected = false →
      v.ribAdd g p ri = some v' → UnselectedStep g v v'
  | delete {v v' : Vrf} (p : Prefix) (ri : Rib) : v.ribDelete g p ri = some v' →
      UnselectedStep g v v'
  | clean {v v' : Vrf} (src : RibSrc) : v.ribClean g src = some v' → UnselectedStep g v v'

/-- The VRFs reached by such runs from a VRF with empty tables. -/
inductive UnselectedReachable (g : Globals) : Vrf → Prop
  | init {v : Vrf} : (∀ afi, (v.ribTable afi).nodes = []) → UnselectedReachable g v
  | step {v v' : Vrf} : UnselectedReachable g v → UnselectedStep g v v' →
      UnselectedReachable g v'

theorem UnselectedStep.walkInv {g : Globals} {v v' : Vrf} (hv : WalkInv v)
    (h : UnselectedStep g v v') : WalkInv v' := by
  cases h with
  | add p ri hsel h => exact ribAdd_walkInv hv hsel h
  | delete p ri h => exact ribDelete_walkInv hv h
  | clean src h => exact ribClean_walkInv hv h

theorem UnselectedReachable.walkInv {g : Globals} {v : Vrf} (h : UnselectedReachable g v) :
    WalkInv v := by
  induction h with
  | init ht => exact WalkInv.init ht
  | step _ hs ih => exact hs.walkInv ih

/-- Over every run of `RibAdd`, `RibDelete` and `RibClean` from a VRF with empty tables, with
every route handed to `RibAdd` unmarked as selected, and whatever `AddPathDefault` is: `RibWalker`
run on the VRF `RibWalker` leaves changes no route's flags, withdraws no route and tells no
watcher; it only pushes routes to the kernel again. -/
theorem ribWalker_idempotent {g : Globals} {v v₁ : Vrf} {afi : Afi}
    (hv : UnselectedReachable g v) (h : v.ribWalker g afi = some v₁) :
    ∃ cs, v₁.ribWalker g afi = some { v₁ with calls := v₁.calls ++ cs } ∧
      ∀ c ∈ cs, c.isRouteAdd = true := by
  have hinv := hv.walkInv
  exact ribWalker_ribWalker (hinv.keyed afi)
    ((hinv.slices afi).mono fun _ hR => ⟨hR.nodup, hR.one_selected⟩) h

/-- The VRF after `RibAdd` of `kernelRoute` at `10.0.0.0/24`, and after `RibWalker` on it. -/
def kernelRouteVrf : Vrf := ((Vrf.new 0).ribAdd plainGlobals net24 kernelRoute).getD (Vrf.new 0)

def kernelRouteWalked : Vrf :=
  (kernelRouteVrf.ribWalker plainGlobals .ip).getD kernelRouteVrf

theorem ribWalker_idempotent_kernelRoute :
    ∃ cs, kernelRouteWalked.ribWalker plainGlobals .ip =
        some { kernelRouteWalked with calls := kernelRouteWalked.calls ++ cs } ∧
      ∀ c ∈ cs, c.isRouteAdd = true :=
  ribWalker_idempotent (v := kernelRouteVrf)
    (.step (@UnselectedReachable.init plainGlobals (Vrf.new 0) fun _ => rfl)
      (.add net24 kernelRoute (by decide) rfl)) rfl

/-! ### A route handed over marked selected -/

/-- `172.16.0.0/16`. -/
def bgpPrefix : Prefix := ⟨[172, 16, 0, 0], 16⟩

/-- A BGP route of client `src` through `10.0.0.1`, with the given metric and flags. -/
def bgpVia10 (src : Nat) (metric : UInt32) (flags : RibFlag) : Rib :=
  ⟨0, flags, ribBgp, 0, 0, metric, 0, [newNexthopAddr [10, 0, 0, 1]], [], .client src⟩

/-- A run whose `RibAdd` calls hand over two routes marked selected: the kernel route resolves
three BGP routes, the second and the third, each of smaller metric, handed over selected and so
kept selected with the first; then the kernel route goes and none of them is resolved. -/
def handedSelectedRun : Option Vrf := do
  let v ← (Vrf.new 0).ribAdd plainGlobals net24m kernelRoute
  let v ← v.ribAdd plainGlobals bgpPrefix (bgpVia10 1 3 0)
  let v ← v.ribAdd plainGlobals bgpPrefix (bgpVia10 2 2 ribFlagSelected)
  let v ← v.ribAdd plainGlobals bgpPrefix (bgpVia10 3 1 ribFlagSelected)
  v.ribDelete plainGlobals net24m kernelRoute

/-- The selected flags of the slice at `q`, in order. -/
def selectedFlagsAt (q : Prefix) (v : Vrf) : List Bool :=
  ((((v.ribTable .ip).lookup q.ip q.length.toNat).bind (·.item)).getD []).map Rib.isSelected

/-- Without the callers' condition the walker is not idempotent: after the run, which ends with
a walk, two routes are still selected; the walker unselects the last of them, and run again it
unselects the other. -/
theorem ribWalker_twice_unselects :
    handedSelectedRun.map (selectedFlagsAt bgpPrefix) = some [true, true, false] ∧
      (handedSelectedRun.bind (·.ribWalker plainGlobals .ip)).map (selectedFlagsAt bgpPrefix) =
        some [true, false, false] ∧
      ((handedSelectedRun.bind (·.ribWalker plainGlobals .ip)).bind
        (·.ribWalker plainGlobals .ip)).map (selectedFlagsAt bgpPrefix) =
        some [false, false, false] := by
  decide

end Zebra
