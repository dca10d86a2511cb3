import Zebra.Rib.ConnectedInv
import Zebra.Rib.RouterIdSpec

/-!
# The connected routes of every reachable state

`ConnectedInv` joins the two halves: the VRF objects hold the connected routes of the pairs of
the interface table (`RibsAre`), the table keeps the shape the handlers rely on (`IfTableInv`),
and `VrfTable` points at VRF objects.  Each handler keeps it, so every state a run of events
reaches from `init` has it.  There the connected routes a VRF object holds at a prefix are one
per address of that prefix on an up interface of the object, through the interface and from the
address (`connectedSpec`).
-/

namespace Zebra

open Zebra.Netutil Zebra.Lib

namespace System

variable {g : Globals} {s s' s₁ : System} {ifp y : Interface}

/-- What every handler keeps. -/
structure ConnectedInv (s : System) : Prop where
  ribs : s.RibsAre (connectedPairs s.ifTable)
  vrfTable_lt : ∀ id i, s.vrfTable id = some i → i < s.vrfs.length
  ifs : IfTableInv s.ifTable s.vrfs.length s.nextAddr

lemma connectedInv_init : init.ConnectedInv := by
  refine ⟨⟨fun v hv => ?_, fun i v hv => ?_⟩, fun id i hi => ?_, ?_⟩
  · rw [List.mem_singleton.1 hv]
    exact Vrf.tablesInv_new 0
  · -- the one object, with no interface
    cases i with
    | zero =>
      cases hv
      exact viewIs_new 0
    | succ i => cases hv
  · simp only [init] at hi
    split_ifs at hi
    cases hi
    simp [init]
  · refine ⟨?_, ?_, ?_, ?_, ?_, ?_⟩ <;> simp [init]

/-! ### Lookups and the table operations -/

lemma ifLookupByIndex_some {index : Nat} (h : s.ifLookupByIndex index = some ifp) :
    ifp ∈ s.ifTable ∧ ifp.index = index :=
  ⟨List.mem_of_find?_eq_some h, by simpa using List.find?_some h⟩

lemma ifLookupByIndex_none {index : Nat} (h : s.ifLookupByIndex index = none) :
    ∀ z ∈ s.ifTable, z.index ≠ index := fun z hz => by
  simpa using List.find?_eq_none.1 h z hz

@[simp] lemma setIf_ifTable (s : System) (y : Interface) :
    (s.setIf y).ifTable = replaceKey Interface.index y s.ifTable := rfl

lemma ifUnregister_ifTable (s : System) (ifp : Interface) :
    (s.ifUnregister ifp).ifTable = eraseKey Interface.index ifp.index s.ifTable := by
  simp only [ifUnregister, eraseKey]
  congr 1
  funext z
  rw [bne, beq_eq_decide, decide_not]

lemma VrfsOnly.setIf (h : s.VrfsOnly s₁) (y : Interface) : (s.setIf y).VrfsOnly (s₁.setIf y) :=
  ⟨h.vrfTable, by rw [setIf_ifTable, setIf_ifTable, h.ifTable], h.nextAddr, h.length⟩

namespace ConnectedInv

variable (h : s.ConnectedInv)
include h

lemma vrfLookupByIndex_lt {id k : Nat} (hk : s.vrfLookupByIndex id = some k) :
    k < s.vrfs.length := by
  unfold vrfLookupByIndex at hk
  split_ifs at hk
  exact h.vrfTable_lt id k hk

/-- A change to the VRF objects only, keeping their connected routes. -/
lemma of_vrfsOnly (hr : s'.RibsAre (connectedPairs s.ifTable)) (ho : s.VrfsOnly s') :
    s'.ConnectedInv := by
  refine ⟨by rw [ho.ifTable]; exact hr, fun id i hi => ?_, ?_⟩
  · rw [ho.length]
    exact h.vrfTable_lt id i (by rw [← ho.vrfTable]; exact hi)
  · rw [ho.ifTable, ho.length, ho.nextAddr]
    exact h.ifs

/-- `ifp` replaced in place by `y` (its index, a VRF object, part of its addresses), the VRF
objects changed to hold the routes of the new table. -/
lemma replace (hifp : ifp ∈ s.ifTable) (hy : ifp.index = y.index) (hvrf : y.vrf < s.vrfs.length)
    (hsub : ∀ afi, (y.addrs afi).Sublist (ifp.addrs afi)) {Q : Nat → List (Nat × IfAddr)}
    (hr : s'.RibsAre Q) (ho : (s.setIf y).VrfsOnly s')
    (hQ : ∀ j, (Q j).Perm (connectedPairs (replaceKey Interface.index y s.ifTable) j)) :
    s'.ConnectedInv := by
  refine ⟨?_, fun id i hi => ?_, ?_⟩
  · rw [ho.ifTable]
    exact hr.congr hQ
  · rw [ho.length]
    rw [ho.vrfTable] at hi
    exact h.vrfTable_lt id i hi
  · rw [ho.ifTable, ho.length, ho.nextAddr]
    exact h.ifs.replace hifp hy hvrf hsub

lemma ribWalkerAll (hs : s.ribWalkerAll g = some s') : s'.ConnectedInv :=
  let ⟨hr, ho⟩ := h.ribs.ribWalkerAll hs
  h.of_vrfsOnly hr ho

/-- `IfDownRibRemove` of a listed interface leaves the connected routes of the others. -/
lemma ifDownRibRemove (hifp : ifp ∈ s.ifTable) (hs : s.ifDownRibRemove g ifp = some s') :
    s'.RibsAre (connectedPairs (eraseKey Interface.index ifp.index s.ifTable)) ∧
      s.VrfsOnly s' :=
  let ⟨hr, ho⟩ := h.ribs.ifDownRibRemove (fun _ he _ ha hid => h.ifs.pair_eq hifp he ha hid) hs
  ⟨hr.congr (h.ifs.removed_perm hifp), ho⟩

/-! ### The router id -/

/-- A change to one VRF object that leaves its route tables alone. -/
lemma onVrf_ribTable {i : Nat} {f : Vrf → Vrf} (hf : ∀ v, (f v).ribTable = v.ribTable)
    (hs : s.onVrf i (fun v => some (f v)) = some s') : s'.ConnectedInv := by
  obtain ⟨hr, ho⟩ := h.ribs.onVrf (P := connectedPairs s.ifTable i) hs
    fun v v' hti hvi hv' => by
      cases hv'
      exact ⟨fun afi => by rw [hf]; exact hti afi, hvi.of_ribTable (hf v)⟩
  rw [Function.update_eq_self] at hr
  exact h.of_vrfsOnly hr ho

lemma routerIdSet {vrfId : Nat} {id : List UInt8} (hs : s.routerIdSet vrfId id = some s') :
    s'.ConnectedInv := by
  obtain ⟨i, -, hs⟩ := Option.bind_eq_some_iff.1 hs
  exact h.onVrf_ribTable (fun v => by simp [Vrf.routerIdSet]) hs

lemma routerIdUnset {vrfId : Nat} (hs : s.routerIdUnset vrfId = some s') : s'.ConnectedInv := by
  obtain ⟨i, -, hs⟩ := Option.bind_eq_some_iff.1 hs
  exact h.onVrf_ribTable (fun v => by simp [Vrf.routerIdUnset]) hs

/-! ### Links -/

lemma ifDelete {ifi : IfInfo} (hs : s.ifDelete g ifi = some s') : s'.ConnectedInv := by
  unfold System.ifDelete at hs
  split at hs
  · cases hs
    exact h
  · rename_i ifp hl
    have hifp := (ifLookupByIndex_some hl).1
    obtain ⟨s₁, hs₁, rfl⟩ := Option.map_eq_some_iff.1 hs
    obtain ⟨hr, ho⟩ := h.ifDownRibRemove hifp hs₁
    refine ⟨?_, fun id i hi => ?_, ?_⟩
    · rw [ifUnregister_ifTable, ho.ifTable]
      exact hr.of_vrfs rfl
    · exact ho.length ▸ h.vrfTable_lt id i (by rw [← ho.vrfTable]; exact hi)
    · rw [ifUnregister_ifTable, ho.ifTable]
      exact ho.length ▸ ho.nextAddr ▸ h.ifs.erase ifp.index

/-- `IfRegister` of an interface with a new index and no address. -/
lemma ifRegister (hfresh : ∀ z ∈ s.ifTable, z.index ≠ y.index) (hvrf : y.vrf < s.vrfs.length)
    (hempty : ∀ afi, y.addrs afi = []) : (s.ifRegister y).ConnectedInv := by
  have hy : ∀ j, y.pairsIn j = [] := fun j => by simp [Interface.pairsIn, Interface.allAddrs, hempty]
  refine ⟨?_, h.vrfTable_lt, h.ifs.register hfresh hvrf hempty⟩
  have hpairs : connectedPairs (s.ifRegister y).ifTable = connectedPairs s.ifTable := by
    funext j
    show connectedPairs (s.ifTable ++ [y]) j = _
    rw [connectedPairs_append]
    simp [connectedPairs, hy]
  rw [hpairs]
  exact h.ribs.of_vrfs rfl

/-- `NewVrf`: an object with no route, after every other. -/
lemma newVrf {id i : Nat} (hs : s.newVrf id = some (s', i)) :
    s'.ConnectedInv ∧ s'.ifTable = s.ifTable ∧ i < s'.vrfs.length := by
  -- every interface is in an older object
  have hQ : connectedPairs s.ifTable s.vrfs.length = [] :=
    List.flatMap_eq_nil_iff.2 fun z hz => Interface.pairsIn_of_ne (Nat.ne_of_lt (h.ifs.vrf_lt z hz))
  obtain ⟨hr, rfl, hlen, hT, hn, hV⟩ := h.ribs.newVrf hQ hs
  refine ⟨⟨by rw [hT]; exact hr, fun id' k hk => ?_, ?_⟩, hT, by omega⟩
  · rw [hV] at hk
    by_cases hid : id' = id
    · subst hid
      rw [Function.update_self, Option.some.injEq] at hk
      omega
    · rw [Function.update_of_ne hid] at hk
      have := h.vrfTable_lt id' k hk
      omega
  · rw [hT, hlen, hn]
    exact h.ifs.mono (Nat.le_succ _)

lemma vrfAssign {id : Nat} {vrf : Option Nat} (hs : s.vrfAssign id = some (s', vrf)) :
    s'.ConnectedInv ∧ s'.ifTable = s.ifTable ∧ ∀ k, vrf = some k → k < s'.vrfs.length := by
  unfold System.vrfAssign at hs
  dsimp only at hs
  generalize (if id = 0 then s.vrfAssignIndex else id) = id' at hs
  split_ifs at hs
  · cases hs
    exact ⟨h, rfl, fun k hk => by cases hk⟩
  · obtain ⟨⟨s₁, i⟩, hs₁, hr⟩ := Option.map_eq_some_iff.1 hs
    cases hr
    obtain ⟨h₁, hT, hi⟩ := h.newVrf hs₁
    exact ⟨h₁, hT, fun k hk => by cases hk; exact hi⟩

/-- The VRF `IfAdd` takes from a master is an object. -/
lemma ifAddMaster_lt {ifi : IfInfo} {vrf : Option Nat} (hv : ∀ k, vrf = some k → k < s.vrfs.length) :
    ∀ k, (s.ifAddMaster ifi vrf).1 = some k → k < s.vrfs.length := by
  unfold System.ifAddMaster
  split_ifs
  · split
    · exact hv
    · split
      · exact hv
      · rename_i masterVrf hm
        intro k hk
        cases hk
        exact h.vrfLookupByIndex_lt hm
  · exact hv

lemma ifAddVrf {table : Nat} {vrf : Option Nat} (hs : s.ifAddVrf table = some (s', vrf)) :
    s'.ConnectedInv ∧ s'.ifTable = s.ifTable ∧ ∀ k, vrf = some k → k < s'.vrfs.length := by
  unfold System.ifAddVrf at hs
  split at hs
  · rename_i i hi
    cases hs
    exact ⟨h, rfl, fun k hk => by cases hk; exact h.vrfLookupByIndex_lt hi⟩
  · exact h.vrfAssign hs

lemma ifAdd {ifi : IfInfo} (hnone : s.ifLookupByIndex ifi.index = none)
    (hs : s.ifAdd g ifi = some s') : s'.ConnectedInv := by
  unfold System.ifAdd at hs
  obtain ⟨⟨s₁, vrf⟩, h₁, hs⟩ := Option.bind_eq_some_iff.1 hs
  obtain ⟨hc₁, hT₁, hv₁⟩ := h.ifAddVrf h₁
  dsimp only at hs
  have hv₂ : ∀ k, (s₁.ifAddMaster ifi vrf).1 = some k → k < s₁.vrfs.length :=
    hc₁.ifAddMaster_lt hv₁
  generalize s₁.ifAddMaster ifi vrf = r at hs hv₂
  obtain ⟨vrf₂, table, master⟩ := r
  obtain ⟨k, rfl, hs⟩ := Option.bind_eq_some_iff.1 hs
  refine (hc₁.ifRegister (fun z hz => ?_) (hv₂ k rfl) fun _ => rfl).ribWalkerAll hs
  rw [hT₁] at hz
  exact ifLookupByIndex_none hnone z hz

/-! ### Addresses -/

lemma ifAddrAdd {ai : IfAddrInfo} (hs : s.ifAddrAdd g ai = some s') : s'.ConnectedInv := by
  unfold System.ifAddrAdd at hs
  split at hs
  · rename_i ifp afi hl hafi
    obtain ⟨hifp, hidx⟩ := ifLookupByIndex_some hl
    set addr : IfAddr := ⟨s.nextAddr, ai.pfx⟩
    set y : Interface :=
      { ifp with addrs := Function.update ifp.addrs afi (ifp.addrs afi ++ [addr]) }
    dsimp only at hs
    split at hs
    · cases hs
      exact h
    rename_i hfound
    -- `Lookup` found no address `Equal` to the new one
    have hnew : ∀ a ∈ ifp.addrs afi, a.pfx.equal addr.pfx = false := fun a ha => by
      have hnone : ((ifp.addrs afi).lookup ai.pfx) = none := Option.not_isSome_iff_eq_none.1 hfound
      simpa using List.find?_eq_none.1 hnone a ha
    have hifs := h.ifs.addAddr hifp hafi rfl hnew
    have hall := Interface.allAddrs_append_perm ifp afi addr
    split at hs
    · -- up: the route of the new address goes into the interface's object
      set s₂ : System := { s.setIf y with nextAddr := s.nextAddr + 1 }
      rename_i hup
      obtain ⟨hr, ho⟩ := (show s₂.RibsAre _ from h.ribs.of_vrfs rfl).connectedAdd
        (fun e he => h.ifs.id_ne_of_le he (Nat.le_refl s.nextAddr)) hs
      have hQ : ∀ j, (Function.update (connectedPairs s.ifTable) y.vrf
          (connectedPairs s.ifTable y.vrf ++ [(ai.index, addr)]) j ++ ifp.pairsIn j).Perm
          (connectedPairs s.ifTable j ++ y.pairsIn j) := by
        intro j
        by_cases hj : j = ifp.vrf
        · subst hj
          have hup' : ifp.isUp = true := hup
          rw [Function.update_self, Interface.pairsIn_of_up hup', Interface.pairsIn_of_up hup,
            ← hidx, List.append_assoc]
          refine List.Perm.append_left _ ?_
          have hmap := (hall.map fun a => (ifp.index, a)).symm
          rw [List.map_append, List.map_singleton] at hmap
          exact List.perm_append_comm.trans hmap
        · rw [Function.update_of_ne hj, Interface.pairsIn_of_ne (Ne.symm hj),
            Interface.pairsIn_of_ne (show y.vrf ≠ j from Ne.symm hj)]
      refine ⟨?_, fun id i hi => ?_, ?_⟩
      · rw [ho.ifTable]
        exact hr.congr fun j => h.ifs.replace_pairs_perm (y := y) hifp rfl (hQ j)
      · rw [ho.length]
        rw [ho.vrfTable] at hi
        exact h.vrfTable_lt id i hi
      · rw [ho.ifTable, ho.length, ho.nextAddr]
        exact hifs
    · -- down: the table changes, and no route
      rename_i hup
      cases hs
      have hdown : ifp.isUp = false := Bool.eq_false_iff.2 hup
      refine ⟨?_, h.vrfTable_lt, hifs⟩
      refine (h.ribs.congr fun j => h.ifs.replace_pairs_perm (y := y) hifp rfl ?_).of_vrfs rfl
      rw [Interface.pairsIn_of_not_up hdown, Interface.pairsIn_of_not_up (show y.isUp = false from hdown)]
  · cases hs
    exact h

lemma ifAddrDelete {ai : IfAddrInfo} (hs : s.ifAddrDelete g ai = some s') : s'.ConnectedInv := by
  unfold System.ifAddrDelete at hs
  split at hs
  · rename_i ifp afi hl hafi
    obtain ⟨hifp, hidx⟩ := ifLookupByIndex_some hl
    split at hs
    · cases hs
      exact h
    rename_i X found hdel
    set y : Interface := { ifp with addrs := Function.update ifp.addrs afi X }
    -- the address found is the one `Equal` address of the list
    have hperm : (ifp.addrs afi).Perm (X ++ [found]) := by
      have hf : ((ifp.addrs afi).delete ai.pfx).2 = some found := by rw [hdel]
      have := IfAddrSlice.delete_perm (h.ifs.addr_distinct ifp hifp afi) hf
      rwa [hdel] at this
    have hall := Interface.allAddrs_remove_perm hperm
    have hfound : found ∈ ifp.allAddrs := hall.subset (by simp)
    have hsub : ∀ afi', (y.addrs afi').Sublist (ifp.addrs afi') := by
      intro afi'
      by_cases h' : afi' = afi
      · subst h'
        have hX : X = (ifp.addrs afi').filter (!·.pfx.equal ai.pfx) := (congrArg Prod.fst hdel).symm
        simp only [y, Function.update_self, hX]
        exact List.filter_sublist
      · simp only [y, Function.update_of_ne h']
        exact List.Sublist.refl _
    dsimp only at hs
    split at hs
    · -- up: the address's route leaves the interface's object
      rename_i hup
      obtain ⟨s₁, hs₁, hs⟩ := Option.bind_eq_some_iff.1 hs
      cases hs
      obtain ⟨hr, ho⟩ := h.ribs.connectedDelete (fun e he hid => by
        rw [← hidx]
        exact h.ifs.pair_eq hifp he hfound hid) hs₁
      refine h.replace (y := y) hifp rfl (h.ifs.vrf_lt ifp hifp) hsub (hr.of_vrfs rfl) (ho.setIf y) fun j => ?_
      refine h.ifs.replace_pairs_perm (y := y) hifp rfl ?_
      by_cases hj : j = ifp.vrf
      · subst hj
        -- the pairs of the object are the others and the found address's
        have hmem : (ifp.index, found) ∈ connectedPairs s.ifTable ifp.vrf :=
          List.mem_flatMap.2 ⟨ifp, hifp, by
            rw [Interface.pairsIn_of_up hup]
            exact List.mem_map_of_mem hfound⟩
        set E := eraseKey (fun e : Nat × IfAddr => e.2.id) found.id
          (connectedPairs s.ifTable ifp.vrf)
        have hsplit : (connectedPairs s.ifTable ifp.vrf).Perm (E ++ [(ifp.index, found)]) :=
          perm_eraseKey_append h.ifs.pairs_ids_nodup hmem
        have hmap : (ifp.allAddrs.map fun a => (ifp.index, a)).Perm
            (y.allAddrs.map (fun a => (ifp.index, a)) ++ [(ifp.index, found)]) := by
          have := (hall.map fun a => (ifp.index, a)).symm
          rwa [List.map_append, List.map_singleton] at this
        rw [Function.update_self, Interface.pairsIn_of_up hup,
          Interface.pairsIn_of_up (show y.isUp = true from hup)]
        calc List.Perm _ (E ++ (y.allAddrs.map (fun a => (ifp.index, a)) ++
              [(ifp.index, found)])) := hmap.append_left E
          List.Perm _ (E ++ [(ifp.index, found)] ++ y.allAddrs.map fun a => (ifp.index, a)) := by
            rw [List.append_assoc]
            exact List.perm_append_comm.append_left E
          List.Perm _ _ := hsplit.symm.append_right _
      · rw [Function.update_of_ne hj, Interface.pairsIn_of_ne (Ne.symm hj),
          Interface.pairsIn_of_ne (show y.vrf ≠ j from Ne.symm hj)]
    · -- down: the table changes, and no route
      rename_i hup
      cases hs
      have hdown : ifp.isUp = false := Bool.eq_false_iff.2 hup
      refine h.replace (y := y) hifp rfl (h.ifs.vrf_lt ifp hifp) hsub (h.ribs.of_vrfs rfl)
        (VrfsOnly.refl _) fun j => ?_
      refine h.ifs.replace_pairs_perm (y := y) hifp rfl ?_
      rw [Interface.pairsIn_of_not_up hdown,
        Interface.pairsIn_of_not_up (show y.isUp = false from hdown)]
  · cases hs
    exact h

/-! ### `IfSync` -/

/-- `ifp` replaced by `y` of the same index, VRF object, state and addresses: the pairs stay. -/
lemma replace_same_pairs (hifp : ifp ∈ s.ifTable) (hy : ifp.index = y.index)
    (hp : ∀ j, y.pairsIn j = ifp.pairsIn j) (j : Nat) :
    (connectedPairs s.ifTable j).Perm (connectedPairs (replaceKey Interface.index y s.ifTable) j) :=
  h.ifs.replace_pairs_perm hifp hy (by rw [hp])

/-- The master change: the routes leave the old object, the interface moves, and it brings them
into the new one if it is up. -/
lemma ifSyncMaster (hifp : ifp ∈ s.ifTable) {ifi : IfInfo} {ifp' : Interface}
    (hs : s.ifSyncMaster g ifp ifi = some (some (s', ifp'))) :
    s'.ConnectedInv ∧ ifp' ∈ s'.ifTable := by
  unfold System.ifSyncMaster at hs
  split at hs
  · cases hs
  rename_i nvrf _
  obtain ⟨s₁, hs₁, hs⟩ := Option.bind_eq_some_iff.1 hs
  -- a nil VRF is dereferenced
  rcases nvrf with _ | k
  · cases hs
  simp only [Option.bind_eq_bind, Option.bind_some] at hs
  obtain ⟨v, hv, hs⟩ := Option.bind_eq_some_iff.1 hs
  set y : Interface := { ifp with master := ifi.master, vrfIndex := v.id, vrf := k }
  obtain ⟨hr₁, ho₁⟩ := h.ifDownRibRemove hifp hs₁
  set E := connectedPairs (eraseKey Interface.index ifp.index s.ifTable)
  have hk : k < s.vrfs.length := ho₁.length ▸ (List.getElem?_eq_some_iff.1 hv).1
  -- the routes in the objects once the interface is in its new one
  obtain ⟨s₃, Q, hr₃, ho₃, hQ, rfl, rfl⟩ : ∃ s₃ Q, s₃.RibsAre Q ∧ (s.setIf y).VrfsOnly s₃ ∧
      (∀ j, (Q j).Perm (E j ++ y.pairsIn j)) ∧ s₃ = s' ∧ y = ifp' := by
    have hnd₁ : (ifp.allAddrs.map (·.id)).Nodup := h.ifs.ids_nodup hifp
    split at hs
    · rename_i hup
      obtain ⟨s₃, hs₃, hs⟩ := Option.bind_eq_some_iff.1 hs
      obtain ⟨hs', hy'⟩ := Prod.mk.inj (Option.some.inj (Option.some.inj hs))
      obtain ⟨hr₃, ho₃⟩ := (show (s₁.setIf y).RibsAre E from hr₁.of_vrfs rfl).ifUpRibAdd
        (show (y.allAddrs.map (·.id)).Nodup from hnd₁)
        (fun e he => h.ifs.not_mem_ids_of_erase hifp he) hs₃
      exact ⟨s₃, _, hr₃, (ho₁.setIf y).trans ho₃, Interface.update_append_pairsIn_perm E hup,
        hs', hy'⟩
    · rename_i hup
      obtain ⟨hs', hy'⟩ := Prod.mk.inj (Option.some.inj (Option.some.inj hs))
      refine ⟨s₁.setIf y, E, hr₁.of_vrfs rfl, ho₁.setIf y, fun j => ?_, hs', hy'⟩
      rw [Interface.pairsIn_of_not_up (Bool.eq_false_iff.2 hup), List.append_nil]
  refine ⟨h.replace (y := y) hifp rfl hk (fun _ => List.Sublist.refl _) hr₃ ho₃ fun j =>
    (hQ j).trans (connectedPairs_replace_perm (y := y) h.ifs.index_nodup hifp rfl).symm, ?_⟩
  rw [ho₃.ifTable]
  exact mem_replaceKey_self hifp rfl

lemma ifSyncName (hifp : ifp ∈ s.ifTable) (ifi : IfInfo) :
    (s.ifSyncName ifp ifi).1.ConnectedInv ∧ (s.ifSyncName ifp ifi).2 ∈ (s.ifSyncName ifp ifi).1.ifTable := by
  unfold System.ifSyncName
  split_ifs
  · -- the name is not read by the routes
    set y : Interface := { ifp with name := ifi.name }
    refine ⟨h.replace (y := y) hifp rfl (h.ifs.vrf_lt ifp hifp) (fun _ => List.Sublist.refl _)
      (h.ribs.of_vrfs rfl) (VrfsOnly.refl _) (h.replace_same_pairs hifp rfl fun _ => rfl), ?_⟩
    exact mem_replaceKey_self hifp rfl
  · exact ⟨h, hifp⟩

/-- The flag change: the routes before the interface takes the new flags. -/
lemma ifSyncFlags (hifp : ifp ∈ s.ifTable) {ifi : IfInfo} (hs : s.ifSyncFlags g ifp ifi = some s') :
    s'.ConnectedInv := by
  unfold System.ifSyncFlags at hs
  split at hs
  · dsimp only at hs
    set y : Interface := { ifp with flags := ifi.flags }
    have hnd := h.ifs.index_nodup
    -- the routes in the objects, by the old state and the new one
    obtain ⟨s₁, Q, hr, ho, hQ, hs⟩ : ∃ s₁ Q, s₁.RibsAre Q ∧ s.VrfsOnly s₁ ∧
        (∀ j, (Q j).Perm (connectedPairs (replaceKey Interface.index y s.ifTable) j)) ∧
        (s₁.setIf y).ribWalkerAll g = some s' := by
      split_ifs at hs with hup hdown hup'
      · -- up to down: the routes go
        obtain ⟨s₁, hs₁, hs⟩ := Option.bind_eq_some_iff.1 hs
        have hy : y.isUp = false := by simp [y, Interface.isUp, hdown]
        obtain ⟨hr, ho⟩ := h.ifDownRibRemove hifp hs₁
        refine ⟨s₁, _, hr, ho, fun j => ?_, hs⟩
        have := connectedPairs_replace_perm (j := j) hnd hifp (show ifp.index = y.index from rfl)
        rw [Interface.pairsIn_of_not_up hy, List.append_nil] at this
        exact this.symm
      · -- up and up
        have hy : y.isUp = true := by simp [y, Interface.isUp, hdown]
        refine ⟨s, _, h.ribs, VrfsOnly.refl _, h.replace_same_pairs hifp rfl fun j => ?_, hs⟩
        simp only [Interface.pairsIn, hup, hy]
        rfl
      · -- down to up: the routes come
        obtain ⟨s₁, hs₁, hs⟩ := Option.bind_eq_some_iff.1 hs
        have hy : y.isUp = true := by simp [y, Interface.isUp, hup']
        have hdown : ifp.isUp = false := Bool.eq_false_iff.2 hup
        obtain ⟨hr, ho⟩ := h.ribs.ifUpRibAdd (h.ifs.ids_nodup hifp) (fun e he => by
          have hold := connectedPairs_perm_erase (j := ifp.vrf) hnd hifp
          rw [Interface.pairsIn_of_not_up hdown, List.append_nil] at hold
          exact h.ifs.not_mem_ids_of_erase hifp (hold.subset he)) hs₁
        refine ⟨s₁, _, hr, ho, fun j => ?_, hs⟩
        refine h.ifs.replace_pairs_perm (y := y) hifp rfl ?_
        rw [Interface.pairsIn_of_not_up hdown, List.append_nil]
        exact Interface.update_append_pairsIn_perm (y := y) _ hy j
      · -- down and down
        have hy : y.isUp = false := by simp [y, Interface.isUp, not_not.1 hup']
        have hdown : ifp.isUp = false := Bool.eq_false_iff.2 hup
        refine ⟨s, _, h.ribs, VrfsOnly.refl _, h.replace_same_pairs hifp rfl fun j => ?_, hs⟩
        rw [Interface.pairsIn_of_not_up hy, Interface.pairsIn_of_not_up hdown]
    exact (h.replace (y := y) hifp rfl (h.ifs.vrf_lt ifp hifp) (fun _ => List.Sublist.refl _)
      (show (s₁.setIf y).RibsAre Q from hr.of_vrfs rfl) (ho.setIf y) hQ).ribWalkerAll hs
  · cases hs
    exact h

lemma ifSync (hifp : ifp ∈ s.ifTable) {ifi : IfInfo} (hs : s.ifSync g ifp ifi = some s') :
    s'.ConnectedInv := by
  unfold System.ifSync at hs
  dsimp only at hs
  -- the master change, if any, gives the interface the name and flag changes act on
  obtain ⟨s₁, ifp₁, h₁, hifp₁, hs⟩ | rfl : (∃ (s₁ : System) (ifp₁ : Interface), s₁.ConnectedInv ∧ ifp₁ ∈ s₁.ifTable ∧
      (s₁.ifSyncName ifp₁ ifi).1.ifSyncFlags g (s₁.ifSyncName ifp₁ ifi).2 ifi = some s') ∨
      s' = s := by
    split at hs
    · obtain ⟨r, hr, hs⟩ := Option.bind_eq_some_iff.1 hs
      rcases r with _ | ⟨s₁, ifp₁⟩
      · cases hs
        exact .inr rfl
      · obtain ⟨h₁, hifp₁⟩ := h.ifSyncMaster hifp hr
        exact .inl ⟨s₁, ifp₁, h₁, hifp₁, hs⟩
    · exact .inl ⟨s, ifp, h, hifp, hs⟩
  · obtain ⟨h₂, hifp₂⟩ := h₁.ifSyncName hifp₁ ifi
    exact h₂.ifSyncFlags hifp₂ hs
  · exact h

/-! ### Runs -/

/-- One event keeps the invariant. -/
theorem step {e : Event} (hs : s.step g e = some s') : s'.ConnectedInv := by
  cases e with
  | ifUpdate ifi =>
    change s.ifUpdate g ifi = some s' at hs
    unfold System.ifUpdate at hs
    split at hs
    · exact h.ifAdd ‹_› hs
    · exact h.ifSync (ifLookupByIndex_some ‹_›).1 hs
  | ifDelete ifi => exact h.ifDelete hs
  | ifAddrAdd ai => exact h.ifAddrAdd hs
  | ifAddrDelete ai => exact h.ifAddrDelete hs
  | routerIdSet vrfId id => exact h.routerIdSet hs
  | routerIdUnset vrfId => exact h.routerIdUnset hs

/-- A run of events keeps the invariant. -/
theorem run {es : List Event} (hs : s.run g es = some s') : s'.ConnectedInv := by
  induction es generalizing s with
  | nil =>
    cases hs
    exact h
  | cons e es ih =>
    obtain ⟨s₁, hs₁, hs⟩ := Option.bind_eq_some_iff.1 hs
    exact ih (h.step hs₁) hs

end ConnectedInv

/-- The states a run of events reaches from `init`. -/
def Reachable (g : Globals) (s : System) : Prop := ∃ es, init.run g es = some s

theorem ConnectedInv.of_reachable (hs : s.Reachable g) : s.ConnectedInv :=
  let ⟨_, hr⟩ := hs
  connectedInv_init.run hr

/-- The connected routes VRF object `i` should hold at `p`: for each up interface in it and each
of its addresses whose prefix masks to `p`'s, one route through the interface, from the
address. -/
def connectedSpec (s : System) (i : Nat) (p : Prefix) : List (List Nexthop × RibSrc) :=
  (s.ifTable.filter fun ifp => ifp.vrf = i ∧ ifp.isUp = true).flatMap fun ifp =>
    (ifp.allAddrs.filter fun a => a.pfx.applyMask = p.applyMask).map fun a =>
      ([newNexthopIf ifp.index], .ifAddr a.id)

lemma connectedSpec_eq (s : System) (i : Nat) (p : Prefix) :
    s.connectedSpec i p =
      ((connectedPairs s.ifTable i).filter fun e => e.2.pfx.applyMask = p.applyMask).map
        connectedEntry := by
  unfold connectedSpec connectedPairs
  induction s.ifTable with
  | nil => rfl
  | cons z L ih =>
    rw [List.flatMap_cons, List.filter_append, List.map_append, ← ih]
    by_cases hz : z.vrf = i ∧ z.isUp = true
    · rw [List.filter_cons_of_pos (by simpa using hz), List.flatMap_cons]
      congr 1
      simp [Interface.pairsIn, hz, List.filter_map, Function.comp_def, connectedEntry]
    · rw [List.filter_cons_of_neg (by simpa using hz), Interface.pairsIn, if_neg hz]
      rfl

end System

/-- `ApplyMask` sends an address of a length that is not negative to its masked prefix. -/
lemma filter_applyMask_eq_some {P : List (Nat × IfAddr)} (hP : ∀ e ∈ P, 0 ≤ e.2.pfx.length)
    (q : Prefix) :
    (P.filter fun e => e.2.pfx.applyMask = some q) = P.filter fun e => e.2.pfx.mask = q := by
  apply List.filter_congr
  intro e he
  simp [Prefix.applyMask_of_nonneg (hP e he)]

/-- The connected routes `RibAdd` and `RibDelete` see at `p` are those of the view at the masked
prefix. -/
lemma Vrf.connectedAt_eq {v : Vrf} (ht : v.TablesInv) {p q : Prefix} {afi : Afi}
    (hq : p.applyMask = some q) (hafi : q.afi = some afi) :
    v.connectedAt p = connectedOf (slotSlice (tableView (v.ribTable afi) q)) := by
  obtain ⟨h0, rfl⟩ := Prefix.applyMask_eq_some_of_afi hq hafi
  simp only [Vrf.connectedAt, hq, hafi]
  rw [← connectedOf_map_data, map_data_lookup_item (ht afi).keyed (Prefix.masked_mask h0)
    (Prefix.ip_length_of_afi hafi)]

theorem connected_routes_mirror_interfaces {g : Globals} {s : System} (hs : s.Reachable g)
    {i : Nat} {v : Vrf} (hv : s.vrfs[i]? = some v) (p : Prefix) :
    (v.connectedAt p).Perm (s.connectedSpec i p) := by
  have h := System.ConnectedInv.of_reachable hs
  have hview := h.ribs.view i v hv
  rw [System.connectedSpec_eq]
  cases hq : p.applyMask with
  | none =>
    -- `ApplyMask` panics on `p`, and on no pair's address: each went through `RibAdd`
    have hnil : (connectedPairs s.ifTable i).filter (fun e => e.2.pfx.applyMask = none) = [] := by
      rw [List.filter_eq_nil_iff]
      intro e he hat
      rw [Prefix.applyMask_of_nonneg (hview.length_nonneg e he)] at hat
      simp at hat
    simp [Vrf.connectedAt, hq, hnil]
  | some q =>
    rw [filter_applyMask_eq_some hview.length_nonneg]
    cases hafi : q.afi with
    | none =>
      -- every address has a family, so none masks to a prefix of none
      have hnil : (connectedPairs s.ifTable i).filter (fun e => e.2.pfx.mask = q) = [] := by
        rw [List.filter_eq_nil_iff]
        intro e he hat
        obtain ⟨z, hz, -, ha⟩ := exists_of_mem_connectedPairs he
        obtain ⟨afi, hafi'⟩ := h.ifs.afi_of_mem_allAddrs hz ha
        have hsame := congrArg Prefix.afi (of_decide_eq_true hat)
        rw [Prefix.afi_mask, hafi', hafi] at hsame
        cases hsame
      simp [Vrf.connectedAt, hq, hafi, hnil]
    | some afi =>
      rw [Vrf.connectedAt_eq (h.ribs.tables v (List.mem_of_getElem? hv)) hq hafi]
      exact hview.slots afi q (Prefix.ip_length_of_afi hafi)

/-- The state after `eth0` comes up and gets `10.0.0.1/24`. -/
def eth0Up : System :=
  (System.init.run plainGlobals [.ifUpdate eth0, .ifAddrAdd (addr10 2)]).getD System.init

/-- After `eth0` comes up and gets `10.0.0.1/24`, the default VRF object holds one connected
route at `10.0.0.0/24`: through `eth0`, from the address. -/
theorem connected_routes_eth0 :
    eth0Up.Reachable plainGlobals ∧ eth0Up.vrfs[0]? = some ((eth0Up.vrfs[0]?).getD (Vrf.new 0)) ∧
      (((eth0Up.vrfs[0]?).getD (Vrf.new 0)).connectedAt net24m).Perm
        (eth0Up.connectedSpec 0 net24m) ∧
      eth0Up.connectedSpec 0 net24m = [([newNexthopIf 2], .ifAddr 0)] :=
  have hs : eth0Up.Reachable plainGlobals := ⟨[.ifUpdate eth0, .ifAddrAdd (addr10 2)], rfl⟩
  have hv : eth0Up.vrfs[0]? = some ((eth0Up.vrfs[0]?).getD (Vrf.new 0)) := rfl
  ⟨hs, hv, connected_routes_mirror_interfaces hs hv net24m, by decide⟩

end Zebra
