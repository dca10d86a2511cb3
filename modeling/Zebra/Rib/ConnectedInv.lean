import Zebra.Rib.ConnectedSystem

/-!
# Connected routes mirror the interfaces

The connected routes a VRF object should hold are those of the pairs its up interfaces give:
each address with the interface's index (`connectedPairs`).  `ConnectedInv` says that every VRF
object holds exactly these, together with what the handlers keep of the interface table for
it: distinct indices, VRF pointers to VRF objects, addresses of their list's family, no two
`Equal` in a list, and distinct `*IfAddr` pointers older than the next.  Every handler keeps
`ConnectedInv`, so it holds in every state a run of events reaches.
-/

namespace Zebra

open Zebra.Netutil Zebra.Lib

/-- The pairs of its index and an address that an interface gives VRF object `i`: all its
addresses, when it is up and in `i`. -/
def Interface.pairsIn (ifp : Interface) (i : Nat) : List (Nat × IfAddr) :=
  if ifp.vrf = i ∧ ifp.isUp = true then ifp.allAddrs.map (ifp.index, ·) else []

/-- The pairs the interfaces of a table give VRF object `i`. -/
def connectedPairs (L : List Interface) (i : Nat) : List (Nat × IfAddr) :=
  L.flatMap (·.pairsIn i)

/-- What the handlers keep of the interface table, for VRF objects below `n` and `*IfAddr`
pointers below `next`. -/
structure IfTableInv (L : List Interface) (n next : Nat) : Prop where
  vrf_lt : ∀ ifp ∈ L, ifp.vrf < n
  index_nodup : (L.map (·.index)).Nodup
  addr_afi : ∀ ifp ∈ L, ∀ afi, ∀ a ∈ ifp.addrs afi, a.pfx.afi = some afi
  addr_distinct : ∀ ifp ∈ L, ∀ afi,
    (ifp.addrs afi).Pairwise fun a b => a.pfx.equal b.pfx = false
  id_lt : ∀ ifp ∈ L, ∀ a ∈ ifp.allAddrs, a.id < next
  id_nodup : (L.flatMap fun ifp => ifp.allAddrs.map (·.id)).Nodup

/-! ### The pairs of one interface -/

namespace Interface

lemma mem_pairsIn {ifp : Interface} {i : Nat} {e : Nat × IfAddr} (he : e ∈ ifp.pairsIn i) :
    e.1 = ifp.index ∧ e.2 ∈ ifp.allAddrs := by
  unfold pairsIn at he
  split_ifs at he
  · obtain ⟨a, ha, rfl⟩ := List.mem_map.1 he
    exact ⟨rfl, ha⟩
  · cases he

lemma pairsIn_of_ne {ifp : Interface} {i : Nat} (h : ifp.vrf ≠ i) : ifp.pairsIn i = [] := by
  simp [pairsIn, h]

lemma pairsIn_of_not_up {ifp : Interface} {i : Nat} (h : ifp.isUp = false) :
    ifp.pairsIn i = [] := by
  simp [pairsIn, h]

lemma pairsIn_of_up {ifp : Interface} (h : ifp.isUp = true) :
    ifp.pairsIn ifp.vrf = ifp.allAddrs.map (ifp.index, ·) := by
  simp [pairsIn, h]

/-- The addresses after one family's list is replaced, up to order. -/
lemma allAddrs_update_perm (ifp : Interface) (afi : Afi) (X : IfAddrSlice) :
    (({ ifp with addrs := Function.update ifp.addrs afi X } : Interface).allAddrs ++
      ifp.addrs afi).Perm (ifp.allAddrs ++ X) := by
  rw [List.perm_iff_count]
  intro a
  cases afi <;> simp [allAddrs, Function.update_of_ne, List.count_append] <;> omega

/-- An address added to one family's list: the old addresses and the new one, up to order. -/
lemma allAddrs_append_perm (ifp : Interface) (afi : Afi) (a : IfAddr) :
    ({ ifp with addrs := Function.update ifp.addrs afi (ifp.addrs afi ++ [a]) } :
      Interface).allAddrs.Perm (ifp.allAddrs ++ [a]) := by
  rw [List.perm_iff_count]
  intro b
  have h := (allAddrs_update_perm ifp afi (ifp.addrs afi ++ [a])).count_eq b
  simp only [List.count_append] at h ⊢
  omega

/-- An address taken out of one family's list: the rest and it are the old addresses, up to
order. -/
lemma allAddrs_remove_perm {ifp : Interface} {afi : Afi} {X : IfAddrSlice} {a : IfAddr}
    (h : (ifp.addrs afi).Perm (X ++ [a])) :
    (({ ifp with addrs := Function.update ifp.addrs afi X } : Interface).allAddrs ++ [a]).Perm
      ifp.allAddrs := by
  rw [List.perm_iff_count]
  intro b
  have h₁ := (allAddrs_update_perm ifp afi X).count_eq b
  have h₂ := h.count_eq b
  simp only [List.count_append] at h₁ h₂ ⊢
  omega

/-- An up interface's addresses going into its VRF object's pairs add its pairs there. -/
lemma update_append_pairsIn_perm (Q : Nat → List (Nat × IfAddr)) {y : Interface}
    (hup : y.isUp = true) (j : Nat) :
    (Function.update Q y.vrf (Q y.vrf ++ y.allAddrs.map (y.index, ·)) j).Perm
      (Q j ++ y.pairsIn j) := by
  by_cases hj : j = y.vrf
  · subst hj
    rw [Function.update_self, pairsIn_of_up hup]
  · rw [Function.update_of_ne hj, pairsIn_of_ne (Ne.symm hj), List.append_nil]

end Interface

namespace IfAddrSlice

/-- In a list where no two addresses are `Equal`, at most one is `Equal` to a prefix: the one
`Delete` finds. -/
lemma filter_equal_eq_singleton {addrs : IfAddrSlice} {p : Prefix} {found : IfAddr}
    (hd : addrs.Pairwise fun a b => a.pfx.equal b.pfx = false)
    (hf : (addrs.delete p).2 = some found) : addrs.filter (·.pfx.equal p) = [found] := by
  have hpw := hd.filter (·.pfx.equal p)
  have hmem : ∀ a ∈ addrs.filter (·.pfx.equal p), a.pfx.equal p = true :=
    fun a ha => (List.mem_filter.1 ha).2
  unfold delete at hf
  generalize addrs.filter (·.pfx.equal p) = F at hpw hmem hf ⊢
  rcases F with _ | ⟨a, _ | ⟨b, t⟩⟩
  · cases hf
  · simpa using hf
  · -- two addresses `Equal` to the prefix are `Equal` to each other
    have hab : a.pfx.equal b.pfx = false := List.rel_of_pairwise_cons hpw List.mem_cons_self
    have hb : p.equal b.pfx = true := by
      rw [Prefix.equal_comm]
      exact hmem b (by simp)
    rw [Prefix.equal_trans (hmem a List.mem_cons_self) hb] at hab
    cases hab

/-- `Delete`'s two results are the list, up to order. -/
lemma delete_perm {addrs : IfAddrSlice} {p : Prefix} {found : IfAddr}
    (hd : addrs.Pairwise fun a b => a.pfx.equal b.pfx = false)
    (hf : (addrs.delete p).2 = some found) : addrs.Perm ((addrs.delete p).1 ++ [found]) := by
  have h := List.filter_append_perm (·.pfx.equal p) addrs
  rw [filter_equal_eq_singleton hd hf] at h
  exact h.symm.trans List.perm_append_comm

end IfAddrSlice

/-! ### The pairs of a table -/

section Pairs

variable {L : List Interface} {n next j : Nat} {ifp y : Interface}

lemma exists_of_mem_connectedPairs {e : Nat × IfAddr} (he : e ∈ connectedPairs L j) :
    ∃ z ∈ L, e.1 = z.index ∧ e.2 ∈ z.allAddrs := by
  obtain ⟨z, hz, he⟩ := List.mem_flatMap.1 he
  exact ⟨z, hz, Interface.mem_pairsIn he⟩

lemma connectedPairs_append (L L' : List Interface) (j : Nat) :
    connectedPairs (L ++ L') j = connectedPairs L j ++ connectedPairs L' j :=
  List.flatMap_append

/-- An interface's part of the pairs, and the other interfaces', up to order. -/
lemma connectedPairs_perm_erase (hnd : (L.map (·.index)).Nodup) (hifp : ifp ∈ L) :
    (connectedPairs L j).Perm
      (connectedPairs (eraseKey Interface.index ifp.index L) j ++ ifp.pairsIn j) :=
  flatMap_perm_eraseKey hnd hifp _

/-- An interface replaced in place: the other interfaces' pairs, and the new one's. -/
lemma connectedPairs_replace_perm (hnd : (L.map (·.index)).Nodup) (hifp : ifp ∈ L)
    (hy : ifp.index = y.index) :
    (connectedPairs (replaceKey Interface.index y L) j).Perm
      (connectedPairs (eraseKey Interface.index ifp.index L) j ++ y.pairsIn j) := by
  rw [hy]
  exact flatMap_replaceKey_perm hnd hifp hy _

namespace IfTableInv

variable (h : IfTableInv L n next)
include h

/-- The only pair holding the pointer of an address of a listed interface is that address's,
with the interface's index. -/
lemma pair_eq (hifp : ifp ∈ L) {e : Nat × IfAddr} (he : e ∈ connectedPairs L j) {a : IfAddr}
    (ha : a ∈ ifp.allAddrs) (hid : e.2.id = a.id) : e = (ifp.index, a) := by
  obtain ⟨z, hz, h1, h2⟩ := exists_of_mem_connectedPairs he
  obtain ⟨rfl, rfl⟩ := eq_of_mem_flatMap_map (G := Interface.allAddrs) (f := IfAddr.id)
    h.id_nodup hz hifp h2 ha hid
  exact Prod.ext h1 rfl

lemma ids_nodup (hifp : ifp ∈ L) : (ifp.allAddrs.map (·.id)).Nodup :=
  (List.nodup_flatMap.1 h.id_nodup).1 ifp hifp

/-- The other interfaces' pairs hold none of an interface's pointers. -/
lemma not_mem_ids_of_erase (hifp : ifp ∈ L) {e : Nat × IfAddr}
    (he : e ∈ connectedPairs (eraseKey Interface.index ifp.index L) j) :
    e.2.id ∉ ifp.allAddrs.map (·.id) := by
  obtain ⟨z, hz, -, h2⟩ := exists_of_mem_connectedPairs he
  obtain ⟨hzL, hzk⟩ := List.mem_filter.1 hz
  intro hmem
  obtain ⟨a, ha, hid⟩ := List.mem_map.1 hmem
  obtain ⟨rfl, -⟩ := eq_of_mem_flatMap_map (G := Interface.allAddrs) (f := IfAddr.id)
    h.id_nodup hzL hifp h2 ha hid.symm
  simp at hzk

/-- Taking out an interface's pointers leaves the other interfaces' pairs. -/
lemma filter_connectedPairs (hifp : ifp ∈ L) :
    (connectedPairs L j).filter (fun e => e.2.id ∉ ifp.allAddrs.map (·.id)) =
      connectedPairs (eraseKey Interface.index ifp.index L) j := by
  unfold connectedPairs
  rw [List.filter_flatMap, flatMap_eraseKey]
  apply List.flatMap_congr
  intro z hz
  by_cases hk : z.index = ifp.index
  · -- the interface itself: every pair of it holds one of its pointers
    obtain rfl := List.inj_on_of_nodup_map h.index_nodup hz hifp hk
    rw [if_pos rfl, List.filter_eq_nil_iff]
    intro e he
    simpa using List.mem_map_of_mem (f := IfAddr.id) (Interface.mem_pairsIn he).2
  · rw [if_neg hk, List.filter_eq_self]
    intro e he
    have hmem : e ∈ connectedPairs (eraseKey Interface.index ifp.index L) j :=
      List.mem_flatMap.2 ⟨z, List.mem_filter.2 ⟨hz, by simpa using hk⟩, he⟩
    simpa using h.not_mem_ids_of_erase hifp hmem

/-- No pair holds a pointer from `next` on. -/
lemma id_ne_of_le {e : Nat × IfAddr} (he : e ∈ connectedPairs L j) {a : IfAddr}
    (ha : next ≤ a.id) : e.2.id ≠ a.id := by
  obtain ⟨z, hz, -, h2⟩ := exists_of_mem_connectedPairs he
  have := h.id_lt z hz e.2 h2
  omega

/-- An address of a listed interface has a family. -/
lemma afi_of_mem_allAddrs (hifp : ifp ∈ L) {a : IfAddr} (ha : a ∈ ifp.allAddrs) :
    ∃ afi, a.pfx.afi = some afi := by
  rcases List.mem_append.1 ha with ha | ha
  · exact ⟨.ip, h.addr_afi ifp hifp .ip a ha⟩
  · exact ⟨.ip6, h.addr_afi ifp hifp .ip6 a ha⟩

/-- The pairs of a VRF object hold distinct pointers. -/
lemma pairs_ids_nodup : ((connectedPairs L j).map (·.2.id)).Nodup := by
  refine List.Sublist.nodup ?_ h.id_nodup
  rw [connectedPairs, List.map_flatMap]
  refine List.Sublist.flatMap_right L fun z _ => ?_
  unfold Interface.pairsIn
  split_ifs
  · simp [Function.comp_def]
  · exact List.nil_sublist _

/-- `ifp` replaced by `y`: pairs `Q` that differ from the old ones as `y`'s pairs differ from
`ifp`'s are the new table's. -/
lemma replace_pairs_perm (hifp : ifp ∈ L) (hy : ifp.index = y.index) {Q : List (Nat × IfAddr)}
    (hQ : (Q ++ ifp.pairsIn j).Perm (connectedPairs L j ++ y.pairsIn j)) :
    Q.Perm (connectedPairs (replaceKey Interface.index y L) j) := by
  set E := connectedPairs (eraseKey Interface.index ifp.index L) j
  have hold : (connectedPairs L j).Perm (E ++ ifp.pairsIn j) :=
    connectedPairs_perm_erase h.index_nodup hifp
  have hnew : (connectedPairs (replaceKey Interface.index y L) j).Perm (E ++ y.pairsIn j) :=
    connectedPairs_replace_perm h.index_nodup hifp hy
  rw [← List.perm_append_right_iff (ifp.pairsIn j)]
  calc (Q ++ ifp.pairsIn j).Perm (connectedPairs L j ++ y.pairsIn j) := hQ
    List.Perm _ (E ++ ifp.pairsIn j ++ y.pairsIn j) := hold.append_right _
    List.Perm _ (E ++ y.pairsIn j ++ ifp.pairsIn j) := by
      rw [List.append_assoc, List.append_assoc]
      exact List.perm_append_comm.append_left E
    List.Perm _ (connectedPairs (replaceKey Interface.index y L) j ++ ifp.pairsIn j) :=
      hnew.symm.append_right _

/-- `IfDownRibRemove`'s pairs: `ifp`'s pointers taken out of its VRF object's pairs leave the
other interfaces' pairs, in every object. -/
lemma removed_perm (hifp : ifp ∈ L) (j : Nat) :
    (Function.update (connectedPairs L) ifp.vrf ((connectedPairs L ifp.vrf).filter
      fun e => e.2.id ∉ ifp.allAddrs.map (·.id)) j).Perm
      (connectedPairs (eraseKey Interface.index ifp.index L) j) := by
  by_cases hj : j = ifp.vrf
  · subst hj
    rw [Function.update_self, h.filter_connectedPairs hifp]
  · -- another object: `ifp` gives it no pair
    have hold := connectedPairs_perm_erase h.index_nodup hifp (j := j)
    rw [Interface.pairsIn_of_ne (Ne.symm hj), List.append_nil] at hold
    rw [Function.update_of_ne hj]
    exact hold

end IfTableInv

end Pairs

/-! ### What the handlers do to the interface table -/

namespace IfTableInv

variable {L : List Interface} {n next : Nat} {ifp y : Interface}

lemma mono (h : IfTableInv L n next) {n' : Nat} (hn : n ≤ n') : IfTableInv L n' next :=
  { h with vrf_lt := fun z hz => lt_of_lt_of_le (h.vrf_lt z hz) hn }

/-- `IfUnregister` keeps the table's shape. -/
lemma erase (h : IfTableInv L n next) (k : Nat) :
    IfTableInv (eraseKey Interface.index k L) n next := by
  have hsub : (eraseKey Interface.index k L).Sublist L := List.filter_sublist
  exact ⟨fun z hz => h.vrf_lt z (hsub.subset hz), (hsub.map _).nodup h.index_nodup,
    fun z hz => h.addr_afi z (hsub.subset hz), fun z hz => h.addr_distinct z (hsub.subset hz),
    fun z hz => h.id_lt z (hsub.subset hz), (hsub.flatMap _).nodup h.id_nodup⟩

/-- `IfRegister` of an interface with a new index and no address keeps the table's shape. -/
lemma register (h : IfTableInv L n next) (hfresh : ∀ z ∈ L, z.index ≠ y.index)
    (hvrf : y.vrf < n) (hempty : ∀ afi, y.addrs afi = []) : IfTableInv (L ++ [y]) n next := by
  have hy : y.allAddrs = [] := by simp [Interface.allAddrs, hempty]
  refine ⟨fun z hz => ?_, ?_, fun z hz => ?_, fun z hz => ?_, fun z hz => ?_, ?_⟩
  · rcases List.mem_append.1 hz with hz | hz
    · exact h.vrf_lt z hz
    · rw [List.mem_singleton.1 hz]
      exact hvrf
  · rw [List.map_append, List.nodup_append]
    refine ⟨h.index_nodup, List.nodup_singleton _, fun a ha b hb => ?_⟩
    obtain ⟨z, hz, rfl⟩ := List.mem_map.1 ha
    rw [List.map_singleton, List.mem_singleton] at hb
    rw [hb]
    exact hfresh z hz
  · rcases List.mem_append.1 hz with hz | hz
    · exact h.addr_afi z hz
    · rw [List.mem_singleton.1 hz]
      simp [hempty]
  · rcases List.mem_append.1 hz with hz | hz
    · exact h.addr_distinct z hz
    · rw [List.mem_singleton.1 hz]
      simp [hempty]
  · rcases List.mem_append.1 hz with hz | hz
    · exact h.id_lt z hz
    · rw [List.mem_singleton.1 hz, hy]
      simp
  · simpa [List.flatMap_append, hy] using h.id_nodup

/-- An interface replaced in place by one in a VRF object below `n`, each of whose address
lists is part of the old one, keeps the table's shape. -/
lemma replace (h : IfTableInv L n next) (hifp : ifp ∈ L) (hy : ifp.index = y.index)
    (hvrf : y.vrf < n) (hsub : ∀ afi, (y.addrs afi).Sublist (ifp.addrs afi)) :
    IfTableInv (replaceKey Interface.index y L) n next := by
  have hall : y.allAddrs.Sublist ifp.allAddrs := (hsub .ip).append (hsub .ip6)
  refine ⟨fun z hz => ?_, by simpa using h.index_nodup, fun z hz => ?_, fun z hz => ?_,
    fun z hz => ?_, ?_⟩
  · rcases mem_replaceKey hz with rfl | hz
    · exact hvrf
    · exact h.vrf_lt z hz
  · rcases mem_replaceKey hz with rfl | hz
    · exact fun afi a ha => h.addr_afi ifp hifp afi a ((hsub afi).subset ha)
    · exact h.addr_afi z hz
  · rcases mem_replaceKey hz with rfl | hz
    · exact fun afi => (h.addr_distinct ifp hifp afi).sublist (hsub afi)
    · exact h.addr_distinct z hz
  · rcases mem_replaceKey hz with rfl | hz
    · exact fun a ha => h.id_lt ifp hifp a (hall.subset ha)
    · exact h.id_lt z hz
  · -- the pointers are the old ones, some of the replaced interface's left out
    have hnew := flatMap_replaceKey_perm h.index_nodup hifp hy
      (fun z : Interface => z.allAddrs.map (·.id))
    have hold := flatMap_perm_eraseKey h.index_nodup hifp
      (fun z : Interface => z.allAddrs.map (·.id))
    rw [hnew.nodup_iff, ← hy]
    exact (List.Sublist.append_left (hall.map _) _).nodup (hold.nodup_iff.1 h.id_nodup)

/-- `IfAddrAdd`'s new address, of its list's family, `Equal` to none there, under the pointer
`next`. -/
lemma addAddr (h : IfTableInv L n next) (hifp : ifp ∈ L) {afi : Afi} {addr : IfAddr}
    (hafi : addr.pfx.afi = some afi) (hid : addr.id = next)
    (hnew : ∀ a ∈ ifp.addrs afi, a.pfx.equal addr.pfx = false) :
    IfTableInv (replaceKey Interface.index
      { ifp with addrs := Function.update ifp.addrs afi (ifp.addrs afi ++ [addr]) } L)
      n (next + 1) := by
  set y : Interface := { ifp with addrs := Function.update ifp.addrs afi (ifp.addrs afi ++ [addr]) }
  have hall : y.allAddrs.Perm (ifp.allAddrs ++ [addr]) := by
    rw [List.perm_iff_count]
    intro a
    have hupd : (y.allAddrs ++ ifp.addrs afi).Perm (ifp.allAddrs ++ (ifp.addrs afi ++ [addr])) :=
      Interface.allAddrs_update_perm ifp afi _
    have := hupd.count_eq a
    simp only [List.count_append] at this ⊢
    omega
  refine ⟨fun z hz => ?_, by simpa using h.index_nodup, fun z hz => ?_, fun z hz => ?_,
    fun z hz => ?_, ?_⟩
  · rcases mem_replaceKey hz with rfl | hz
    · exact h.vrf_lt ifp hifp
    · exact h.vrf_lt z hz
  · rcases mem_replaceKey hz with rfl | hz
    · intro afi' a ha
      by_cases hafi' : afi' = afi
      · subst hafi'
        simp only [y, Function.update_self, List.mem_append, List.mem_singleton] at ha
        rcases ha with ha | rfl
        · exact h.addr_afi ifp hifp afi' a ha
        · exact hafi
      · simp only [y, Function.update_of_ne hafi'] at ha
        exact h.addr_afi ifp hifp afi' a ha
    · exact h.addr_afi z hz
  · rcases mem_replaceKey hz with rfl | hz
    · intro afi'
      by_cases hafi' : afi' = afi
      · subst hafi'
        simp only [y, Function.update_self]
        refine List.pairwise_append.2 ⟨h.addr_distinct ifp hifp afi', List.pairwise_singleton _ _,
          fun a ha b hb => ?_⟩
        rw [List.mem_singleton.1 hb]
        exact hnew a ha
      · simp only [y, Function.update_of_ne hafi']
        exact h.addr_distinct ifp hifp afi'
    · exact h.addr_distinct z hz
  · rcases mem_replaceKey hz with rfl | hz
    · intro a ha
      rcases List.mem_append.1 (hall.subset ha) with ha | ha
      · exact Nat.lt_succ_of_lt (h.id_lt ifp hifp a ha)
      · rw [List.mem_singleton.1 ha, hid]
        exact Nat.lt_succ_self next
    · exact fun a ha => Nat.lt_succ_of_lt (h.id_lt z hz a ha)
  · -- the pointers are the old ones and `next`, which none of them is
    have hnew' := flatMap_replaceKey_perm h.index_nodup hifp (y := y) rfl
      (fun z : Interface => z.allAddrs.map (·.id))
    have hold := flatMap_perm_eraseKey h.index_nodup hifp
      (fun z : Interface => z.allAddrs.map (·.id))
    have hperm : ((replaceKey Interface.index y L).flatMap fun z => z.allAddrs.map (·.id)).Perm
        ((L.flatMap fun z => z.allAddrs.map (·.id)) ++ [next]) := by
      refine hnew'.trans (((hall.map (·.id)).append_left _).trans ?_)
      rw [List.map_append, List.map_singleton, hid, ← List.append_assoc]
      exact hold.symm.append_right _
    rw [hperm.nodup_iff, List.nodup_append]
    refine ⟨h.id_nodup, List.nodup_singleton _, fun a ha b hb => ?_⟩
    rw [List.mem_singleton.1 hb]
    obtain ⟨z, hz, ha⟩ := List.mem_flatMap.1 ha
    obtain ⟨c, hc, rfl⟩ := List.mem_map.1 ha
    exact Nat.ne_of_lt (h.id_lt z hz c hc)

end IfTableInv

end Zebra
