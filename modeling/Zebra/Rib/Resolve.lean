import Zebra.Rib.Selection

/-!
# What resolves a static or BGP route

`Resolve` marks a static or BGP route with one next-hop address resolved when `Match` finds a
node covering the address in the table of its length.  `Match` takes any node that holds a
reference, whatever its slice; and `RibAdd` acquires the node of the new route's own prefix
before it resolves the route (the code says `XXX self reference`).  So a route whose next hop
lies inside its own prefix is resolved by its own node, with no other route to carry it.
-/

namespace Zebra

open Zebra.Netutil

namespace Netutil.Ptree

variable {α : Type}

/-- A node that holds a reference and covers the address makes `Match` find a node. -/
lemma match_isSome_of_mem {t : Ptree α} {key : List UInt8} {len : Nat} {n : PtreeNode α}
    (hlen : len ≤ t.maxKeyBits) (hn : n ∈ t.nodes) (href : 0 < n.refcnt)
    (hcov : keyMatch n.key n.keyLength key len = true) : (t.match key len).isSome = true := by
  unfold Ptree.match
  rw [if_neg (by omega), Option.isSome_iff_ne_none, Ne, List.argmax_eq_none]
  intro hnil
  have hmem : n ∈ t.nodes.filter fun n => 0 < n.refcnt && keyMatch n.key n.keyLength key len :=
    List.mem_filter.2 ⟨hn, by simp [href, hcov]⟩
  rw [hnil] at hmem
  cases hmem

/-- `Acquire` at a place no node stands at creates the node there, with one reference. -/
lemma mem_acquire_of_new {t t' : Ptree α} {key : List UInt8} {len : Nat}
    (hnew : t.nodes.any (·.isAt key len) = false) (ht : t.acquire key len = some t') :
    ⟨key, len, 1, none⟩ ∈ t'.nodes ∧ t'.maxKeyBits = t.maxKeyBits := by
  by_cases hlen : t.maxKeyBits < len
  · simp [acquire, hlen] at ht
  · simp only [acquire, hlen, hnew, Bool.false_eq_true, if_false, Option.some.injEq] at ht
    subst ht
    exact ⟨(List.mem_orderedInsert _).2 (.inl rfl), rfl⟩

end Netutil.Ptree

/-- The resolved flag `Resolve` leaves on a static or BGP route with one next-hop address:
whether `Match` finds a node covering the address in the table of its length. -/
lemma resolve_isResolved_of_addr {v : Vrf} {ri : Rib} {nh : Nexthop} {ip : List UInt8}
    {t : Ptree RibSlice} (hty : ri.type = ribStatic ∨ ri.type = ribBgp) (hnh : ri.nexthops = [nh])
    (hip : nh.ip = some ip) (ht : nexthopTable v ip = some t) :
    (resolve v ri).isResolved = (t.match ip (ip.length * 8)).isSome := by
  have hnh' : (ri.unsetFlag ribFlagResolved).nexthops = [nh] := hnh
  unfold resolve
  rw [if_pos hty]
  simp only [hnh', hip, ht]
  cases (t.match ip (ip.length * 8)).isSome <;> simp

/-- `RibAdd` of a static or BGP route whose next-hop address lies inside its own prefix, new to
the IPv4 table: once the node of the prefix is acquired, `Resolve` marks the route resolved,
whatever else the table holds. -/
theorem resolve_after_acquire_own_prefix {v : Vrf} {t : Ptree RibSlice} {p : Prefix} {ri : Rib}
    {nh : Nexthop} {ip : List UInt8} (hmax : (v.ribTable .ip).maxKeyBits = 32)
    (hnew : (v.ribTable .ip).nodes.any (·.isAt p.ip p.length.toNat) = false)
    (ht : (v.ribTable .ip).acquire p.ip p.length.toNat = some t)
    (hty : ri.type = ribStatic ∨ ri.type = ribBgp) (hnh : ri.nexthops = [nh])
    (hip : nh.ip = some ip) (hlen : ip.length = 4) (hin : keyMatch p.ip p.length.toNat ip 32 = true) :
    (resolve (v.setTable .ip t) ri).isResolved = true := by
  obtain ⟨hmem, hmax'⟩ := Ptree.mem_acquire_of_new hnew ht
  have htable : nexthopTable (v.setTable .ip t) ip = some t := by
    simp [nexthopTable, hlen]
  rw [resolve_isResolved_of_addr hty hnh hip htable, hlen]
  exact Ptree.match_isSome_of_mem (by omega) hmem Nat.one_pos hin

/-- A static route to `10.0.0.0/24` through `10.0.0.1`. -/
def staticVia1 : Rib := ⟨0, 0, ribStatic, 0, 0, 0, 0, [newNexthopAddr [10, 0, 0, 1]], [], .none⟩

/-- Alone in a new VRF, the static route to `10.0.0.0/24` through `10.0.0.1` is resolved (flags
`RESOLVED | FIB | SELECTED`) by the node of its own prefix, the only node of the table. -/
theorem ribAdd_static_resolved_by_itself :
    ((Vrf.new 0).ribAdd plainGlobals net24m staticVia1).map (fun v =>
      (v.ribTable .ip).nodes.map fun n => (n.key, n.keyLength, (n.item.getD []).map Rib.flags)) =
      some [([10, 0, 0, 0], 24, [19])] := by
  decide

end Zebra
