import Zebra.Rib.Resolve
import Zebra.Netutil.PtreeMap

/-!
# Static routes

A VRF keeps the configured static routes in a tree of its own, `staticTable`, whose node at a
prefix holds a `Static`: the next hops configured for the prefix.  Each add acquires the node,
refuses a next hop `Nexthop.Equal` to one already there (giving the reference back), appends
it, and hands the RIB a fresh static route through all the next hops (`Static.Rib`); each delete
looks the node up, removes the next hop and hands the RIB the smaller route, or deletes the
route when no next hop is left.  The three pairs differ in the next hop they build: a plain
address, an SRv6 segment list in a mode, or SRv6 local parameters.

Two things do not hold that one would expect.  The segment-list add acquires the node before it
checks the mode and returns the mode error without giving the reference back
(`staticSeg6SegmentsAdd_error_acquires`); no delete gives back a reference, so the count of a
node stops following its next hops.  And `Resolve` resolves a route with one next hop only, so
a static route with two next hops is never resolved (`resolve_static_rib_of_length_ne_one`).
-/

namespace Zebra

open Zebra.Netutil

/-- `nl.SEG6_IPTUN_MODE_INLINE`. -/
def seg6IptunModeInline : Int := 0
/-- `nl.SEG6_IPTUN_MODE_ENCAP`. -/
def seg6IptunModeEncap : Int := 1

/-- `Static`, with the field the static functions use: the configured next hops.  `Prefix`,
`Distance` and `IfName` are neither set nor read. -/
structure Static where
  nexthops : List Nexthop
deriving DecidableEq, Repr

/-- `Static.Rib`: a static route through the configured next hops, every other field zero. -/
def Static.rib (s : Static) : Rib := ⟨0, 0, ribStatic, 0, 0, 0, 0, s.nexthops, [], .none⟩

/-- A VRF with its `staticTable`, which only the static functions read and write. -/
structure StaticVrf where
  vrf : Vrf
  staticTable : Afi → Ptree Static

namespace StaticVrf

/-- `NewVrf`: empty static trees of width 32 and 128. -/
def new (id : Nat) : StaticVrf := ⟨Vrf.new id, fun afi => Ptree.empty afi.maxKeyBits⟩

/-- The static table of `afi` replaced. -/
def setStaticTable (sv : StaticVrf) (afi : Afi) (t : Ptree Static) : StaticVrf :=
  { sv with staticTable := Function.update sv.staticTable afi t }

@[simp] lemma setStaticTable_staticTable_self (sv : StaticVrf) (afi : Afi) (t : Ptree Static) :
    (sv.setStaticTable afi t).staticTable afi = t := by
  simp [setStaticTable]
@[simp] lemma setStaticTable_staticTable_of_ne (sv : StaticVrf) {afi afi' : Afi}
    (t : Ptree Static) (h : afi' ≠ afi) :
    (sv.setStaticTable afi t).staticTable afi' = sv.staticTable afi' := by
  simp [setStaticTable, h]
@[simp] lemma setStaticTable_vrf (sv : StaticVrf) (afi : Afi) (t : Ptree Static) :
    (sv.setStaticTable afi t).vrf = sv.vrf := rfl

/-! ### Adds -/

/-- The part the adds share once the node of `p` is acquired in `t`: refuse a next hop equal to
a configured one, giving the reference back; otherwise append it and add the static route. -/
def staticAddAcquired (g : Globals) (sv : StaticVrf) (afi : Afi) (t : Ptree Static) (p : Prefix)
    (nhop : Nexthop) : Option (StaticVrf × Option String) :=
  -- a node without an item gets a new `Static`
  let static := ((t.lookup p.ip p.length.toNat).bind (·.item)).getD ⟨[]⟩
  if static.nexthops.any (·.equal nhop) then
    some (sv.setStaticTable afi (t.release p.ip p.length.toNat), some "Same nexthop exists")
  else
    let static : Static := ⟨static.nexthops ++ [nhop]⟩
    (sv.vrf.ribAdd g p static.rib).map fun vrf =>
      ({ sv.setStaticTable afi (t.setItem p.ip p.length.toNat (some static)) with vrf }, none)

/-- An add of the next hop `nhop`: the node of `p` acquired, then `staticAddAcquired`.  The
result is the VRF after the call and the error returned; `none` where the code panics (a prefix
of no family, or a length past the tree, whose nil node is dereferenced). -/
def staticNexthopAdd (g : Globals) (sv : StaticVrf) (p : Prefix) (nhop : Nexthop) :
    Option (StaticVrf × Option String) := do
  let afi ← p.afi
  let t ← (sv.staticTable afi).acquire p.ip p.length.toNat
  staticAddAcquired g sv afi t p nhop

/-- `Vrf.StaticAdd`. -/
def staticAdd (g : Globals) (sv : StaticVrf) (p : Prefix) (naddr : List UInt8) :
    Option (StaticVrf × Option String) :=
  sv.staticNexthopAdd g p (newNexthopAddr naddr)

/-- The next hop of the SRv6 local statics. -/
def seg6LocalNexthop (naddr : List UInt8) (seg6local : EncapSEG6Local) : Nexthop :=
  { newNexthopAddr naddr with encapType := lwtunnelEncapSeg6Local, encapSeg6Local := seg6local }

/-- `Vrf.StaticSeg6LocalAdd`. -/
def staticSeg6LocalAdd (g : Globals) (sv : StaticVrf) (p : Prefix) (naddr : List UInt8)
    (seg6local : EncapSEG6Local) : Option (StaticVrf × Option String) :=
  sv.staticNexthopAdd g p (seg6LocalNexthop naddr seg6local)

/-- The mode switch of the SRv6 segment statics: `inline` appends the segment `::`, and the
segments go to netlink in reverse order. -/
def seg6Encap (mode : String) (segs : List (List UInt8)) : Option EncapSEG6 :=
  if mode = "inline" then some ⟨seg6IptunModeInline, (segs ++ [List.replicate 16 0]).reverse⟩
  else if mode = "encap" then some ⟨seg6IptunModeEncap, segs.reverse⟩
  else none

/-- The error of an unknown mode: `fmt.Errorf` is given the mode with no verb for it. -/
def unsupportedModeError (mode : String) : String :=
  "Unspported seg6 encap mode:%!(EXTRA string=" ++ mode ++ ")"

/-- The next hop of the SRv6 segment statics. -/
def seg6Nexthop (naddr : List UInt8) (e : EncapSEG6) : Nexthop :=
  { newNexthopAddr naddr with encapType := lwtunnelEncapSeg6, encapSeg6 := e }

/-- `Vrf.StaticSeg6SegmentsAdd`: the node is acquired before the mode is checked, and the mode
error returns with the reference held.  The nil node of a length past the tree is dereferenced
only after the mode check. -/
def staticSeg6SegmentsAdd (g : Globals) (sv : StaticVrf) (p : Prefix) (naddr : List UInt8)
    (mode : String) (segs : List (List UInt8)) : Option (StaticVrf × Option String) := do
  let afi ← p.afi
  let t? := (sv.staticTable afi).acquire p.ip p.length.toNat
  match seg6Encap mode segs with
  | none => some ((t?.map (sv.setStaticTable afi)).getD sv, some (unsupportedModeError mode))
  | some e =>
    let t ← t?
    staticAddAcquired g sv afi t p (seg6Nexthop naddr e)

/-! ### Deletes -/

/-- The part the deletes share: find the node of `p` and its `Static`, remove the next hops
equal to `nhop`, and hand the RIB the route through the others, or delete the route when none
is left.  No reference is given back. -/
def staticNexthopDelete (g : Globals) (sv : StaticVrf) (afi : Afi) (p : Prefix) (nhop : Nexthop) :
    Option (StaticVrf × Option String) :=
  match (sv.staticTable afi).lookup p.ip p.length.toNat with
  | none => some (sv, some "Can't find the route")
  | some node =>
    match node.item with
    | none => some (sv, some "No static route information")
    | some static =>
      let nhops := static.nexthops.filter fun n => !n.equal nhop
      if nhops.length = static.nexthops.length then some (sv, some "Can't find the nexthop")
      else
        let static : Static := ⟨nhops⟩
        let sv := sv.setStaticTable afi ((sv.staticTable afi).setItem p.ip p.length.toNat (some static))
        let vrf? := if nhops.length = 0 then sv.vrf.ribDelete g p static.rib
          else sv.vrf.ribAdd g p static.rib
        vrf?.map fun vrf => ({ sv with vrf }, none)

/-- `Vrf.StaticDelete`. -/
def staticDelete (g : Globals) (sv : StaticVrf) (p : Prefix) (naddr : List UInt8) :
    Option (StaticVrf × Option String) := do
  let afi ← p.afi
  sv.staticNexthopDelete g afi p (newNexthopAddr naddr)

/-- `Vrf.StaticSeg6LocalDelete`. -/
def staticSeg6LocalDelete (g : Globals) (sv : StaticVrf) (p : Prefix) (naddr : List UInt8)
    (seg6local : EncapSEG6Local) : Option (StaticVrf × Option String) := do
  let afi ← p.afi
  sv.staticNexthopDelete g afi p (seg6LocalNexthop naddr seg6local)

/-- `Vrf.StaticSeg6SegmentsDelete`: the mode is checked after the lookup, which changes
nothing. -/
def staticSeg6SegmentsDelete (g : Globals) (sv : StaticVrf) (p : Prefix) (naddr : List UInt8)
    (mode : String) (segs : List (List UInt8)) : Option (StaticVrf × Option String) := do
  let afi ← p.afi
  match seg6Encap mode segs with
  | none => some (sv, some (unsupportedModeError mode))
  | some e => sv.staticNexthopDelete g afi p (seg6Nexthop naddr e)

end StaticVrf

/-! ### Refused calls -/

namespace Netutil.Ptree

variable {α : Type} {t t' : Ptree α} {key : List UInt8} {len : Nat} {n : PtreeNode α}

/-- `Release` gives back the reference `Acquire` took on a node that stood at the key. -/
lemma release_acquire_of_any (hpos : ∀ n ∈ t.nodes, 0 < n.refcnt)
    (hany : t.nodes.any (·.isAt key len) = true) (h : t.acquire key len = some t') :
    t'.release key len = t := by
  have hlen := length_le_of_acquire h
  unfold acquire at h
  rw [if_neg (by omega), if_pos hany] at h
  cases h
  -- one reference up and one down leaves every node as it was, and none is unlinked
  have hback : ∀ n ∈ t.nodes, (PtreeNode.updateAt key len PtreeNode.delReference ∘
      PtreeNode.updateAt key len PtreeNode.addReference) n = id n := by
    intro n _
    simp only [Function.comp_apply, id_eq]
    by_cases hat : n.isAt key len = true
    · have hat' : n.addReference.isAt key len = true := hat
      rw [PtreeNode.updateAt_of_isAt hat, PtreeNode.updateAt_of_isAt hat']
      rfl
    · have hat' : ¬ n.addReference.isAt key len = true := hat
      rw [PtreeNode.updateAt_of_not_isAt hat]
      exact PtreeNode.updateAt_of_not_isAt hat
  have hkeep : ∀ n ∈ t.nodes, (!(n.isAt key len && n.refcnt == 0)) = true := by
    intro n hn
    have := hpos n hn
    simp only [Bool.not_eq_true', Bool.and_eq_false_iff, beq_eq_false_iff_ne]
    exact .inr (by omega)
  simp only [release, List.map_map]
  rw [List.map_congr_left hback, List.map_id, List.filter_eq_self.2 hkeep]

end Netutil.Ptree

namespace StaticVrf

variable {g : Globals} {sv sv' : StaticVrf} {p : Prefix} {afi : Afi} {nhop : Nexthop}
  {e : String} {err : Option String}

@[simp] lemma setStaticTable_self (sv : StaticVrf) (afi : Afi) :
    sv.setStaticTable afi (sv.staticTable afi) = sv := by
  simp [setStaticTable]

/-- Every node of the static tables holds a reference, as `Acquire` and `Release` leave them. -/
def RefsPositive (sv : StaticVrf) : Prop := ∀ afi, ∀ n ∈ (sv.staticTable afi).nodes, 0 < n.refcnt

/-- The only error of the shared part of the adds: the node's `Static` held an equal next hop,
and the reference is given back. -/
lemma staticAddAcquired_error {t : Ptree Static}
    (h : staticAddAcquired g sv afi t p nhop = some (sv', some e)) :
    ∃ s, (t.lookup p.ip p.length.toNat).bind (·.item) = some s ∧
      sv' = sv.setStaticTable afi (t.release p.ip p.length.toNat) ∧ e = "Same nexthop exists" := by
  unfold staticAddAcquired at h
  dsimp only at h
  split at h
  · rename_i hany
    cases h
    cases hs : (t.lookup p.ip p.length.toNat).bind (·.item) with
    | none => rw [hs] at hany; cases hany
    | some s => exact ⟨s, rfl, rfl, rfl⟩
  · obtain ⟨_, -, hpair⟩ := Option.map_eq_some_iff.1 h
    cases (Prod.mk.inj hpair).2

/-- A refused add leaves the VRF as it was: the next hop was configured already, and the
reference the add took is given back. -/
theorem staticNexthopAdd_error (hpos : sv.RefsPositive)
    (h : sv.staticNexthopAdd g p nhop = some (sv', some e)) :
    sv' = sv ∧ e = "Same nexthop exists" := by
  obtain ⟨afi, -, h⟩ := Option.bind_eq_some_iff.1 h
  obtain ⟨t, ht, h⟩ := Option.bind_eq_some_iff.1 h
  obtain ⟨s, hs, rfl, rfl⟩ := staticAddAcquired_error h
  obtain ⟨n, hn, hitem⟩ := Option.bind_eq_some_iff.1 hs
  have hat := Ptree.isAt_of_lookup hn
  -- the node holding the `Static` stood there before: `Acquire` makes nodes without an item
  rcases Ptree.mem_acquire ht (Ptree.mem_of_lookup hn) with ⟨n₀, hn₀, hsame⟩ | hnone
  · have hany : (sv.staticTable afi).nodes.any (·.isAt p.ip p.length.toNat) = true :=
      List.any_eq_true.2 ⟨n₀, hn₀, (hsame.isAt p.ip p.length.toNat) ▸ hat⟩
    rw [Ptree.release_acquire_of_any (hpos afi) hany ht, setStaticTable_self]
    exact ⟨rfl, rfl⟩
  · rw [hnone] at hitem
    cases hitem

/-- A refused delete leaves the VRF as it was. -/
theorem staticNexthopDelete_error (h : sv.staticNexthopDelete g afi p nhop = some (sv', some e)) :
    sv' = sv := by
  unfold staticNexthopDelete at h
  split at h
  · cases h
    rfl
  · split at h
    · cases h
      rfl
    · dsimp only at h
      split at h
      · cases h
        rfl
      · obtain ⟨_, -, hpair⟩ := Option.map_eq_some_iff.1 h
        cases (Prod.mk.inj hpair).2

/-- A refused segment-list delete leaves the VRF as it was: the mode is checked before anything
changes. -/
theorem staticSeg6SegmentsDelete_error {naddr : List UInt8} {mode : String}
    {segs : List (List UInt8)}
    (h : sv.staticSeg6SegmentsDelete g p naddr mode segs = some (sv', some e)) : sv' = sv := by
  obtain ⟨afi, -, h⟩ := Option.bind_eq_some_iff.1 h
  split at h
  · cases h
    rfl
  · exact staticNexthopDelete_error h

/-- The mode error of the segment-list add returns with the reference the add took. -/
theorem staticSeg6SegmentsAdd_error_acquires {naddr : List UInt8} {mode : String}
    {segs : List (List UInt8)} {t : Ptree Static} (hafi : p.afi = some afi)
    (hmode : seg6Encap mode segs = none) (ht : (sv.staticTable afi).acquire p.ip p.length.toNat = some t) :
    sv.staticSeg6SegmentsAdd g p naddr mode segs =
      some (sv.setStaticTable afi t, some (unsupportedModeError mode)) := by
  simp [staticSeg6SegmentsAdd, hafi, hmode, ht]

/-! ### References and next hops -/

/-- The references the node of `p` holds in a static table. -/
def refCount (t : Ptree Static) (p : Prefix) : Nat := ((t.nodeAt p).map (·.refcnt)).getD 0

/-- The next hops configured at `p` in a static table. -/
def nexthopCount (t : Ptree Static) (p : Prefix) : Nat :=
  (((t.nodeAt p).bind (·.item)).map (·.nexthops.length)).getD 0

/-- What a successful add leaves: the static table with the extended `Static` at `p`. -/
lemma staticAddAcquired_ok {t : Ptree Static}
    (h : staticAddAcquired g sv afi t p nhop = some (sv', none)) :
    ∃ vrf, sv' = { sv.setStaticTable afi (t.setItem p.ip p.length.toNat
      (some ⟨(((t.lookup p.ip p.length.toNat).bind (·.item)).getD ⟨[]⟩).nexthops ++ [nhop]⟩)) with vrf } := by
  unfold staticAddAcquired at h
  dsimp only at h
  split at h
  · cases h
  · obtain ⟨vrf, -, hpair⟩ := Option.map_eq_some_iff.1 h
    exact ⟨vrf, (Prod.mk.inj hpair).1.symm⟩

/-- What a successful delete leaves: the static table with fewer next hops at `p`. -/
lemma staticNexthopDelete_ok (h : sv.staticNexthopDelete g afi p nhop = some (sv', none)) :
    ∃ node s vrf, (sv.staticTable afi).lookup p.ip p.length.toNat = some node ∧ node.item = some s ∧
      (s.nexthops.filter fun n => !n.equal nhop).length < s.nexthops.length ∧
      sv' = { sv.setStaticTable afi ((sv.staticTable afi).setItem p.ip p.length.toNat
        (some ⟨s.nexthops.filter fun n => !n.equal nhop⟩)) with vrf } := by
  unfold staticNexthopDelete at h
  split at h
  · cases h
  · rename_i node hnode
    split at h
    · cases h
    · rename_i s hs
      dsimp only at h
      split at h
      · cases h
      · rename_i hlt
        obtain ⟨vrf, -, hpair⟩ := Option.map_eq_some_iff.1 h
        have hle := List.length_filter_le (fun n => !n.equal nhop) s.nexthops
        exact ⟨node, s, vrf, hnode, hs, by omega, (Prod.mk.inj hpair).1.symm⟩

section Keyed

variable {w : Nat}

/-- A successful add takes one more reference on the node of a masked prefix and configures one
more next hop there. -/
theorem staticNexthopAdd_counts (hk : (sv.staticTable afi).Keyed w) (hq : p.Masked)
    (hqw : p.ip.length = w) (hafi : p.afi = some afi)
    (h : sv.staticNexthopAdd g p nhop = some (sv', none)) :
    refCount (sv'.staticTable afi) p = refCount (sv.staticTable afi) p + 1 ∧
      nexthopCount (sv'.staticTable afi) p = nexthopCount (sv.staticTable afi) p + 1 := by
  obtain ⟨afi', hafi', h⟩ := Option.bind_eq_some_iff.1 h
  rw [hafi, Option.some.injEq] at hafi'
  subst hafi'
  obtain ⟨t, ht, h⟩ := Option.bind_eq_some_iff.1 h
  obtain ⟨vrf, rfl⟩ := staticAddAcquired_ok h
  have hk' := hk.acquire hq hqw ht
  have hnode := hk.nodeAt_acquire hq hqw ht p
  rw [if_pos rfl] at hnode
  have hset : ∀ v, (t.setItem p.ip p.length.toNat v).nodeAt p =
      (t.nodeAt p).map fun n => { n with item := v } := by
    intro v
    rw [hk'.nodeAt_setItem hq hqw v p, if_pos rfl]
  unfold refCount nexthopCount
  simp only [setStaticTable_staticTable_self]
  rw [hset, hk'.lookup_eq hq hqw, hnode]
  -- the node of `p` is the one from before with a reference more, or a new one
  cases hold : (sv.staticTable afi).nodeAt p with
  | none => simp [Ptree.newNode]
  | some n => cases hi : n.item <;> simp [hi, PtreeNode.addReference]

/-- A successful delete keeps every reference on the node of a masked prefix, while it configures
fewer next hops there. -/
theorem staticNexthopDelete_counts (hk : (sv.staticTable afi).Keyed w) (hq : p.Masked)
    (hqw : p.ip.length = w) (h : sv.staticNexthopDelete g afi p nhop = some (sv', none)) :
    refCount (sv'.staticTable afi) p = refCount (sv.staticTable afi) p ∧
      nexthopCount (sv'.staticTable afi) p < nexthopCount (sv.staticTable afi) p := by
  obtain ⟨node, s, vrf, hnode, hs, hlt, rfl⟩ := staticNexthopDelete_ok h
  rw [hk.lookup_eq hq hqw] at hnode
  have hset := hk.nodeAt_setItem hq hqw (some ⟨s.nexthops.filter fun n => !n.equal nhop⟩) p
  rw [if_pos rfl, hnode] at hset
  unfold refCount nexthopCount
  simp only [setStaticTable_staticTable_self, hset, hnode, hs, Option.map_some, Option.bind_some,
    Option.getD_some]
  exact ⟨trivial, hlt⟩

/-- The mode error of the segment-list add leaves the node of a masked prefix with one reference
more, and no more next hops. -/
theorem staticSeg6SegmentsAdd_error_counts {naddr : List UInt8} {mode : String}
    {segs : List (List UInt8)} (hk : (sv.staticTable afi).Keyed w) (hq : p.Masked)
    (hqw : p.ip.length = w) (hafi : p.afi = some afi)
    (hlen : p.length ≤ (sv.staticTable afi).maxKeyBits) (hmode : seg6Encap mode segs = none)
    (h : sv.staticSeg6SegmentsAdd g p naddr mode segs = some (sv', err)) :
    refCount (sv'.staticTable afi) p = refCount (sv.staticTable afi) p + 1 ∧
      nexthopCount (sv'.staticTable afi) p = nexthopCount (sv.staticTable afi) p := by
  obtain ⟨t, ht⟩ : ∃ t, (sv.staticTable afi).acquire p.ip p.length.toNat = some t := by
    unfold Ptree.acquire
    rw [if_neg (by omega)]
    split <;> exact ⟨_, rfl⟩
  rw [staticSeg6SegmentsAdd_error_acquires hafi hmode ht, Option.some.injEq, Prod.mk.injEq] at h
  obtain ⟨rfl, -⟩ := h
  have hnode := hk.nodeAt_acquire hq hqw ht p
  rw [if_pos rfl] at hnode
  unfold refCount nexthopCount
  rw [setStaticTable_staticTable_self, hnode]
  cases hold : (sv.staticTable afi).nodeAt p with
  | none => simp [Ptree.newNode]
  | some n => simp [PtreeNode.addReference]

end Keyed

end StaticVrf

/-- `Resolve` leaves a static route through no next hop or several unresolved, whatever the
tables hold. -/
theorem resolve_static_rib_of_length_ne_one (v : Vrf) {s : Static} (hs : s.nexthops.length ≠ 1) :
    (resolve v s.rib).isResolved = false := by
  have hty : s.rib.type = ribStatic ∨ s.rib.type = ribBgp := .inl rfl
  unfold resolve
  rw [if_pos hty]
  dsimp only
  split
  · rename_i nh hnh
    exact absurd (congrArg List.length hnh) hs
  · simp

/-- `192.168.0.0/24`. -/
def net192 : Prefix := ⟨[192, 168, 0, 0], 24⟩

/-- The static next hops `10.0.0.1` and `10.0.0.2` for `192.168.0.0/24`, added to a VRF holding
the kernel route `10.0.0.0/24`. -/
def twoStaticNexthops : Option (StaticVrf × Option String) :=
  ((⟨((Vrf.new 0).ribAdd plainGlobals net24m kernelRoute).getD (Vrf.new 0),
      fun afi => Ptree.empty afi.maxKeyBits⟩ : StaticVrf).staticAdd plainGlobals net192
        [10, 0, 0, 1]).bind fun r => r.1.staticAdd plainGlobals net192 [10, 0, 0, 2]

/-- Both adds succeed; both next hops lie inside the kernel route, which is in the FIB; the RIB
holds one static route through both, in order, and it is not resolved. -/
theorem static_route_two_nexthops_unresolved :
    twoStaticNexthops.map (·.2) = some none ∧
      twoStaticNexthops.map (fun r => ((((r.1.vrf.ribTable .ip).lookup net24m.ip
        net24m.length.toNat).bind (·.item)).getD []).map Rib.isFib) = some [true] ∧
      twoStaticNexthops.map (fun r => ((((r.1.vrf.ribTable .ip).lookup net192.ip
        net192.length.toNat).bind (·.item)).getD []).map
          fun rib => (rib.type, rib.nexthops.filterMap (·.ip), rib.isResolved)) =
        some [(ribStatic, [[10, 0, 0, 1], [10, 0, 0, 2]], false)] := by
  decide

/-- A segment-list add in the unknown mode `bogus` on a new VRF fails and leaves a node holding a
reference at the prefix; an add of `10.0.0.1` and then its delete both succeed and leave the
node holding one reference and no next hop. -/
theorem static_calls_leak_references :
    ((StaticVrf.new 0).staticSeg6SegmentsAdd plainGlobals net24m [10, 0, 0, 1] "bogus" []).map
        (fun r => (r.2, (r.1.staticTable .ip).nodes.map fun n => (n.key, n.keyLength, n.refcnt))) =
      some (some (StaticVrf.unsupportedModeError "bogus"), [([10, 0, 0, 0], 24, 1)]) ∧
    (((StaticVrf.new 0).staticAdd plainGlobals net24m [10, 0, 0, 1]).bind fun r =>
        r.1.staticDelete plainGlobals net24m [10, 0, 0, 1]).map
      (fun r => (r.2, (r.1.staticTable .ip).nodes.map fun n =>
        (n.refcnt, n.item.map (·.nexthops.length)))) = some (none, [(1, some 0)]) := by
  decide

end Zebra
