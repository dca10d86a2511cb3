import Zebra.Rib.Types

/-!
# The replacement test `Rib.Equal`

`RibAdd` replaces, and `RibDelete` removes, the routes of a slice that `Rib.Equal` relates to
the route it is given.  `Rib.Equal` reads the route type, the source, the path id and, for a
connected route, the single next hop through `Nexthop.Equal`, which compares only the SRv6
encapsulation named by its receiver's own encapsulation type.  On routes whose next hops carry
no SRv6 encapsulation type the test is symmetric, and two routes related to a common third
are related; so a slice in which no two routes are related holds at most one route related to
any route at all.
-/

namespace Zebra

open Zebra.Netutil

/-- A next hop with no SRv6 encapsulation type. -/
def Nexthop.Plain (n : Nexthop) : Prop :=
  n.encapType ≠ lwtunnelEncapSeg6 ∧ n.encapType ≠ lwtunnelEncapSeg6Local

/-- A route whose next hops carry no SRv6 encapsulation type if it is a connected route, the
only kind whose next hops `Rib.Equal` compares. -/
def Rib.PlainEncap (r : Rib) : Prop :=
  r.type = ribConnected → ∀ n ∈ r.nexthops, n.Plain

/-- What `Nexthop.Equal` compares for a receiver without encapsulation: the interface index
and the addresses. -/
def Nexthop.sameAddr (n nn : Nexthop) : Bool :=
  n.index == nn.index &&
    match n.ip, nn.ip with
    | none, none => true
    | some a, some b => ipEqual a b
    | _, _ => false

lemma Nexthop.equal_of_plain {n : Nexthop} (hn : n.Plain) (nn : Nexthop) :
    n.equal nn = n.sameAddr nn := by
  obtain ⟨ip, index, encapType, seg6, seg6Local⟩ := n
  obtain ⟨h₅, h₇⟩ := hn
  unfold Nexthop.equal Nexthop.sameAddr
  by_cases hi : index = nn.index
  · cases ip <;> cases nn.ip <;> simp_all
  · simp [hi]

lemma Nexthop.sameAddr_comm (n nn : Nexthop) : n.sameAddr nn = nn.sameAddr n := by
  unfold Nexthop.sameAddr
  rw [Bool.beq_comm]
  cases n.ip <;> cases nn.ip <;> simp [ipEqual_comm]

lemma Nexthop.sameAddr_trans {n m k : Nexthop} (h₁ : n.sameAddr m = true)
    (h₂ : m.sameAddr k = true) : n.sameAddr k = true := by
  unfold Nexthop.sameAddr at *
  simp only [Bool.and_eq_true, beq_iff_eq] at *
  refine ⟨h₁.1.trans h₂.1, ?_⟩
  obtain ⟨-, h₁⟩ := h₁
  obtain ⟨-, h₂⟩ := h₂
  cases hn : n.ip <;> cases hm : m.ip <;> cases hk : k.ip <;> simp_all
  exact ipEqual_trans h₁ h₂

/-- A next hop `10.0.0.1` on interface 1 with an SRv6 encapsulation of one segment. -/
def seg6Nexthop : Nexthop :=
  ⟨some [10, 0, 0, 1], 1, lwtunnelEncapSeg6,
    ⟨0, [[0xfc, 0, 0, 0, 0, 0, 0, 0, 0, 0, 0, 0, 0, 0, 0, 1]]⟩, EncapSEG6Local.zero⟩

/-- `Nexthop.Equal` reads no encapsulation type but its receiver's: `seg6Nexthop` is not `Equal`
to the same address without encapsulation, which is `Equal` to it; and without an address the
encapsulations are not compared at all. -/
theorem nexthop_equal_ignores_other_encapsulation :
    seg6Nexthop.equal { newNexthopAddr [10, 0, 0, 1] with index := 1 } = false ∧
      ({ newNexthopAddr [10, 0, 0, 1] with index := 1 } : Nexthop).equal seg6Nexthop = true ∧
      ({ seg6Nexthop with ip := none } : Nexthop).equal (newNexthopIf 1) = true := by
  decide

namespace Rib

lemma equal_of_type_ne {a b : Rib} (hty : a.type ≠ b.type) : a.equal b = false := by
  unfold Rib.equal
  simp [hty]

lemma type_eq_of_equal {a b : Rib} (h : a.equal b = true) : a.type = b.type := by
  by_contra hne
  rw [equal_of_type_ne hne] at h
  cases h

/-- `Rib.Equal` of two connected routes with one next hop each: the same source, and
`Nexthop.Equal` between the next hops. -/
lemma equal_of_connected {a b : Rib} {x y : Nexthop} (hty : a.type = b.type)
    (hc : a.type = ribConnected) (hx : a.nexthops = [x]) (hy : b.nexthops = [y]) :
    a.equal b = (a.src == b.src && x.equal y) := by
  unfold Rib.equal
  rw [if_neg (by simp [hty]), if_pos hc, hx, hy]

/-- Connected routes are related only when each has one next hop. -/
lemma single_of_equal {a b : Rib} (hc : a.type = ribConnected) (h : a.equal b = true) :
    ∃ x y, a.nexthops = [x] ∧ b.nexthops = [y] := by
  unfold Rib.equal at h
  rw [if_neg (by simp [type_eq_of_equal h]), if_pos hc] at h
  split at h
  · exact ⟨_, _, ‹_›, ‹_›⟩
  · cases h

/-- Outside connected routes `Rib.Equal` reads no next hop. -/
lemma equal_of_not_connected {a b : Rib} (hty : a.type = b.type) (hc : a.type ≠ ribConnected) :
    a.equal b = if a.type = ribStatic then true
      else if a.type = ribBgp then a.src == b.src && a.pathId == b.pathId else true := by
  unfold Rib.equal
  rw [if_neg (by simp [hty]), if_neg hc]

/-- `Rib.Equal` is symmetric on routes without SRv6 encapsulation. -/
theorem equal_comm {a b : Rib} (ha : a.PlainEncap) (hb : b.PlainEncap) :
    a.equal b = b.equal a := by
  by_cases hty : a.type = b.type
  · by_cases hc : a.type = ribConnected
    · have hc' : b.type = ribConnected := hty ▸ hc
      by_cases hs : ∃ x y, a.nexthops = [x] ∧ b.nexthops = [y]
      · obtain ⟨x, y, hx, hy⟩ := hs
        -- neither next hop carries an encapsulation, so `Nexthop.Equal` compares addresses
        have hpx : x.Plain := ha hc x (by simp [hx])
        have hpy : y.Plain := hb hc' y (by simp [hy])
        rw [equal_of_connected hty hc hx hy, equal_of_connected hty.symm hc' hy hx,
          Nexthop.equal_of_plain hpx, Nexthop.equal_of_plain hpy, Nexthop.sameAddr_comm,
          Bool.beq_comm]
      · have hab : a.equal b = false := by
          rw [Bool.eq_false_iff]
          exact fun h => hs (single_of_equal hc h)
        have hba : b.equal a = false := by
          rw [Bool.eq_false_iff]
          intro h
          obtain ⟨y, x, hy, hx⟩ := single_of_equal hc' h
          exact hs ⟨x, y, hx, hy⟩
        rw [hab, hba]
    · rw [equal_of_not_connected hty hc, equal_of_not_connected hty.symm (hty ▸ hc), ← hty]
      split_ifs <;> simp [Bool.beq_comm]
  · rw [equal_of_type_ne hty, equal_of_type_ne (Ne.symm hty)]

/-- Two routes without SRv6 encapsulation that `Rib.Equal` relates to one route are related. -/
theorem equal_of_equal_of_equal {a b c : Rib} (ha : a.PlainEncap) (hb : b.PlainEncap)
    (h₁ : a.equal c = true) (h₂ : b.equal c = true) : a.equal b = true := by
  have hac := type_eq_of_equal h₁
  have hbc := type_eq_of_equal h₂
  have hty : a.type = b.type := hac.trans hbc.symm
  by_cases hc : a.type = ribConnected
  · have hc' : b.type = ribConnected := hty ▸ hc
    obtain ⟨x, z, hx, hz⟩ := single_of_equal hc h₁
    obtain ⟨y, z', hy, hz'⟩ := single_of_equal hc' h₂
    obtain rfl : z' = z := by simpa [hz] using hz'.symm
    rw [equal_of_connected hac hc hx hz] at h₁
    rw [equal_of_connected hbc hc' hy hz] at h₂
    rw [equal_of_connected hty hc hx hy]
    simp only [Bool.and_eq_true, beq_iff_eq] at h₁ h₂ ⊢
    have hpx : x.Plain := ha hc x (by simp [hx])
    have hpy : y.Plain := hb hc' y (by simp [hy])
    rw [Nexthop.equal_of_plain hpx] at h₁ ⊢
    rw [Nexthop.equal_of_plain hpy, Nexthop.sameAddr_comm] at h₂
    exact ⟨h₁.1.trans h₂.1.symm, Nexthop.sameAddr_trans h₁.2 h₂.2⟩
  · rw [equal_of_not_connected hac hc] at h₁
    rw [equal_of_not_connected hbc (hty ▸ hc)] at h₂
    rw [equal_of_not_connected hty hc]
    rw [← hty] at h₂
    split_ifs at h₁ h₂ ⊢ <;> simp_all

end Rib

/-- A slice without SRv6 encapsulation in which no route is related to a later one holds at most
one route related to any route: `RibDelete` finds at most one route to remove. -/
theorem length_filter_equal_le_one {R : List Rib} (hplain : ∀ r ∈ R, r.PlainEncap)
    (hR : R.Pairwise fun a b => a.equal b = false) (ri : Rib) :
    (R.filter (·.equal ri)).length ≤ 1 := by
  have hF := hR.filter (·.equal ri)
  rcases hFe : R.filter (·.equal ri) with _ | ⟨a, _ | ⟨b, t⟩⟩
  · simp [hFe]
  · simp [hFe]
  · -- two related routes would be related to each other
    exfalso
    have ha : a ∈ R.filter (·.equal ri) := by simp [hFe]
    have hb : b ∈ R.filter (·.equal ri) := by simp [hFe]
    obtain ⟨haR, ha'⟩ := List.mem_filter.1 ha
    obtain ⟨hbR, hb'⟩ := List.mem_filter.1 hb
    rw [hFe] at hF
    have hab := List.rel_of_pairwise_cons hF (List.mem_cons_self)
    rw [Rib.equal_of_equal_of_equal (hplain a haR) (hplain b hbR) ha' hb'] at hab
    cases hab

end Zebra
