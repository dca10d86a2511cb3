import Zebra.Netutil.PtreeMap
import Zebra.Lib.ListFamily

/-!
# The ARP tables and the hooks that mirror them

`Vrf.ArpAdd` stores a neighbour in the tree of its family, at its address taken at the tree's
full width; `Vrf.ArpDelete` takes the node there out.  Each may call a hook, `ArpAddHook` and
`ArpDeleteHook`, which a consumer replays to keep its own map from an address to the link and
hardware address of its neighbour (`arpMirror`).

Between calls the tree of a family is a finite map from place to neighbour (`ArpTree`), and an
add replaces what it holds at the address.  The add hook is called only when no node stood at
the address, and the delete hook only when one did: the mirror is replayed exactly when an
address gains or loses its entry, and an add that updates a neighbour never reaches it.

No run from the empty tables panics, with the hooks set or not (`run_trees`).  Over every run
with both hooks set (`run_views`), at each address the tables are a register that every add
replaces (`Zebra.Lib.overwrite`) and the mirror one that keeps its value until a delete
(`Zebra.Lib.keepFirst`).  So the two hold entries for the same addresses
(`run_mirror_isSome`), and the same entry where every add of the address carries one link and
hardware address (`run_mirror_eq_entry`).
-/

namespace Zebra

open Zebra.Netutil Zebra.Lib

/-- `Neigh`, with the fields the ARP calls and their hooks read. -/
structure Neigh where
  linkIndex : Int
  ip : List UInt8
  hardwareAddr : List UInt8
deriving DecidableEq, Repr

/-- The link and hardware address of a neighbour, what the hooks are given besides its
address. -/
def Neigh.linkAddr (n : Neigh) : Int × List UInt8 := (n.linkIndex, n.hardwareAddr)

/-- A call of `ArpAddHook` or `ArpDeleteHook`, with its arguments
`(neigh.LinkIndex, neigh.IP, neigh.HardwareAddr)`. -/
inductive ArpHookCall
  | add (linkIndex : Int) (ip hardwareAddr : List UInt8)
  | delete (linkIndex : Int) (ip hardwareAddr : List UInt8)
deriving DecidableEq, Repr

/-- Which of the variables `ArpAddHook` and `ArpDeleteHook` hold a function (are not `nil`). -/
structure ArpHooks where
  add : Bool
  delete : Bool

/-- Both hooks set. -/
def ArpHooks.set : ArpHooks := ⟨true, true⟩

/-- A call of a hook, made when the hook is set. -/
def callHook (set : Bool) (c : ArpHookCall) (calls : List ArpHookCall) : List ArpHookCall :=
  if set then calls ++ [c] else calls

/-- `ArpTable(neigh)`, which reads `neigh.IP` only: the family whose tree it returns, by the
length of the address; `nil` (here `none`) for any other length. -/
def arpTableAfi (ip : List UInt8) : Option Afi :=
  if ip.length = Afi.ip.ipLen then some .ip
  else if ip.length = Afi.ip6.ipLen then some .ip6
  else none

/-- The `arpTable` of a `Vrf`, one tree per family, and the calls made to the hooks so far, in
order (a ghost field: the hooks act outside the VRF). -/
structure ArpVrf where
  arpTable : Afi → Ptree Neigh
  hookCalls : List ArpHookCall

/-- A call of `Vrf.ArpAdd` or `Vrf.ArpDelete`. -/
inductive ArpCall
  | add (neigh : Neigh)
  | delete (neigh : Neigh)
deriving DecidableEq, Repr

namespace ArpVrf

/-- The ARP part of `NewVrf`: trees of width 32 and 128, no hook called. -/
def new : ArpVrf :=
  { arpTable := fun afi => Ptree.empty afi.maxKeyBits
    hookCalls := [] }

/-- `Vrf.ArpAdd`: at an address with a node the node takes the neighbour; otherwise the node is
acquired, `ArpAddHook` called when it is set, and the new node takes the neighbour.  `none` is
the panic of `n.Item = neigh` on the `nil` that `AcquireByMaxBits` returns past the width. -/
def arpAdd (hooks : ArpHooks) (v : ArpVrf) (neigh : Neigh) : Option ArpVrf :=
  match arpTableAfi neigh.ip with
  | none => some v
  | some afi =>
    let ptree := v.arpTable afi
    match ptree.lookupByMaxBits neigh.ip with
    | some _ =>
      some { v with
        arpTable := Function.update v.arpTable afi
          (ptree.setItem neigh.ip ptree.maxKeyBits (some neigh)) }
    | none => do
      let ptree' ← ptree.acquireByMaxBits neigh.ip
      some { arpTable := Function.update v.arpTable afi
               (ptree'.setItem neigh.ip ptree.maxKeyBits (some neigh))
             hookCalls := callHook hooks.add
               (.add neigh.linkIndex neigh.ip neigh.hardwareAddr) v.hookCalls }

/-- `Vrf.ArpDelete`: at an address with a node, `ArpDeleteHook` is called when it is set, with
the arguments of the call, and the node gives up its item and its reference. -/
def arpDelete (hooks : ArpHooks) (v : ArpVrf) (neigh : Neigh) : ArpVrf :=
  match arpTableAfi neigh.ip with
  | none => v
  | some afi =>
    let ptree := v.arpTable afi
    match ptree.lookupByMaxBits neigh.ip with
    | none => v
    | some _ =>
      { arpTable := Function.update v.arpTable afi
          ((ptree.setItem neigh.ip ptree.maxKeyBits none).release neigh.ip ptree.maxKeyBits)
        hookCalls := callHook hooks.delete
          (.delete neigh.linkIndex neigh.ip neigh.hardwareAddr) v.hookCalls }

/-- One call. -/
def call (hooks : ArpHooks) (v : ArpVrf) : ArpCall → Option ArpVrf
  | .add neigh => v.arpAdd hooks neigh
  | .delete neigh => some (v.arpDelete hooks neigh)

/-- A run of calls, stopped by a call that panics. -/
def run (hooks : ArpHooks) (v : ArpVrf) (cs : List ArpCall) : Option ArpVrf :=
  cs.foldlM (call hooks) v

/-- The map the tables hold: an address to the link and hardware address of the neighbour its
node holds, read as `ArpAdd` looks it up. -/
def entry (v : ArpVrf) (ip : List UInt8) : Option (Int × List UInt8) :=
  (arpTableAfi ip).bind fun afi =>
    (((v.arpTable afi).lookupByMaxBits ip).bind (·.item)).map Neigh.linkAddr

end ArpVrf

/-- One hook call replayed by a consumer that keeps a map of the neighbours: an add maps the
address to the link and hardware address it is given, a delete takes the address out. -/
def ArpHookCall.replay (m : List UInt8 → Option (Int × List UInt8)) :
    ArpHookCall → List UInt8 → Option (Int × List UInt8)
  | .add linkIndex ip hardwareAddr => Function.update m ip (some (linkIndex, hardwareAddr))
  | .delete _ ip _ => Function.update m ip none

/-- The map a consumer keeps by replaying the hook calls in order. -/
def arpMirror (calls : List ArpHookCall) : List UInt8 → Option (Int × List UInt8) :=
  calls.foldl ArpHookCall.replay fun _ => none

lemma arpMirror_callHook (set : Bool) (c : ArpHookCall) (calls : List ArpHookCall) :
    arpMirror (callHook set c calls) =
      if set then ArpHookCall.replay (arpMirror calls) c else arpMirror calls := by
  rw [callHook]
  split_ifs
  · simp [arpMirror, List.foldl_append]
  · rfl

namespace ArpCall

/-- The neighbour a call is given. -/
def neigh : ArpCall → Neigh
  | .add n | .delete n => n

/-- The address the call acts on, when `ArpTable` finds a tree for it. -/
def address (c : ArpCall) : Option (List UInt8) :=
  (arpTableAfi c.neigh.ip).map fun _ => c.neigh.ip

/-- What the call writes at its address: the link and hardware address of an add, nothing for
a delete. -/
def write : ArpCall → Option (Int × List UInt8)
  | .add n => some n.linkAddr
  | .delete _ => none

/-- What a call does at its address to the entries of the tables and of the mirror: the tables
take its write, the mirror keeps an entry it holds. -/
def atAddress (p : Option (Int × List UInt8) × Option (Int × List UInt8)) (c : ArpCall) :
    Option (Int × List UInt8) × Option (Int × List UInt8) :=
  (overwrite p.1 c.write, keepFirst p.2 c.write)

lemma foldl_atAddress (l : List ArpCall) (p : Option (Int × List UInt8) × Option (Int × List UInt8)) :
    l.foldl atAddress p = ((l.map write).foldl overwrite p.1, (l.map write).foldl keepFirst p.2) := by
  rw [List.foldl_map, List.foldl_map]
  exact foldl_prod_mk (fun e c => overwrite e c.write) (fun m c => keepFirst m c.write) l p.1 p.2

end ArpCall

/-! ### The trees between calls -/

/-- The place of an address in the tree of its family: the address at the full width. -/
def arpPlace (afi : Afi) (ip : List UInt8) : Prefix := ⟨ip, afi.maxKeyBits⟩

lemma arpTableAfi_eq_some_iff {ip : List UInt8} {afi : Afi} :
    arpTableAfi ip = some afi ↔ ip.length = afi.ipLen := by
  rw [arpTableAfi]
  cases afi <;> split_ifs with h₁ h₂ <;> simp_all [Afi.ipLen]

lemma arpPlace_masked {afi : Afi} {ip : List UInt8} (h : ip.length = afi.ipLen) :
    (arpPlace afi ip).Masked := by
  refine ⟨by simp [arpPlace], Prefix.mask_of_le ?_⟩
  cases afi <;> simp [arpPlace, h, Afi.ipLen, Afi.maxKeyBits]

/-- How the tree of a family stands between ARP calls: keyed by the addresses of the family at
full width, and every node holding one reference and a neighbour. -/
structure ArpTree (afi : Afi) (t : Ptree Neigh) : Prop where
  keyed : t.Keyed afi.ipLen
  width : t.maxKeyBits = afi.maxKeyBits
  single : ∀ q n, t.nodeAt q = some n → n.refcnt = 1 ∧ n.item.isSome

namespace ArpTree

variable {afi : Afi} {t t' : Ptree Neigh} {ip : List UInt8} {q : Prefix} {m : PtreeNode Neigh}

lemma empty (afi : Afi) : ArpTree afi (Ptree.empty afi.maxKeyBits) where
  keyed := ⟨by simp [Ptree.empty], by simp [Ptree.empty], by simp [Ptree.empty]⟩
  width := rfl
  single q n h := by simp [Ptree.empty, Ptree.nodeAt] at h

/-- `LookupByMaxBits` at an address of the family finds the node at its place. -/
lemma lookupByMaxBits_eq (h : ArpTree afi t) (hip : ip.length = afi.ipLen) :
    t.lookupByMaxBits ip = t.nodeAt (arpPlace afi ip) := by
  rw [Ptree.lookupByMaxBits, h.width]
  exact h.keyed.lookup_eq (arpPlace_masked hip) hip

lemma isSome_itemAt (h : ArpTree afi t) (q : Prefix) :
    (t.itemAt q).isSome = (t.nodeAt q).isSome := by
  cases hq : t.nodeAt q with
  | none => simp [Ptree.itemAt, hq]
  | some n => simpa [Ptree.itemAt, hq] using (h.single q n hq).2

/-- A tree keyed at the width of the family that agrees with an `ArpTree` away from one place,
and holds there no node or a node of one reference and a neighbour, is an `ArpTree`; its items
are the old ones, changed at that place. -/
lemma of_nodeAt (h : ArpTree afi t) (hk : t'.Keyed afi.ipLen)
    (hw : t'.maxKeyBits = afi.maxKeyBits) {o : Option (PtreeNode Neigh)}
    (hat : ∀ r, t'.nodeAt r = if r = q then o else t.nodeAt r)
    (ho : ∀ n ∈ o, n.refcnt = 1 ∧ n.item.isSome) :
    ArpTree afi t' ∧ ∀ r, t'.itemAt r = if r = q then o.bind (·.item) else t.itemAt r := by
  refine ⟨⟨hk, hw, fun r n hn => ?_⟩, fun r => ?_⟩
  · rw [hat] at hn
    split_ifs at hn
    · exact ho n hn
    · exact h.single r n hn
  · rw [Ptree.itemAt, hat]
    split_ifs <;> rfl

/-- `n.Item = o` for the node at the place of an address. -/
lemma nodeAt_setItem (hk : t.Keyed afi.ipLen) (hip : ip.length = afi.ipLen)
    (hm : t.nodeAt (arpPlace afi ip) = some m) (o : Option Neigh) (r : Prefix) :
    (t.setItem ip afi.maxKeyBits o).nodeAt r =
      if r = arpPlace afi ip then some { m with item := o } else t.nodeAt r := by
  refine (hk.nodeAt_setItem (arpPlace_masked hip) hip o r).trans ?_
  by_cases hr : r = arpPlace afi ip
  · rw [if_pos hr, if_pos hr, hr, hm]
    rfl
  · rw [if_neg hr, if_neg hr]
    exact Option.map_id_apply

/-- `ArpAdd` at an address with a node: the node takes the neighbour. -/
lemma setItem (h : ArpTree afi t) (hip : ip.length = afi.ipLen)
    (hm : t.nodeAt (arpPlace afi ip) = some m) (neigh : Neigh) :
    ArpTree afi (t.setItem ip afi.maxKeyBits (some neigh)) ∧ ∀ r,
      (t.setItem ip afi.maxKeyBits (some neigh)).itemAt r =
        if r = arpPlace afi ip then some neigh else t.itemAt r :=
  h.of_nodeAt (h.keyed.setItem _ _ _) h.width (nodeAt_setItem h.keyed hip hm _)
    (fun _ hn => by cases hn; exact ⟨(h.single _ m hm).1, rfl⟩)

/-- `ArpAdd` at an address without a node: the node acquired takes the neighbour. -/
lemma acquire_setItem (h : ArpTree afi t) (hip : ip.length = afi.ipLen)
    (hm : t.nodeAt (arpPlace afi ip) = none) (hacq : t.acquire ip afi.maxKeyBits = some t')
    (neigh : Neigh) :
    ArpTree afi (t'.setItem ip afi.maxKeyBits (some neigh)) ∧ ∀ r,
      (t'.setItem ip afi.maxKeyBits (some neigh)).itemAt r =
        if r = arpPlace afi ip then some neigh else t.itemAt r := by
  have hk' : t'.Keyed afi.ipLen := h.keyed.acquire (arpPlace_masked hip) hip hacq
  have hat' := h.keyed.nodeAt_acquire (arpPlace_masked hip) hip hacq
  rw [hm] at hat'
  -- the new node holds one reference and no item, until it takes the neighbour
  have hnew : t'.nodeAt (arpPlace afi ip) = some (Ptree.newNode (arpPlace afi ip)) := by
    rw [hat', if_pos rfl]
    rfl
  have hat : ∀ r, (t'.setItem ip afi.maxKeyBits (some neigh)).nodeAt r =
      if r = arpPlace afi ip then
        some { (Ptree.newNode (arpPlace afi ip) : PtreeNode Neigh) with item := some neigh }
      else t.nodeAt r := by
    intro r
    rw [nodeAt_setItem hk' hip hnew, hat' r]
    split_ifs <;> rfl
  have hw : (t'.setItem ip afi.maxKeyBits (some neigh)).maxKeyBits = afi.maxKeyBits := by
    rw [Ptree.maxKeyBits_setItem, Ptree.maxKeyBits_acquire hacq, h.width]
  exact h.of_nodeAt (hk'.setItem _ _ _) hw hat (fun _ hn => by cases hn; exact ⟨rfl, rfl⟩)

/-- `ArpDelete` at an address with a node: the node gives up its neighbour and its one
reference, and leaves the tree. -/
lemma release_setItem (h : ArpTree afi t) (hip : ip.length = afi.ipLen)
    (hm : t.nodeAt (arpPlace afi ip) = some m) :
    ArpTree afi ((t.setItem ip afi.maxKeyBits none).release ip afi.maxKeyBits) ∧ ∀ r,
      ((t.setItem ip afi.maxKeyBits none).release ip afi.maxKeyBits).itemAt r =
        if r = arpPlace afi ip then none else t.itemAt r := by
  have hk₁ : (t.setItem ip afi.maxKeyBits none).Keyed afi.ipLen := h.keyed.setItem _ _ _
  have hat₁ := nodeAt_setItem h.keyed hip hm none
  have hat : ∀ r, ((t.setItem ip afi.maxKeyBits none).release ip afi.maxKeyBits).nodeAt r =
      if r = arpPlace afi ip then none else t.nodeAt r := by
    intro r
    refine (hk₁.nodeAt_release (arpPlace_masked hip) hip r).trans ?_
    by_cases hr : r = arpPlace afi ip
    · -- the one reference is the last
      rw [if_pos hr, if_pos hr, hat₁, if_pos rfl, Option.bind_some]
      simp [PtreeNode.delReference, (h.single _ m hm).1]
    · rw [if_neg hr, if_neg hr, hat₁, if_neg hr]
  exact h.of_nodeAt (hk₁.release _ _) h.width hat (fun _ hn => by cases hn)

end ArpTree

/-! ### One call -/

namespace ArpVrf

variable {v : ArpVrf} {neigh : Neigh} {afi : Afi} {ip ip₀ : List UInt8}

/-- Replacing the tree of one family by an `ArpTree` keeps every tree one. -/
lemma trees_update (hv : ∀ afi, ArpTree afi (v.arpTable afi)) {t' : Ptree Neigh}
    (ht' : ArpTree afi t') (afi' : Afi) : ArpTree afi' (Function.update v.arpTable afi t' afi') := by
  by_cases h : afi' = afi
  · subst h
    rwa [Function.update_self]
  · rw [Function.update_of_ne h]
    exact hv afi'

/-- `ArpAdd` of a neighbour with a family: the tree of the family takes the neighbour at its
place, and `ArpAddHook` is called, when set, exactly when no node stood there. -/
lemma arpAdd_spec (hooks : ArpHooks) (ht : ArpTree afi (v.arpTable afi))
    (ha : arpTableAfi neigh.ip = some afi) :
    ∃ t', v.arpAdd hooks neigh = some
        { arpTable := Function.update v.arpTable afi t'
          hookCalls := if ((v.arpTable afi).nodeAt (arpPlace afi neigh.ip)).isSome then v.hookCalls
            else callHook hooks.add (.add neigh.linkIndex neigh.ip neigh.hardwareAddr) v.hookCalls } ∧
      ArpTree afi t' ∧ ∀ r, t'.itemAt r =
        if r = arpPlace afi neigh.ip then some neigh else (v.arpTable afi).itemAt r := by
  have hip := arpTableAfi_eq_some_iff.1 ha
  simp only [arpAdd, ha, ht.lookupByMaxBits_eq hip, ht.width]
  cases hm : (v.arpTable afi).nodeAt (arpPlace afi neigh.ip) with
  | some m => exact ⟨_, rfl, ht.setItem hip hm neigh⟩
  | none =>
    obtain ⟨t₁, hacq⟩ := Option.isSome_iff_exists.1 ((v.arpTable afi).acquireByMaxBits_isSome neigh.ip)
    have hacq' : (v.arpTable afi).acquire neigh.ip afi.maxKeyBits = some t₁ := by
      rw [← ht.width]
      exact hacq
    rw [hacq]
    exact ⟨_, rfl, ht.acquire_setItem hip hm hacq' neigh⟩

/-- `ArpDelete` of a neighbour with a family: the node at its place leaves the tree, and
`ArpDeleteHook` is called, when set, exactly when a node stood there. -/
lemma arpDelete_spec (hooks : ArpHooks) (ht : ArpTree afi (v.arpTable afi))
    (ha : arpTableAfi neigh.ip = some afi) :
    ∃ t', v.arpDelete hooks neigh =
        { arpTable := Function.update v.arpTable afi t'
          hookCalls := if ((v.arpTable afi).nodeAt (arpPlace afi neigh.ip)).isSome
            then callHook hooks.delete (.delete neigh.linkIndex neigh.ip neigh.hardwareAddr)
              v.hookCalls
            else v.hookCalls } ∧
      ArpTree afi t' ∧ ∀ r, t'.itemAt r =
        if r = arpPlace afi neigh.ip then none else (v.arpTable afi).itemAt r := by
  have hip := arpTableAfi_eq_some_iff.1 ha
  simp only [arpDelete, ha, ht.lookupByMaxBits_eq hip, ht.width]
  cases hm : (v.arpTable afi).nodeAt (arpPlace afi neigh.ip) with
  | some m => exact ⟨_, rfl, ht.release_setItem hip hm⟩
  | none =>
    -- no node: the tree stays, and holds no item at the place
    refine ⟨v.arpTable afi, by rw [Function.update_eq_self]; rfl, ht, fun r => ?_⟩
    split_ifs with hr
    · rw [hr, Ptree.itemAt, hm]
      rfl
    · rfl

/-- Between calls the tables map an address to the neighbour at its place in the tree of its
family. -/
lemma entry_eq (hv : ∀ afi, ArpTree afi (v.arpTable afi)) (ip : List UInt8) :
    v.entry ip = (arpTableAfi ip).bind fun afi =>
      ((v.arpTable afi).itemAt (arpPlace afi ip)).map Neigh.linkAddr := by
  rw [entry]
  cases ha : arpTableAfi ip with
  | none => rfl
  | some afi =>
    rw [Option.bind_some, Option.bind_some, (hv afi).lookupByMaxBits_eq (arpTableAfi_eq_some_iff.1 ha)]
    rfl

lemma isSome_entry (hv : ∀ afi, ArpTree afi (v.arpTable afi)) (ha : arpTableAfi ip = some afi) :
    (v.entry ip).isSome = ((v.arpTable afi).nodeAt (arpPlace afi ip)).isSome := by
  rw [entry_eq hv, ha, Option.bind_some, Option.isSome_map, (hv afi).isSome_itemAt]

/-- The tables after the tree of `afi` is replaced by one whose items differ at the place of
`ip₀` only, holding `o` there. -/
lemma entry_update (hv : ∀ afi, ArpTree afi (v.arpTable afi)) (ha : arpTableAfi ip₀ = some afi)
    {t' : Ptree Neigh} (ht' : ArpTree afi t') {o : Option Neigh}
    (hitem : ∀ r, t'.itemAt r = if r = arpPlace afi ip₀ then o else (v.arpTable afi).itemAt r)
    (calls : List ArpHookCall) (ip : List UInt8) :
    entry ⟨Function.update v.arpTable afi t', calls⟩ ip =
      if ip = ip₀ then o.map Neigh.linkAddr else v.entry ip := by
  rw [entry_eq (trees_update hv ht'), entry_eq hv]
  by_cases hip : ip = ip₀
  · subst hip
    simp [ha, hitem]
  · rw [if_neg hip]
    cases hb : arpTableAfi ip with
    | none => rfl
    | some afi' =>
      rw [Option.bind_some, Option.bind_some]
      dsimp only
      by_cases hab : afi' = afi
      · subst hab
        rw [Function.update_self, hitem, if_neg (fun h => hip (congrArg Prefix.ip h))]
      · rw [Function.update_of_ne hab]

/-! ### The mirror beside the tables -/

/-- The entries of an address in the tables and in the mirror. -/
def views (v : ArpVrf) (ip : List UInt8) : Option (Int × List UInt8) × Option (Int × List UInt8) :=
  (v.entry ip, arpMirror v.hookCalls ip)

/-- How the state stands between calls when both hooks are set: every tree an `ArpTree` of its
family, and the mirror holding an entry for exactly the addresses the tables hold. -/
structure ArpInv (v : ArpVrf) : Prop where
  tree : ∀ afi, ArpTree afi (v.arpTable afi)
  mirror_isSome : ∀ ip, (arpMirror v.hookCalls ip).isSome = (v.entry ip).isSome

lemma entry_new (ip : List UInt8) : new.entry ip = none := by
  rw [entry_eq ArpTree.empty]
  cases arpTableAfi ip <;> rfl

lemma views_new (ip : List UInt8) : new.views ip = (none, none) := by
  rw [views, entry_new]
  rfl

lemma arpInv_new : ArpInv new where
  tree := ArpTree.empty
  mirror_isSome ip := by rw [entry_new]; rfl

/-- A call at the address `ip₀` of the family `afi` that replaces the tree by one whose items
differ at the place of `ip₀` only, holding `o` there, and that replays the write to the mirror
exactly when the address gains or loses its entry: the tables take the write, and the mirror
keeps an entry it holds. -/
lemma ArpInv.views_step (hv : ArpInv v) (ha : arpTableAfi ip₀ = some afi) {t' : Ptree Neigh}
    (ht' : ArpTree afi t') {o : Option Neigh}
    (hitem : ∀ r, t'.itemAt r = if r = arpPlace afi ip₀ then o else (v.arpTable afi).itemAt r)
    {calls : List ArpHookCall}
    (hcalls : arpMirror calls = if (v.entry ip₀).isSome = (o.map Neigh.linkAddr).isSome
      then arpMirror v.hookCalls
      else Function.update (arpMirror v.hookCalls) ip₀ (o.map Neigh.linkAddr))
    (ip : List UInt8) :
    views ⟨Function.update v.arpTable afi t', calls⟩ ip =
      if ip = ip₀ then (overwrite (v.entry ip) (o.map Neigh.linkAddr),
        keepFirst (arpMirror v.hookCalls ip) (o.map Neigh.linkAddr))
      else v.views ip := by
  simp only [views]
  rw [entry_update hv.tree ha ht' hitem, hcalls, ← hv.mirror_isSome ip₀]
  by_cases hip : ip = ip₀
  · subst hip
    -- the mirror is replayed exactly when the write changes whether the address has an entry
    rw [if_pos rfl, if_pos rfl, keepFirst_eq_ite]
    split_ifs <;> simp [overwrite]
  · simp only [if_neg hip]
    split_ifs <;> simp [Function.update_of_ne hip]

lemma address_eq_some (ha : arpTableAfi neigh.ip = some afi) (c : ArpCall) (hc : c.neigh = neigh)
    (ip : List UInt8) : c.address = some ip ↔ ip = neigh.ip := by
  simp [ArpCall.address, hc, ha, eq_comm]

/-- A call whose address has no family changes nothing. -/
lemma call_of_arpTableAfi_none (hooks : ArpHooks) {c : ArpCall}
    (ha : arpTableAfi c.neigh.ip = none) : v.call hooks c = some v := by
  cases c with
  | add neigh => simp [call, arpAdd, show arpTableAfi neigh.ip = none from ha]
  | delete neigh => simp [call, arpDelete, show arpTableAfi neigh.ip = none from ha]

/-- One call, with the hooks set or not, from tables that are all `ArpTree`s: it succeeds and
keeps them so. -/
lemma call_trees (hooks : ArpHooks) (hv : ∀ afi, ArpTree afi (v.arpTable afi)) (c : ArpCall) :
    ∃ v', v.call hooks c = some v' ∧ ∀ afi, ArpTree afi (v'.arpTable afi) := by
  cases ha : arpTableAfi c.neigh.ip with
  | none => exact ⟨v, call_of_arpTableAfi_none hooks ha, hv⟩
  | some afi =>
    cases c with
    | add neigh =>
      obtain ⟨t', heq, ht', -⟩ := arpAdd_spec hooks (hv afi) ha
      exact ⟨_, heq, trees_update hv ht'⟩
    | delete neigh =>
      obtain ⟨t', heq, ht', -⟩ := arpDelete_spec hooks (hv afi) ha
      exact ⟨_, congrArg some heq, trees_update hv ht'⟩

/-- `ArpAdd` of a neighbour with a family, from a state satisfying `ArpInv`, with both hooks
set. -/
lemma ArpInv.call_add (hv : ArpInv v) (ha : arpTableAfi neigh.ip = some afi) :
    ∃ v', v.call ArpHooks.set (.add neigh) = some v' ∧ (∀ afi, ArpTree afi (v'.arpTable afi)) ∧
      ∀ ip, v'.views ip = if (ArpCall.add neigh).address = some ip
        then ArpCall.atAddress (v.views ip) (.add neigh) else v.views ip := by
  obtain ⟨t', heq, ht', hitem⟩ := arpAdd_spec ArpHooks.set (hv.tree afi) ha
  refine ⟨_, heq, trees_update hv.tree ht', fun ip => ?_⟩
  rw [hv.views_step ha ht' hitem ?_ ip]
  · simp only [address_eq_some ha (.add neigh) rfl]
    rfl
  · -- the add hook is called exactly when the address had no entry
    rw [isSome_entry hv.tree ha]
    cases (v.arpTable afi |>.nodeAt (arpPlace afi neigh.ip)).isSome
    · simp [ArpHooks.set, arpMirror_callHook, ArpHookCall.replay, Neigh.linkAddr]
    · simp

/-- `ArpDelete` of a neighbour with a family, from a state satisfying `ArpInv`, with both
hooks set. -/
lemma ArpInv.call_delete (hv : ArpInv v) (ha : arpTableAfi neigh.ip = some afi) :
    ∃ v', v.call ArpHooks.set (.delete neigh) = some v' ∧
      (∀ afi, ArpTree afi (v'.arpTable afi)) ∧
      ∀ ip, v'.views ip = if (ArpCall.delete neigh).address = some ip
        then ArpCall.atAddress (v.views ip) (.delete neigh) else v.views ip := by
  obtain ⟨t', heq, ht', hitem⟩ := arpDelete_spec ArpHooks.set (hv.tree afi) ha
  refine ⟨_, by rw [call, heq], trees_update hv.tree ht', fun ip => ?_⟩
  rw [hv.views_step ha ht' hitem ?_ ip]
  · simp only [address_eq_some ha (.delete neigh) rfl]
    rfl
  · -- the delete hook is called exactly when the address had an entry
    rw [isSome_entry hv.tree ha]
    cases (v.arpTable afi |>.nodeAt (arpPlace afi neigh.ip)).isSome
    · simp
    · simp [ArpHooks.set, arpMirror_callHook, ArpHookCall.replay]

/-- A state whose views change at the address of a call only, as `atAddress` says, keeps the
mirror holding entries for the addresses the tables hold. -/
lemma ArpInv.of_views (hv : ArpInv v) {v' : ArpVrf} {c : ArpCall}
    (htree : ∀ afi, ArpTree afi (v'.arpTable afi))
    (hviews : ∀ ip, v'.views ip = if c.address = some ip then ArpCall.atAddress (v.views ip) c
      else v.views ip) :
    ArpInv v' := by
  refine ⟨htree, fun ip => ?_⟩
  have h := hviews ip
  simp only [views, ArpCall.atAddress] at h
  split_ifs at h
  · -- both take the call's write, so both hold an entry exactly when it writes one
    obtain ⟨he, hm⟩ := Prod.mk.inj h
    rw [he, hm, isSome_keepFirst]
    rfl
  · obtain ⟨he, hm⟩ := Prod.mk.inj h
    rw [he, hm]
    exact hv.mirror_isSome ip

/-- One call from a state satisfying `ArpInv`, with both hooks set: it succeeds, keeps
`ArpInv`, and changes the entries at its own address only, the tables taking its write and the
mirror keeping an entry it holds. -/
theorem ArpInv.call (hv : ArpInv v) (c : ArpCall) :
    ∃ v', v.call ArpHooks.set c = some v' ∧ ArpInv v' ∧
      ∀ ip, v'.views ip = if c.address = some ip then ArpCall.atAddress (v.views ip) c
        else v.views ip := by
  obtain ⟨v', hcall, htree, hviews⟩ : ∃ v', v.call ArpHooks.set c = some v' ∧
      (∀ afi, ArpTree afi (v'.arpTable afi)) ∧
      ∀ ip, v'.views ip = if c.address = some ip then ArpCall.atAddress (v.views ip) c
        else v.views ip := by
    cases ha : arpTableAfi c.neigh.ip with
    | none =>
      -- no tree for the address: nothing changes, and the call has no address
      refine ⟨v, call_of_arpTableAfi_none _ ha, hv.tree, fun ip => ?_⟩
      rw [show c.address = none by simp [ArpCall.address, ha]]
      rfl
    | some afi =>
      cases c with
      | add neigh => exact hv.call_add ha
      | delete neigh => exact hv.call_delete ha
  exact ⟨v', hcall, hv.of_views htree hviews, hviews⟩

/-! ### Runs -/

/-- With the hooks set or not, no run of calls from the empty tables panics: `n.Item = neigh`
never meets a `nil` node, and the tables stay `ArpTree`s. -/
theorem run_trees (hooks : ArpHooks) (cs : List ArpCall) :
    ∃ v', new.run hooks cs = some v' ∧ ∀ afi, ArpTree afi (v'.arpTable afi) :=
  foldlM_eq_some_of_step (fun _ c hv => call_trees hooks hv c) cs new ArpTree.empty

/-- Every run of calls from the empty tables with both hooks set succeeds, and at every address
the entries of the tables and of the mirror are what the calls at that address make of the two
registers. -/
theorem run_views (cs : List ArpCall) :
    ∃ v', new.run ArpHooks.set cs = some v' ∧ ArpInv v' ∧
      ∀ ip, v'.views ip = (cs.filter (·.address = some ip)).foldl ArpCall.atAddress (none, none) := by
  obtain ⟨v', hrun, hinv, hviews⟩ := foldlM_get_eq_foldl_filter views ArpCall.address
    ArpCall.atAddress (fun _ c hv => hv.call c) cs new arpInv_new
  exact ⟨v', hrun, hinv, fun ip => by rw [hviews, views_new]⟩

-- The update calls no hook, and the delete hook gets the link and hardware address of the call.
example : (new.run ArpHooks.set [.add ⟨1, [10, 0, 0, 1], [2, 0, 0, 0, 0, 1]⟩,
    .add ⟨2, [10, 0, 0, 1], [2, 0, 0, 0, 0, 2]⟩, .delete ⟨3, [10, 0, 0, 1], []⟩]).map
      (·.hookCalls) =
    some [.add 1 [10, 0, 0, 1] [2, 0, 0, 0, 0, 1], .delete 3 [10, 0, 0, 1] []] := by
  decide

/-- Over every run from the empty tables with both hooks set, the tables map an address to the
link and hardware address of the last add of it, unless a delete came after, while the mirror
the hooks feed keeps those of the add that made the entry. -/
theorem run_entry_mirror (cs : List ArpCall) :
    ∃ v', new.run ArpHooks.set cs = some v' ∧ ∀ ip,
      v'.entry ip = ((cs.filter (·.address = some ip)).map ArpCall.write).foldl overwrite none ∧
      arpMirror v'.hookCalls ip =
        ((cs.filter (·.address = some ip)).map ArpCall.write).foldl keepFirst none := by
  obtain ⟨v', hrun, -, hviews⟩ := run_views cs
  refine ⟨v', hrun, fun ip => ?_⟩
  have h := hviews ip
  rw [ArpCall.foldl_atAddress] at h
  exact Prod.mk.inj h

/-- Two adds of one address with different links and hardware addresses: the tables hold the
second, the mirror still the first. -/
theorem run_mirror_stale_after_update :
    ∃ v', new.run ArpHooks.set
        [.add ⟨1, [10, 0, 0, 1], [2, 0, 0, 0, 0, 1]⟩, .add ⟨2, [10, 0, 0, 1], [2, 0, 0, 0, 0, 2]⟩] =
        some v' ∧
      v'.entry [10, 0, 0, 1] = some (2, [2, 0, 0, 0, 0, 2]) ∧
      arpMirror v'.hookCalls [10, 0, 0, 1] = some (1, [2, 0, 0, 0, 0, 1]) := by
  obtain ⟨v', hrun, hv⟩ := run_entry_mirror
    [.add ⟨1, [10, 0, 0, 1], [2, 0, 0, 0, 0, 1]⟩, .add ⟨2, [10, 0, 0, 1], [2, 0, 0, 0, 0, 2]⟩]
  obtain ⟨he, hm⟩ := hv [10, 0, 0, 1]
  exact ⟨v', hrun, he.trans (by decide), hm.trans (by decide)⟩

/-- Over every run from the empty tables with both hooks set, the mirror holds an entry for
exactly the addresses the tables hold. -/
theorem run_mirror_isSome (cs : List ArpCall) :
    ∃ v', new.run ArpHooks.set cs = some v' ∧
      ∀ ip, (arpMirror v'.hookCalls ip).isSome = (v'.entry ip).isSome := by
  obtain ⟨v', hrun, hinv, -⟩ := run_views cs
  exact ⟨v', hrun, hinv.mirror_isSome⟩

/-- Where every add of an address in a run carries one link and hardware address, the mirror
holds the entry of the tables there. -/
theorem run_mirror_eq_entry {cs : List ArpCall} {ip : List UInt8} {a : Int × List UInt8}
    (h : ∀ neigh, ArpCall.add neigh ∈ cs → neigh.ip = ip → neigh.linkAddr = a) :
    ∃ v', new.run ArpHooks.set cs = some v' ∧ arpMirror v'.hookCalls ip = v'.entry ip := by
  obtain ⟨v', hrun, -, hviews⟩ := run_views cs
  refine ⟨v', hrun, ?_⟩
  have hv := hviews ip
  rw [ArpCall.foldl_atAddress] at hv
  obtain ⟨he, hm⟩ := Prod.mk.inj hv
  rw [he, hm]
  refine foldl_keepFirst_eq_foldl_overwrite (a := a) _ (fun w hw x hx => ?_) (fun _ hx => by cases hx)
  -- a write at the address is the link and hardware address of an add of it
  obtain ⟨c, hc, rfl⟩ := List.mem_map.1 hw
  obtain ⟨hcs, haddr⟩ := List.mem_filter.1 hc
  cases c with
  | add neigh =>
    cases hx
    obtain ⟨_, -, hip⟩ := Option.map_eq_some_iff.1 (of_decide_eq_true haddr)
    exact h neigh hcs hip
  | delete neigh => cases hx

end ArpVrf

end Zebra
