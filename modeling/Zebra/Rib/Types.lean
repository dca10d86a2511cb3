import Zebra.Netutil.Prefix
import Mathlib.Data.Nat.Bitwise

/-!
# Routes, next hops and their flags

The data of `rib.go` and `nexthop.go`: the route types and their default distances, the
flag word of a route, next hops with their encapsulations, and the two equality tests the
RIB decides replacement with, `Nexthop.Equal` and `Rib.Equal`.

A `*Rib` is a pointer: the RIB compares ribs with `==` and changes their flags in place.
`Rib.ptr` is that identity.  `RibAdd` gives every rib it builds a fresh one.
-/

namespace Zebra

open Zebra.Netutil

/-! ### Route types and distances -/

/-- `RIB_UNKNOWN`. -/
def ribUnknown : UInt8 := 0
/-- `RIB_KERNEL`. -/
def ribKernel : UInt8 := 1
/-- `RIB_CONNECTED`. -/
def ribConnected : UInt8 := 2
/-- `RIB_STATIC`. -/
def ribStatic : UInt8 := 3
/-- `RIB_RIP`. -/
def ribRip : UInt8 := 4
/-- `RIB_OSPF`. -/
def ribOspf : UInt8 := 5
/-- `RIB_ISIS`. -/
def ribIsis : UInt8 := 6
/-- `RIB_BGP`. -/
def ribBgp : UInt8 := 7
/-- `RIB_MAX`, the length of the per-type watcher arrays. -/
def ribMax : Nat := 8

/-- `RIB_SUB_BGP_EBGP`. -/
def ribSubBgpEbgp : UInt8 := 6

/-- `distanceMap[typ]`, zero for a type the map lacks. -/
def distanceMap (typ : UInt8) : UInt8 :=
  if typ = ribStatic then 1
  else if typ = ribRip then 120
  else if typ = ribOspf then 110
  else if typ = ribIsis then 115
  else if typ = ribBgp then 200
  else 0

/-- `DistanceCalc`: the type's default distance, `DISTANCE_EBGP` for an eBGP route. -/
def distanceCalc (typ subType : UInt8) : UInt8 :=
  if typ = ribBgp ∧ subType = ribSubBgpEbgp then 20 else distanceMap typ

/-! ### The flag word -/

/-- `RibFlag`, a `uint` of flag bits. -/
abbrev RibFlag := Nat

/-- `RIB_FLAG_SELECTED`. -/
def ribFlagSelected : RibFlag := 1 <<< 0
/-- `RIB_FLAG_FIB`. -/
def ribFlagFib : RibFlag := 1 <<< 1
/-- `RIB_FLAG_DISTANCE`. -/
def ribFlagDistance : RibFlag := 1 <<< 2
/-- `RIB_FLAG_RESOLVED`. -/
def ribFlagResolved : RibFlag := 1 <<< 4

/-- `flags |= flag`. -/
def setFlag (flags flag : RibFlag) : RibFlag := flags ||| flag

/-- `flags &^= flag`: the bits of `flags` outside `flag`. -/
def unsetFlag (flags flag : RibFlag) : RibFlag := flags ^^^ (flags &&& flag)

/-- `CheckFlag`: every bit of `flag` is set. -/
def checkFlag (flags flag : RibFlag) : Bool := (flags &&& flag) == flag

@[simp] lemma testBit_setFlag (x f i : Nat) : (setFlag x f).testBit i = (x.testBit i || f.testBit i) :=
  Nat.testBit_or x f i

@[simp] lemma testBit_unsetFlag (x f i : Nat) :
    (unsetFlag x f).testBit i = (x.testBit i && !f.testBit i) := by
  simp only [unsetFlag, Nat.testBit_xor, Nat.testBit_and]
  cases x.testBit i <;> cases f.testBit i <;> rfl

lemma checkFlag_bit (x k : Nat) : checkFlag x (1 <<< k) = x.testBit k := by
  rw [checkFlag, Nat.shiftLeft_eq, one_mul, Nat.and_two_pow]
  cases x.testBit k
  · simp only [Bool.toNat_false, zero_mul]
    exact decide_eq_false (Nat.two_pow_pos k).ne
  · simp

@[simp] lemma testBit_ribFlagSelected (i : Nat) : ribFlagSelected.testBit i = decide (i = 0) := by
  rw [ribFlagSelected, Nat.shiftLeft_eq, one_mul, Nat.testBit_two_pow, decide_eq_decide]
  exact eq_comm
@[simp] lemma testBit_ribFlagFib (i : Nat) : ribFlagFib.testBit i = decide (i = 1) := by
  rw [ribFlagFib, Nat.shiftLeft_eq, one_mul, Nat.testBit_two_pow, decide_eq_decide]
  exact eq_comm
@[simp] lemma testBit_ribFlagResolved (i : Nat) : ribFlagResolved.testBit i = decide (i = 4) := by
  rw [ribFlagResolved, Nat.shiftLeft_eq, one_mul, Nat.testBit_two_pow, decide_eq_decide]
  exact eq_comm

/-! ### Next hops -/

/-- `nl.LWTUNNEL_ENCAP_SEG6`. -/
def lwtunnelEncapSeg6 : Int := 5
/-- `nl.LWTUNNEL_ENCAP_SEG6_LOCAL`. -/
def lwtunnelEncapSeg6Local : Int := 7

/-- `EncapSEG6`. -/
structure EncapSEG6 where
  mode : Int
  segments : List (List UInt8)
deriving DecidableEq, Repr

/-- `EncapSEG6.Equal`: same mode and pairwise `net.IP.Equal` segments. -/
def EncapSEG6.equal (e x : EncapSEG6) : Bool :=
  e.mode == x.mode && e.segments.length == x.segments.length &&
    (e.segments.zip x.segments).all fun s => ipEqual s.1 s.2

/-- `EncapSEG6Local` (`netlink.SEG6LocalEncap`); a nil address is the empty slice. -/
structure EncapSEG6Local where
  flags : List Bool
  action : Int
  segments : List (List UInt8)
  table : Int
  inAddr : List UInt8
  in6Addr : List UInt8
  iif : Int
  oif : Int
deriving DecidableEq, Repr

/-- `EncapSEG6Local.Equal`: the flag arrays, the segments and every parameter agree. -/
def EncapSEG6Local.equal (e o : EncapSEG6Local) : Bool :=
  e.flags == o.flags && e.segments.length == o.segments.length &&
    (e.segments.zip o.segments).all (fun s => ipEqual s.1 s.2) &&
    ipEqual e.inAddr o.inAddr && ipEqual e.in6Addr o.in6Addr &&
    e.action == o.action && e.table == o.table && e.iif == o.iif && e.oif == o.oif

/-- The zero `EncapSEG6Local`, with its `SEG6_LOCAL_MAX` flags cleared. -/
def EncapSEG6Local.zero : EncapSEG6Local :=
  ⟨List.replicate 8 false, 0, [], 0, [], [], 0, 0⟩

/-- `Nexthop`: an address (`nil` as `none`), an interface index and an encapsulation. -/
structure Nexthop where
  ip : Option (List UInt8)
  index : Nat
  encapType : Int
  encapSeg6 : EncapSEG6
  encapSeg6Local : EncapSEG6Local
deriving DecidableEq, Repr

/-- `NewNexthopIf`. -/
def newNexthopIf (index : Nat) : Nexthop :=
  ⟨none, index, 0, ⟨0, []⟩, EncapSEG6Local.zero⟩

/-- `NewNexthopAddr`. -/
def newNexthopAddr (ip : List UInt8) : Nexthop :=
  ⟨some ip, 0, 0, ⟨0, []⟩, EncapSEG6Local.zero⟩

/-- `NewNexthopAddrIf`. -/
def newNexthopAddrIf (ip : List UInt8) (index : Nat) : Nexthop :=
  ⟨some ip, index, 0, ⟨0, []⟩, EncapSEG6Local.zero⟩

/-- `Nexthop.Equal`: same index, both addresses nil or equal, and then the encapsulation
named by the receiver's own `EncapType` compared. -/
def Nexthop.equal (n nn : Nexthop) : Bool :=
  if n.index != nn.index then false
  else
    match n.ip, nn.ip with
    | none, none => true
    | none, some _ => false
    | some _, none => false
    | some a, some b =>
      if !ipEqual a b then false
      else if n.encapType = lwtunnelEncapSeg6 then n.encapSeg6.equal nn.encapSeg6
      else if n.encapType = lwtunnelEncapSeg6Local then n.encapSeg6Local.equal nn.encapSeg6Local
      else true

/-! ### Routes -/

/-- The dynamic value of `Rib.Src` and of a `Watcher`, compared with `==`: nil, a ZAPI
client, a gRPC peer or an interface address, each by its identity. -/
inductive RibSrc
  | none
  | client (id : Nat)
  | peer (id : Nat)
  | ifAddr (id : Nat)
deriving DecidableEq, Repr

/-- `Rib`, with the fields the RIB reads: `Tag` and `Color` are left out, `NewRib` never
copies them, and so is `Prefix`, which nothing reads (the RIB passes the prefix along). -/
structure Rib where
  ptr : Nat
  flags : RibFlag
  type : UInt8
  subType : UInt8
  distance : UInt8
  metric : UInt32
  pathId : UInt32
  nexthops : List Nexthop
  aux : List UInt8
  src : RibSrc
deriving DecidableEq, Repr

namespace Rib

/-- `IsFib`. -/
def isFib (r : Rib) : Bool := checkFlag r.flags ribFlagFib
/-- `IsSelected`. -/
def isSelected (r : Rib) : Bool := checkFlag r.flags ribFlagSelected
/-- `IsResolved`. -/
def isResolved (r : Rib) : Bool := checkFlag r.flags ribFlagResolved
/-- `IsSelectedFib`. -/
def isSelectedFib (r : Rib) : Bool := r.isSelected && r.isFib
/-- `HasDistance`. -/
def hasDistance (r : Rib) : Bool := checkFlag r.flags ribFlagDistance
/-- `IsSystem`: a kernel or connected route, which the RIB does not install itself. -/
def isSystem (r : Rib) : Bool := r.type == ribKernel || r.type == ribConnected

/-- `SetFlag`. -/
def setFlag (r : Rib) (f : RibFlag) : Rib := { r with flags := Zebra.setFlag r.flags f }
/-- `UnsetFlag`. -/
def unsetFlag (r : Rib) (f : RibFlag) : Rib := { r with flags := Zebra.unsetFlag r.flags f }

@[simp] lemma isFib_eq (r : Rib) : r.isFib = r.flags.testBit 1 := checkFlag_bit _ _
@[simp] lemma isSelected_eq (r : Rib) : r.isSelected = r.flags.testBit 0 := checkFlag_bit _ _
@[simp] lemma isResolved_eq (r : Rib) : r.isResolved = r.flags.testBit 4 := checkFlag_bit _ _

@[simp] lemma setFlag_flags (r : Rib) (f : RibFlag) :
    (r.setFlag f).flags = Zebra.setFlag r.flags f := rfl
@[simp] lemma unsetFlag_flags (r : Rib) (f : RibFlag) :
    (r.unsetFlag f).flags = Zebra.unsetFlag r.flags f := rfl
@[simp] lemma setFlag_ptr (r : Rib) (f : RibFlag) : (r.setFlag f).ptr = r.ptr := rfl
@[simp] lemma unsetFlag_ptr (r : Rib) (f : RibFlag) : (r.unsetFlag f).ptr = r.ptr := rfl
@[simp] lemma setFlag_type (r : Rib) (f : RibFlag) : (r.setFlag f).type = r.type := rfl
@[simp] lemma unsetFlag_type (r : Rib) (f : RibFlag) : (r.unsetFlag f).type = r.type := rfl
@[simp] lemma setFlag_distance (r : Rib) (f : RibFlag) : (r.setFlag f).distance = r.distance :=
  rfl
@[simp] lemma unsetFlag_distance (r : Rib) (f : RibFlag) :
    (r.unsetFlag f).distance = r.distance := rfl
@[simp] lemma setFlag_metric (r : Rib) (f : RibFlag) : (r.setFlag f).metric = r.metric := rfl
@[simp] lemma unsetFlag_metric (r : Rib) (f : RibFlag) : (r.unsetFlag f).metric = r.metric :=
  rfl
@[simp] lemma setFlag_src (r : Rib) (f : RibFlag) : (r.setFlag f).src = r.src := rfl
@[simp] lemma unsetFlag_src (r : Rib) (f : RibFlag) : (r.unsetFlag f).src = r.src := rfl

/-- `Rib.Equal`, the replacement test: same type, and then per type a connected route with
the same source and one equal next hop, any static route, a BGP route with the same source
and path id, and for every other type any route (an implicit withdraw). -/
def equal (rib ri : Rib) : Bool :=
  if rib.type != ri.type then false
  else if rib.type = ribConnected then
    match rib.nexthops, ri.nexthops with
    | [nhops], [nhopi] => rib.src == ri.src && nhops.equal nhopi
    | _, _ => false
  else if rib.type = ribStatic then true
  else if rib.type = ribBgp then rib.src == ri.src && rib.pathId == ri.pathId
  else true

end Rib

/-- `NewRib`, the rib `RibAdd` stores for `ri`, under the identity `ptr`: the caller's
flags and fields, and the caller's distance only when it carries `RIB_FLAG_DISTANCE`. -/
def newRib (ptr : Nat) (ri : Rib) : Rib :=
  { ptr
    flags := ri.flags
    type := ri.type
    subType := ri.subType
    distance := if ri.hasDistance then ri.distance else distanceCalc ri.type ri.subType
    metric := ri.metric
    pathId := ri.pathId
    nexthops := ri.nexthops
    aux := ri.aux
    src := ri.src }

end Zebra
