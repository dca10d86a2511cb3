import Zebra.Bgp.Capability

/-!
# The BGP OPEN message

`BgpOpen.DecodeFromBytes` reads the fixed part of an OPEN message, checks the hold time and walks
the optional parameters, each a type, a length and a value; the value of a capability parameter
goes to `Capability.DecodeFromBytes`, which decodes capabilities one after the other until the
value is used up.

For an OPEN written as RFC 4271 and the capability RFCs write it, with hold time zero or three
seconds at least and optional parameters that fit their length byte, the decoder returns every
capability with its fields, in order, when the decoders take every capability, and an error
otherwise (`BgpOpen.decodeFromBytes_encode`); so one long-lived graceful restart capability, or
one ADD-PATH capability of two address families, makes the whole OPEN fail.
-/

namespace Zebra.Bgp

open Zebra.Lib

/-- `BGP_OPT_CAPABILITY`. -/
def bgpOptCapability : UInt8 := 2

/-- `Capability`: a capability optional parameter and the capabilities of its value. -/
structure Capability where
  optType : UInt8
  optLen : UInt8
  capability : List CapabilityInterface
deriving DecidableEq, Repr

/-- `OptParamUnknown`: an optional parameter of another type, kept as its bytes. -/
structure OptParamUnknown where
  optType : UInt8
  optLen : UInt8
  optValue : List UInt8
deriving DecidableEq, Repr

/-- `OptParamInterface`. -/
inductive OptParamInterface
  | capability (c : Capability)
  | unknown (o : OptParamUnknown)
deriving DecidableEq, Repr

/-- `BgpOpen`. -/
structure BgpOpen where
  version : UInt8
  as : UInt32
  holdTime : UInt16
  routerId : List UInt8
  optParamLen : UInt8
  optParams : List OptParamInterface
deriving DecidableEq, Repr

/-- The loop of `Capability.DecodeFromBytes`: capabilities one after the other until the data is
used up.  `data[cap.Length():]` with a `Length()` of zero (a `CapLen` of 254, whose sum wraps)
leaves the data as it was and the loop never ends: `none`, as for a panic.  `fuel` bounds the
passes; every other pass consumes a byte at least. -/
def decodeCapabilities : Nat → List UInt8 → Option (Except BgpError (List CapabilityInterface))
  | 0, _ => some (.ok [])
  | fuel + 1, data =>
    if data.length = 0 then some (.ok [])
    else
      match decodeCapability data with
      | .error e => some (.error e)
      | .ok cap =>
        if cap.length = 0 then none
        else (decodeCapabilities fuel (data.drop cap.length)).map (Except.map (cap :: ·))

/-- `Capability.DecodeFromBytes`: the capabilities of the value appended. -/
def Capability.decodeFromBytes (c : Capability) (data : List UInt8) :
    Option (Except BgpError Capability) :=
  (decodeCapabilities data.length data).map
    (Except.map fun caps => { c with capability := c.capability ++ caps })

/-- The loop of `BgpOpen.DecodeFromBytes` over the optional parameters, `remaining` of their
bytes still to read.  `remaining`, `len + 2` and `2 + len` are `uint8` sums; for a length of 254
or 255 the slice `data[2 : 2+len]` has its end before its start and panics.  `fuel` bounds the
passes; every other pass consumes two bytes of `remaining` at least. -/
def decodeOptParams : Nat → UInt8 → List UInt8 → Option (Except BgpError (List OptParamInterface))
  | 0, _, _ => some (.ok [])
  | fuel + 1, remaining, data =>
    if remaining = 0 then some (.ok [])
    else if remaining < 2 then some (.error badMessageLength)
    else
      match getByte? data 0, getByte? data 1 with
      | some typ, some len =>
        if remaining < len + 2 then some (.error badMessageLength)
        else
          match slice? data 2 (2 + len).toNat with
          | none => none
          | some value =>
            let rest := decodeOptParams fuel (remaining - (len + 2)) (data.drop (2 + len).toNat)
            if typ = bgpOptCapability then
              match (Capability.mk typ len []).decodeFromBytes value with
              | none => none
              | some (.error e) => some (.error e)
              | some (.ok cap) => rest.map (Except.map (.capability cap :: ·))
            else rest.map (Except.map (.unknown ⟨typ, len, value⟩ :: ·))
      | _, _ => none

/-- `BgpOpen.DecodeFromBytes`: the fixed part, the hold time check and the optional parameters,
appended to those of `msg`.  The reads of the fixed part are not checked: they panic on fewer
than nine bytes, and the read of the parameters' length on fewer than ten. -/
def BgpOpen.decodeFromBytes (msg : BgpOpen) (data : List UInt8) :
    Option (Except BgpError BgpOpen) :=
  if data.length < 9 then none
  else
    let msg : BgpOpen := { msg with
      version := data.getD 0 0, as := (beUint16 data 1).toUInt32, holdTime := beUint16 data 3,
      routerId := (data.drop 5).take 4 }
    if msg.holdTime ≠ 0 ∧ msg.holdTime < 3 then
      some (.error ⟨bgpErrMsgHeaderError, bgpErrSubUnacceptableHoldTime⟩)
    else
      match getByte? data 9 with
      | none => none
      | some optParamLen =>
        let msg : BgpOpen := { msg with optParamLen }
        let data := data.drop 10
        if data.length < optParamLen.toNat then some (.error badMessageLength)
        else (decodeOptParams optParamLen.toNat optParamLen data).map
          (Except.map fun ps => { msg with optParams := msg.optParams ++ ps })

/-! ### OPEN messages as RFC 4271 writes them -/

/-- A capability optional parameter on the wire: its type, its length and the capabilities. -/
def capabilityParam (caps : List CapSpec) : List UInt8 :=
  [bgpOptCapability, UInt8.ofNat (caps.flatMap CapSpec.encode).length] ++ caps.flatMap CapSpec.encode

/-- The capability parameter the decoder should make of the encoding. -/
def capabilityDecoded (caps : List CapSpec) : Capability :=
  ⟨bgpOptCapability, UInt8.ofNat (caps.flatMap CapSpec.encode).length, caps.map CapSpec.decoded⟩

/-- The optional parameter the decoder should make of a capability parameter. -/
def paramDecoded (caps : List CapSpec) : OptParamInterface := .capability (capabilityDecoded caps)

/-- An OPEN message body whose optional parameters are capability parameters. -/
structure OpenSpec where
  version : UInt8
  as : UInt16
  holdTime : UInt16
  routerId : List UInt8
  routerId_length : routerId.length = 4
  params : List (List CapSpec)

namespace OpenSpec

/-- The optional parameters on the wire. -/
def optParams (o : OpenSpec) : List UInt8 := o.params.flatMap capabilityParam

/-- The body on the wire: version, AS, hold time, identifier, parameters' length, parameters. -/
def encode (o : OpenSpec) : List UInt8 :=
  [o.version] ++ putUint16 o.as ++ putUint16 o.holdTime ++ o.routerId ++
    [UInt8.ofNat o.optParams.length] ++ o.optParams

end OpenSpec

/-! ### What the decoder makes of it -/

/-- A list of results, each an error or a value, is an error as soon as one is. -/
lemma map_cons_ite {α : Type} (x : α) (b : Bool) (l : List α) :
    Option.map (Except.map (x :: ·)) (some (if b then .ok l else .error badMessageLength)) =
      some (if b then .ok (x :: l) else .error badMessageLength) := by
  cases b <;> rfl

lemma length_flatMap_encode_ge (cs : List CapSpec) : cs.length ≤ (cs.flatMap CapSpec.encode).length := by
  induction cs with
  | nil => exact Nat.le_refl 0
  | cons c cs ih =>
    rw [List.flatMap_cons, List.length_append, CapSpec.length_encode, List.length_cons]
    omega

/-- `Capability.DecodeFromBytes` over capabilities written one after the other: all of them, in
order, or an error when the decoders refuse one. -/
theorem decodeCapabilities_encode {cs : List CapSpec} (hwf : ∀ c ∈ cs, c.WellFormed)
    (hlen : (cs.flatMap CapSpec.encode).length ≤ 255) {fuel : Nat} (hfuel : cs.length ≤ fuel) :
    decodeCapabilities fuel (cs.flatMap CapSpec.encode) =
      some (if cs.all CapSpec.accepted then .ok (cs.map CapSpec.decoded)
        else .error badMessageLength) := by
  induction cs generalizing fuel with
  | nil => cases fuel <;> rfl
  | cons c cs ih =>
    obtain ⟨fuel, rfl⟩ : ∃ f, fuel = f + 1 := ⟨fuel - 1, by simp at hfuel; omega⟩
    have hc := hwf c List.mem_cons_self
    rw [List.flatMap_cons, List.length_append] at hlen
    have hne : ¬ (c.encode ++ cs.flatMap CapSpec.encode).length = 0 := by
      rw [List.length_append, CapSpec.length_encode]
      omega
    rw [List.flatMap_cons, decodeCapabilities, if_neg hne, decodeCapability_encode hc]
    by_cases hacc : c.accepted
    · -- the capability is taken; `Length()` steps over exactly its encoding
      have hstep : c.decoded.length = c.encode.length :=
        CapSpec.length_decoded (by rw [CapSpec.length_encode] at hlen; omega)
      have hpos : ¬ c.decoded.length = 0 := by
        rw [hstep, CapSpec.length_encode]
        omega
      rw [if_pos hacc]
      dsimp only
      rw [if_neg hpos, hstep, List.drop_left,
        ih (fun d hd => hwf d (List.mem_cons_of_mem c hd)) (by omega) (by simp at hfuel; omega),
        map_cons_ite, List.all_cons, hacc, Bool.true_and, List.map_cons]
    · rw [if_neg hacc, List.all_cons, Bool.eq_false_iff.2 hacc, Bool.false_and]
      rfl

/-- The bytes of the parameters' value. -/
lemma length_capabilityParam (caps : List CapSpec) :
    (capabilityParam caps).length = (caps.flatMap CapSpec.encode).length + 2 := by
  simp only [capabilityParam, List.length_append, List.length_cons, List.length_nil]
  omega

lemma length_flatMap_capabilityParam_ge (ps : List (List CapSpec)) :
    ps.length ≤ (ps.flatMap capabilityParam).length := by
  induction ps with
  | nil => exact Nat.le_refl 0
  | cons p ps ih =>
    rw [List.flatMap_cons, List.length_append, length_capabilityParam, List.length_cons]
    omega

/-- `Capability.DecodeFromBytes` on the value of one capability parameter. -/
lemma Capability.decodeFromBytes_encode {caps : List CapSpec} (hwf : ∀ c ∈ caps, c.WellFormed)
    (hlen : (caps.flatMap CapSpec.encode).length ≤ 255) :
    (Capability.mk bgpOptCapability (UInt8.ofNat (caps.flatMap CapSpec.encode).length) []).decodeFromBytes
        (caps.flatMap CapSpec.encode) =
      some (if caps.all CapSpec.accepted then .ok (capabilityDecoded caps)
        else .error badMessageLength) := by
  rw [Capability.decodeFromBytes, decodeCapabilities_encode hwf hlen (length_flatMap_encode_ge caps)]
  cases caps.all CapSpec.accepted <;> rfl

/-- One pass of the loop over the optional parameters, at a capability parameter of value `v`
with `rest` after it. -/
lemma decodeOptParams_capabilityParam {v rest : List UInt8} (hlen : v.length + 2 + rest.length ≤ 255)
    (fuel : Nat) :
    decodeOptParams (fuel + 1) (UInt8.ofNat (v.length + 2 + rest.length))
        (bgpOptCapability :: UInt8.ofNat v.length :: (v ++ rest)) =
      match (Capability.mk bgpOptCapability (UInt8.ofNat v.length) []).decodeFromBytes v with
      | none => none
      | some (.error e) => some (.error e)
      | some (.ok cap) =>
        (decodeOptParams fuel (UInt8.ofNat rest.length) rest).map
          (Except.map (.capability cap :: ·)) := by
  -- the `uint8` counts: what remains, the parameter's length and what remains after it
  have hlenv : (UInt8.ofNat v.length).toNat = v.length := toNat_ofNat_length (by omega)
  have hrem : (UInt8.ofNat (v.length + 2 + rest.length)).toNat = v.length + 2 + rest.length := by
    rw [UInt8.toNat_ofNat']
    omega
  have hsum : (UInt8.ofNat v.length + 2).toNat = v.length + 2 := by
    simp only [UInt8.toNat_add, hlenv, UInt8.reduceToNat]
    omega
  have hsum' : (2 + UInt8.ofNat v.length).toNat = v.length + 2 := by
    rw [UInt8.add_comm, hsum]
  have hzero : ¬ UInt8.ofNat (v.length + 2 + rest.length) = 0 := by
    intro h0
    have h := congrArg UInt8.toNat h0
    simp only [hrem, UInt8.reduceToNat] at h
    omega
  have htwo : ¬ UInt8.ofNat (v.length + 2 + rest.length) < 2 := by
    simp only [UInt8.lt_iff_toNat_lt, hrem, UInt8.reduceToNat]
    omega
  have hroom : ¬ UInt8.ofNat (v.length + 2 + rest.length) < UInt8.ofNat v.length + 2 := by
    rw [UInt8.lt_iff_toNat_lt, hrem, hsum]
    omega
  have hnext : UInt8.ofNat (v.length + 2 + rest.length) - (UInt8.ofNat v.length + 2) =
      UInt8.ofNat rest.length := by
    apply UInt8.toNat_inj.1
    rw [UInt8.toNat_sub_of_le _ _ (UInt8.le_iff_toNat_le.2 (by rw [hrem, hsum]; omega)), hrem,
      hsum, UInt8.toNat_ofNat']
    omega
  have hslice : slice? (bgpOptCapability :: UInt8.ofNat v.length :: (v ++ rest)) 2
      (2 + UInt8.ofNat v.length).toNat = some v := by
    rw [slice?, if_pos (by simp only [hsum', List.length_cons, List.length_append]; omega), hsum']
    simp
  have hdrop : (bgpOptCapability :: UInt8.ofNat v.length :: (v ++ rest)).drop
      (2 + UInt8.ofNat v.length).toNat = rest := by
    rw [hsum']
    simp
  rw [decodeOptParams, if_neg hzero, if_neg htwo]
  simp only [getByte?, List.getElem?_cons_zero, List.getElem?_cons_succ]
  rw [if_neg hroom, hslice]
  dsimp only
  rw [hdrop, hnext, if_pos trivial]

/-- The optional parameters, capability parameters written one after the other: all of them with
all their capabilities, or an error when the decoders refuse a capability. -/
theorem decodeOptParams_encode {ps : List (List CapSpec)} (hwf : ∀ p ∈ ps, ∀ c ∈ p, c.WellFormed)
    (hlen : (ps.flatMap capabilityParam).length ≤ 255) {fuel : Nat} (hfuel : ps.length ≤ fuel) :
    decodeOptParams fuel (UInt8.ofNat (ps.flatMap capabilityParam).length)
        (ps.flatMap capabilityParam) =
      some (if ps.all (·.all CapSpec.accepted) then .ok (ps.map paramDecoded)
        else .error badMessageLength) := by
  induction ps generalizing fuel with
  | nil => cases fuel <;> rfl
  | cons p ps ih =>
    obtain ⟨fuel, rfl⟩ : ∃ f, fuel = f + 1 := ⟨fuel - 1, by simp at hfuel; omega⟩
    have hp := hwf p List.mem_cons_self
    rw [List.flatMap_cons, List.length_append, length_capabilityParam] at hlen
    have hrem : (capabilityParam p ++ ps.flatMap capabilityParam).length =
        (p.flatMap CapSpec.encode).length + 2 + (ps.flatMap capabilityParam).length := by
      rw [List.length_append, length_capabilityParam]
    have hdata : capabilityParam p ++ ps.flatMap capabilityParam = bgpOptCapability ::
        UInt8.ofNat (p.flatMap CapSpec.encode).length ::
          (p.flatMap CapSpec.encode ++ ps.flatMap capabilityParam) := rfl
    rw [List.flatMap_cons, hrem, hdata, decodeOptParams_capabilityParam hlen,
      Capability.decodeFromBytes_encode hp (by omega)]
    by_cases hacc : p.all CapSpec.accepted
    · rw [if_pos hacc]
      dsimp only
      rw [ih (fun q hq => hwf q (List.mem_cons_of_mem p hq)) (by omega) (by simp at hfuel; omega),
        List.all_cons, hacc, Bool.true_and, List.map_cons]
      exact map_cons_ite _ _ _
    · rw [if_neg hacc, List.all_cons, Bool.eq_false_iff.2 hacc, Bool.false_and]
      rfl

/-- `BgpOpen.DecodeFromBytes` on a fixed part of nine bytes, the parameters' length `n` and the
bytes after it: the hold time check, the check of `n`, and the loop. -/
lemma BgpOpen.decodeFromBytes_fixed (msg : BgpOpen) {fixed : List UInt8} (hfixed : fixed.length = 9)
    (n : UInt8) (rest : List UInt8) :
    msg.decodeFromBytes (fixed ++ n :: rest) =
      if beUint16 fixed 3 ≠ 0 ∧ beUint16 fixed 3 < 3 then
        some (.error ⟨bgpErrMsgHeaderError, bgpErrSubUnacceptableHoldTime⟩)
      else if rest.length < n.toNat then some (.error badMessageLength)
      else (decodeOptParams n.toNat n rest).map (Except.map fun ps => { msg with
        version := fixed.getD 0 0, as := (beUint16 fixed 1).toUInt32, holdTime := beUint16 fixed 3,
        routerId := fixed.drop 5, optParamLen := n, optParams := msg.optParams ++ ps }) := by
  have hshort : ¬ (fixed ++ n :: rest).length < 9 := by
    simp only [List.length_append, List.length_cons, hfixed]
    omega
  have hversion : (fixed ++ n :: rest).getD 0 0 = fixed.getD 0 0 :=
    List.getD_append _ _ _ _ (by omega)
  have has : beUint16 (fixed ++ n :: rest) 1 = beUint16 fixed 1 :=
    beUint16_append_right _ _ (by omega)
  have hhold : beUint16 (fixed ++ n :: rest) 3 = beUint16 fixed 3 :=
    beUint16_append_right _ _ (by omega)
  have hid : ((fixed ++ n :: rest).drop 5).take 4 = fixed.drop 5 := by
    rw [List.drop_append_of_le_length (by omega), List.take_append_of_le_length (by simp [hfixed]),
      List.take_of_length_le (by simp [hfixed])]
  have hsplit : fixed ++ n :: rest = (fixed ++ [n]) ++ rest := by simp
  have hlenbyte : getByte? (fixed ++ n :: rest) 9 = some n := by
    rw [getByte?, List.getElem?_append_right (by omega), hfixed]
    rfl
  have hdrop : (fixed ++ n :: rest).drop 10 = rest := by
    rw [hsplit]
    exact List.drop_left' (by simp [hfixed])
  rw [BgpOpen.decodeFromBytes, if_neg hshort]
  dsimp only
  rw [hversion, has, hhold, hid]
  by_cases hcheck : beUint16 fixed 3 ≠ 0 ∧ beUint16 fixed 3 < 3
  · rw [if_pos hcheck, if_pos hcheck]
  · rw [if_neg hcheck, if_neg hcheck, hlenbyte]
    dsimp only
    rw [hdrop]

/-- What `BgpOpen.DecodeFromBytes` makes of an OPEN written as RFC 4271 and the capability RFCs
write it, with an acceptable hold time and optional parameters their length byte can count: every
capability with all its fields, in order, when the decoders take every capability, and an error
otherwise. -/
theorem BgpOpen.decodeFromBytes_encode (msg : BgpOpen) {o : OpenSpec}
    (hwf : ∀ p ∈ o.params, ∀ c ∈ p, c.WellFormed) (hlen : o.optParams.length ≤ 255)
    (hhold : o.holdTime = 0 ∨ 3 ≤ o.holdTime) :
    msg.decodeFromBytes o.encode =
      some (if o.params.all (·.all CapSpec.accepted) then
        .ok { msg with
          version := o.version, as := o.as.toUInt32, holdTime := o.holdTime, routerId := o.routerId,
          optParamLen := UInt8.ofNat o.optParams.length,
          optParams := msg.optParams ++ o.params.map paramDecoded }
      else .error badMessageLength) := by
  -- the fixed part of the encoding and what the decoder reads of it
  set fixed := [o.version] ++ putUint16 o.as ++ putUint16 o.holdTime ++ o.routerId with hfixed
  have hlen9 : fixed.length = 9 := by
    simp [hfixed, o.routerId_length]
  have hdata : o.encode = fixed ++ UInt8.ofNat o.optParams.length :: o.optParams := by
    simp [OpenSpec.encode, hfixed]
  have hversion : fixed.getD 0 0 = o.version := rfl
  have has : beUint16 fixed 1 = o.as := by
    rw [hfixed, List.append_assoc, List.append_assoc]
    exact (beUint16_append [o.version] _ 0).trans (beUint16_putUint16 _ _)
  have hholdTime : beUint16 fixed 3 = o.holdTime := by
    rw [hfixed, List.append_assoc]
    exact (beUint16_append ([o.version] ++ putUint16 o.as) _ 0).trans (beUint16_putUint16 _ _)
  have hid : fixed.drop 5 = o.routerId := by
    rw [hfixed]
    exact List.drop_left' (by simp)
  have hcheck : ¬ (o.holdTime ≠ 0 ∧ o.holdTime < 3) := by
    rintro ⟨h0, h3⟩
    rcases hhold with h | h
    · exact h0 h
    · rw [UInt16.le_iff_toNat_le] at h
      rw [UInt16.lt_iff_toNat_lt] at h3
      omega
  have hlenv := toNat_ofNat_length hlen
  have hroom : ¬ o.optParams.length < (UInt8.ofNat o.optParams.length).toNat := by
    rw [hlenv]
    exact Nat.lt_irrefl _
  have hloop : decodeOptParams o.optParams.length (UInt8.ofNat o.optParams.length) o.optParams =
      some (if o.params.all (·.all CapSpec.accepted) then .ok (o.params.map paramDecoded)
        else .error badMessageLength) :=
    decodeOptParams_encode hwf hlen (length_flatMap_capabilityParam_ge o.params)
  rw [hdata, BgpOpen.decodeFromBytes_fixed msg hlen9, hholdTime, if_neg hcheck, if_neg hroom,
    hlenv, hloop, hversion, has, hid]
  by_cases hacc : o.params.all (·.all CapSpec.accepted)
  · rw [if_pos hacc, if_pos hacc]
    rfl
  · rw [if_neg hacc, if_neg hacc]
    rfl

example : ((⟨0, 0, 0, [], 0, []⟩ : BgpOpen).decodeFromBytes
    (OpenSpec.encode ⟨4, 65001, 90, [10, 0, 0, 1], rfl,
      [[.multiProtocol 1 1, .routeRefresh], [.fourOctetAs 65001]]⟩)).map Except.toBool = some true := by
  decide

/-- Two OPEN messages written as the RFCs say, each with one capability parameter: one holding a
long-lived graceful restart capability for IPv4 unicast, the other an ADD-PATH capability for
IPv4 and IPv6 unicast.  `BgpOpen.DecodeFromBytes` refuses both. -/
theorem open_refuses_conformant_capabilities :
    (⟨0, 0, 0, [], 0, []⟩ : BgpOpen).decodeFromBytes
        (OpenSpec.encode ⟨4, 65001, 90, [10, 0, 0, 1], rfl,
          [[.longLivedGracefulRestart [⟨1, 1, 0, 3600⟩]]]⟩) = some (.error badMessageLength) ∧
      (⟨0, 0, 0, [], 0, []⟩ : BgpOpen).decodeFromBytes
        (OpenSpec.encode ⟨4, 65001, 90, [10, 0, 0, 1], rfl,
          [[.addPath [⟨1, 1, 3⟩, ⟨2, 1, 3⟩]]]⟩) = some (.error badMessageLength) := by
  decide

end Zebra.Bgp
