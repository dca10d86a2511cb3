import Zebra.Lib.Bytes

/-!
# Capabilities of the BGP OPEN message

`DecodeCapability` picks a capability type by the code byte and runs its `DecodeFromBytes`.  Every
decoder starts with `CapabilityBase.DecodeFromBytes`, which reads the code, the length byte
`CapLen` and the value, and then reads the fields of its value, each with its own length rule.

Against the decoders stands what the RFCs write for each capability (`CapSpec.encode`): the
multiprotocol capability of RFC 2858, the route refresh capabilities, graceful restart (RFC 4724),
four-octet AS numbers (RFC 6793), ADD-PATH with one tuple of four octets per address family
(RFC 7911), long-lived graceful restart with one tuple of seven octets per address family, and
capabilities of other codes with any value.  `decodeCapability_encode` says what the decoders
make of each: the capability with all its fields, except for an ADD-PATH capability of more than
one tuple, which `CapAddPath.DecodeFromBytes` refuses for a length other than four, and every
long-lived graceful restart capability, whose decoder subtracts two from `CapLen` as if the value
began with two more octets, so that the count of its tuples is never a multiple of seven.
-/

namespace Zebra.Bgp

open Zebra.Lib

/-! ### Constants -/

/-- `BGP_ERR_MSG_HEADER_ERROR`. -/
def bgpErrMsgHeaderError : UInt8 := 1
/-- `BGP_ERR_SUB_BAD_MESSAGE_LENGTH`. -/
def bgpErrSubBadMessageLength : UInt8 := 2
/-- `BGP_ERR_SUB_UNACCEPTABLE_HOLD_TIME`, a subcode of the OPEN message errors. -/
def bgpErrSubUnacceptableHoldTime : UInt8 := 6

/-- `BGP_CAP_MULTIPROTOCOL`. -/
def bgpCapMultiprotocol : UInt8 := 1
/-- `BGP_CAP_ROUTE_REFRESH`. -/
def bgpCapRouteRefresh : UInt8 := 2
/-- `BGP_CAP_CARRYING_LABEL_INFO`. -/
def bgpCapCarryingLabelInfo : UInt8 := 4
/-- `BGP_CAP_GRACEFUL_RESTART`. -/
def bgpCapGracefulRestart : UInt8 := 64
/-- `BGP_CAP_4OCTET_AS_NUMBER`. -/
def bgpCap4octetAsNumber : UInt8 := 65
/-- `BGP_CAP_ADD_PATH`. -/
def bgpCapAddPath : UInt8 := 69
/-- `BGP_CAP_ENHANCED_ROUTE_REFRESH`. -/
def bgpCapEnhancedRouteRefresh : UInt8 := 70
/-- `BGP_CAP_LONG_LIVED_GRACEFUL_RESTART`. -/
def bgpCapLongLivedGracefulRestart : UInt8 := 71
/-- `BGP_CAP_ROUTE_REFRESH_CISCO`. -/
def bgpCapRouteRefreshCisco : UInt8 := 128

/-- `NewBgpError(code, subCode, nil, "")`: the notification the decoders return as their error.
Every call here passes no data and no message. -/
structure BgpError where
  code : UInt8
  subCode : UInt8
deriving DecidableEq, Repr

/-- The error of every length check. -/
def badMessageLength : BgpError := ⟨bgpErrMsgHeaderError, bgpErrSubBadMessageLength⟩

/-- `AfiSafiValue`: the AFI in the high sixteen bits, the SAFI in the low eight. -/
def afiSafiValue (afi : UInt16) (safi : UInt8) : UInt32 :=
  UInt32.ofNat (afi.toNat * 2 ^ 16 + safi.toNat)

/-! ### The capability types and their decoders -/

/-- `CapabilityBase`. -/
structure CapabilityBase where
  capCode : UInt8
  capLen : UInt8
  capValue : List UInt8
deriving DecidableEq, Repr

/-- `CapGracefulRestartTuple`. -/
structure CapGracefulRestartTuple where
  afi : UInt16
  safi : UInt8
  flags : UInt8
deriving DecidableEq, Repr

/-- `CapLongLivedGracefulRestartTuple`. -/
structure CapLongLivedGracefulRestartTuple where
  afi : UInt16
  safi : UInt8
  flags : UInt8
  restartTime : UInt32
deriving DecidableEq, Repr

/-- `CapabilityInterface`: the capability types `DecodeCapability` makes, each with the fields
its decoder sets. -/
inductive CapabilityInterface
  | multiProtocol (base : CapabilityBase) (afiSafi : UInt32)
  | routeRefresh (base : CapabilityBase)
  | carryingLabelInfo (base : CapabilityBase)
  | gracefulRestart (base : CapabilityBase) (flags : UInt8) (time : UInt16)
      (tuples : List CapGracefulRestartTuple)
  | fourOctetAsNumber (base : CapabilityBase) (as : UInt32)
  | addPath (base : CapabilityBase) (afiSafi : UInt32) (sendRecieve : UInt8)
  | enhancedRouteRefresh (base : CapabilityBase)
  | routeRefreshCisco (base : CapabilityBase)
  | longLivedGracefulRestart (base : CapabilityBase)
      (tuples : List CapLongLivedGracefulRestartTuple)
  | unknown (base : CapabilityBase)
deriving DecidableEq, Repr

namespace CapabilityInterface

/-- The embedded `CapabilityBase`. -/
def base : CapabilityInterface → CapabilityBase
  | .multiProtocol b _ | .routeRefresh b | .carryingLabelInfo b | .gracefulRestart b _ _ _
  | .fourOctetAsNumber b _ | .addPath b _ _ | .enhancedRouteRefresh b | .routeRefreshCisco b
  | .longLivedGracefulRestart b _ | .unknown b => b

/-- `Length()`: `int(c.CapLen + 2)`, the sum taken in eight bits. -/
def length (c : CapabilityInterface) : Nat := (c.base.capLen + 2).toNat

end CapabilityInterface

/-- `CapabilityBase.DecodeFromBytes`: the code, the length and the value, which must all be in
the data. -/
def CapabilityBase.decodeFromBytes (data : List UInt8) : Except BgpError CapabilityBase :=
  if data.length < 2 then .error badMessageLength
  else
    let capCode := data.getD 0 0
    let capLen := data.getD 1 0
    let totalLen := capLen.toNat + 2
    if data.length < totalLen then .error badMessageLength
    -- `CapValue` stays nil for an empty value
    else .ok ⟨capCode, capLen, if 0 < capLen then (data.drop 2).take capLen.toNat else []⟩

/-- `CapMultiProtocol.DecodeFromBytes`: the AFI, a reserved octet and the SAFI. -/
def CapMultiProtocol.decodeFromBytes (data : List UInt8) :
    Except BgpError CapabilityInterface := do
  let base ← CapabilityBase.decodeFromBytes data
  if base.capLen ≠ 4 then .error badMessageLength
  else
    let data := data.drop 2
    if data.length < 4 then .error badMessageLength
    else .ok (.multiProtocol base (afiSafiValue (beUint16 data 0) (data.getD 3 0)))

/-- `CapGracefulRestart.DecodeFromBytes`: the restart flags and time, then `(CapLen - 2) / 4`
tuples.  `remaining` is a Go `int`, and Go's `%` and `/` truncate. -/
def CapGracefulRestart.decodeFromBytes (data : List UInt8) :
    Except BgpError CapabilityInterface := do
  let base ← CapabilityBase.decodeFromBytes data
  let data := data.drop 2
  if data.length < 2 then .error badMessageLength
  else
    let value := beUint16 data 0
    let data := data.drop 2
    let remaining : Int := base.capLen.toNat - 2
    if remaining.tmod 4 ≠ 0 then .error badMessageLength
    else if remaining > data.length then .error badMessageLength
    else
      let tuples := readRecords (fun d => ⟨beUint16 d 0, d.getD 2 0, d.getD 3 0⟩) 4
        (remaining.tdiv 4).toNat data
      .ok (.gracefulRestart base (value >>> 12).toUInt8 (value &&& 0xfff) tuples)

/-- `Cap4OctetAsNumber.DecodeFromBytes`. -/
def Cap4OctetAsNumber.decodeFromBytes (data : List UInt8) :
    Except BgpError CapabilityInterface := do
  let base ← CapabilityBase.decodeFromBytes data
  let data := data.drop 2
  if base.capLen ≠ 4 then .error badMessageLength
  else if data.length < 4 then .error badMessageLength
  else .ok (.fourOctetAsNumber base (beUint32 data 0))

/-- `CapAddPath.DecodeFromBytes`: one tuple, and a length of four. -/
def CapAddPath.decodeFromBytes (data : List UInt8) : Except BgpError CapabilityInterface := do
  let base ← CapabilityBase.decodeFromBytes data
  let data := data.drop 2
  if base.capLen ≠ 4 then .error badMessageLength
  else if data.length < 4 then .error badMessageLength
  else .ok (.addPath base (afiSafiValue (beUint16 data 0) (data.getD 2 0)) (data.getD 3 0))

/-- `CapLongLivedGracefulRestart.DecodeFromBytes`: `(CapLen - 2) / 7` tuples, read from the start
of the value. -/
def CapLongLivedGracefulRestart.decodeFromBytes (data : List UInt8) :
    Except BgpError CapabilityInterface := do
  let base ← CapabilityBase.decodeFromBytes data
  let data := data.drop 2
  if data.length < 2 then .error badMessageLength
  else
    let remaining : Int := base.capLen.toNat - 2
    if remaining.tmod 7 ≠ 0 then .error badMessageLength
    else if remaining > data.length then .error badMessageLength
    else
      let tuples := readRecords (fun d => ⟨beUint16 d 0, d.getD 2 0, d.getD 3 0,
          (d.getD 4 0).toUInt32 <<< 16 ||| (d.getD 5 0).toUInt32 <<< 8 ||| (d.getD 6 0).toUInt32⟩)
        7 (remaining.tdiv 7).toNat data
      .ok (.longLivedGracefulRestart base tuples)

/-- The decoder of `DecodeCapability` for a code. -/
def decoderFor (code : UInt8) : List UInt8 → Except BgpError CapabilityInterface :=
  if code = bgpCapMultiprotocol then CapMultiProtocol.decodeFromBytes
  else if code = bgpCapRouteRefresh then
    fun data => .routeRefresh <$> CapabilityBase.decodeFromBytes data
  else if code = bgpCapCarryingLabelInfo then
    fun data => .carryingLabelInfo <$> CapabilityBase.decodeFromBytes data
  else if code = bgpCapGracefulRestart then CapGracefulRestart.decodeFromBytes
  else if code = bgpCap4octetAsNumber then Cap4OctetAsNumber.decodeFromBytes
  else if code = bgpCapAddPath then CapAddPath.decodeFromBytes
  else if code = bgpCapEnhancedRouteRefresh then
    fun data => .enhancedRouteRefresh <$> CapabilityBase.decodeFromBytes data
  else if code = bgpCapRouteRefreshCisco then
    fun data => .routeRefreshCisco <$> CapabilityBase.decodeFromBytes data
  else if code = bgpCapLongLivedGracefulRestart then CapLongLivedGracefulRestart.decodeFromBytes
  else fun data => .unknown <$> CapabilityBase.decodeFromBytes data

/-- `DecodeCapability`. -/
def decodeCapability (data : List UInt8) : Except BgpError CapabilityInterface :=
  if data.length < 2 then .error badMessageLength
  else decoderFor (data.getD 0 0) data

/-! ### Capabilities as their RFCs write them -/

/-- An ADD-PATH tuple: an address family and whether its paths are sent, received or both. -/
structure AddPathTuple where
  afi : UInt16
  safi : UInt8
  sendReceive : UInt8
deriving DecidableEq, Repr

/-- A capability as its RFC lays it out. -/
inductive CapSpec
  | multiProtocol (afi : UInt16) (safi : UInt8)
  | routeRefresh
  | enhancedRouteRefresh
  | routeRefreshCisco
  | gracefulRestart (flags : UInt8) (time : UInt16) (tuples : List CapGracefulRestartTuple)
  | fourOctetAs (as : UInt32)
  | addPath (tuples : List AddPathTuple)
  | longLivedGracefulRestart (tuples : List CapLongLivedGracefulRestartTuple)
  | unknown (code : UInt8) (value : List UInt8)
deriving DecidableEq, Repr

/-- A graceful restart tuple on the wire: AFI, SAFI, flags. -/
def grTupleBytes (t : CapGracefulRestartTuple) : List UInt8 := putUint16 t.afi ++ [t.safi, t.flags]

/-- An ADD-PATH tuple on the wire: AFI, SAFI, send/receive. -/
def addPathTupleBytes (t : AddPathTuple) : List UInt8 := putUint16 t.afi ++ [t.safi, t.sendReceive]

/-- A long-lived graceful restart tuple on the wire: AFI, SAFI, flags and a 24-bit time. -/
def llgrTupleBytes (t : CapLongLivedGracefulRestartTuple) : List UInt8 :=
  putUint16 t.afi ++ [t.safi, t.flags] ++ (putUint32 t.restartTime).drop 1

namespace CapSpec

/-- The capability code. -/
def code : CapSpec → UInt8
  | .multiProtocol _ _ => bgpCapMultiprotocol
  | .routeRefresh => bgpCapRouteRefresh
  | .enhancedRouteRefresh => bgpCapEnhancedRouteRefresh
  | .routeRefreshCisco => bgpCapRouteRefreshCisco
  | .gracefulRestart _ _ _ => bgpCapGracefulRestart
  | .fourOctetAs _ => bgpCap4octetAsNumber
  | .addPath _ => bgpCapAddPath
  | .longLivedGracefulRestart _ => bgpCapLongLivedGracefulRestart
  | .unknown code _ => code

/-- The graceful restart word: four bits of flags over twelve bits of time. -/
def grWord (flags : UInt8) (time : UInt16) : UInt16 := UInt16.ofNat (flags.toNat * 2 ^ 12 + time.toNat)

/-- The capability value. -/
def value : CapSpec → List UInt8
  | .multiProtocol afi safi => putUint16 afi ++ [0, safi]
  | .routeRefresh | .enhancedRouteRefresh | .routeRefreshCisco => []
  | .gracefulRestart flags time tuples => putUint16 (grWord flags time) ++ tuples.flatMap grTupleBytes
  | .fourOctetAs as => putUint32 as
  | .addPath tuples => tuples.flatMap addPathTupleBytes
  | .longLivedGracefulRestart tuples => tuples.flatMap llgrTupleBytes
  | .unknown _ value => value

/-- The capability on the wire: code, length, value. -/
def encode (c : CapSpec) : List UInt8 := [c.code, UInt8.ofNat c.value.length] ++ c.value

/-- The codes of the capabilities above; a capability of any other code has a value of its own. -/
def namedCodes : List UInt8 :=
  [bgpCapMultiprotocol, bgpCapRouteRefresh, bgpCapGracefulRestart, bgpCap4octetAsNumber,
    bgpCapAddPath, bgpCapEnhancedRouteRefresh, bgpCapLongLivedGracefulRestart,
    bgpCapRouteRefreshCisco]

/-- The bounds each RFC puts on the fields. -/
def FieldsInRange : CapSpec → Prop
  | .gracefulRestart flags time _ => flags.toNat < 2 ^ 4 ∧ time.toNat < 2 ^ 12
  | .addPath tuples => tuples ≠ []
  | .longLivedGracefulRestart tuples => ∀ t ∈ tuples, t.restartTime.toNat < 2 ^ 24
  | .unknown code _ => code ∉ namedCodes
  | _ => True

/-- A capability as its RFC writes it, with a value its length byte can count. -/
structure WellFormed (c : CapSpec) : Prop where
  fields : c.FieldsInRange
  value_length_le : c.value.length ≤ 255

/-- Whether the decoders take the capability: an ADD-PATH capability only with one tuple, and a
long-lived graceful restart capability never. -/
def accepted : CapSpec → Bool
  | .addPath tuples => tuples.length == 1
  | .longLivedGracefulRestart _ => false
  | _ => true

/-- The capability the decoders should make of the encoding: its header and value, and the
fields of the value. -/
def decoded (c : CapSpec) : CapabilityInterface :=
  let base : CapabilityBase := ⟨c.code, UInt8.ofNat c.value.length, c.value⟩
  match c with
  | .multiProtocol afi safi => .multiProtocol base (afiSafiValue afi safi)
  | .routeRefresh => .routeRefresh base
  | .enhancedRouteRefresh => .enhancedRouteRefresh base
  | .routeRefreshCisco => .routeRefreshCisco base
  | .gracefulRestart flags time tuples => .gracefulRestart base flags time tuples
  | .fourOctetAs as => .fourOctetAsNumber base as
  | .addPath tuples =>
    match tuples with
    | t :: _ => .addPath base (afiSafiValue t.afi t.safi) t.sendReceive
    | [] => .addPath base 0 0
  | .longLivedGracefulRestart tuples => .longLivedGracefulRestart base tuples
  | .unknown code _ =>
    if code = bgpCapCarryingLabelInfo then .carryingLabelInfo base else .unknown base

@[simp] lemma base_decoded (c : CapSpec) :
    c.decoded.base = ⟨c.code, UInt8.ofNat c.value.length, c.value⟩ := by
  cases c with
  | addPath tuples => cases tuples <;> rfl
  | unknown code value => dsimp only [decoded]; split <;> rfl
  | _ => rfl

@[simp] lemma length_encode (c : CapSpec) : c.encode.length = c.value.length + 2 := by
  simp only [encode, List.length_append, List.length_cons, List.length_nil]
  omega

/-- `Length()` of the decoded capability is the length of the encoding, when the encoding fits
in a capability parameter. -/
lemma length_decoded {c : CapSpec} (h : c.value.length + 2 < 2 ^ 8) :
    c.decoded.length = c.encode.length := by
  simp only [CapabilityInterface.length, base_decoded, length_encode, UInt8.toNat_add,
    UInt8.toNat_ofNat', UInt8.reduceToNat]
  omega

end CapSpec

/-! ### What the decoders make of each capability -/

/-- The header's length byte counts the value. -/
lemma toNat_ofNat_length {v : List UInt8} (hv : v.length ≤ 255) :
    (UInt8.ofNat v.length).toNat = v.length := by
  rw [UInt8.toNat_ofNat']
  omega

lemma CapabilityBase.decodeFromBytes_header (code : UInt8) {v : List UInt8} (hv : v.length ≤ 255)
    (rest : List UInt8) :
    CapabilityBase.decodeFromBytes ([code, UInt8.ofNat v.length] ++ v ++ rest) =
      .ok ⟨code, UInt8.ofNat v.length, v⟩ := by
  have hlen := toNat_ofNat_length hv
  have hdata : [code, UInt8.ofNat v.length] ++ v ++ rest = code :: UInt8.ofNat v.length :: (v ++ rest) :=
    rfl
  have hshort : ¬ (code :: UInt8.ofNat v.length :: (v ++ rest)).length < 2 := by simp
  have hroom : ¬ (code :: UInt8.ofNat v.length :: (v ++ rest)).length <
      (UInt8.ofNat v.length).toNat + 2 := by
    simp [hlen]
  -- the value is `data[2:totalLen]`, and an empty value is nil either way
  have hvalue : (if 0 < UInt8.ofNat v.length then
      ((code :: UInt8.ofNat v.length :: (v ++ rest)).drop 2).take (UInt8.ofNat v.length).toNat
      else []) = v := by
    split
    · simp [hlen]
    · rename_i hzero
      have h0 : v.length = 0 := by
        rw [UInt8.lt_iff_toNat_lt, hlen] at hzero
        simpa using hzero
      exact (List.eq_nil_of_length_eq_zero h0).symm
  rw [hdata, CapabilityBase.decodeFromBytes, if_neg hshort]
  dsimp only
  rw [List.getD_cons_zero, List.getD_cons_succ, List.getD_cons_zero, if_neg hroom, hvalue]

/-- The base decoder reads the header and value of every capability written as its RFC says. -/
lemma CapabilityBase.decodeFromBytes_encode {c : CapSpec} (hc : c.value.length ≤ 255)
    (rest : List UInt8) :
    CapabilityBase.decodeFromBytes (c.encode ++ rest) =
      .ok ⟨c.code, UInt8.ofNat c.value.length, c.value⟩ :=
  CapabilityBase.decodeFromBytes_header c.code hc rest

section Decoders

variable (rest : List UInt8)

lemma drop_two_encode (c : CapSpec) : (c.encode ++ rest).drop 2 = c.value ++ rest := rfl

/-- The values of the multiprotocol capability and of a one-tuple ADD-PATH capability: a word and
two octets, four octets in all. -/
lemma capLen_putUint16_pair (w : UInt16) (a b : UInt8) :
    UInt8.ofNat (putUint16 w ++ [a, b]).length = 4 := rfl

lemma not_length_lt_four (w : UInt16) (a b : UInt8) : ¬ (putUint16 w ++ [a, b] ++ rest).length < 4 := by
  simp only [List.length_append, length_putUint16, List.length_cons, List.length_nil]
  omega

lemma CapMultiProtocol.decodeFromBytes_encode (afi : UInt16) (safi : UInt8) :
    CapMultiProtocol.decodeFromBytes ((CapSpec.multiProtocol afi safi).encode ++ rest) =
      .ok (CapSpec.multiProtocol afi safi).decoded := by
  have hvalue : (CapSpec.multiProtocol afi safi).value = putUint16 afi ++ [0, safi] := rfl
  rw [CapMultiProtocol.decodeFromBytes, CapabilityBase.decodeFromBytes_encode (by simp [hvalue]),
    except_ok_bind, drop_two_encode, hvalue]
  dsimp only
  rw [capLen_putUint16_pair, if_neg (not_not_intro rfl), if_neg (not_length_lt_four rest _ _ _),
    List.append_assoc, beUint16_putUint16]
  rfl

lemma Cap4OctetAsNumber.decodeFromBytes_encode (as : UInt32) :
    Cap4OctetAsNumber.decodeFromBytes ((CapSpec.fourOctetAs as).encode ++ rest) =
      .ok (CapSpec.fourOctetAs as).decoded := by
  have hvalue : (CapSpec.fourOctetAs as).value = putUint32 as := rfl
  rw [Cap4OctetAsNumber.decodeFromBytes, CapabilityBase.decodeFromBytes_encode (by simp [hvalue]),
    except_ok_bind, drop_two_encode, hvalue]
  simp [CapSpec.decoded, CapSpec.value]

/-- The flags and time of a graceful restart word come back out of it. -/
lemma grWord_shiftRight {flags : UInt8} {time : UInt16} (hf : flags.toNat < 2 ^ 4)
    (ht : time.toNat < 2 ^ 12) : (CapSpec.grWord flags time >>> 12).toUInt8 = flags := by
  apply UInt8.toNat_inj.1
  rw [UInt16.toNat_toUInt8, UInt16.toNat_shiftRight, CapSpec.grWord, UInt16.toNat_ofNat',
    Nat.shiftRight_eq_div_pow]
  simp only [UInt16.reduceToNat, Nat.reduceMod, Nat.reducePow] at hf ht ⊢
  omega

lemma grWord_and (flags : UInt8) {time : UInt16} (ht : time.toNat < 2 ^ 12) :
    CapSpec.grWord flags time &&& 0xfff = time := by
  apply UInt16.toNat_inj.1
  have hmask : (0xfff : UInt16).toNat = 2 ^ 12 - 1 := rfl
  rw [UInt16.toNat_and, hmask, Nat.and_two_pow_sub_one_eq_mod, CapSpec.grWord, UInt16.toNat_ofNat']
  simp only [Nat.reducePow] at ht ⊢
  omega

lemma CapGracefulRestart.decodeFromBytes_encode {flags : UInt8} {time : UInt16}
    {tuples : List CapGracefulRestartTuple}
    (hc : (CapSpec.gracefulRestart flags time tuples).WellFormed) :
    CapGracefulRestart.decodeFromBytes ((CapSpec.gracefulRestart flags time tuples).encode ++ rest) =
      .ok (CapSpec.gracefulRestart flags time tuples).decoded := by
  obtain ⟨⟨hf, ht⟩, hlen⟩ := hc
  have hvalue : (CapSpec.gracefulRestart flags time tuples).value =
      putUint16 (CapSpec.grWord flags time) ++ tuples.flatMap grTupleBytes := rfl
  have htuples : (tuples.flatMap grTupleBytes).length = 4 * tuples.length :=
    length_flatMap_of_length_eq (fun t => (rfl : (grTupleBytes t).length = 4)) tuples
  have hvlen : (CapSpec.gracefulRestart flags time tuples).value.length = 2 + 4 * tuples.length := by
    rw [hvalue, List.length_append, length_putUint16, htuples]
  have hcap := toNat_ofNat_length hlen
  -- `remaining` counts the tuples' bytes exactly
  have hrem : ((UInt8.ofNat (CapSpec.gracefulRestart flags time tuples).value.length).toNat - 2 :
      Int) = ((4 * tuples.length : Nat) : Int) := by
    rw [hcap, hvlen]
    omega
  have hword : ¬ (putUint16 (CapSpec.grWord flags time) ++
      (tuples.flatMap grTupleBytes ++ rest)).length < 2 := by
    rw [List.length_append, length_putUint16]
    omega
  have hdrop : (putUint16 (CapSpec.grWord flags time) ++ (tuples.flatMap grTupleBytes ++ rest)).drop 2 =
      tuples.flatMap grTupleBytes ++ rest := List.drop_left' (length_putUint16 _)
  have hmod : ¬ ((4 * tuples.length : Nat) : Int).tmod 4 ≠ 0 := by
    rw [not_not, Int.tmod_eq_emod_of_nonneg (by omega)]
    omega
  have hroom : ¬ ((4 * tuples.length : Nat) : Int) > (tuples.flatMap grTupleBytes ++ rest).length := by
    rw [List.length_append, htuples]
    omega
  have hcount : (((4 * tuples.length : Nat) : Int).tdiv 4).toNat = tuples.length := by
    rw [Int.tdiv_eq_ediv_of_nonneg (by omega)]
    omega
  have hread : readRecords (fun d => (⟨beUint16 d 0, d.getD 2 0, d.getD 3 0⟩ : CapGracefulRestartTuple))
      4 tuples.length (tuples.flatMap grTupleBytes ++ rest) = tuples := by
    rw [readRecords_flatMap (f := id) (fun t => (rfl : (grTupleBytes t).length = 4))
      (fun t rest => by rw [grTupleBytes, List.append_assoc, beUint16_putUint16]; rfl),
      List.map_id]
  rw [CapGracefulRestart.decodeFromBytes, CapabilityBase.decodeFromBytes_encode hlen,
    except_ok_bind, drop_two_encode]
  dsimp only
  rw [hrem, hvalue, List.append_assoc, if_neg hword, beUint16_putUint16, hdrop, if_neg hmod,
    if_neg hroom, hcount, hread, grWord_shiftRight hf ht, grWord_and flags ht]
  rfl

/-- ADD-PATH is taken with one tuple and refused with more, whose length is not four. -/
lemma CapAddPath.decodeFromBytes_encode {tuples : List AddPathTuple}
    (hc : (CapSpec.addPath tuples).WellFormed) :
    CapAddPath.decodeFromBytes ((CapSpec.addPath tuples).encode ++ rest) =
      if tuples.length = 1 then .ok (CapSpec.addPath tuples).decoded
      else .error badMessageLength := by
  by_cases hone : tuples.length = 1
  · obtain ⟨t, rfl⟩ := List.length_eq_one_iff.1 hone
    have hvalue : (CapSpec.addPath [t]).value = putUint16 t.afi ++ [t.safi, t.sendReceive] := by
      simp [CapSpec.value, addPathTupleBytes]
    rw [if_pos hone, CapAddPath.decodeFromBytes, CapabilityBase.decodeFromBytes_encode
      hc.value_length_le, except_ok_bind, drop_two_encode, hvalue]
    dsimp only
    rw [capLen_putUint16_pair, if_neg (not_not_intro rfl), if_neg (not_length_lt_four rest _ _ _),
      List.append_assoc, beUint16_putUint16]
    rfl
  · have hvlen : (CapSpec.addPath tuples).value.length = 4 * tuples.length :=
      length_flatMap_of_length_eq (fun t => (rfl : (addPathTupleBytes t).length = 4)) tuples
    have hcap := toNat_ofNat_length hc.value_length_le
    have hfour : UInt8.ofNat (CapSpec.addPath tuples).value.length ≠ 4 := by
      intro h4
      have h4' := congrArg UInt8.toNat h4
      rw [hcap, hvlen] at h4'
      exact hone (by simp at h4'; omega)
    rw [if_neg hone, CapAddPath.decodeFromBytes, CapabilityBase.decodeFromBytes_encode
      hc.value_length_le, except_ok_bind]
    dsimp only
    rw [if_pos hfour]

/-- Every long-lived graceful restart capability is refused: `CapLen - 2` is never a multiple of
seven when `CapLen` is. -/
lemma CapLongLivedGracefulRestart.decodeFromBytes_encode
    {tuples : List CapLongLivedGracefulRestartTuple}
    (hc : (CapSpec.longLivedGracefulRestart tuples).WellFormed) :
    CapLongLivedGracefulRestart.decodeFromBytes
      ((CapSpec.longLivedGracefulRestart tuples).encode ++ rest) = .error badMessageLength := by
  have hvlen : (CapSpec.longLivedGracefulRestart tuples).value.length = 7 * tuples.length :=
    length_flatMap_of_length_eq (fun t => (rfl : (llgrTupleBytes t).length = 7)) tuples
  have hcap := toNat_ofNat_length hc.value_length_le
  have hmod : ((UInt8.ofNat (CapSpec.longLivedGracefulRestart tuples).value.length).toNat - 2 :
      Int).tmod 7 ≠ 0 := by
    rw [hcap, hvlen]
    rcases tuples.length with _ | n
    · decide
    · rw [Int.tmod_eq_emod_of_nonneg (by omega)]
      omega
  rw [CapLongLivedGracefulRestart.decodeFromBytes,
    CapabilityBase.decodeFromBytes_encode hc.value_length_le, except_ok_bind, drop_two_encode]
  dsimp only
  by_cases hshort : ((CapSpec.longLivedGracefulRestart tuples).value ++ rest).length < 2
  · rw [if_pos hshort]
  · rw [if_neg hshort, if_pos hmod]

end Decoders

/-- What `DecodeCapability` makes of a capability written as its RFC says: the capability with
all its fields when the decoders take it, and an error otherwise. -/
theorem decodeCapability_encode {c : CapSpec} (hc : c.WellFormed) (rest : List UInt8) :
    decodeCapability (c.encode ++ rest) =
      if c.accepted then .ok c.decoded else .error badMessageLength := by
  have hshort : ¬ (c.encode ++ rest).length < 2 := by
    rw [List.length_append, CapSpec.length_encode]
    omega
  have hcode : (c.encode ++ rest).getD 0 0 = c.code := rfl
  have hbase := CapabilityBase.decodeFromBytes_encode hc.value_length_le rest
  rw [decodeCapability, if_neg hshort, hcode]
  cases c with
  | multiProtocol afi safi => exact CapMultiProtocol.decodeFromBytes_encode rest afi safi
  | routeRefresh =>
    show (CapabilityInterface.routeRefresh <$> CapabilityBase.decodeFromBytes _) = _
    rw [hbase]
    rfl
  | enhancedRouteRefresh =>
    show (CapabilityInterface.enhancedRouteRefresh <$> CapabilityBase.decodeFromBytes _) = _
    rw [hbase]
    rfl
  | routeRefreshCisco =>
    show (CapabilityInterface.routeRefreshCisco <$> CapabilityBase.decodeFromBytes _) = _
    rw [hbase]
    rfl
  | gracefulRestart flags time tuples => exact CapGracefulRestart.decodeFromBytes_encode rest hc
  | fourOctetAs as => exact Cap4OctetAsNumber.decodeFromBytes_encode rest as
  | addPath tuples =>
    simp only [CapSpec.accepted, beq_iff_eq]
    exact CapAddPath.decodeFromBytes_encode rest hc
  | longLivedGracefulRestart tuples =>
    exact CapLongLivedGracefulRestart.decodeFromBytes_encode rest hc
  | unknown code value =>
    -- a code none of the named decoders takes: only `CapCarryingLabelInfo` is left
    have hnamed : code ∉ CapSpec.namedCodes := hc.fields
    simp only [CapSpec.namedCodes, List.mem_cons, List.not_mem_nil, or_false, not_or] at hnamed
    obtain ⟨h1, h2, h64, h65, h69, h70, h71, h128⟩ := hnamed
    by_cases h4 : code = bgpCapCarryingLabelInfo
    · subst h4
      show (CapabilityInterface.carryingLabelInfo <$> CapabilityBase.decodeFromBytes _) = _
      rw [hbase]
      rfl
    · simp [decoderFor, hbase, CapSpec.decoded, CapSpec.accepted, CapSpec.code, h1, h2, h4, h64,
        h65, h69, h70, h71, h128]

end Zebra.Bgp
