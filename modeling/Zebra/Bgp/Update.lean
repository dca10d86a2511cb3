import Zebra.Bgp.Capability
import Zebra.Netutil.Prefix
import Zebra.Policy.ASPath

/-!
# The BGP UPDATE message

`BgpUpdate.DecodeFromBytes` reads the withdrawn routes, the path attributes and the NLRI of an
UPDATE.  Each attribute is read by the decoder `NewAttrByType` picks by its type byte; every one
starts with `AttrBase.DecodeFromBytes`, which reads the flags, the type, a length of one or two
bytes and the value, and then checks the value's length and reads its fields.
-/

namespace Zebra.Bgp

open Zebra.Lib Zebra.Netutil Zebra.Policy

/-! ### Constants -/

/-- `BGP_ERR_UPDATE_MESSAGE_ERROR`. -/
def bgpErrUpdateMessageError : UInt8 := 3
/-- `BGP_ERR_SUB_MALFORMED_ATTRIBUTE_LIST`. -/
def bgpErrSubMalformedAttributeList : UInt8 := 1
/-- `BGP_ERR_SUB_ATTRIBUTE_LENGTH_ERROR`. -/
def bgpErrSubAttributeLengthError : UInt8 := 5
/-- `BGP_ERR_SUB_MALFORMED_AS_PATH`. -/
def bgpErrSubMalformedAsPath : UInt8 := 11

/-- The error of `BgpUpdate.DecodeFromBytes`'s own checks. -/
def malformedAttributeList : BgpError := ⟨bgpErrUpdateMessageError, bgpErrSubMalformedAttributeList⟩

/-- The error of the attribute decoders' checks. -/
def attributeLengthError : BgpError := ⟨bgpErrUpdateMessageError, bgpErrSubAttributeLengthError⟩

/-- The error of `As4Segment.DecodeFromBytes`. -/
def malformedAsPath : BgpError := ⟨bgpErrUpdateMessageError, bgpErrSubMalformedAsPath⟩

/-- `BGP_ATTR_FLAG_EXTENDED_LENGTH`. -/
def bgpAttrFlagExtendedLength : UInt8 := (1 : UInt8) <<< 4

/-- `BGP_ATTR_TYPE_ORIGIN`. -/
def bgpAttrTypeOrigin : UInt8 := 1
/-- `BGP_ATTR_TYPE_AS_PATH`. -/
def bgpAttrTypeAsPath : UInt8 := 2
/-- `BGP_ATTR_TYPE_NEXT_HOP`. -/
def bgpAttrTypeNextHop : UInt8 := 3
/-- `BGP_ATTR_TYPE_MED`. -/
def bgpAttrTypeMed : UInt8 := 4
/-- `BGP_ATTR_TYPE_LOCAL_PREF`. -/
def bgpAttrTypeLocalPref : UInt8 := 5
/-- `BGP_ATTR_TYPE_ATOMIC_AGGREGATE`. -/
def bgpAttrTypeAtomicAggregate : UInt8 := 6
/-- `BGP_ATTR_TYPE_AGGREGATOR`. -/
def bgpAttrTypeAggregator : UInt8 := 7
/-- `BGP_ATTR_TYPE_COMMUNITIES`. -/
def bgpAttrTypeCommunities : UInt8 := 8
/-- `BGP_ATTR_TYPE_ORIGINATOR_ID`. -/
def bgpAttrTypeOriginatorId : UInt8 := 9
/-- `BGP_ATTR_TYPE_CLUSTER_LIST`. -/
def bgpAttrTypeClusterList : UInt8 := 10
/-- `BGP_ATTR_TYPE_PREFIX_SID`. -/
def bgpAttrTypePrefixSid : UInt8 := 40

/-- `PREFIX_SID_TYPE_LABEL_INDEX`. -/
def prefixSidTypeLabelIndex : UInt8 := 1
/-- `PREFIX_SID_TYPE_IPV6_TLV`. -/
def prefixSidTypeIpv6Tlv : UInt8 := 2
/-- `PREFIX_SID_TYPE_ORIGINATOR_SRGB_TLV`. -/
def prefixSidTypeOriginatorSrgbTlv : UInt8 := 3
/-- `PREFIX_SID_TYPE_SRV6_VPN_SID_TLV`. -/
def prefixSidTypeSrv6VpnSidTlv : UInt8 := 4

/-- `BGPAttrFlag.IsExtendedLength`. -/
def isExtendedLength (flags : UInt8) : Bool := flags &&& bgpAttrFlagExtendedLength != 0

/-! ### Attributes -/

/-- `AttrBase`. -/
structure AttrBase where
  flags : UInt8
  type : UInt8
  length : UInt16
  value : List UInt8
deriving DecidableEq, Repr

/-- `AttrBase.TotalLength`: the header and the value, the sum taken in sixteen bits. -/
def AttrBase.totalLength (attr : AttrBase) : Nat :=
  if isExtendedLength attr.flags then (attr.length + 2 + 2).toNat else (attr.length + 2 + 1).toNat

/-- `AttrBase.DecodeFromBytes`: the flags, the type, the length, two bytes with the
extended-length flag and one without, and the value, which must all be in the data. -/
def AttrBase.decodeFromBytes (data : List UInt8) : Except BgpError AttrBase :=
  if data.length < 2 then .error attributeLengthError
  else
    let flags := data.getD 0 0
    let type := data.getD 1 0
    let data := data.drop 2
    let field : Nat × UInt16 :=
      if isExtendedLength flags then (2, beUint16 data 0) else (1, (data.getD 0 0).toUInt16)
    if data.length < field.1 then .error attributeLengthError
    else
      let length := field.2
      let data := data.drop field.1
      if data.length < length.toNat then .error attributeLengthError
      -- `Value` stays nil for an empty value
      else .ok ⟨flags, type, length, if 0 < length then data.take length.toNat else []⟩

/-- The TLV types `DecodeTlv` makes.  Their `DecodeFromBytes` methods take the receiver by value,
so what they set is lost with the copy: every TLV keeps its zero value, its kind is all there is
of it, and its `Length()` is zero. -/
inductive TlvInterface
  | labelIndex
  | ipv6
  | originatorSrgb
  | srv6VpnSid
  | base
deriving DecidableEq, Repr

/-- `AttrInterface`: the attribute types `NewAttrByType` makes, each with the fields its decoder
sets.  `AttrOrigin` and `AttrUnknown` decode as `AttrBase` does. -/
inductive AttrInterface
  | origin (base : AttrBase)
  | asPath (base : AttrBase) (asPath : List As4Segment)
  | nexthop (base : AttrBase) (nexthop : List UInt8)
  | med (base : AttrBase) (med : UInt32)
  | localPref (base : AttrBase) (localPref : UInt32)
  | atomicAggregate (base : AttrBase)
  | aggregator (base : AttrBase) (as : UInt32) (address : List UInt8)
  | community (base : AttrBase) (community : List UInt32)
  | originatorId (base : AttrBase) (routerId : List UInt8)
  | clusterList (base : AttrBase) (clusterList : List (List UInt8))
  | prefixSid (base : AttrBase) (tlvs : List TlvInterface)
  | unknown (base : AttrBase)
deriving DecidableEq, Repr

namespace AttrInterface

/-- The embedded `AttrBase`. -/
def base : AttrInterface → AttrBase
  | .origin b | .asPath b _ | .nexthop b _ | .med b _ | .localPref b _ | .atomicAggregate b
  | .aggregator b _ _ | .community b _ | .originatorId b _ | .clusterList b _ | .prefixSid b _
  | .unknown b => b

/-- `TotalLength()`. -/
def totalLength (attr : AttrInterface) : Nat := attr.base.totalLength

/-- An ORIGIN with an empty value, on which `AttrOrigin.String`, and with it `MarshalJSON`, reads
`attr.Value[0]` and panics. -/
def emptyOrigin : AttrInterface → Bool
  | .origin b => b.value.isEmpty
  | _ => false

end AttrInterface

/-- The typed decoders past `AttrBase.DecodeFromBytes`: a check of the value's length, and the
fields read off the attribute.  `data` is the attribute's own bytes, from its flags on. -/
def AttrBase.decodeChecked (lengthOk : Nat → Bool) (fields : AttrBase → List UInt8 → AttrInterface)
    (data : List UInt8) : Except BgpError AttrInterface := do
  let base ← AttrBase.decodeFromBytes data
  if lengthOk base.value.length then .ok (fields base data) else .error attributeLengthError

/-- `AttrNexthop.DecodeFromBytes`: an address of four or sixteen bytes. -/
def AttrNexthop.decodeFromBytes : List UInt8 → Except BgpError AttrInterface :=
  AttrBase.decodeChecked (fun n => n == 4 || n == 16) fun base _ => .nexthop base base.value

/-- `AttrMed.DecodeFromBytes`: a value of four bytes; the MED is read from `data`, the attribute's
bytes from its flags on, and not from the value. -/
def AttrMed.decodeFromBytes : List UInt8 → Except BgpError AttrInterface :=
  AttrBase.decodeChecked (· == 4) fun base data => .med base (beUint32 data 0)

/-- `AttrLocalPref.DecodeFromBytes`: as `AttrMed.DecodeFromBytes`, the value read from `data`. -/
def AttrLocalPref.decodeFromBytes : List UInt8 → Except BgpError AttrInterface :=
  AttrBase.decodeChecked (· == 4) fun base data => .localPref base (beUint32 data 0)

/-- `AttrAtomicAggregate.DecodeFromBytes`: an empty value. -/
def AttrAtomicAggregate.decodeFromBytes : List UInt8 → Except BgpError AttrInterface :=
  AttrBase.decodeChecked (· == 0) fun base _ => .atomicAggregate base

/-- `AttrAggregator.DecodeFromBytes`: a two-octet AS and an address in six bytes, or a four-octet
AS and an address in eight. -/
def AttrAggregator.decodeFromBytes : List UInt8 → Except BgpError AttrInterface :=
  AttrBase.decodeChecked (fun n => n == 6 || n == 8) fun base _ =>
    if base.value.length = 6 then .aggregator base (beUint16 base.value 0).toUInt32 (base.value.drop 2)
    else .aggregator base (beUint32 base.value 0) (base.value.drop 4)

/-- `AttrCommunity.DecodeFromBytes`: a multiple of four bytes, one community in each four. -/
def AttrCommunity.decodeFromBytes : List UInt8 → Except BgpError AttrInterface :=
  AttrBase.decodeChecked (· % 4 == 0) fun base _ =>
    .community base (readRecords (beUint32 · 0) 4 (base.value.length / 4) base.value)

/-- `AttrOriginatorId.DecodeFromBytes`: an identifier of four or sixteen bytes. -/
def AttrOriginatorId.decodeFromBytes : List UInt8 → Except BgpError AttrInterface :=
  AttrBase.decodeChecked (fun n => n == 4 || n == 16) fun base _ => .originatorId base base.value

/-- `AttrClusterList.DecodeFromBytes`: a multiple of four bytes, one cluster id in each four. -/
def AttrClusterList.decodeFromBytes : List UInt8 → Except BgpError AttrInterface :=
  AttrBase.decodeChecked (· % 4 == 0) fun base _ =>
    .clusterList base (readRecords (·.take 4) 4 (base.value.length / 4) base.value)

/-- `As4Segment.DecodeFromBytes` of the `bgp` package: the type, which must be `AS_SET` to
`AS_CONFED_SET`, the count, and as many four-octet AS numbers.  The room the numbers need,
`seg.Length*4`, is an eight-bit product: for a count of 64 or more the check can pass on too few
bytes, and a read past the end panics. -/
def As4Segment.decodeFromBytes (data : List UInt8) : Option (Except BgpError As4Segment) :=
  if data.length < 2 then some (.error malformedAsPath)
  else
    let typ := data.getD 0 0
    if typ < asSet ∨ typ > asConfedSet then some (.error malformedAsPath)
    else
      let length := data.getD 1 0
      let data := data.drop 2
      if data.length < (length * 4).toNat then some (.error malformedAsPath)
      else (readAs4 length.toNat data).map fun r => .ok ⟨typ, length, r.1⟩

/-- `As4Segment.EncodeLength`: `2 + Length*4`, taken in eight bits. -/
def As4Segment.encodeLength (seg : As4Segment) : Nat := (2 + seg.length * 4).toNat

/-- The loop of `AttrAsPath.DecodeFromBytes`: segments one after the other until the value is used
up, where `v[seg.EncodeLength():]` panics when the length passes the end.  `fuel` bounds the
passes; each consumes two bytes at least. -/
def decodeAsSegments : Nat → List UInt8 → Option (Except BgpError (List As4Segment))
  | 0, _ => none
  | fuel + 1, v =>
    if v.length = 0 then some (.ok [])
    else
      match As4Segment.decodeFromBytes v with
      | none => none
      | some (.error e) => some (.error e)
      | some (.ok seg) =>
        if v.length < As4Segment.encodeLength seg then none
        else (decodeAsSegments fuel (v.drop (As4Segment.encodeLength seg))).map
          (Except.map (seg :: ·))

/-- `AttrAsPath.DecodeFromBytes`: the segments of the value. -/
def AttrAsPath.decodeFromBytes (data : List UInt8) : Option (Except BgpError AttrInterface) :=
  match AttrBase.decodeFromBytes data with
  | .error e => some (.error e)
  | .ok base => (decodeAsSegments (base.value.length + 1) base.value).map (Except.map (.asPath base))

/-- `TlvBase.DecodeFromBytes`: the length in bytes 1 and 2 must fit the data, and the value
`data[3:(TlvLength - 3)]`, whose end is a sixteen-bit difference, panics unless it lies in the
data. -/
def TlvBase.decodeFromBytes (data : List UInt8) : Option (Except BgpError Unit) :=
  if data.length < 3 then none
  else
    let tlvLength := beUint16 data 1
    if data.length < tlvLength.toNat then some (.error attributeLengthError)
    else if (tlvLength - 3).toNat < 3 ∨ data.length < (tlvLength - 3).toNat then none
    else some (.ok ())

/-- The `DecodeFromBytes` of the TLVs with fields: nil when `TlvBase.DecodeFromBytes` fails, and
otherwise the length check on the receiver's own `TlvLength`, which stays zero. -/
def TlvBase.decodeChecked (lengthBad : UInt16 → Bool) (data : List UInt8) :
    Option (Except BgpError Unit) :=
  (TlvBase.decodeFromBytes data).map fun
    | .error _ => .ok ()
    | .ok () => if lengthBad 0 then .error attributeLengthError else .ok ()

/-- `LabelIndexTlv.DecodeFromBytes`. -/
def LabelIndexTlv.decodeFromBytes : List UInt8 → Option (Except BgpError Unit) :=
  TlvBase.decodeChecked (· != 7)

/-- `Ipv6Tlv.DecodeFromBytes`. -/
def Ipv6Tlv.decodeFromBytes : List UInt8 → Option (Except BgpError Unit) :=
  TlvBase.decodeChecked (· != 3)

/-- `OriginatorSrbgTlv.DecodeFromBytes`. -/
def OriginatorSrbgTlv.decodeFromBytes : List UInt8 → Option (Except BgpError Unit) :=
  TlvBase.decodeChecked fun l => l < 2 || (l - 2) % 6 != 0

/-- `Srv6VpnSidTlv.DecodeFromBytes`. -/
def Srv6VpnSidTlv.decodeFromBytes : List UInt8 → Option (Except BgpError Unit) :=
  TlvBase.decodeChecked fun l => l < 1 || (l - 1) % 17 != 0

/-- `DecodeTlv`: the TLV type by the first byte, and its decoder. -/
def decodeTlv (data : List UInt8) : Option (Except BgpError TlvInterface) :=
  if data.length < 3 then some (.error attributeLengthError)
  else
    let typ := data.getD 0 0
    let tlv : TlvInterface × (List UInt8 → Option (Except BgpError Unit)) :=
      if typ = prefixSidTypeLabelIndex then (.labelIndex, LabelIndexTlv.decodeFromBytes)
      else if typ = prefixSidTypeIpv6Tlv then (.ipv6, Ipv6Tlv.decodeFromBytes)
      else if typ = prefixSidTypeOriginatorSrgbTlv then (.originatorSrgb, OriginatorSrbgTlv.decodeFromBytes)
      else if typ = prefixSidTypeSrv6VpnSidTlv then (.srv6VpnSid, Srv6VpnSidTlv.decodeFromBytes)
      else (.base, TlvBase.decodeFromBytes)
    (tlv.2 data).map (Except.map fun _ => tlv.1)

/-- `AttrPrefixSid.DecodeFromBytes`.  Its loop runs while `attr.Value`, which it never changes, is
not empty, and decodes a TLV from `data`, the attribute's bytes and all after them, advanced by the
TLV's `Length()`, zero: it ends only on an error, and a TLV it decodes it decodes again forever
(`none`, as for a panic). -/
def AttrPrefixSid.decodeFromBytes (data : List UInt8) : Option (Except BgpError AttrInterface) :=
  match AttrBase.decodeFromBytes data with
  | .error e => some (.error e)
  | .ok base =>
    if base.value.isEmpty then some (.ok (.prefixSid base []))
    else
      match decodeTlv data with
      | some (.error e) => some (.error e)
      | _ => none

/-- `NewAttrByType` on the type byte, then the `DecodeFromBytes` of the attribute it makes. -/
def decodeAttr (data : List UInt8) : Option (Except BgpError AttrInterface) :=
  let typ := data.getD 1 0
  if typ = bgpAttrTypeOrigin then some (.origin <$> AttrBase.decodeFromBytes data)
  else if typ = bgpAttrTypeAsPath then AttrAsPath.decodeFromBytes data
  else if typ = bgpAttrTypeNextHop then some (AttrNexthop.decodeFromBytes data)
  else if typ = bgpAttrTypeMed then some (AttrMed.decodeFromBytes data)
  else if typ = bgpAttrTypeLocalPref then some (AttrLocalPref.decodeFromBytes data)
  else if typ = bgpAttrTypeAtomicAggregate then some (AttrAtomicAggregate.decodeFromBytes data)
  else if typ = bgpAttrTypeAggregator then some (AttrAggregator.decodeFromBytes data)
  else if typ = bgpAttrTypeCommunities then some (AttrCommunity.decodeFromBytes data)
  else if typ = bgpAttrTypeOriginatorId then some (AttrOriginatorId.decodeFromBytes data)
  else if typ = bgpAttrTypeClusterList then some (AttrClusterList.decodeFromBytes data)
  else if typ = bgpAttrTypePrefixSid then AttrPrefixSid.decodeFromBytes data
  else some (.unknown <$> AttrBase.decodeFromBytes data)

/-! ### The message -/

/-- `PrefixNLRI.DecodeFromBytes`: the prefix length, and `ByteLength()` bytes of address copied
into four.  Its two checks build an error and drop it, so a missing length byte or too few address
bytes panic on the read after the check. -/
def PrefixNLRI.decodeFromBytes : List UInt8 → Option Prefix
  | [] => none
  | len :: data =>
    -- the length is a byte, so `ByteLength()` is not negative
    let byteLen := (Prefix.byteLength ⟨[], len.toNat⟩).toNat
    if data.length < byteLen then none
    else some (Prefix.fromKey 4 (data.take byteLen) len.toNat)

/-- `PrefixNLRI.TotalLength`. -/
def PrefixNLRI.totalLength (p : Prefix) : Int := p.byteLength + 1

/-- The loops of `BgpUpdate.DecodeFromBytes` over prefixes: while `remaining`, an `int`, is
positive, a prefix, and `remaining` and the data both less its `TotalLength()`.  `fuel` bounds the
passes; each consumes a byte at least. -/
def decodePrefixes : Nat → Int → List UInt8 → Option (List Prefix × List UInt8)
  | 0, _, _ => none
  | fuel + 1, remaining, data =>
    if remaining ≤ 0 then some ([], data)
    else do
      let p ← PrefixNLRI.decodeFromBytes data
      let r ← decodePrefixes fuel (remaining - PrefixNLRI.totalLength p)
        (data.drop (PrefixNLRI.totalLength p).toNat)
      pure (p :: r.1, r.2)

/-- The loop of `BgpUpdate.DecodeFromBytes` over the attributes: while `remaining` is positive, an
attribute, and `remaining` and the data both less its `TotalLength()`, where the slice panics past
the end.  A `TotalLength()` of zero, a sixteen-bit sum that wrapped, loops forever.  `fuel` bounds
the passes. -/
def decodeAttrs : Nat → Int → List UInt8 → Option (Except BgpError (List AttrInterface × List UInt8))
  | 0, _, _ => none
  | fuel + 1, remaining, data =>
    if remaining ≤ 0 then some (.ok ([], data))
    else if data.length < 2 then some (.error malformedAttributeList)
    else
      match decodeAttr data with
      | none => none
      | some (.error e) => some (.error e)
      | some (.ok attr) =>
        if data.length < attr.totalLength then none
        else (decodeAttrs fuel (remaining - attr.totalLength) (data.drop attr.totalLength)).map
          (Except.map fun r => (attr :: r.1, r.2))

/-- `BgpUpdate`, with its withdrawn routes and NLRI as prefixes. -/
structure BgpUpdate where
  withdrawLen : UInt16
  withdraws : List Prefix
  totalAttrLen : UInt16
  attrs : List AttrInterface
  nlri : List Prefix
deriving DecidableEq, Repr

/-- `BgpUpdate.DecodeFromBytes` on the new `BgpUpdate` of `ParseBgpBody`: the withdrawn routes in
their length, the attributes in theirs, and the NLRI in the rest.  Between the attributes and the
NLRI the message is marshalled to JSON for printing, which panics on an ORIGIN with an empty
value. -/
def BgpUpdate.decodeFromBytes (data : List UInt8) : Option (Except BgpError BgpUpdate) :=
  if data.length < 2 then some (.error malformedAttributeList)
  else
    let withdrawLen := beUint16 data 0
    let data := data.drop 2
    if data.length < withdrawLen.toNat then some (.error malformedAttributeList)
    else do
      let (withdraws, data) ← decodePrefixes (data.length + 1) withdrawLen.toNat data
      if data.length < 2 then some (.error malformedAttributeList)
      else
        let totalAttrLen := beUint16 data 0
        let data := data.drop 2
        if data.length < totalAttrLen.toNat then some (.error malformedAttributeList)
        else
          match decodeAttrs (data.length + 1) totalAttrLen.toNat data with
          | none => none
          | some (.error e) => some (.error e)
          | some (.ok (attrs, data)) =>
            if attrs.any AttrInterface.emptyOrigin then none
            else (decodePrefixes (data.length + 1) data.length data).map fun r =>
              .ok ⟨withdrawLen, withdraws, totalAttrLen, attrs, r.1⟩

end Zebra.Bgp
