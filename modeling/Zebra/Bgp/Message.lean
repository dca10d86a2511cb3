import Zebra.Bgp.Open
import Zebra.Bgp.Update
import Zebra.Bgp.Fsm

/-!
# BGP messages on the wire

A message is a header of nineteen bytes, a marker of sixteen 0xff bytes, the message's length and
its type, followed by the body.  `BgpHeader.DecodeFromBytes` checks the marker, the length and the
type; `ParseBgpBody` runs the decoder of the body the type names.  On the sending side
`BgpMessage.Serialize` writes the body and puts its length in the header; the messages the
speaker sends are made by `NewBgpOpenMsg`, `NewBgpKeepAliveMsg` and `NewBgpNotificationMsg`.
-/

namespace Zebra.Bgp

open Zebra.Lib

/-! ### Constants -/

/-- `BGP_MARKER_LEN`. -/
def bgpMarkerLen : Nat := 16
/-- `BGP_HEADER_LEN`. -/
def bgpHeaderLen : Nat := 19
/-- `BGP_MAX_PACKET_LEN`. -/
def bgpMaxPacketLen : Nat := 4096

/-- `BGP_MSG_OPEN`. -/
def bgpMsgOpen : UInt8 := 1
/-- `BGP_MSG_UPDATE`. -/
def bgpMsgUpdate : UInt8 := 2
/-- `BGP_MSG_NOTIFICATION`. -/
def bgpMsgNotification : UInt8 := 3
/-- `BGP_MSG_KEEPALIVE`. -/
def bgpMsgKeepalive : UInt8 := 4
/-- `BGP_MSG_ROUTE_REFRESH`. -/
def bgpMsgRouteRefresh : UInt8 := 5
/-- `BGP_MSG_CAPABILITY`. -/
def bgpMsgCapability : UInt8 := 6
/-- `BGP_MSG_ROUTE_REFRESH_OLD`. -/
def bgpMsgRouteRefreshOld : UInt8 := 128

/-- `BGP_ERR_SUB_CONNECTION_NOT_SYNCHRONIZED`. -/
def bgpErrSubConnectionNotSynchronized : UInt8 := 1
/-- `BGP_ERR_SUB_BAD_MESSAGE_TYPE`. -/
def bgpErrSubBadMessageType : UInt8 := 3

/-- `AS_TRANS`. -/
def asTrans : UInt16 := 23456
/-- `RESTART_FLAG`. -/
def restartFlag : UInt8 := 0x08
/-- `FORWARDING_PRESERVED_FLAG`. -/
def forwardingPreservedFlag : UInt8 := 0xf0
/-- `GR_RESTART_TIME`. -/
def grRestartTimeDefault : Int := 120

/-! ### The header -/

/-- `BgpHeader`.  `Marker` is neither read by `DecodeFromBytes` nor written by `Serialize`, which
both work on the bytes. -/
structure BgpHeader where
  len : UInt16
  type : UInt8
deriving DecidableEq, Repr

/-- The message types `BgpHeader.DecodeFromBytes` takes. -/
def bgpMsgTypes : List UInt8 :=
  [bgpMsgOpen, bgpMsgUpdate, bgpMsgNotification, bgpMsgKeepalive, bgpMsgRouteRefresh,
    bgpMsgCapability, bgpMsgRouteRefreshOld]

/-- `BgpHeader.DecodeFromBytes`: the header's bytes, a marker of sixteen 0xff bytes, a length
that counts the header at least, and one of the message types; a KEEPALIVE is the header alone. -/
def BgpHeader.decodeFromBytes (data : List UInt8) : Except BgpError BgpHeader :=
  if data.length < bgpHeaderLen then .error badMessageLength
  else if (data.take bgpMarkerLen).any (· != 0xff) then
    .error ⟨bgpErrMsgHeaderError, bgpErrSubConnectionNotSynchronized⟩
  else
    let len := beUint16 data 16
    if len.toNat < bgpHeaderLen then .error badMessageLength
    else
      let type := data.getD 18 0
      if type = bgpMsgKeepalive ∧ len.toNat ≠ bgpHeaderLen then .error badMessageLength
      else if type ∈ bgpMsgTypes then .ok ⟨len, type⟩
      else .error ⟨bgpErrMsgHeaderError, bgpErrSubBadMessageType⟩

/-- `BgpHeader.Serialize`: the marker, the length and the type. -/
def BgpHeader.serialize (h : BgpHeader) : List UInt8 :=
  List.replicate bgpMarkerLen 0xff ++ putUint16 h.len ++ [h.type]

/-! ### The bodies -/

/-- `BgpNotification`.  `Message`, which `NewBgpError` always leaves empty, is read only by
`Error()`. -/
structure BgpNotification where
  code : UInt8
  subCode : UInt8
  data : List UInt8
deriving DecidableEq, Repr

/-- The notification `NewBgpError` makes of a decoder's error: no data. -/
def BgpError.notification (e : BgpError) : BgpNotification := ⟨e.code, e.subCode, []⟩

/-- `BgpNotification.DecodeFromBytes`: the code, the subcode and the data after them.  Its comment
leaves the minimum length to `BgpHeader.DecodeFromBytes`, which does not check it: a body of fewer
than two bytes panics. -/
def BgpNotification.decodeFromBytes (data : List UInt8) : Option BgpNotification :=
  match data with
  | code :: subCode :: rest => some ⟨code, subCode, if 2 < data.length then rest else []⟩
  | _ => none

/-- `BgpNotification.Serialize`. -/
def BgpNotification.serialize (n : BgpNotification) : List UInt8 := [n.code, n.subCode] ++ n.data

/-- `BgpRouteRefresh`. -/
structure BgpRouteRefresh where
  afi : UInt16
  demarcation : UInt8
  safi : UInt8
deriving DecidableEq, Repr

/-- `BgpRouteRefresh.DecodeFromBytes`. -/
def BgpRouteRefresh.decodeFromBytes (data : List UInt8) : Except BgpError BgpRouteRefresh :=
  if data.length < 4 then .error badMessageLength
  else .ok ⟨beUint16 data 0, data.getD 2 0, data.getD 3 0⟩

/-- `BgpRouteRefresh.Serialize`. -/
def BgpRouteRefresh.serialize (r : BgpRouteRefresh) : List UInt8 :=
  putUint16 r.afi ++ [r.demarcation, r.safi]

/-! ### Writing an OPEN -/

/-- `CapabilityBase.Serialize`: the code, `CapLen` set to the value's length in eight bits, and
the value. -/
def CapabilityBase.serialize (c : CapabilityBase) : List UInt8 :=
  [c.capCode, UInt8.ofNat c.capValue.length] ++ c.capValue

/-- The `Serialize` of each capability type.  `CapMultiProtocol`, `CapRouteRefresh`,
`CapGracefulRestart` and `Cap4OctetAsNumber` set the code, and all but `CapRouteRefresh` the value,
from their fields, and call `CapabilityBase.Serialize`; the others have only the promoted
`CapabilityBase.Serialize`. -/
def CapabilityInterface.serialize : CapabilityInterface → List UInt8
  | .multiProtocol b afiSafi =>
    CapabilityBase.serialize { b with capCode := bgpCapMultiprotocol, capValue := putUint32 afiSafi }
  | .routeRefresh b => CapabilityBase.serialize { b with capCode := bgpCapRouteRefresh }
  | .gracefulRestart b flags time tuples =>
    -- `val := uint16(c.Flags) << 12 | c.Time`
    CapabilityBase.serialize { b with
      capCode := bgpCapGracefulRestart,
      capValue := putUint16 (flags.toUInt16 <<< 12 ||| time) ++ tuples.flatMap grTupleBytes }
  | .fourOctetAsNumber b as =>
    CapabilityBase.serialize { b with capCode := bgpCap4octetAsNumber, capValue := putUint32 as }
  | c => CapabilityBase.serialize c.base

/-- `OptParamCapability`, as `NewBgpOpenMsg` fills it.  `OptParamLen` is only written, by
`Serialize`. -/
structure OptParamCapability where
  optParamType : UInt8
  optCaps : List CapabilityInterface
deriving DecidableEq, Repr

/-- `OptParamCapability.Serialize`: the type, the capabilities' length in eight bits, and the
capabilities. -/
def OptParamCapability.serialize (o : OptParamCapability) : List UInt8 :=
  let caps := o.optCaps.flatMap CapabilityInterface.serialize
  [o.optParamType, UInt8.ofNat caps.length] ++ caps

/-- `BgpOpen` as `NewBgpOpenMsg` fills it to be written: its optional parameters are
`OptParamCapability` values, the one kind whose `Serialize` writes anything. -/
structure BgpOpen.Out where
  version : UInt8
  as : UInt32
  holdTime : UInt16
  routerId : List UInt8
  optParams : List OptParamCapability
deriving DecidableEq, Repr

/-- `BgpOpen.Serialize` on the fixed fields and the bytes of the optional parameters: an AS past
sixteen bits is written as `AS_TRANS`, `copy(buf[5:9], msg.RouterId)` copies at most four bytes of
the identifier and leaves zeros where it is shorter, and the parameters' length is taken in eight
bits. -/
def openSerialize (version : UInt8) (as : UInt32) (holdTime : UInt16) (routerId obuf : List UInt8) :
    List UInt8 :=
  let as16 : UInt16 := if as ≤ 65535 then as.toUInt16 else asTrans
  [version] ++ putUint16 as16 ++ putUint16 holdTime ++ (Netutil.Prefix.fromKey 4 routerId 0).ip ++
    [UInt8.ofNat obuf.length] ++ obuf

/-- `BgpOpen.Serialize` of an OPEN the decoder made: the `Serialize` of `Capability` and of
`OptParamUnknown` return nil. -/
def BgpOpen.serialize (msg : BgpOpen) : List UInt8 :=
  openSerialize msg.version msg.as msg.holdTime msg.routerId []

/-- `BgpOpen.Serialize` of an OPEN of `NewBgpOpenMsg`. -/
def BgpOpen.Out.serialize (msg : BgpOpen.Out) : List UInt8 :=
  openSerialize msg.version msg.as msg.holdTime msg.routerId
    (msg.optParams.flatMap OptParamCapability.serialize)

/-! ### Messages -/

/-- `BgpBody`: the message bodies.  An OPEN is read as a `BgpOpen`, with the optional parameters
the decoder makes, and written from a `BgpOpen.Out`. -/
inductive BgpBody
  | openIn (o : BgpOpen)
  | openOut (o : BgpOpen.Out)
  | update (u : BgpUpdate)
  | notification (n : BgpNotification)
  | keepAlive
  | routeRefresh (r : BgpRouteRefresh)
  | capability
deriving DecidableEq, Repr

/-- The `Serialize` of each body; those of `BgpUpdate` and `BgpCapability` return nil. -/
def BgpBody.serialize : BgpBody → List UInt8
  | .openIn o => o.serialize
  | .openOut o => o.serialize
  | .update _ => []
  | .notification n => n.serialize
  | .keepAlive => []
  | .routeRefresh r => r.serialize
  | .capability => []

/-- `BgpMessage`. -/
structure BgpMessage where
  header : BgpHeader
  body : BgpBody
deriving DecidableEq, Repr

/-- `BgpMessage.Serialize`: the body, then the header, with the message's length put in where its
`Len` is zero.  Past `BGP_MAX_PACKET_LEN` it returns `nil, err` with the `err` of the body's
`Serialize`, which is nil: no bytes, and no error. -/
def BgpMessage.serialize (msg : BgpMessage) : List UInt8 :=
  let body := msg.body.serialize
  if msg.header.len = 0 ∧ bgpMaxPacketLen < body.length + bgpHeaderLen then []
  else
    let header :=
      if msg.header.len = 0 then { msg.header with len := UInt16.ofNat (body.length + bgpHeaderLen) }
      else msg.header
    header.serialize ++ body

/-- `ParseBgpBody`: the body the header's type names, and its `DecodeFromBytes`.  `none` is a
panic, or a decoder that never returns. -/
def parseBgpBody (header : BgpHeader) (buf : List UInt8) : Option (Except BgpError BgpMessage) :=
  if header.type = bgpMsgOpen then
    (BgpOpen.decodeFromBytes ⟨0, 0, 0, [], 0, []⟩ buf).map (Except.map (⟨header, .openIn ·⟩))
  else if header.type = bgpMsgUpdate then
    (BgpUpdate.decodeFromBytes buf).map (Except.map (⟨header, .update ·⟩))
  else if header.type = bgpMsgNotification then
    (BgpNotification.decodeFromBytes buf).map (.ok ⟨header, .notification ·⟩)
  else if header.type = bgpMsgKeepalive then some (.ok ⟨header, .keepAlive⟩)
  else if header.type = bgpMsgRouteRefresh ∨ header.type = bgpMsgRouteRefreshOld then
    some ((BgpRouteRefresh.decodeFromBytes buf).map (⟨header, .routeRefresh ·⟩))
  else if header.type = bgpMsgCapability then some (.ok ⟨header, .capability⟩)
  else some (.error ⟨bgpErrMsgHeaderError, bgpErrSubBadMessageType⟩)

/-! ### The messages the speaker sends -/

/-- `AfiSafi.Afi`. -/
def afiOf (v : UInt32) : UInt16 := (v >>> 16).toUInt16

/-- `AfiSafi.Safi`. -/
def safiOf (v : UInt32) : UInt8 := (v &&& 0xff).toUInt8

/-- What `NewBgpOpenMsg` reads of the neighbor and its server: the server's AS (`LocalAs()`), the
neighbor's configured hold time, the server's router ID, the neighbor's switches that leave
capabilities out, and the server's graceful restart configuration and state. -/
structure OpenConfig where
  localAs : UInt32
  holdTime : Option UInt16
  routerId : List UInt8
  dontCapAll : Bool
  dontCap4As : Bool
  dontCapRefresh : Bool
  gracefulRestart : Bool
  restarting : Bool
  preserved : Bool
  grRestartTime : Option Int
deriving DecidableEq, Repr

/-- `Server.GracefulRestartTime`: the configured time, or `GR_RESTART_TIME`. -/
def OpenConfig.gracefulRestartTime (n : OpenConfig) : Int := n.grRestartTime.getD grRestartTimeDefault

/-- The capabilities of the parameter of `NewBgpOpenMsg`, each made with a zero
`CapabilityBase`. -/
def OpenConfig.caps (n : OpenConfig) (afiSafis grAfiSafis : List UInt32) :
    List CapabilityInterface :=
  let zero : CapabilityBase := ⟨0, 0, []⟩
  afiSafis.map (.multiProtocol zero ·) ++
  (if n.dontCap4As then [] else [.fourOctetAsNumber zero n.localAs]) ++
  (if n.dontCapRefresh then [] else [.routeRefresh zero]) ++
  (if n.gracefulRestart then
    [.gracefulRestart zero (if n.restarting then restartFlag else 0)
      (UInt16.ofNat (n.gracefulRestartTime % 2 ^ 16).toNat)
      (grAfiSafis.map fun a => ⟨afiOf a, safiOf a, if n.preserved then forwardingPreservedFlag else 0⟩)]
  else [])

/-- `NewBgpOpenMsg`: version 4, the server's AS, the neighbor's hold time and the router ID, and
one capability parameter, unless `dontCapAll`: a multiprotocol capability for each address family
of the neighbor, then a four-octet AS capability, a route refresh capability and a graceful
restart capability, each unless switched off.  The two loops over the map `n.afiSafi` meet its
keys in the orders `afiSafis` and `grAfiSafis`, which Go leaves open and which may differ.
`uint16(...)` of the restart time, an `int`, keeps its low sixteen bits. -/
def newBgpOpenMsg (n : OpenConfig) (afiSafis grAfiSafis : List UInt32) : BgpMessage :=
  ⟨⟨0, bgpMsgOpen⟩, .openOut ⟨4, n.localAs, neighborHoldTime n.holdTime, n.routerId,
    if n.dontCapAll then [] else [⟨bgpOptCapability, n.caps afiSafis grAfiSafis⟩]⟩⟩

/-- `NewBgpKeepAliveMsg`. -/
def newBgpKeepAliveMsg : BgpMessage := ⟨⟨0, bgpMsgKeepalive⟩, .keepAlive⟩

/-- `NewBgpNotificationMsg`. -/
def newBgpNotificationMsg (notify : BgpNotification) : BgpMessage :=
  ⟨⟨0, bgpMsgNotification⟩, .notification notify⟩

/-! ### The header on the wire -/

namespace BgpHeader

/-- A header `DecodeFromBytes` takes: a length that counts the header, one of the message types,
and for a KEEPALIVE the header's own length. -/
structure Valid (h : BgpHeader) : Prop where
  len_ge : bgpHeaderLen ≤ h.len.toNat
  type_mem : h.type ∈ bgpMsgTypes
  keepalive_len : h.type = bgpMsgKeepalive → h.len.toNat = bgpHeaderLen

@[simp] lemma length_serialize (h : BgpHeader) : h.serialize.length = bgpHeaderLen := rfl

lemma marker_serialize (h : BgpHeader) : (h.serialize.take bgpMarkerLen).any (· != 0xff) = false := by
  simp [serialize, bgpMarkerLen]

lemma len_serialize (h : BgpHeader) : beUint16 h.serialize 16 = h.len := by
  simpa [serialize, bgpMarkerLen] using
    beUint16_append (List.replicate bgpMarkerLen 0xff) (putUint16 h.len ++ [h.type]) 0

lemma type_serialize (h : BgpHeader) : h.serialize.getD 18 0 = h.type := rfl

lemma decodeFromBytes_serialize {h : BgpHeader} (hv : h.Valid) : decodeFromBytes h.serialize = .ok h := by
  have hlen := hv.len_ge
  have hka : ¬ (h.type = bgpMsgKeepalive ∧ h.len.toNat ≠ bgpHeaderLen) :=
    fun ⟨hk, hne⟩ => hne (hv.keepalive_len hk)
  simp only [decodeFromBytes, length_serialize, lt_irrefl, if_false, marker_serialize,
    Bool.false_eq_true, len_serialize, type_serialize, if_neg (Nat.not_lt.2 hlen), if_neg hka,
    if_pos hv.type_mem]

/-- A header of nineteen bytes decodes exactly when it is the serialization of a valid header:
the one it decodes to. -/
theorem decodeFromBytes_eq_ok {data : List UInt8} (hd : data.length = bgpHeaderLen) {h : BgpHeader} :
    decodeFromBytes data = .ok h ↔ h.Valid ∧ data = h.serialize := by
  constructor
  · intro hdec
    unfold decodeFromBytes at hdec
    dsimp only at hdec
    rw [if_neg (by omega)] at hdec
    split_ifs at hdec with hmark hlen hka hmem
    cases hdec
    refine ⟨⟨Nat.not_lt.1 hlen, hmem, fun hk => not_not.1 fun hne => hka ⟨hk, hne⟩⟩, ?_⟩
    -- the marker is sixteen 0xff bytes, and the three bytes after it are the length and type
    have hff : ∀ b ∈ data.take bgpMarkerLen, b = 0xff := by simpa using hmark
    have hm : data.take bgpMarkerLen = List.replicate bgpMarkerLen 0xff :=
      List.eq_replicate_iff.2 ⟨by simp [bgpMarkerLen, hd, bgpHeaderLen], hff⟩
    obtain ⟨x, y, z, hxyz⟩ := List.length_eq_three.1
      (show (data.drop bgpMarkerLen).length = 3 by simp [hd, bgpMarkerLen, bgpHeaderLen])
    have hsplit : data = List.replicate bgpMarkerLen 0xff ++ [x, y, z] := by
      rw [← hm, ← hxyz, List.take_append_drop]
    have hword : beUint16 data 16 = beUint16 [x, y, z] 0 := by
      rw [hsplit]
      exact beUint16_append _ _ 0
    rw [hsplit] at hword ⊢
    simp only [serialize, hword, putUint16_beUint16]
    rfl
  · rintro ⟨hv, rfl⟩
    exact decodeFromBytes_serialize hv

/-- The header of a KEEPALIVE, nineteen bytes, decodes to itself. -/
theorem decodeFromBytes_keepalive_header :
    (serialize ⟨19, bgpMsgKeepalive⟩).length = bgpHeaderLen ∧
      decodeFromBytes (serialize ⟨19, bgpMsgKeepalive⟩) = .ok ⟨19, bgpMsgKeepalive⟩ :=
  ⟨rfl, (decodeFromBytes_eq_ok rfl).2 ⟨⟨by decide, by decide, fun _ => rfl⟩, rfl⟩⟩

end BgpHeader

/-- A message whose `Len` is zero, as `NewBgp*Msg` make them, and that fits
`BGP_MAX_PACKET_LEN`: the header with the message's length, then the body. -/
lemma BgpMessage.serialize_of_len_zero {msg : BgpMessage} (h0 : msg.header.len = 0)
    (hmax : msg.body.serialize.length + bgpHeaderLen ≤ bgpMaxPacketLen) :
    msg.serialize = BgpHeader.serialize
      ⟨UInt16.ofNat (msg.body.serialize.length + bgpHeaderLen), msg.header.type⟩ ++ msg.body.serialize := by
  simp only [BgpMessage.serialize, h0, true_and, if_neg (Nat.not_lt.2 hmax), if_true]

/-! ### The bodies on the wire -/

lemma BgpNotification.decodeFromBytes_serialize (n : BgpNotification) :
    BgpNotification.decodeFromBytes n.serialize = some n := by
  obtain ⟨code, subCode, data⟩ := n
  cases data <;> simp [decodeFromBytes, serialize]

/-- Go indexes the code and subcode without a length check; the model's `none` is that panic. -/
lemma BgpNotification.decodeFromBytes_of_length_lt {data : List UInt8} (h : data.length < 2) :
    BgpNotification.decodeFromBytes data = none := by
  rcases data with _ | ⟨_, _ | ⟨_, _⟩⟩
  · rfl
  · rfl
  · simp only [List.length_cons] at h
    omega

/-! ### The OPEN of `NewBgpOpenMsg` as the RFCs lay it out -/

lemma afiOf_afiSafiValue (afi : UInt16) (safi : UInt8) : afiOf (afiSafiValue afi safi) = afi := by
  have ha := afi.toNat_lt
  have hs := safi.toNat_lt
  apply UInt16.toNat_inj.1
  simp only [afiOf, afiSafiValue, UInt32.toNat_toUInt16, UInt32.toNat_shiftRight,
    UInt32.toNat_ofNat', show (16 : UInt32).toNat % 32 = 16 from rfl, Nat.shiftRight_eq_div_pow]
  omega

lemma safiOf_afiSafiValue (afi : UInt16) (safi : UInt8) : safiOf (afiSafiValue afi safi) = safi := by
  have ha := afi.toNat_lt
  have hs := safi.toNat_lt
  apply UInt8.toNat_inj.1
  simp only [safiOf, afiSafiValue, UInt32.toNat_toUInt8, UInt32.toNat_and, UInt32.toNat_ofNat']
  rw [show (255 : UInt32).toNat = 2 ^ 8 - 1 from rfl, Nat.and_two_pow_sub_one_eq_mod]
  omega

/-- An `AfiSafiValue` on the wire is its AFI, a zero octet and its SAFI. -/
lemma putUint32_afiSafiValue (afi : UInt16) (safi : UInt8) :
    putUint32 (afiSafiValue afi safi) = putUint16 afi ++ [0, safi] := by
  have ha := afi.toNat_lt
  have hs := safi.toNat_lt
  simp only [putUint32, afiSafiValue, putUint16, UInt32.toNat_ofNat', List.cons_append,
    List.nil_append, List.cons.injEq, and_true]
  refine ⟨?_, ?_, ?_, ?_⟩ <;> apply UInt8.toNat_inj.1 <;>
    simp only [UInt8.toNat_ofNat', UInt8.reduceToNat] <;> omega

/-- `uint16(c.Flags) << 12 | c.Time` is the graceful restart word when the flags take four bits
and the time twelve. -/
lemma grWord_eq_or {flags : UInt8} {time : UInt16} (hf : flags.toNat < 2 ^ 4)
    (ht : time.toNat < 2 ^ 12) : flags.toUInt16 <<< 12 ||| time = CapSpec.grWord flags time := by
  apply UInt16.toNat_inj.1
  have hlt : flags.toNat <<< 12 < 2 ^ 16 := by
    rw [Nat.shiftLeft_eq]
    omega
  simp only [CapSpec.grWord, UInt16.toNat_or, UInt16.toNat_shiftLeft, UInt8.toNat_toUInt16,
    UInt16.toNat_ofNat', show (12 : UInt16).toNat % 16 = 12 from rfl]
  rw [Nat.mod_eq_of_lt hlt, ← Nat.shiftLeft_add_eq_or_of_lt ht, Nat.shiftLeft_eq]
  omega

/-- The RFC form of a capability the speaker writes: the typed ones by their fields, the others
by the code and the value of their base. -/
def CapabilityInterface.spec : CapabilityInterface → CapSpec
  | .multiProtocol _ v => .multiProtocol (afiOf v) (safiOf v)
  | .routeRefresh _ => .routeRefresh
  | .gracefulRestart _ flags time tuples => .gracefulRestart flags time tuples
  | .fourOctetAsNumber _ as => .fourOctetAs as
  | c => .unknown c.base.capCode c.base.capValue

/-- The capabilities whose `Serialize` writes their RFC form: a multiprotocol capability of an
`AfiSafiValue`, a route refresh capability with no value of its own, and a graceful restart
capability of four bits of flags and twelve of time. -/
def CapabilityInterface.Writable : CapabilityInterface → Prop
  | .multiProtocol _ v => ∃ afi safi, v = afiSafiValue afi safi
  | .routeRefresh b => b.capValue = []
  | .gracefulRestart _ flags time _ => flags.toNat < 2 ^ 4 ∧ time.toNat < 2 ^ 12
  | _ => True

lemma CapabilityInterface.serialize_eq_encode {c : CapabilityInterface} (hc : c.Writable) :
    c.serialize = c.spec.encode := by
  cases c with
  | multiProtocol b v =>
    obtain ⟨afi, safi, rfl⟩ := hc
    simp only [serialize, spec, afiOf_afiSafiValue, safiOf_afiSafiValue, putUint32_afiSafiValue]
    rfl
  | routeRefresh b =>
    simp only [Writable] at hc
    simp only [serialize, spec, CapabilityBase.serialize, hc]
    rfl
  | gracefulRestart b flags time tuples =>
    simp only [serialize, spec, grWord_eq_or hc.1 hc.2]
    rfl
  | _ => rfl

/-- `OptParamCapability.Serialize` of a capability parameter writes the parameter the RFCs lay
out. -/
lemma OptParamCapability.serialize_eq {caps : List CapabilityInterface}
    (hcaps : ∀ c ∈ caps, c.Writable) :
    (⟨bgpOptCapability, caps⟩ : OptParamCapability).serialize = capabilityParam (caps.map (·.spec)) := by
  have hbytes : caps.flatMap CapabilityInterface.serialize = (caps.map (·.spec)).flatMap CapSpec.encode := by
    rw [List.flatMap_map]
    exact List.flatMap_congr fun c hc => CapabilityInterface.serialize_eq_encode (hcaps c hc)
  simp only [serialize, capabilityParam, hbytes]

/-- The identifier `copy(buf[5:9], RouterId)` writes: four bytes. -/
lemma length_routerId (routerId : List UInt8) : (Netutil.Prefix.fromKey 4 routerId 0).ip.length = 4 := by
  simp only [Netutil.Prefix.fromKey, List.length_append, List.length_take, List.length_replicate]
  omega

/-- The OPEN of `NewBgpOpenMsg` as RFC 4271 lays it out: the AS, or `AS_TRANS` past sixteen bits,
the identifier in four bytes, and the capabilities in their RFC forms. -/
def OpenConfig.openSpec (n : OpenConfig) (afiSafis grAfiSafis : List UInt32) : OpenSpec where
  version := 4
  as := if n.localAs ≤ 65535 then n.localAs.toUInt16 else asTrans
  holdTime := neighborHoldTime n.holdTime
  routerId := (Netutil.Prefix.fromKey 4 n.routerId 0).ip
  routerId_length := length_routerId n.routerId
  params := if n.dontCapAll then [] else [(n.caps afiSafis grAfiSafis).map (·.spec)]

/-- The OPEN `BgpOpen.DecodeFromBytes` makes of the encoding of `o` when it takes every
capability. -/
def OpenSpec.decoded (o : OpenSpec) : BgpOpen :=
  ⟨o.version, o.as.toUInt32, o.holdTime, o.routerId, UInt8.ofNat o.optParams.length,
    o.params.map paramDecoded⟩

/-- The configurations whose OPEN the peer reads back whole: address families that are
`AfiSafiValue`s, as `AfiSafiSet` stores them, a restart time that fits twelve bits, a hold time
the decoder takes, and few enough families for the capabilities to fit the parameter's length
byte. -/
structure OpenConfig.Fits (n : OpenConfig) (afiSafis grAfiSafis : List UInt32) : Prop where
  families : ∀ v ∈ afiSafis, ∃ afi safi, v = afiSafiValue afi safi
  restartTime : (n.gracefulRestartTime % 2 ^ 16).toNat < 2 ^ 12
  holdTime : neighborHoldTime n.holdTime = 0 ∨ 3 ≤ neighborHoldTime n.holdTime
  size : 6 * afiSafis.length + 4 * grAfiSafis.length ≤ 241

namespace OpenConfig

variable {n : OpenConfig} {afiSafis grAfiSafis : List UInt32}

/-- The restart time `NewBgpOpenMsg` writes, `uint16` of the configured one. -/
lemma toNat_restartTime (hn : n.Fits afiSafis grAfiSafis) :
    (UInt16.ofNat (n.gracefulRestartTime % 2 ^ 16).toNat).toNat < 2 ^ 12 := by
  have := hn.restartTime
  rw [UInt16.toNat_ofNat']
  omega

lemma caps_writable (hn : n.Fits afiSafis grAfiSafis) :
    ∀ c ∈ n.caps afiSafis grAfiSafis, c.Writable := by
  intro c hc
  simp only [caps, List.mem_append, List.mem_map] at hc
  rcases hc with ((⟨v, hv, rfl⟩ | hc) | hc) | hc
  · exact hn.families v hv
  · obtain rfl := List.eq_of_mem_singleton (List.mem_ite_nil_left.1 hc).2
    trivial
  · obtain rfl := List.eq_of_mem_singleton (List.mem_ite_nil_left.1 hc).2
    rfl
  · obtain rfl := List.eq_of_mem_singleton (List.mem_ite_nil_right.1 hc).2
    refine ⟨?_, toNat_restartTime hn⟩
    split_ifs <;> decide

/-- `NewBgpOpenMsg`'s OPEN, as `BgpOpen.Serialize` writes it, is the OPEN RFC 4271 lays out. -/
lemma serialize_newBgpOpenMsg (hn : n.Fits afiSafis grAfiSafis) :
    (newBgpOpenMsg n afiSafis grAfiSafis).body.serialize = (n.openSpec afiSafis grAfiSafis).encode := by
  have hparams : (if n.dontCapAll then [] else [(⟨bgpOptCapability, n.caps afiSafis grAfiSafis⟩ :
      OptParamCapability)]).flatMap OptParamCapability.serialize =
      (n.openSpec afiSafis grAfiSafis).optParams := by
    simp only [openSpec, OpenSpec.optParams]
    split_ifs
    · rfl
    · simp only [List.flatMap_cons, List.flatMap_nil, List.append_nil,
        OptParamCapability.serialize_eq (caps_writable hn)]
  simp only [newBgpOpenMsg, BgpBody.serialize, BgpOpen.Out.serialize, openSerialize, hparams]
  rfl

lemma length_caps_encode (n : OpenConfig) (afiSafis grAfiSafis : List UInt32) :
    (((n.caps afiSafis grAfiSafis).map (·.spec)).flatMap CapSpec.encode).length ≤
      6 * afiSafis.length + 4 * grAfiSafis.length + 12 := by
  have h6 : ∀ v, ((CapabilityInterface.multiProtocol ⟨0, 0, []⟩ v).spec.encode).length = 6 :=
    fun _ => rfl
  have hmp : ((afiSafis.map fun v => (CapabilityInterface.multiProtocol ⟨0, 0, []⟩ v).spec).flatMap
      CapSpec.encode).length = 6 * afiSafis.length := by
    rw [List.flatMap_map]
    exact length_flatMap_of_length_eq h6 afiSafis
  have hgr : ∀ b : List CapGracefulRestartTuple, (b.flatMap grTupleBytes).length = 4 * b.length :=
    length_flatMap_of_length_eq fun _ => rfl
  simp only [caps, List.map_append, List.flatMap_append, List.length_append, List.map_map,
    Function.comp_def]
  rw [hmp]
  split_ifs <;> simp [CapabilityInterface.spec, CapSpec.encode, CapSpec.value, hgr] <;> omega

/-- Each capability of `NewBgpOpenMsg` is one the RFCs allow and the decoders take. -/
lemma spec_wellFormed (hn : n.Fits afiSafis grAfiSafis) :
    ∀ c ∈ n.caps afiSafis grAfiSafis, c.spec.WellFormed ∧ c.spec.accepted = true := by
  have hgr : ((grAfiSafis.map fun v => (⟨afiOf v, safiOf v,
      if n.preserved then forwardingPreservedFlag else 0⟩ : CapGracefulRestartTuple)).flatMap
        grTupleBytes).length = 4 * grAfiSafis.length := by
    have h4 : ∀ t, (grTupleBytes t).length = 4 := fun _ => rfl
    rw [length_flatMap_of_length_eq h4, List.length_map]
  intro c hc
  simp only [caps, List.mem_append, List.mem_map] at hc
  rcases hc with ((⟨v, -, rfl⟩ | hc) | hc) | hc
  · exact ⟨⟨trivial, by simp [CapabilityInterface.spec, CapSpec.value]⟩, rfl⟩
  · obtain rfl := List.eq_of_mem_singleton (List.mem_ite_nil_left.1 hc).2
    exact ⟨⟨trivial, by simp [CapabilityInterface.spec, CapSpec.value]⟩, rfl⟩
  · obtain rfl := List.eq_of_mem_singleton (List.mem_ite_nil_left.1 hc).2
    exact ⟨⟨trivial, by simp [CapabilityInterface.spec, CapSpec.value]⟩, rfl⟩
  · obtain rfl := List.eq_of_mem_singleton (List.mem_ite_nil_right.1 hc).2
    refine ⟨⟨⟨?_, toNat_restartTime hn⟩, ?_⟩, rfl⟩
    · split_ifs <;> decide
    · simp only [CapabilityInterface.spec, CapSpec.value, List.length_append, length_putUint16, hgr]
      have := hn.size
      omega

lemma length_optParams_le (hn : n.Fits afiSafis grAfiSafis) :
    (n.openSpec afiSafis grAfiSafis).optParams.length ≤ 255 := by
  have hlen := length_caps_encode n afiSafis grAfiSafis
  have := hn.size
  simp only [openSpec, OpenSpec.optParams]
  split_ifs
  · simp
  · simp only [List.flatMap_cons, List.flatMap_nil, List.append_nil, length_capabilityParam]
    omega

end OpenConfig

/-- The OPEN of `NewBgpOpenMsg`, written by `BgpOpen.Serialize` and read by the peer's
`ParseBgpBody`, comes back with its version, its AS (or `AS_TRANS`), its hold time and router ID,
and every capability with all its fields, as RFC 4271 and the capability RFCs lay it out. -/
theorem parseBgpBody_newBgpOpenMsg {n : OpenConfig} {afiSafis grAfiSafis : List UInt32}
    (hn : n.Fits afiSafis grAfiSafis) (len : UInt16) :
    parseBgpBody ⟨len, bgpMsgOpen⟩ (newBgpOpenMsg n afiSafis grAfiSafis).body.serialize =
      some (.ok ⟨⟨len, bgpMsgOpen⟩, .openIn (n.openSpec afiSafis grAfiSafis).decoded⟩) := by
  have hwf : ∀ p ∈ (n.openSpec afiSafis grAfiSafis).params, ∀ c ∈ p, c.WellFormed := by
    intro p hp c hc
    simp only [OpenConfig.openSpec] at hp
    split_ifs at hp <;> simp only [List.mem_singleton, List.not_mem_nil] at hp
    subst hp
    obtain ⟨d, hd, rfl⟩ := List.mem_map.1 hc
    exact (OpenConfig.spec_wellFormed hn d hd).1
  have hacc : (n.openSpec afiSafis grAfiSafis).params.all (·.all CapSpec.accepted) := by
    simp only [OpenConfig.openSpec]
    split_ifs
    · rfl
    · simp only [List.all_cons, List.all_nil, Bool.and_true, List.all_map, List.all_eq_true]
      exact fun c hc => (OpenConfig.spec_wellFormed hn c hc).2
  rw [OpenConfig.serialize_newBgpOpenMsg hn, parseBgpBody, if_pos rfl,
    BgpOpen.decodeFromBytes_encode _ hwf (OpenConfig.length_optParams_le hn) hn.holdTime, if_pos hacc]
  rfl

/-- A speaker of AS 65001 with router ID 10.0.0.1, IPv4 unicast and graceful restart. -/
theorem parseBgpBody_newBgpOpenMsg_ipv4 :
    OpenConfig.Fits ⟨65001, none, [10, 0, 0, 1], false, false, false, true, false, false, none⟩
        [afiSafiValue 1 1] [afiSafiValue 1 1] ∧
      parseBgpBody ⟨43, bgpMsgOpen⟩ (newBgpOpenMsg
          ⟨65001, none, [10, 0, 0, 1], false, false, false, true, false, false, none⟩
          [afiSafiValue 1 1] [afiSafiValue 1 1]).body.serialize =
        some (.ok ⟨⟨43, bgpMsgOpen⟩, .openIn (OpenConfig.openSpec
          ⟨65001, none, [10, 0, 0, 1], false, false, false, true, false, false, none⟩
          [afiSafiValue 1 1] [afiSafiValue 1 1]).decoded⟩) :=
  have hn : OpenConfig.Fits ⟨65001, none, [10, 0, 0, 1], false, false, false, true, false, false, none⟩
      [afiSafiValue 1 1] [afiSafiValue 1 1] :=
    ⟨by simp only [List.mem_singleton, forall_eq]; exact ⟨1, 1, rfl⟩, by decide, .inr (by decide),
      by decide⟩
  ⟨hn, parseBgpBody_newBgpOpenMsg hn 43⟩

end Zebra.Bgp
