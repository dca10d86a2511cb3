import Zebra.Lib.Bytes

/-!
# ZAPI messages and their framing

A ZAPI message is a header and a body.  The header holds the message length, a marker, the
version and the command, and from version 3 on a VRF id before the command: six bytes in
version 2 and eight in versions 3 and 4 (`HeaderSize`).  `Message.Serialize` writes the length
and the header in front of the body's bytes.

`Client.HandleRequest` reads a client's stream: it knows the version from the first header only,
so it reads the first six bytes, takes the version from them, and for version 3 reads the two
bytes more.  It then decodes the header and hands `HandleBody` the length minus the header size,
which `HandleBody` reads as the body.

For messages of version 2 or 3 the loop frames the stream as it was written: the headers it
decodes are the messages' headers and the bytes it hands on are their bodies
(`handleRequest_frames`).  Once the version is known every pass of the loop frames one message
of versions 2 to 4 (`handleRequest_step`); the first message of version 4 is where it fails: no
two bytes more are read for it, so its command is never decoded and the rest of the stream is
read out of step (`handleRequest_version4_misframes`).
-/

namespace Zebra.Zapi

open Zebra.Lib

/-- `CommandType`: the command of a header, any 16-bit value on the wire. -/
abbrev CommandType := UInt16

namespace CommandType

/-- `INTERFACE_ADD`. -/
def interfaceAdd : CommandType := 1
/-- `IPV4_ROUTE_ADD`. -/
def ipv4RouteAdd : CommandType := 7
/-- `IPV4_ROUTE_DELETE`. -/
def ipv4RouteDelete : CommandType := 8
/-- `IPV6_ROUTE_ADD`. -/
def ipv6RouteAdd : CommandType := 9
/-- `IPV6_ROUTE_DELETE`. -/
def ipv6RouteDelete : CommandType := 10
/-- `REDISTRIBUTE_ADD`. -/
def redistributeAdd : CommandType := 11
/-- `REDISTRIBUTE_DELETE`. -/
def redistributeDelete : CommandType := 12
/-- `REDISTRIBUTE_DEFAULT_ADD`. -/
def redistributeDefaultAdd : CommandType := 13
/-- `REDISTRIBUTE_DEFAULT_DELETE`. -/
def redistributeDefaultDelete : CommandType := 14
/-- `IPV4_NEXTHOP_LOOKUP`. -/
def ipv4NexthopLookup : CommandType := 15
/-- `ROUTER_ID_ADD`. -/
def routerIdAdd : CommandType := 20
/-- `HELLO`. -/
def hello : CommandType := 23

end CommandType

/-- `HEADER_MARKER`. -/
def headerMarker : UInt8 := 255

/-- `HEADER_V2_LEN`. -/
def headerV2Len : Nat := 6

/-- `HEADER_V3_V4_LEN`. -/
def headerV3V4Len : Nat := 8

/-- `HeaderSize`: eight bytes for versions 3 and 4, six for every other version. -/
def headerSize (version : UInt8) : Nat :=
  if version = 2 then headerV2Len
  else if version = 3 ∨ version = 4 then headerV3V4Len
  else headerV2Len

/-- `Header`. -/
structure Header where
  length : UInt16
  marker : UInt8
  version : UInt8
  vrfId : UInt16
  command : CommandType
deriving DecidableEq, Repr

namespace Header

/-- `Header{}`. -/
def empty : Header := ⟨0, 0, 0, 0, 0⟩

/-- `Header.Serialize`: length, marker and version, then the command in version 2, the VRF id
and the command in versions 3 and 4, and two zero bytes in every other version. -/
def serialize (h : Header) : List UInt8 :=
  putUint16 h.length ++ [h.marker, h.version] ++
    if h.version = 2 then putUint16 h.command
    else if h.version = 3 ∨ h.version = 4 then putUint16 h.vrfId ++ putUint16 h.command
    else [0, 0]

/-- `Header.DecodeFromBytes`, which fills `h` in place: the header it leaves and the error it
returns.  It sets length, marker and version before it checks that the buffer holds the rest of
the header of that version, and leaves the other fields as they were when it does not. -/
def decodeFromBytes (h : Header) (data : List UInt8) : Header × Option String :=
  if data.length < 4 then
    (h, some ("ZAPI message header length " ++ toString data.length ++ " is too small"))
  else
    let h := { h with length := beUint16 data 0, marker := data.getD 2 0, version := data.getD 3 0 }
    if h.version = 2 then
      if data.length < headerV2Len then
        (h, some ("Header length " ++ toString data.length ++
          " is smaller than minium vesion 2 length"))
      else ({ h with command := beUint16 data 4 }, none)
    else if h.version = 3 ∨ h.version = 4 then
      if data.length < headerV3V4Len then
        (h, some ("Header length " ++ toString data.length ++
          " is smaller than minium version 3 or 4 length"))
      else ({ h with vrfId := beUint16 data 4, command := beUint16 data 6 }, none)
    else (h, some ("Unsupported ZAPI version: " ++ toString h.version))

end Header

/-- A `Message` with its body as the body's `Serialize` writes it. -/
structure Message where
  header : Header
  body : List UInt8
deriving DecidableEq, Repr

namespace Message

/-- `NewMessage`. -/
def new (version : UInt8) (command : CommandType) (body : List UInt8) : Message :=
  { header := { length := 0, marker := headerMarker, version, vrfId := 0, command }, body }

/-- The header `Message.Serialize` leaves in the message: its length set to the body's length and
the header size, in 16 bits. -/
def serializedHeader (m : Message) : Header :=
  { m.header with length := UInt16.ofNat (m.body.length + headerSize m.header.version) }

/-- `Message.Serialize`. -/
def serialize (m : Message) : List UInt8 := m.serializedHeader.serialize ++ m.body

end Message

/-! ### The read loop -/

/-- `conn.Read` into a buffer of `n` bytes, taken, as the framing law takes it, to fill the buffer
or fail: the bytes read and the rest of the stream. -/
def connRead (stream : List UInt8) (n : Nat) : Option (List UInt8 × List UInt8) :=
  if n ≤ stream.length then some (stream.take n, stream.drop n) else none

/-- The `version == 0` block of `HandleRequest`: before the first header the version is read from
its fourth byte, and for version 3 two bytes more are read into the header buffer. -/
def readVersion (version : UInt8) (data stream : List UInt8) :
    Option (UInt8 × List UInt8 × List UInt8) :=
  if version = 0 then
    let version := data.getD 3 0
    if version = 3 then (connRead stream 2).map fun (d, stream) => (version, data ++ d, stream)
    else some (version, data, stream)
  else some (version, data, stream)

/-- The read `HandleBody` starts with: `len` bytes when `len > 0`, and no buffer otherwise. -/
def handleBodyRead (stream : List UInt8) (len : Int) : Option (List UInt8 × List UInt8) :=
  if 0 < len then connRead stream len.toNat else some ([], stream)

/-- `Client.HandleRequest`: the headers it decodes and the body bytes `HandleBody` reads for them,
in order, up to the first failed read or the first body that `HandleBody` fails on (`bodyOk`
stands for what `HandleBody` does with a body: decode and process it).  The error of
`Header.DecodeFromBytes` is ignored.  Every pass reads six bytes at least, so `fuel` passes more
than a sixth of the stream are enough. -/
def handleRequest (vrfId : UInt32) (bodyOk : Header → List UInt8 → Bool) :
    Nat → UInt8 → List UInt8 → List (Header × List UInt8)
  | 0, _, _ => []
  | fuel + 1, version, stream =>
    match connRead stream (headerSize version) with
    | none => []
    | some (data, stream) =>
      match readVersion version data stream with
      | none => []
      | some (version, data, stream) =>
        let h := (Header.empty.decodeFromBytes data).1
        let len : Int := h.length.toNat - headerSize version
        let h := if vrfId ≠ 0 then { h with vrfId := UInt16.ofNat vrfId.toNat } else h
        match handleBodyRead stream len with
        | none => []
        | some (body, stream) =>
          (h, body) :: if bodyOk h body then handleRequest vrfId bodyOk fuel version stream else []

/-! ### Reading back what was written -/

@[simp] lemma headerSize_two : headerSize 2 = 6 := rfl
@[simp] lemma headerSize_three : headerSize 3 = 8 := rfl
@[simp] lemma headerSize_four : headerSize 4 = 8 := rfl

lemma length_serialize {h : Header} (hv : h.version = 2 ∨ h.version = 3 ∨ h.version = 4) :
    h.serialize.length = headerSize h.version := by
  rcases hv with hv | hv | hv <;> simp [Header.serialize, hv]

/-- `DecodeFromBytes` on a buffer that holds a whole header of version 2. -/
lemma decodeFromBytes_two {data : List UInt8} (hv : data.getD 3 0 = 2) (hl : 6 ≤ data.length) :
    Header.empty.decodeFromBytes data =
      (⟨beUint16 data 0, data.getD 2 0, 2, 0, beUint16 data 4⟩, none) := by
  have h4 : ¬ data.length < 4 := by omega
  have h6 : ¬ data.length < headerV2Len := by simp only [headerV2Len]; omega
  simp only [Header.decodeFromBytes, h4, h6, hv, if_false, if_true, Header.empty]

/-- `DecodeFromBytes` on a buffer that holds a whole header of version 3 or 4. -/
lemma decodeFromBytes_three_four {data : List UInt8}
    (hv : data.getD 3 0 = 3 ∨ data.getD 3 0 = 4) (hl : 8 ≤ data.length) :
    Header.empty.decodeFromBytes data =
      (⟨beUint16 data 0, data.getD 2 0, data.getD 3 0, beUint16 data 4, beUint16 data 6⟩, none) := by
  have h4 : ¬ data.length < 4 := by omega
  have h8 : ¬ data.length < headerV3V4Len := by simp only [headerV3V4Len]; omega
  have h2 : data.getD 3 0 ≠ 2 := by rcases hv with hv | hv <;> rw [hv] <;> decide
  simp only [Header.decodeFromBytes, h4, h8, h2, hv, if_false, if_true, Header.empty]

lemma serialize_two {h : Header} (hv : h.version = 2) :
    h.serialize = putUint16 h.length ++ [h.marker, h.version] ++ putUint16 h.command := by
  rw [Header.serialize, if_pos hv]

lemma serialize_three_four {h : Header} (hv : h.version = 3 ∨ h.version = 4) :
    h.serialize =
      putUint16 h.length ++ [h.marker, h.version] ++ (putUint16 h.vrfId ++ putUint16 h.command) := by
  have h2 : h.version ≠ 2 := by rcases hv with hv | hv <;> rw [hv] <;> decide
  rw [Header.serialize, if_neg h2, if_pos hv]

section ReadBack

variable (a : UInt16) (m v : UInt8) (t : List UInt8)

/-- The fixed part of a header, read back: length, marker and version. -/
lemma beUint16_zero_fixed : beUint16 (putUint16 a ++ [m, v] ++ t) 0 = a := by
  rw [List.append_assoc, beUint16_putUint16]

lemma getD_two_fixed : (putUint16 a ++ [m, v] ++ t).getD 2 0 = m := rfl

lemma getD_three_fixed : (putUint16 a ++ [m, v] ++ t).getD 3 0 = v := rfl

/-- What follows the fixed part is read from the fifth byte on. -/
lemma beUint16_fixed (i : Nat) : beUint16 (putUint16 a ++ [m, v] ++ t) (4 + i) = beUint16 t i :=
  beUint16_append (putUint16 a ++ [m, v]) t i

end ReadBack

/-- A header of version 2 without VRF id, or of version 3 or 4, is decoded from its bytes as it
was written, without error. -/
theorem decodeFromBytes_serialize {h : Header}
    (hv : h.version = 2 ∧ h.vrfId = 0 ∨ h.version = 3 ∨ h.version = 4) :
    Header.empty.decodeFromBytes h.serialize = (h, none) := by
  obtain ⟨length, marker, version, vrfId, command⟩ := h
  have hcmd : beUint16 (putUint16 command) 0 = command := by
    simpa using beUint16_putUint16 command []
  obtain ⟨hv, hvrf⟩ | hv := hv
  · dsimp only at hv hvrf
    subst hv hvrf
    rw [serialize_two rfl, decodeFromBytes_two (getD_three_fixed ..) (by simp),
      beUint16_zero_fixed, getD_two_fixed, show 4 = 4 + 0 from rfl, beUint16_fixed, hcmd]
  · have hv' := hv
    dsimp only at hv'
    rw [serialize_three_four hv, decodeFromBytes_three_four (by rw [getD_three_fixed]; exact hv')
      (by simp), beUint16_zero_fixed, getD_two_fixed, getD_three_fixed, show 4 = 4 + 0 from rfl,
      beUint16_fixed, beUint16_putUint16, show 6 = 4 + 2 from rfl, beUint16_fixed,
      show 2 = (putUint16 vrfId).length + 0 from rfl, beUint16_append, hcmd]

/-! ### The loop on a stream of messages -/

lemma connRead_append (a b : List UInt8) : connRead (a ++ b) a.length = some (a, b) := by
  simp [connRead]

lemma handleBodyRead_append (body rest : List UInt8) :
    handleBodyRead (body ++ rest) body.length = some (body, rest) := by
  unfold handleBodyRead
  split
  · exact connRead_append body rest
  · rename_i hlen
    have hnil : body = [] := List.eq_nil_of_length_eq_zero (by omega)
    subst hnil
    rfl

section Frame

variable {v : UInt8} {cmd : CommandType} {body rest : List UInt8} {ok : Header → List UInt8 → Bool}

lemma serializedHeader_new_version : (Message.new v cmd body).serializedHeader.version = v := rfl

/-- The length a message's header carries, less the header size, is the body's length when the
two do not pass 16 bits. -/
lemma length_sub_headerSize (hlen : body.length + headerSize v < 2 ^ 16) :
    ((Message.new v cmd body).serializedHeader.length.toNat : Int) - headerSize v = body.length := by
  have hval : (Message.new v cmd body).serializedHeader.length.toNat = body.length + headerSize v := by
    simp only [Message.serializedHeader, Message.new, UInt16.toNat_ofNat', Nat.mod_eq_of_lt hlen]
  omega

/-- A pass that has read a message's header (with the version learnt or known) hands on that
header and the body after it. -/
lemma handleRequest_frame (hv : v = 2 ∨ v = 3 ∨ v = 4) (hlen : body.length + headerSize v < 2 ^ 16)
    {version : UInt8} {stream : List UInt8} (fuel : Nat)
    (hread : ∃ data s, connRead stream (headerSize version) = some (data, s) ∧
      readVersion version data s =
        some (v, (Message.new v cmd body).serializedHeader.serialize, body ++ rest)) :
    handleRequest 0 ok (fuel + 1) version stream =
      ((Message.new v cmd body).serializedHeader, body) ::
        if ok (Message.new v cmd body).serializedHeader body then handleRequest 0 ok fuel v rest
        else [] := by
  obtain ⟨data, s, hc, hr⟩ := hread
  have hdec : Header.empty.decodeFromBytes (Message.new v cmd body).serializedHeader.serialize =
      ((Message.new v cmd body).serializedHeader, none) := by
    apply decodeFromBytes_serialize
    rcases hv with hv | hv | hv
    · exact .inl ⟨hv, rfl⟩
    · exact .inr (.inl hv)
    · exact .inr (.inr hv)
  simp only [handleRequest, hc, hr, hdec, length_sub_headerSize hlen, handleBodyRead_append,
    ne_eq, not_true_eq_false, if_false]

/-- Once the version is known, a pass reads one message of that version: its header as
`Serialize` left it and its body. -/
theorem handleRequest_step (hv : v = 2 ∨ v = 3 ∨ v = 4) (hlen : body.length + headerSize v < 2 ^ 16)
    (fuel : Nat) :
    handleRequest 0 ok (fuel + 1) v ((Message.new v cmd body).serialize ++ rest) =
      ((Message.new v cmd body).serializedHeader, body) ::
        if ok (Message.new v cmd body).serializedHeader body then handleRequest 0 ok fuel v rest
        else [] := by
  have hv0 : v ≠ 0 := by rcases hv with hv | hv | hv <;> rw [hv] <;> decide
  have hsize : (Message.new v cmd body).serializedHeader.serialize.length = headerSize v :=
    length_serialize hv
  refine handleRequest_frame hv hlen fuel
    ⟨(Message.new v cmd body).serializedHeader.serialize, body ++ rest, ?_, ?_⟩
  · rw [Message.serialize, List.append_assoc, ← hsize, connRead_append]
    rfl
  · simp [readVersion, hv0]

/-- The first message of version 2 or 3, read before the version is known. -/
theorem handleRequest_first (hv : v = 2 ∨ v = 3) (hlen : body.length + headerSize v < 2 ^ 16)
    (fuel : Nat) :
    handleRequest 0 ok (fuel + 1) 0 ((Message.new v cmd body).serialize ++ rest) =
      ((Message.new v cmd body).serializedHeader, body) ::
        if ok (Message.new v cmd body).serializedHeader body then handleRequest 0 ok fuel v rest
        else [] := by
  refine handleRequest_frame (hv.imp_right .inl) hlen fuel ?_
  rcases hv with rfl | rfl
  · -- six bytes, the whole header of version 2
    have hsize : (Message.new 2 cmd body).serializedHeader.serialize.length = headerSize 0 :=
      length_serialize (.inl rfl)
    have h3 : (Message.new 2 cmd body).serializedHeader.serialize.getD 3 0 = 2 := by
      rw [serialize_two rfl, getD_three_fixed]
      rfl
    refine ⟨(Message.new 2 cmd body).serializedHeader.serialize, body ++ rest, ?_, ?_⟩
    · rw [Message.serialize, List.append_assoc, ← hsize, connRead_append]
      rfl
    · rw [readVersion, if_pos rfl]
      dsimp only
      rw [h3, if_neg (by decide)]
  · -- six bytes, then the VRF id and the command of a header of version 3
    set h := (Message.new 3 cmd body).serializedHeader
    set pre := putUint16 h.length ++ [h.marker, h.version] ++ putUint16 h.vrfId
    have hsplit : h.serialize = pre ++ putUint16 h.command := by
      rw [serialize_three_four (.inl rfl)]
      simp only [pre, List.append_assoc]
    have h3 : pre.getD 3 0 = 3 := by
      rw [getD_three_fixed]
      rfl
    refine ⟨pre, putUint16 h.command ++ (body ++ rest), ?_, ?_⟩
    · rw [Message.serialize, hsplit, List.append_assoc, List.append_assoc,
        show headerSize 0 = pre.length from rfl, connRead_append]
      rfl
    · rw [readVersion, if_pos rfl]
      dsimp only
      rw [h3, if_pos rfl, show 2 = (putUint16 h.command).length from rfl, connRead_append,
        hsplit]
      rfl

lemma handleRequest_nil (version : UInt8) (fuel : Nat) :
    handleRequest 0 ok (fuel + 1) version [] = [] := by
  have hpos : 0 < headerSize version := by
    unfold headerSize
    split_ifs <;> decide
  simp [handleRequest, connRead, Nat.not_le.2 hpos]

/-- With the version known, the loop hands on every message of that version, in order: its header
as `Serialize` left it and its body. -/
theorem handleRequest_frames_of_version (hv : v = 2 ∨ v = 3 ∨ v = 4) :
    ∀ ms : List (CommandType × List UInt8), (∀ p ∈ ms, p.2.length + headerSize v < 2 ^ 16) →
      (∀ p ∈ ms, ok (Message.new v p.1 p.2).serializedHeader p.2 = true) →
      handleRequest 0 ok (ms.length + 1) v (ms.flatMap fun p => (Message.new v p.1 p.2).serialize) =
        ms.map fun p => ((Message.new v p.1 p.2).serializedHeader, p.2)
  | [], _, _ => handleRequest_nil v 0
  | p :: ms, hlen, hok => by
    rw [List.flatMap_cons, List.length_cons, handleRequest_step hv (hlen p List.mem_cons_self),
      if_pos (hok p List.mem_cons_self), List.map_cons,
      handleRequest_frames_of_version hv ms (fun q hq => hlen q (List.mem_cons_of_mem p hq))
        fun q hq => hok q (List.mem_cons_of_mem p hq)]

/-- `HandleRequest` frames a stream of messages of version 2 or 3 as they were written: it decodes
each message's header as `Serialize` left it and hands `HandleBody` exactly its body, when no
length passes 16 bits and `HandleBody` accepts every body. -/
theorem handleRequest_frames (hv : v = 2 ∨ v = 3) (ms : List (CommandType × List UInt8))
    (hlen : ∀ p ∈ ms, p.2.length + headerSize v < 2 ^ 16)
    (hok : ∀ p ∈ ms, ok (Message.new v p.1 p.2).serializedHeader p.2 = true) :
    handleRequest 0 ok (ms.length + 1) 0 (ms.flatMap fun p => (Message.new v p.1 p.2).serialize) =
      ms.map fun p => ((Message.new v p.1 p.2).serializedHeader, p.2) := by
  cases ms with
  | nil => exact handleRequest_nil 0 0
  | cons p ms =>
    rw [List.flatMap_cons, List.length_cons, handleRequest_first hv (hlen p List.mem_cons_self),
      if_pos (hok p List.mem_cons_self), List.map_cons,
      handleRequest_frames_of_version (hv.imp_right .inl) ms
        (fun q hq => hlen q (List.mem_cons_of_mem p hq)) fun q hq => hok q (List.mem_cons_of_mem p hq)]

end Frame

/-- A `HELLO` message of version 4 with the route type 5 as its body, alone on the stream: the
loop reads six bytes for its header and no more, so the header it decodes has command 0, not
`HELLO`, and `HandleBody` is handed the first byte of the command in place of the body. -/
theorem handleRequest_version4_misframes :
    handleRequest 0 (fun _ _ => true) 2 0 (Message.new 4 CommandType.hello [5]).serialize =
      [({ (Message.new 4 CommandType.hello [5]).serializedHeader with command := 0 }, [0])] := by
  decide


end Zebra.Zapi
