import Zebra.Zapi.Message
import Zebra.Policy.ASPath
import Zebra.Rib.RouterId

/-!
# ZAPI request bodies

`HandleBody` reads the body of a request, chooses the body type its command names, decodes the
bytes with that type's `DecodeFromBytes` and processes the result.  The decoders index the bytes
directly: a body too short for what a decoder reads makes Go panic, which the decoders here
return as `none`, and a decoder's own error as `Except.error`.

The decoders of `HELLO`, `INTERFACE_ADD` and the redistribute-default commands read nothing they
do not check first, and so never panic (`handleBodyDecode_isSome`).  The route, redistribute and
next-hop lookup decoders read their first bytes without a check, so an empty body, the body of
a header whose length is the header size, panics in each of them
(`handleBodyDecode_empty`).  The route decoder also keeps a next hop of a kind it does not know
as a nil next hop.
-/

namespace Zebra.Zapi

open Zebra.Lib Zebra.Netutil Zebra.Policy

/-- `syscall.AF_INET`. -/
def afInet : UInt8 := 2
/-- `syscall.AF_INET6`, as Linux numbers it. -/
def afInet6 : UInt8 := 10

/-- `NEXTHOP_IFINDEX`. -/
def nexthopIfindex : UInt8 := 1
/-- `NEXTHOP_IPV4`. -/
def nexthopIpv4 : UInt8 := 3
/-- `NEXTHOP_IPV4_IFINDEX`. -/
def nexthopIpv4Ifindex : UInt8 := 4

/-- `MESSAGE_NEXTHOP`. -/
def messageNexthop : UInt8 := 0x01
/-- `MESSAGE_DISTANCE`. -/
def messageDistance : UInt8 := 0x04
/-- `MESSAGE_METRIC`. -/
def messageMetric : UInt8 := 0x08
/-- `MESSAGE_PATH_ID`. -/
def messagePathId : UInt8 := 0x40
/-- `MESSAGE_ASPATH`. -/
def messageAspath : UInt8 := 0x80

/-- The address length of a family byte: `net.IPv4len` for `AF_INET`, `net.IPv6len` for
`AF_INET6`. -/
def familyAddrLen (family : UInt8) : Option Nat :=
  if family = afInet then some 4 else if family = afInet6 then some 16 else none

/-! ### The bodies and their decoders -/

/-- `HelloBody`. -/
structure HelloBody where
  routeType : UInt8
deriving DecidableEq, Repr

/-- `HelloBody.DecodeFromBytes`: the route type when the body is one byte.  The JSON it logs is
left out. -/
def HelloBody.decodeFromBytes (data : List UInt8) : Option (Except String HelloBody) :=
  if data.length = 1 then some (.ok ⟨data.getD 0 0⟩) else some (.ok ⟨0⟩)

/-- `RouterIdUpdateBody`. -/
structure RouterIdUpdateBody where
  routerId : List UInt8
  length : UInt8
deriving DecidableEq, Repr

/-- `RouterIdUpdateBody.DecodeFromBytes`: the family byte, the address and the length byte after
it, read without a check of the body's length. -/
def RouterIdUpdateBody.decodeFromBytes (data : List UInt8) :
    Option (Except String RouterIdUpdateBody) :=
  if data.length = 0 then some (.ok ⟨[], 0⟩)
  else
    let family := data.getD 0 0
    match familyAddrLen family with
    | none => some (.error ("Unknown address family: " ++ toString family))
    | some addrlen => do
      let routerId ← slice? data 1 (1 + addrlen)
      let length ← getByte? data (1 + addrlen)
      pure (.ok ⟨routerId, length⟩)

/-- `InterfaceAddressUpdateBody`. -/
structure InterfaceAddressUpdateBody where
  index : UInt32
  flags : UInt8
  /-- `Prefix`. -/
  pfx : List UInt8
  length : UInt8
deriving DecidableEq, Repr

/-- `InterfaceAddressUpdateBody.DecodeFromBytes`: index, flags, family, address and length, read
without a check of the body's length.  `HandleBody` chooses this decoder for no command. -/
def InterfaceAddressUpdateBody.decodeFromBytes (data : List UInt8) :
    Option (Except String InterfaceAddressUpdateBody) :=
  if data.length = 0 then some (.ok ⟨0, 0, [], 0⟩)
  else do
    let index ← getUint32? data 0
    let flags ← getByte? data 4
    let family ← getByte? data 5
    match familyAddrLen family with
    | none => some (.error ("unknown address family: " ++ toString family))
    | some addrlen => do
      let pfx ← slice? data 6 (6 + addrlen)
      let length ← getByte? data (6 + addrlen)
      pure (.ok ⟨index, flags, pfx, length⟩)

/-- `RouteUpdateBody`, with the fields its decoder fills. -/
structure RouteUpdateBody where
  type : UInt8
  flags : UInt8
  message : UInt8
  /-- `Prefix`. -/
  pfx : Prefix
  /-- `Nexthops`, with a nil `*Nexthop` as `none`. -/
  nexthops : List (Option Nexthop)
  distance : UInt8
  metric : UInt32
  pathId : UInt32
  aux : List UInt8
deriving DecidableEq, Repr

/-- One next hop of the loop of `RouteUpdateBody.DecodeFromBytes` at `pos`: its flag, then an
interface index, an IPv4 address, or both.  A flag of another kind gives a nil next hop and
reads nothing more. -/
def decodeNexthop (data : List UInt8) (pos : Nat) : Option (Option Nexthop × Nat) := do
  let flag ← getByte? data pos
  let pos := pos + 1
  if flag = nexthopIfindex then
    let ifindex ← getUint32? data pos
    pure (some (newNexthopIf ifindex.toNat), pos + 4)
  else if flag = nexthopIpv4 then
    let addr ← slice? data pos (pos + 4)
    pure (some (newNexthopAddr addr), pos + 4)
  else if flag = nexthopIpv4Ifindex then
    let addr ← slice? data pos (pos + 4)
    let ifindex ← getUint32? data (pos + 4)
    pure (some (newNexthopAddrIf addr ifindex.toNat), pos + 8)
  else pure (none, pos)

/-- The next-hop loop of `RouteUpdateBody.DecodeFromBytes`: `n` next hops from `pos`. -/
def decodeNexthops (data : List UInt8) : Nat → Nat → Option (List (Option Nexthop) × Nat)
  | 0, pos => some ([], pos)
  | n + 1, pos => do
    let (nexthop, pos) ← decodeNexthop data pos
    let (nexthops, pos) ← decodeNexthops data n pos
    pure (nexthop :: nexthops, pos)

/-- A field of `RouteUpdateBody.DecodeFromBytes` present when its message bit is set: read at
`pos` by `read`, which takes `size` bytes, and the default otherwise. -/
def readIf {α : Type} (bit : Bool) (read : Nat → Option α) (size : Nat) (dflt : α)
    (pos : Nat) : Option (α × Nat) :=
  if bit then (read pos).map fun a => (a, pos + size) else some (dflt, pos)

/-- The AS path field of `RouteUpdateBody.DecodeFromBytes`: its length and the path from `pos`
on; a path whose length is the rest of the body is decoded, its private AS 64512 renamed 23456,
and written back as the `Aux` bytes, and the `Aux` stays empty otherwise. -/
def decodeAspath (data : List UInt8) (pos : Nat) : Option (List UInt8) := do
  let data ← slice? data pos data.length
  let aspathLen ← getUint32? data 0
  let data := data.drop 4
  if aspathLen.toNat = data.length then
    -- the error of `DecodeFromBytes` is dropped; the segments read before it stay
    let (aspath, _) ← (⟨[]⟩ : ASPath).decodeFromBytes data
    pure (aspath.replace 64512 23456).serialize
  else pure []

/-- `RouteUpdateBody.DecodeFromBytes`.  It returns no error; where it reads past the body it
panics (`none`).  The prefix has the address length of the command's family, and takes as many
bytes as its length needs, copied as far as they fit. -/
def RouteUpdateBody.decodeFromBytes (command : CommandType) (data : List UInt8) :
    Option RouteUpdateBody := do
  let afiLen := if command = CommandType.ipv6RouteAdd ∨ command = CommandType.ipv6RouteDelete
    then 16 else 4
  let type ← getByte? data 0
  let flags ← getByte? data 1
  let message ← getByte? data 2
  let length ← getByte? data 5
  let byteLen := (length.toNat + 7) / 8
  let src ← slice? data 6 (6 + byteLen)
  let pfx : Prefix := ⟨copyBytes (List.replicate afiLen 0) src, length.toNat⟩
  let pos := 6 + byteLen
  let (nexthops, pos) ←
    if message &&& messageNexthop ≠ 0 then do
      let numNexthop ← getByte? data pos
      decodeNexthops data numNexthop.toNat (pos + 1)
    else pure ([], pos)
  let (distance, pos) ← readIf (message &&& messageDistance ≠ 0) (getByte? data) 1 0 pos
  let (metric, pos) ← readIf (message &&& messageMetric ≠ 0) (getUint32? data) 4 0 pos
  let (pathId, pos) ← readIf (message &&& messagePathId ≠ 0) (getUint32? data) 4 0 pos
  let aux ← if message &&& messageAspath ≠ 0 then decodeAspath data pos else pure []
  pure { type, flags, message, pfx, nexthops, distance, metric, pathId, aux }

/-- `IPv4NexthopLookupBody.DecodeFromBytes`: the first four bytes, `data[:4]` taken without a
check. -/
def ipv4NexthopLookupDecode (data : List UInt8) : Option (List UInt8) :=
  (slice? data 0 4).map (copyBytes (List.replicate 4 0))

/-- `RedistributeBody.DecodeFromBytes`: the first byte, read without a check. -/
def redistributeDecode (data : List UInt8) : Option UInt8 := getByte? data 0

/-! ### `HandleBody` -/

/-- The decoded bodies `HandleBody` can hand to `Process`. -/
inductive Body
  | hello (b : HelloBody)
  | routerIdUpdate (b : RouterIdUpdateBody)
  | interfaceUpdate
  | routeUpdate (b : RouteUpdateBody)
  | ipv4NexthopLookup (addr : List UInt8)
  | redistribute (type : UInt8)
  | redistributeDefault
deriving DecidableEq, Repr

/-- The decoding stage of `HandleBody`: the body type the command names, decoded from the body;
`.ok none` for a command it skips, and `none` where the decoder panics.  `InterfaceUpdateBody`
and `RedistributeDefaultBody` decode nothing. -/
def handleBodyDecode (h : Header) (data : List UInt8) : Option (Except String (Option Body)) :=
  let ok := fun b : Body => Except.ok (some b)
  if h.command = CommandType.hello then
    (HelloBody.decodeFromBytes data).map (·.map (some ∘ .hello))
  else if h.command = CommandType.routerIdAdd then
    (RouterIdUpdateBody.decodeFromBytes data).map (·.map (some ∘ .routerIdUpdate))
  else if h.command = CommandType.interfaceAdd then some (ok .interfaceUpdate)
  else if h.command = CommandType.ipv4RouteAdd ∨ h.command = CommandType.ipv4RouteDelete then
    (RouteUpdateBody.decodeFromBytes h.command data).map (ok ∘ .routeUpdate)
  else if h.command = CommandType.ipv4NexthopLookup then
    (ipv4NexthopLookupDecode data).map (ok ∘ .ipv4NexthopLookup)
  else if h.command = CommandType.redistributeAdd ∨ h.command = CommandType.redistributeDelete then
    (redistributeDecode data).map (ok ∘ .redistribute)
  else if h.command = CommandType.redistributeDefaultAdd ∨
      h.command = CommandType.redistributeDefaultDelete then some (ok .redistributeDefault)
  else some (.ok none)

/-- The commands whose decoders read the body's first bytes without a check. -/
def readsUnchecked (command : CommandType) : Prop :=
  command = CommandType.ipv4RouteAdd ∨ command = CommandType.ipv4RouteDelete ∨
    command = CommandType.ipv4NexthopLookup ∨ command = CommandType.redistributeAdd ∨
    command = CommandType.redistributeDelete

/-- A request of those commands with an empty body, as a header whose length is the header size
announces, panics in its decoder. -/
theorem handleBodyDecode_empty {h : Header} (hc : readsUnchecked h.command) :
    handleBodyDecode h [] = none := by
  unfold readsUnchecked at hc
  rcases hc with hc | hc | hc | hc | hc <;>
    simp [handleBodyDecode, hc, CommandType.hello, CommandType.ipv4RouteAdd,
      CommandType.ipv4RouteDelete, CommandType.routerIdAdd, CommandType.interfaceAdd,
      CommandType.ipv4NexthopLookup, CommandType.redistributeAdd, CommandType.redistributeDelete,
      RouteUpdateBody.decodeFromBytes, getByte?, ipv4NexthopLookupDecode, slice?,
      redistributeDecode]

/-- The other commands never panic in their decoders, whatever the body. -/
theorem handleBodyDecode_isSome {h : Header} (hc : ¬ readsUnchecked h.command)
    (hr : h.command ≠ CommandType.routerIdAdd) (data : List UInt8) :
    (handleBodyDecode h data).isSome = true := by
  unfold readsUnchecked at hc
  simp only [not_or] at hc
  obtain ⟨h1, h2, h3, h4, h5⟩ := hc
  unfold handleBodyDecode
  simp only [h1, h2, h3, h4, h5, hr, false_or, if_false]
  split_ifs <;> simp [HelloBody.decodeFromBytes]
  split_ifs <;> rfl

/-- An `IPV4_ROUTE_ADD` request of version 2 whose header length is the header size: the body is
empty and its decoder panics on its first byte.  A route body whose one next hop has the flag
`NEXTHOP_IFNAME` (2) is decoded with a nil next hop. -/
theorem handleBody_route_reads_outside_body :
    handleBodyDecode ⟨6, headerMarker, 2, 0, CommandType.ipv4RouteAdd⟩ [] = none ∧
      (RouteUpdateBody.decodeFromBytes CommandType.ipv4RouteAdd [ribBgp, 0, 1, 0, 1, 0, 1, 2]).map
        (·.nexthops) = some [none] := by
  decide

end Zebra.Zapi
