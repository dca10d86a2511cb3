import Zebra.Bgp.Message

/-!
# The reader and the writer of a BGP connection

`TcpWrite` takes the messages the FSM queues on `sendCh` and writes each as `Serialize` makes it;
`SendNotification` writes its NOTIFICATION on the same connection, a whole packet at a time.  At
the other end `TcpRead` reads a header, then the body its length counts, and sends the FSM one
event for the message, until `ReadFull` fails at the end of the stream or a decoder refuses what
it reads.

Whatever the speaker writes, the reader hands the peer's FSM one event per message, in order
(`tcpRead_tcpWrite`); so a `BGPOpen` a session handles is made from an OPEN its peer queued, and
sessions connected by their readers and writers run as `SessionStep` has them
(`wire_sessions_refine`).  A NOTIFICATION or OPEN too short for its fixed fields passes the header
check and the reader panics on it (`tcpRead_short_body_panics`).
-/

namespace Zebra.Bgp

open Zebra.Lib

/-- An `Event` the reader sends the FSM: its id, and the message `NewMsgEvent` puts in it.  The
`ioError`, which the FSM does not read, is left out. -/
structure Event where
  id : FsmEvent
  msg : Option BgpMessage
deriving DecidableEq, Repr

/-- How the loop of `TcpRead` ends. -/
inductive ReadEnd
  /-- `ReadFull` failed, and `TcpConnectionFails` was sent. -/
  | ioError
  /-- A decoder refused the message: its error was written back as a NOTIFICATION by
  `NotifyAndSendEvent`, and the connection closed. -/
  | notify (n : BgpNotification)
  /-- A body refused with no event for its type: the loop returned. -/
  | quiet
  /-- A panic, or a decoder that never returns. -/
  | crash
deriving DecidableEq, Repr

/-- The event of `TcpRead`'s dispatch.  Its switch is on the header's type, which is the one that
picked the body in `ParseBgpBody`; `BGPOpen` carries the OPEN's hold time, the field
`BgpOpenProcess` reads. -/
def BgpBody.event : BgpBody → FsmEvent
  | .openIn o => .bgpOpen o.holdTime
  | .openOut o => .bgpOpen o.holdTime
  | .update _ => .updateMsg
  | .notification _ => .notifMsg
  | .keepAlive => .keepAliveMsg
  | .routeRefresh _ => .routeRefreshMsg
  | .capability => .capabilityMsg

/-- The event `TcpRead` sends for a body `ParseBgpBody` refused, by the header's type; for a
KEEPALIVE, ROUTE-REFRESH or CAPABILITY it sends none. -/
def bodyErrorEvent (type : UInt8) : Option FsmEvent :=
  if type = bgpMsgOpen then some .bgpOpenMsgErr
  else if type = bgpMsgUpdate then some .updateMsgErr
  else if type = bgpMsgNotification then some .automaticStop
  else none

/-- The loop of `TcpRead` over the bytes the peer wrote: `ReadFull` of a header, its
`DecodeFromBytes`, `ReadFull` of the body the header's length counts, `ParseBgpBody`, and the
event; `ReadFull` fails when fewer bytes are left than it asks for. -/
def tcpRead (stream : List UInt8) : List Event × ReadEnd :=
  if stream.length < bgpHeaderLen then ([⟨.tcpConnectionFails, none⟩], .ioError)
  else
    match BgpHeader.decodeFromBytes (stream.take bgpHeaderLen) with
    | .error e => ([⟨.bgpHeaderErr, none⟩], .notify e.notification)
    | .ok header =>
      let rest := stream.drop bgpHeaderLen
      let bodyLen := header.len.toNat - bgpHeaderLen
      if rest.length < bodyLen then ([⟨.tcpConnectionFails, none⟩], .ioError)
      else
        match parseBgpBody header (rest.take bodyLen) with
        | none => ([], .crash)
        | some (.error e) =>
          match bodyErrorEvent header.type with
          | some id => ([⟨id, none⟩], .notify e.notification)
          | none => ([], .quiet)
        | some (.ok msg) =>
          let next := tcpRead (rest.drop bodyLen)
          (⟨msg.body.event, some msg⟩ :: next.1, next.2)
termination_by stream.length
decreasing_by
  simp only [List.length_drop, bgpHeaderLen] at *
  omega

/-- `TcpWrite`: the messages taken from `sendCh`, in order, each as `Serialize` writes it. -/
def tcpWrite (msgs : List BgpMessage) : List UInt8 := msgs.flatMap BgpMessage.serialize

/-! ### One message at a time -/

lemma tcpRead_short {stream : List UInt8} (h : stream.length < bgpHeaderLen) :
    tcpRead stream = ([⟨.tcpConnectionFails, none⟩], .ioError) := by
  rw [tcpRead, if_pos h]

/-- A valid header and the body its length counts: the reader does what `ParseBgpBody` makes of
the body, and on a message goes on with what follows. -/
lemma tcpRead_header {h : BgpHeader} (hv : h.Valid) {body : List UInt8}
    (hlen : h.len.toNat = body.length + bgpHeaderLen) (rest : List UInt8) :
    tcpRead (h.serialize ++ body ++ rest) =
      match parseBgpBody h body with
      | none => ([], .crash)
      | some (.error e) =>
        match bodyErrorEvent h.type with
        | some id => ([⟨id, none⟩], .notify e.notification)
        | none => ([], .quiet)
      | some (.ok msg) => (⟨msg.body.event, some msg⟩ :: (tcpRead rest).1, (tcpRead rest).2) := by
  have hlong : ¬ (h.serialize ++ body ++ rest).length < bgpHeaderLen := by
    simp only [List.length_append, BgpHeader.length_serialize]
    omega
  have htake : (h.serialize ++ body ++ rest).take bgpHeaderLen = h.serialize := by
    rw [List.append_assoc]
    exact List.take_left' (BgpHeader.length_serialize h)
  have hdrop : (h.serialize ++ body ++ rest).drop bgpHeaderLen = body ++ rest := by
    rw [List.append_assoc]
    exact List.drop_left' (BgpHeader.length_serialize h)
  have hbody : h.len.toNat - bgpHeaderLen = body.length := by omega
  rw [tcpRead, if_neg hlong, htake, BgpHeader.decodeFromBytes_serialize hv]
  simp only [hdrop, hbody, List.length_append, Nat.not_lt.2 (Nat.le_add_right _ _), if_false,
    List.take_left, List.drop_left]

/-- A message the decoders take: the reader sends its event and goes on with what follows. -/
lemma tcpRead_message {h : BgpHeader} (hv : h.Valid) {body : List UInt8}
    (hlen : h.len.toNat = body.length + bgpHeaderLen) {msg : BgpMessage}
    (hparse : parseBgpBody h body = some (.ok msg)) (rest : List UInt8) :
    tcpRead (h.serialize ++ body ++ rest) =
      (⟨msg.body.event, some msg⟩ :: (tcpRead rest).1, (tcpRead rest).2) := by
  rw [tcpRead_header hv hlen, hparse]

/-! ### What the speaker writes, read at the other end -/

/-- A message the speaker writes: the OPEN of `SendOpen`, for a neighbor's configuration and the
orders in which the two loops of `NewBgpOpenMsg` meet its address families; the KEEPALIVE of
`SendKeepAlive`; or the NOTIFICATION of `SendNotification`. -/
inductive Outgoing
  | openMsg (n : OpenConfig) (afiSafis grAfiSafis : List UInt32)
  | keepAlive
  | notification (notify : BgpNotification)
deriving DecidableEq, Repr

namespace Outgoing

/-- The message `NewBgpOpenMsg`, `NewBgpKeepAliveMsg` or `NewBgpNotificationMsg` makes. -/
def message : Outgoing → BgpMessage
  | .openMsg n afiSafis grAfiSafis => newBgpOpenMsg n afiSafis grAfiSafis
  | .keepAlive => newBgpKeepAliveMsg
  | .notification notify => newBgpNotificationMsg notify

/-- The messages that are written whole and read back: the OPEN of a configuration that fits,
and a NOTIFICATION within `BGP_MAX_PACKET_LEN`. -/
def Fits : Outgoing → Prop
  | .openMsg n afiSafis grAfiSafis => n.Fits afiSafis grAfiSafis
  | .keepAlive => True
  | .notification notify => notify.serialize.length + bgpHeaderLen ≤ bgpMaxPacketLen

/-- The message the peer's `ParseBgpBody` should make of it: the header with the message's
length, and the body, the OPEN as the RFCs lay it out. -/
def delivered : Outgoing → BgpMessage
  | .openMsg n afiSafis grAfiSafis =>
    ⟨⟨UInt16.ofNat ((n.openSpec afiSafis grAfiSafis).encode.length + bgpHeaderLen), bgpMsgOpen⟩,
      .openIn (n.openSpec afiSafis grAfiSafis).decoded⟩
  | .keepAlive => ⟨⟨UInt16.ofNat bgpHeaderLen, bgpMsgKeepalive⟩, .keepAlive⟩
  | .notification notify =>
    ⟨⟨UInt16.ofNat (notify.serialize.length + bgpHeaderLen), bgpMsgNotification⟩,
      .notification notify⟩

/-- The header the writer puts before a body of `L` bytes, with a type `DecodeFromBytes` takes. -/
lemma valid_header {L : Nat} (hL : L + bgpHeaderLen ≤ bgpMaxPacketLen) (type : UInt8)
    (htype : type ∈ bgpMsgTypes) (hka : type = bgpMsgKeepalive → L = 0) :
    (⟨UInt16.ofNat (L + bgpHeaderLen), type⟩ : BgpHeader).Valid ∧
      (UInt16.ofNat (L + bgpHeaderLen)).toNat = L + bgpHeaderLen := by
  have hlen : (UInt16.ofNat (L + bgpHeaderLen)).toNat = L + bgpHeaderLen := by
    rw [UInt16.toNat_ofNat']
    simp only [bgpHeaderLen, bgpMaxPacketLen] at hL ⊢
    omega
  refine ⟨⟨by rw [hlen]; omega, htype, fun hk => by rw [hlen, hka hk]; rfl⟩, hlen⟩

/-- What the reader makes of a message the speaker wrote, whatever follows it: the event of the
message the peer should get, and then what it makes of the rest. -/
lemma tcpRead_serialize_append {o : Outgoing} (hfit : o.Fits) (rest : List UInt8) :
    tcpRead (o.message.serialize ++ rest) =
      (⟨o.delivered.body.event, some o.delivered⟩ :: (tcpRead rest).1, (tcpRead rest).2) := by
  cases o with
  | openMsg n afiSafis grAfiSafis =>
    have hbody := OpenConfig.serialize_newBgpOpenMsg hfit
    have hL : (n.openSpec afiSafis grAfiSafis).encode.length + bgpHeaderLen ≤ bgpMaxPacketLen := by
      have := OpenConfig.length_optParams_le hfit
      simp [OpenSpec.encode, List.length_append, OpenSpec.routerId_length, bgpHeaderLen,
        bgpMaxPacketLen]
      omega
    obtain ⟨hv, hlen⟩ := valid_header hL bgpMsgOpen (by decide) fun h => absurd h (by decide)
    have hparse := parseBgpBody_newBgpOpenMsg hfit
      (UInt16.ofNat ((n.openSpec afiSafis grAfiSafis).encode.length + bgpHeaderLen))
    rw [hbody] at hparse
    rw [message, @BgpMessage.serialize_of_len_zero (newBgpOpenMsg n afiSafis grAfiSafis) rfl
      (by rw [hbody]; exact hL), hbody]
    exact tcpRead_message hv hlen hparse rest
  | keepAlive => exact tcpRead_message ⟨by decide, by decide, fun _ => rfl⟩ rfl rfl rest
  | notification notify =>
    simp only [Fits] at hfit
    obtain ⟨hv, hlen⟩ :=
      valid_header hfit bgpMsgNotification (by decide) fun h => absurd h (by decide)
    rw [message, @BgpMessage.serialize_of_len_zero (newBgpNotificationMsg notify) rfl hfit]
    refine tcpRead_message hv hlen ?_ rest
    simp [parseBgpBody, bgpMsgOpen, bgpMsgUpdate, bgpMsgNotification, delivered,
      BgpNotification.decodeFromBytes_serialize]

end Outgoing

/-- Whatever list of messages the speaker writes, `TcpWrite` on one end and `TcpRead` on the other
hand the peer's FSM one event for each, in order, with the message the peer should get (the
header with the message's length, and each OPEN as the RFCs lay it out), and then
`TcpConnectionFails` at the end of the stream: no message is lost, added, reordered or misframed,
however the writer and `SendNotification` interleave their whole packets. -/
theorem tcpRead_tcpWrite (out : List Outgoing) (hfit : ∀ o ∈ out, o.Fits) :
    tcpRead (tcpWrite (out.map Outgoing.message)) =
      (out.map (fun o => ⟨o.delivered.body.event, some o.delivered⟩) ++
        [⟨.tcpConnectionFails, none⟩], .ioError) := by
  induction out with
  | nil => exact tcpRead_short (by decide)
  | cons o out ih =>
    rw [List.map_cons, tcpWrite, List.flatMap_cons, ← tcpWrite,
      Outgoing.tcpRead_serialize_append (hfit o List.mem_cons_self),
      ih fun o' ho' => hfit o' (List.mem_cons_of_mem o ho')]
    rfl

/-- An OPEN for IPv4 unicast, a KEEPALIVE and a NOTIFICATION of a hold timer expiry. -/
theorem tcpRead_tcpWrite_open_keepalive_notification :
    (∀ o ∈ [Outgoing.openMsg ⟨65001, none, [10, 0, 0, 1], false, false, false, false, false, false,
        none⟩ [afiSafiValue 1 1] [], .keepAlive, .notification ⟨4, 0, []⟩], o.Fits) ∧
      tcpRead (tcpWrite ([Outgoing.openMsg ⟨65001, none, [10, 0, 0, 1], false, false, false, false,
          false, false, none⟩ [afiSafiValue 1 1] [], .keepAlive, .notification ⟨4, 0, []⟩].map
          Outgoing.message)) =
        ([Outgoing.openMsg ⟨65001, none, [10, 0, 0, 1], false, false, false, false, false, false,
          none⟩ [afiSafiValue 1 1] [], .keepAlive, .notification ⟨4, 0, []⟩].map
          (fun o => ⟨o.delivered.body.event, some o.delivered⟩) ++
          [⟨.tcpConnectionFails, none⟩], .ioError) :=
  have hfit : ∀ o ∈ [Outgoing.openMsg ⟨65001, none, [10, 0, 0, 1], false, false, false, false,
      false, false, none⟩ [afiSafiValue 1 1] [], .keepAlive, .notification ⟨4, 0, []⟩], o.Fits := by
    simp only [List.mem_cons, List.not_mem_nil, or_false, forall_eq_or_imp, forall_eq]
    refine ⟨⟨?_, by decide, .inr (by decide), by decide⟩, trivial, show _ ≤ _ by decide⟩
    simp only [List.mem_singleton, forall_eq]
    exact ⟨1, 1, rfl⟩
  ⟨hfit, tcpRead_tcpWrite _ hfit⟩

/-! ### What the peer's FSM is handed -/

/-- The event a queued message makes at the other end: `BGPOpen` with the OPEN's hold time, or
`KeepAliveMsg`. -/
def FsmMsg.event : FsmMsg → FsmEvent
  | .openMsg hold => .bgpOpen hold
  | .keepAliveMsg => .keepAliveMsg

/-- The message `TcpWrite` takes from `sendCh` for one the FSM queued: for the OPEN of `SendOpen`,
that of `NewBgpOpenMsg` for the neighbor's configuration, whose hold time is the one `SendOpen`
was given; for the KEEPALIVE of `SendKeepAlive`, the KEEPALIVE. -/
inductive Renders : FsmMsg → Outgoing → Prop
  | openMsg {hold : UInt16} (n : OpenConfig) (afiSafis grAfiSafis : List UInt32)
      (hhold : neighborHoldTime n.holdTime = hold) :
      Renders (.openMsg hold) (.openMsg n afiSafis grAfiSafis)
  | keepAlive : Renders .keepAliveMsg .keepAlive

lemma Renders.event {m : FsmMsg} {o : Outgoing} (h : Renders m o) :
    o.delivered.body.event = m.event := by
  cases h with
  | openMsg n afiSafis grAfiSafis hhold => exact congrArg FsmEvent.bgpOpen hhold
  | keepAlive => rfl

/-- A queue and the messages the writer takes from it make the same events, message by message. -/
lemma Renders.map_event {ms : List FsmMsg} {out : List Outgoing} (hr : List.Forall₂ Renders ms out) :
    out.map (·.delivered.body.event) = ms.map FsmMsg.event := by
  induction hr with
  | nil => rfl
  | cons hm _ ih => rw [List.map_cons, List.map_cons, ih, hm.event]

/-- Whatever the FSM has queued on `sendCh`, written by `TcpWrite` and read by `TcpRead` at the
other end, hands the peer's FSM the events of the queued messages, in order (`BGPOpen` with the
hold time the OPEN was sent with), and then `TcpConnectionFails`.  In particular every `BGPOpen`
a session handles is made from an OPEN its peer queued, as `SessionStep` has it. -/
theorem peer_events_of_queue (f : Fsm) {out : List Outgoing} (hr : List.Forall₂ Renders f.sent out)
    (hfit : ∀ o ∈ out, o.Fits) :
    (tcpRead (tcpWrite (out.map Outgoing.message))).1.map Event.id =
      f.sent.map FsmMsg.event ++ [.tcpConnectionFails] := by
  rw [tcpRead_tcpWrite out hfit, List.map_append, List.map_map, ← Renders.map_event hr]
  rfl

/-! ### Sessions connected by their readers and writers -/

namespace Fsm

section Wire

variable {ι : Type*} [DecidableEq ι] {holdTime : ι → UInt16} {peer : ι → ι} {p p' : ι → Fsm}

/-- One step of sessions connected by their readers and writers: session `i` handles an event.
A `BGPOpen` is one its reader made from the bytes the writer of the other end, `peer i`, wrote
for the messages that session queued; the timers, the dial and the operator may send any other
event at any time. -/
inductive WireStep (holdTime : ι → UInt16) (peer : ι → ι) : (ι → Fsm) → (ι → Fsm) → Prop
  | event {p : ι → Fsm} (i : ι) (e : FsmEvent) (out : List Outgoing)
      (hr : List.Forall₂ Renders (p (peer i)).sent out) (hfit : ∀ o ∈ out, o.Fits)
      (hread : ∀ hold, e = .bgpOpen hold →
        e ∈ (tcpRead (tcpWrite (out.map Outgoing.message))).1.map Event.id) :
      WireStep holdTime peer p (Function.update p i ((p i).event (holdTime i) e))

/-- A step over the wire is a step of `SessionStep`: a `BGPOpen` read off the peer's stream is
made from an OPEN the peer queued, with its hold time. -/
lemma WireStep.sessionStep (h : WireStep holdTime peer p p') : SessionStep holdTime peer p p' := by
  obtain ⟨i, e, out, hr, hfit, hread⟩ := h
  refine .event i e fun hold he => ?_
  have hmem := hread hold he
  rw [peer_events_of_queue _ hr hfit, he] at hmem
  rcases List.mem_append.1 hmem with hm | hm
  · obtain ⟨m, hms, hme⟩ := List.mem_map.1 hm
    cases m with
    | openMsg hold' =>
      obtain rfl : hold' = hold := FsmEvent.bgpOpen.inj hme
      exact hms
    | keepAliveMsg => cases hme
  · simp at hm

/-- Every run of sessions connected by their readers and writers is a run of `SessionStep`: the
transport refines the sessions' model. -/
theorem wire_sessions_refine {p₀ : ι → Fsm}
    (h : Relation.ReflTransGen (WireStep holdTime peer) p₀ p) :
    Relation.ReflTransGen (SessionStep holdTime peer) p₀ p := by
  induction h with
  | refl => exact .refl
  | tail _ hs ih => exact ih.tail hs.sessionStep

end Wire

theorem wire_sessions_refine_start :
    Relation.ReflTransGen (WireStep (fun _ => 90) (fun b : Bool => !b)) (fun _ => new)
        (Function.update (fun _ => new) true (new.event 90 .manualStart)) ∧
      Relation.ReflTransGen (SessionStep (fun _ => 90) (fun b : Bool => !b)) (fun _ => new)
        (Function.update (fun _ => new) true (new.event 90 .manualStart)) :=
  have hw : Relation.ReflTransGen (WireStep (fun _ => 90) (fun b : Bool => !b)) (fun _ => new)
      (Function.update (fun _ => new) true (new.event 90 .manualStart)) :=
    .single (.event true .manualStart [] .nil (by simp) (fun _ h => by cases h))
  ⟨hw, wire_sessions_refine hw⟩

end Fsm

/-! ### Bodies the reader panics on -/

/-- A NOTIFICATION of fewer than 21 bytes, or an OPEN of fewer than 28, passes the header check,
and the reader panics on its body: `BgpNotification.DecodeFromBytes` reads the two bytes of the
code and subcode, and `BgpOpen.DecodeFromBytes` the nine of the version, AS, hold time and router
ID, with no length check first.  Any peer can stop the process with one such message. -/
theorem tcpRead_short_body_panics {h : BgpHeader} (hv : h.Valid)
    (hshort : h.type = bgpMsgNotification ∧ h.len.toNat < 21 ∨ h.type = bgpMsgOpen ∧ h.len.toNat < 28)
    {body : List UInt8} (hlen : h.len.toNat = body.length + bgpHeaderLen) (rest : List UInt8) :
    tcpRead (h.serialize ++ body ++ rest) = ([], .crash) := by
  have hnone : parseBgpBody h body = none := by
    rcases hshort with ⟨htype, hshort⟩ | ⟨htype, hshort⟩
    · -- fewer than two bytes of code and subcode
      have hb : body.length < 2 := by
        simp only [bgpHeaderLen] at hlen
        omega
      rw [parseBgpBody, htype, if_neg (by decide), if_neg (by decide), if_pos rfl,
        BgpNotification.decodeFromBytes_of_length_lt hb]
      rfl
    · -- fewer than the nine bytes of the fixed part
      have hb : body.length < 9 := by
        simp only [bgpHeaderLen] at hlen
        omega
      rw [parseBgpBody, htype, if_pos rfl]
      simp [BgpOpen.decodeFromBytes, hb]
  rw [tcpRead_header hv hlen, hnone]

theorem tcpRead_short_notification :
    (⟨19, bgpMsgNotification⟩ : BgpHeader).Valid ∧
      tcpRead ((⟨19, bgpMsgNotification⟩ : BgpHeader).serialize ++ [] ++ []) = ([], .crash) :=
  ⟨⟨by decide, by decide, fun h => absurd h (by decide)⟩,
    tcpRead_short_body_panics ⟨by decide, by decide, fun h => absurd h (by decide)⟩
      (.inl ⟨rfl, by decide⟩) rfl []⟩

end Zebra.Bgp
