import Zebra.Lib.GoText
import Zebra.Bgp.Capability

/-!
# The neighbor table of the BGP server

The server keeps its neighbors in a map from strings (`Server.Neighbors`).  `neighborAdd` parses
the address it is given and refuses it when the map holds a neighbor under the address's
canonical text (`ip.String()`), but stores the new neighbor under the string it was given.
`neighborLookup`, through which `NeighborRemoteAsSet` and `NeighborAfiSafiSet` reach a neighbor,
looks under the canonical text.

So the table is keyed by the spelling of an address, not by the address.  A neighbor added under
the canonical text of its address is found by every spelling of that address, and no second one
can be added for it (`neighborLookup_neighborAdd_canonical`, `neighborAdd_twice_canonical`).  A
neighbor added under another spelling is not found by any spelling
(`neighborLookup_neighborAdd_of_ne`).
-/

namespace Zebra.Bgp

open Zebra.Lib

/-- `ParseIP` of the package: `net.ParseIP`, with an IPv4 address in its four bytes. -/
def parseIP (str : String) : Option (List UInt8) :=
  (Lib.parseIP str).map fun ip => (to4 ip).getD ip

/-- `Neighbor`, with the fields the configuration calls set: the address, the remote AS, the
configured address families (the keys of `afiSafi`), whether its FSM was started and whether it
is a route-reflector client. -/
structure Neighbor where
  addr : List UInt8
  as : Option UInt32
  afiSafi : List UInt32
  running : Bool
  reflectorClient : Bool
deriving DecidableEq, Repr

namespace Neighbor

/-- `NewNeighbor`. -/
def new (addr : List UInt8) : Neighbor := ⟨addr, none, [], false, false⟩

/-- `startOnCondition`: the FSM starts once the remote AS and an address family are set.  The
FSM's own events are left out. -/
def startOnCondition (n : Neighbor) : Neighbor :=
  if !n.running ∧ n.as.isSome ∧ n.afiSafi ≠ [] then { n with running := true } else n

/-- `Neighbor.RemoteAsSet`. -/
def remoteAsSet (n : Neighbor) (as : UInt32) : Except String Neighbor :=
  match n.as with
  | some a => .error ("AS already set as " ++ toString a.toNat)
  | none => .ok { n with as := some as }.startOnCondition

/-- `Neighbor.AfiSafiSet`. -/
def afiSafiSet (n : Neighbor) (afi : UInt16) (safi : UInt8) : Except String Neighbor :=
  let afiSafi := afiSafiValue afi safi
  if afiSafi ∈ n.afiSafi then .error "afi safi is already configured"
  else .ok { n with afiSafi := n.afiSafi ++ [afiSafi] }.startOnCondition

end Neighbor

/-- The server's neighbor map, `Server.Neighbors`.  The FSM event loop `neighborAdd` starts on a
runnable server is left out. -/
structure Server where
  neighbors : String → Option Neighbor

namespace Server

/-- A server without neighbors. -/
def empty : Server := ⟨fun _ => none⟩

/-- `neighborAdd`: refused when a neighbor is stored under the canonical text of the address, and
stored under the string given. -/
def neighborAdd (s : Server) (addrStr : String) : Except String Server :=
  match parseIP addrStr with
  | none => .error ("address format error: " ++ addrStr)
  | some ip =>
    if (s.neighbors (ipString ip)).isSome then .error ("neighbor " ++ addrStr ++ " already exists")
    else .ok ⟨Function.update s.neighbors addrStr (some (Neighbor.new ip))⟩

/-- `neighborLookup`: the neighbor stored under the canonical text of the address. -/
def neighborLookup (s : Server) (addrStr : String) : Except String Neighbor :=
  match parseIP addrStr with
  | none => .error ("address format error: " ++ addrStr)
  | some ip =>
    match s.neighbors (ipString ip) with
    | none => .error ("can't find neighbor with address " ++ addrStr)
    | some n => .ok n

/-- A change `f` to the neighbor `neighborLookup` finds, made in place: in the map, under the key
it was found under. -/
def neighborModify (s : Server) (addrStr : String) (f : Neighbor → Except String Neighbor) :
    Except String Server := do
  let n ← s.neighborLookup addrStr
  let n ← f n
  let key := ((parseIP addrStr).map ipString).getD addrStr
  pure ⟨Function.update s.neighbors key (some n)⟩

/-- `neighborRemoteAsSet`. -/
def neighborRemoteAsSet (s : Server) (addrStr : String) (as : UInt32) : Except String Server :=
  s.neighborModify addrStr (·.remoteAsSet as)

/-- `neighborAfiSafiSet`. -/
def neighborAfiSafiSet (s : Server) (addrStr : String) (afi : UInt16) (safi : UInt8) :
    Except String Server :=
  s.neighborModify addrStr (·.afiSafiSet afi safi)

/-- `neighborReflectorClientEnable`. -/
def neighborReflectorClientEnable (s : Server) (addrStr : String) : Except String Server :=
  s.neighborModify addrStr fun n => .ok { n with reflectorClient := true }

/-- `neighborReflectorClientDisable`. -/
def neighborReflectorClientDisable (s : Server) (addrStr : String) : Except String Server :=
  s.neighborModify addrStr fun n => .ok { n with reflectorClient := false }

variable {s s' : Server} {a t e : String} {n n' : Neighbor}
  {f : Neighbor → Except String Neighbor}

lemma neighborAdd_eq_ok (h : s.neighborAdd a = .ok s') :
    ∃ ip, parseIP a = some ip ∧ s.neighbors (ipString ip) = none ∧
      s' = ⟨Function.update s.neighbors a (some (Neighbor.new ip))⟩ := by
  unfold neighborAdd at h
  split at h
  · cases h
  · rename_i ip hip
    split at h
    · cases h
    · rename_i hnone
      cases h
      exact ⟨ip, hip, Option.not_isSome_iff_eq_none.1 hnone, rfl⟩

lemma neighborLookup_eq_ok (h : s.neighborLookup a = .ok n) :
    ∃ ip, parseIP a = some ip ∧ s.neighbors (ipString ip) = some n := by
  unfold neighborLookup at h
  split at h
  · cases h
  · rename_i ip hip
    split at h
    · cases h
    · rename_i n₀ hn₀
      cases h
      exact ⟨ip, hip, hn₀⟩

/-- A change through `neighborModify` reaches the neighbor the lookup finds: the same lookup then
finds the changed neighbor. -/
theorem neighborLookup_neighborModify (hn : s.neighborLookup a = .ok n) (hf : f n = .ok n') :
    ∃ s', s.neighborModify a f = .ok s' ∧ s'.neighborLookup a = .ok n' := by
  obtain ⟨ip, hip, -⟩ := neighborLookup_eq_ok hn
  refine ⟨⟨Function.update s.neighbors (ipString ip) (some n')⟩, ?_, ?_⟩
  · simp only [neighborModify, hn, hip, Option.map_some, Option.getD_some]
    -- the found neighbor is bound by `Except.ok`, which reduces; then the change succeeds
    change (f n >>= fun n => pure _) = _
    rw [hf]
    rfl
  · simp [neighborLookup, hip]

/-- A change through `neighborModify` fails with the lookup's error when the lookup fails. -/
lemma neighborModify_of_error (hn : s.neighborLookup a = .error e) :
    s.neighborModify a f = .error e := by
  simp only [neighborModify, hn]
  rfl

/-- After `neighborAdd a`, every spelling `t` of the same address finds the new neighbor when `a`
is the canonical text of the address. -/
theorem neighborLookup_neighborAdd_canonical (h : s.neighborAdd a = .ok s')
    (hc : (parseIP a).map ipString = some a) (ht : parseIP t = parseIP a) :
    ∃ ip, parseIP a = some ip ∧ s'.neighborLookup t = .ok (Neighbor.new ip) := by
  obtain ⟨ip, hip, -, rfl⟩ := neighborAdd_eq_ok h
  rw [hip, Option.map_some, Option.some.injEq] at hc
  refine ⟨ip, hip, ?_⟩
  simp [neighborLookup, ht, hip, hc]

/-- When `a` is not the canonical text of its address, the neighbor `neighborAdd a` stores is not
found by any spelling of the address: the lookup fails unless a neighbor was already stored under
the canonical text, which `neighborAdd` refuses. -/
theorem neighborLookup_neighborAdd_of_ne (h : s.neighborAdd a = .ok s')
    (hc : (parseIP a).map ipString ≠ some a) (ht : parseIP t = parseIP a) :
    s'.neighborLookup t = .error ("can't find neighbor with address " ++ t) := by
  obtain ⟨ip, hip, hnone, rfl⟩ := neighborAdd_eq_ok h
  rw [hip, Option.map_some, ne_eq, Option.some.injEq] at hc
  simp [neighborLookup, ht, hip, Function.update_of_ne hc, hnone]

/-- After `neighborAdd a` of the canonical text of an address, `neighborAdd` of every spelling of
the address is refused. -/
theorem neighborAdd_neighborAdd_canonical (h : s.neighborAdd a = .ok s')
    (hc : (parseIP a).map ipString = some a) (ht : parseIP t = parseIP a) :
    s'.neighborAdd t = .error ("neighbor " ++ t ++ " already exists") := by
  obtain ⟨ip, hip, -, rfl⟩ := neighborAdd_eq_ok h
  rw [hip, Option.map_some, Option.some.injEq] at hc
  simp [neighborAdd, ht, hip, hc]

/-- After `neighborAdd a` of another spelling, `neighborAdd` of every spelling of the address is
accepted again. -/
theorem neighborAdd_neighborAdd_of_ne (h : s.neighborAdd a = .ok s')
    (hc : (parseIP a).map ipString ≠ some a) (ht : parseIP t = parseIP a) :
    (s'.neighborAdd t).toBool = true := by
  obtain ⟨ip, hip, hnone, rfl⟩ := neighborAdd_eq_ok h
  rw [hip, Option.map_some, ne_eq, Option.some.injEq] at hc
  simp [neighborAdd, ht, hip, Function.update_of_ne hc, hnone, Except.toBool]

/-- The IPv4-mapped spelling `::ffff:10.0.0.1`: `neighborAdd` accepts it, `neighborLookup` of the
same string then fails, and a second `neighborAdd` of it is accepted too. -/
theorem neighbor_table_keyed_by_spelling :
    ((empty.neighborAdd "::ffff:10.0.0.1").bind fun s => s.neighborLookup "::ffff:10.0.0.1").map
        Neighbor.addr = .error "can't find neighbor with address ::ffff:10.0.0.1" ∧
      ((empty.neighborAdd "::ffff:10.0.0.1").bind fun s =>
        s.neighborAdd "::ffff:10.0.0.1").toBool = true := by
  decide

end Server

end Zebra.Bgp
