import Zebra.Rib.System
import Zebra.Rib.Selection

/-!
# What the router id should be

The decision logic of `docs/router-id.md`: a configured id wins; otherwise the greatest IPv4
address of a loopback interface (outside `127.0.0.0/8`); otherwise the greatest address among
the other interfaces.  `routerIdSpec` states it over the interfaces of a VRF as they are.

The code keeps the candidates in trees with one item per address, so an address two
interfaces share is a candidate for the first of them only: removing it there drops it, while
the other interface still has it.
-/

namespace Zebra

open Zebra.Netutil

/-- An IPv4 address as the number it stands for. -/
def ipv4Value (ip : List UInt8) : Nat := ip.foldl (fun a b => a * 256 + b.toNat) 0

namespace System

/-- The IPv4 addresses outside `127.0.0.0/8` on the up interfaces of VRF object `i` that are
loopback interfaces (`lb`), or that are not. -/
def routerIdCandidates (s : System) (i : Nat) (lb : Bool) : List (List UInt8) :=
  ((s.ifTable.filter fun ifp => ifp.vrf = i ∧ ifp.isUp ∧ ifp.isLoopback = lb).flatMap fun ifp =>
    (ifp.addrs .ip).map (·.pfx.ip)).filter fun ip => ip.length = 4 ∧ !ipIsLoopback ip

/-- The router id the decision logic gives VRF object `i`: the configured id when one is set,
else the greatest loopback candidate, else the greatest other candidate, else `0.0.0.0`. -/
def routerIdSpec (s : System) (i : Nat) : Option (List UInt8) :=
  (s.vrfs[i]?).map fun v =>
    if v.routerId.configured then v.routerId.configId
    else ((s.routerIdCandidates i true).argmax ipv4Value).getD
      (((s.routerIdCandidates i false).argmax ipv4Value).getD [0, 0, 0, 0])

end System

/-- `eth0`, index 2, up and running, in the default VRF. -/
def eth0 : IfInfo := ⟨"eth0", 2, 0x41, 0, 0⟩

/-- `eth1`, index 3, up and running, in the default VRF. -/
def eth1 : IfInfo := ⟨"eth1", 3, 0x41, 0, 0⟩

/-- `10.0.0.1/24` on the interface of index `index`. -/
def addr10 (index : Nat) : IfAddrInfo := ⟨⟨[10, 0, 0, 1], 24⟩, index⟩

/-- `10.0.0.1/24` is put on `eth0` and on `eth1`, then taken off `eth0`: the router id of the
default VRF falls to `0.0.0.0`, while `eth1` still has the address and the decision logic gives
`10.0.0.1`. -/
theorem routerId_lost_with_shared_address :
    (System.init.run plainGlobals
        [.ifUpdate eth0, .ifUpdate eth1, .ifAddrAdd (addr10 2), .ifAddrAdd (addr10 3),
          .ifAddrDelete (addr10 2)]).map (fun s =>
      ((s.vrfs[0]?).map (·.routerId.id), s.routerIdSpec 0)) =
      some (some [0, 0, 0, 0], some [10, 0, 0, 1]) := by
  decide

end Zebra
