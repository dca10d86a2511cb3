import Zebra.Lib.Scan
import Zebra.Lib.KeyedList
import Zebra.Lib.GoText
import Zebra.Lib.Bytes
import Zebra.Lib.ListFamily
import Zebra.Lib.Run
import Zebra.Netutil.Prefix
import Zebra.Netutil.Ptree
import Zebra.Netutil.PtreeMap
import Zebra.Netutil.PrefixMatch
import Zebra.Rib.Types
import Zebra.Rib.Vrf
import Zebra.Rib.Process
import Zebra.Rib.Table
import Zebra.Rib.ProcessSpec
import Zebra.Rib.Replace
import Zebra.Rib.Selection
import Zebra.Rib.Redist
import Zebra.Rib.Resolve
import Zebra.Rib.Static
import Zebra.Rib.Interface
import Zebra.Rib.RouterId
import Zebra.Rib.System
import Zebra.Rib.RouterIdSpec
import Zebra.Rib.TableView
import Zebra.Rib.Clean
import Zebra.Rib.Refcount
import Zebra.Rib.Walker
import Zebra.Rib.Connected
import Zebra.Rib.ConnectedSystem
import Zebra.Rib.ConnectedInv
import Zebra.Rib.ConnectedSpec
import Zebra.Policy.RouteMap
import Zebra.Policy.ASPath
import Zebra.Policy.ASPathText
import Zebra.Policy.PrefixList
import Zebra.Zapi.Message
import Zebra.Zapi.Body
import Zebra.Bgp.Capability
import Zebra.Bgp.Open
import Zebra.Bgp.Neighbor
import Zebra.Bgp.PrefixList
import Zebra.Bgp.Community
import Zebra.Bgp.CommunityList
import Zebra.Rib.Watcher
import Zebra.Rib.WatcherSpec
import Zebra.Rib.Arp
import Zebra.Bgp.Fsm
import Zebra.Netutil.PtreeCompact
import Zebra.Bgp.Transport
