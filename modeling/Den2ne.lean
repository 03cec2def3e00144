import Den2ne.Transition.Run
import Den2ne.Csma.Accounting
import Den2ne.Csma.Attempts
import Den2ne.Bytes.LittleEndian
import Den2ne.Coap.RoundTrip
import Den2ne.Csma.Handoff
import Den2ne.Csma.Duplicate
import Den2ne.Hlmac.Table
import Den2ne.Hlmac.Invariant
import Den2ne.Hlmac.LoopTest
import Den2ne.Log.Boots
import Den2ne.Mpl.SeedId
import Den2ne.Mpl.Arrival
import Den2ne.Mpl.Buffer
import Den2ne.Mpl.Inside
import Den2ne.Network.Antisymmetry
import Den2ne.Network.Convergence
import Den2ne.Network.Energy
import Den2ne.Network.Rounds
import Den2ne.Network.Tree
import Den2ne.Network.Unique
import Den2ne.Network.Buffers
import Den2ne.Node.EdgeCounter
import Den2ne.Node.Flow
import Den2ne.Node.Handover
import Den2ne.Node.HelloExpiry
import Den2ne.Node.Missing
import Den2ne.Node.Ownership
import Den2ne.Node.ParentMark
import Den2ne.Node.Provenance
import Den2ne.Node.Queue
import Den2ne.Node.Roster
import Den2ne.Node.SendTimer
import Den2ne.Node.Unicast
import Den2ne.RouteTable.Refinement
import Den2ne.Sicslowpan.Partition
import Den2ne.Sicslowpan.Reassembly
import Den2ne.Sixp.Lifetime
import Den2ne.SourceRoute.Routing
import Den2ne.SourceRoute.Runs
import Den2ne.Tsch.Counters
import Den2ne.Wire.Parse
import Den2ne.Wire.Bounds
import Den2ne.Wire.RoundTrip
import Den2ne.Frame802154.Header
import Den2ne.Frame802154.RoundTrip
import Den2ne.NbrTable.Model
import Den2ne.NbrTable.Locks
import Den2ne.Earlier.Ipv6Queue
import Den2ne.Earlier.Share
import Den2ne.Node.ConvergenceTime
import Den2ne.Sicslowpan.IphcChain
import Den2ne.Hlmac.Render
import Den2ne.Frame802154.Bounds
import Den2ne.Frame802154.Framer
import Den2ne.Frame802154e.Inside
import Den2ne.SixpPkt.RoundTrip
import Den2ne.SourceRoute.Inserted
import Den2ne.Hlmac.LastId
import Den2ne.Trickle.Interval
import Den2ne.Rpl.Rank
import Den2ne.Rpl.Configuration
import Den2ne.Rpl.Downward
import Den2ne.Tsch.NextSlot
import Den2ne.Frame802154e.RoundTrip
import Den2ne.HeapMem.Runs
import Den2ne.Network.Flood
