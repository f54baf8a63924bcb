import Sqns.Canonical
import Sqns.Concurrent
import Sqns.Convergence
import Sqns.Exchange
import Sqns.Lib.Paging
import Sqns.Protocol
import Sqns.Listing
import Sqns.Delivery
import Sqns.AntiEntropy
import Sqns.Seeding
import Sqns.Completeness
import Sqns.Cache
import Sqns.Lib.Marks
import Sqns.Lib.Stamps
import Sqns.Resolver
import Sqns.NoDowngrade
import Sqns.Mesh
import Sqns.Serving
import Sqns.Storm
import Sqns.Lib.Walks
import Sqns.Recursion
import Sqns.RelayCache
import Sqns.Absence
import Sqns.Relaying
import Sqns.Revoking
import Sqns.Isolation
import Sqns.Framing
import Sqns.Rotation
import Sqns.Chain
import Sqns.Prefetch
import Sqns.Publisher
import Sqns.Maintenance
import Sqns.SnapshotFile
import Sqns.Ordering
import Sqns.Lib.Text
import Sqns.Lib.IpText
import Sqns.Addr
import Sqns.EndpointText
import Sqns.Forwarding
import Sqns.SelfWait
import Sqns.Lib.Pool
import Sqns.Link
import Sqns.Dialing
import Sqns.Refreshing
import Sqns.Lib.Simulation
import Sqns.Streams
import Sqns.Trail
import Sqns.Superseding
import Sqns.Lookups
import Sqns.Rounds
import Sqns.Lib.Calls
import Sqns.Lib.FileTree
import Sqns.KeyFiles
import Sqns.Provisioning
