import PeclMemcache.Types
import PeclMemcache.Queue
import PeclMemcache.Stream
import PeclMemcache.AsciiProtocol
import PeclMemcache.BinaryProtocol
import PeclMemcache.World
import PeclMemcache.Pool
import PeclMemcache.Select
import PeclMemcache.Failover
import PeclMemcache.Isolation
import PeclMemcache.Opaque
import PeclMemcache.Parsers
import PeclMemcache.Replay
import PeclMemcache.Program
import PeclMemcache.Frame
import PeclMemcache.Operations
import PeclMemcache.Pending
import PeclMemcache.Multiget
import PeclMemcache.Fragments
import PeclMemcache.Framing
import PeclMemcache.Words
import PeclMemcache.TextGrammar
import PeclMemcache.Requests
import PeclMemcache.Memcached
import PeclMemcache.Exchange
import PeclMemcache.Cas
import PeclMemcache.Parity
import PeclMemcache.Datagrams
import PeclMemcache.Session
import PeclMemcache.SessionLoops
import PeclMemcache.Values
import PeclMemcache.SessionClients
import PeclMemcache.SessionLock
import PeclMemcache.Redundancy
import PeclMemcache.Circle
import PeclMemcache.ConsistentHash
import PeclMemcache.Writes
import PeclMemcache.MultiValues
import PeclMemcache.ResultArrays
import PeclMemcache.MultiNumbers
import PeclMemcache.ResultKeys
import PeclMemcache.SessionServers
import PeclMemcache.Polling
import PeclMemcache.Stale
import PeclMemcache.Machines
import PeclMemcache.Nesting
import PeclMemcache.Rescheduling
import PeclMemcache.SharedServers
import PeclMemcache.Sharing
import PeclMemcache.Turns
import PeclMemcache.Calm
import PeclMemcache.Custody
import PeclMemcache.Rounds
import PeclMemcache.Packing
import PeclMemcache.Handing
import PeclMemcache.Gathering
import PeclMemcache.Distribution
import PeclMemcache.Quiescence
import PeclMemcache.Wiring
import PeclMemcache.Pointers
import PeclMemcache.Safety
import PeclMemcache.Cluster
import PeclMemcache.Coupling
import PeclMemcache.Selectors
import PeclMemcache.Interchange
import PeclMemcache.Lines
import PeclMemcache.LateDatagrams
import PeclMemcache.Suspension
import PeclMemcache.Bodies
import PeclMemcache.Concatenation
import PeclMemcache.CommandStream
import PeclMemcache.Authentication
import PeclMemcache.Members
import PeclMemcache.Closing
import PeclMemcache.Buffers
import PeclMemcache.KeyBuffers
import PeclMemcache.Placement
import PeclMemcache.Configuration
import PeclMemcache.Timeouts
import PeclMemcache.Addressing
import PeclMemcache.Fields
import PeclMemcache.SavePath
import PeclMemcache.NumericCopies
import PeclMemcache.MultiStores
import PeclMemcache.Ring
import PeclMemcache.RingQueue
import PeclMemcache.Fnv
import PeclMemcache.Crc
import PeclMemcache.CrcHash
import PeclMemcache.Amounts
import PeclMemcache.RequestFrames
import PeclMemcache.HostPrefix
import PeclMemcache.NestedArrays
import PeclMemcache.StatsLines
import PeclMemcache.StatsArrays
import PeclMemcache.GetForms
import PeclMemcache.Endings
import PeclMemcache.Scheduling
import PeclMemcache.Coupling
import PeclMemcache.Selectors
