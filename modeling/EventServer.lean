import EventServer.Support.Run
import EventServer.Support.AtomicObject
import EventServer.Support.UpperBound
import EventServer.Common.MutexLock
import EventServer.Common.MutexProgress
import EventServer.Common.LatchLinearizability
import EventServer.Common.TimeZoneInverse
import EventServer.Common.ZoneFileRoundTrip
import EventServer.Common.ZoneUsability
import EventServer.Common.ZoneVersions
import EventServer.Common.UtcTime
import EventServer.Common.PostTransition
import EventServer.Common.TimeText
import EventServer.Event.Timer
import EventServer.Event.SchedulingContract
import EventServer.Event.DispatcherProgress
import EventServer.Event.FileEventRuns
import EventServer.Network.BufferRefinement
import EventServer.Network.BufferIntegers
import EventServer.Network.BufferSpace
import EventServer.Network.BufferSearch
import EventServer.Network.TcpConnection
import EventServer.Network.Echo
import EventServer.Network.StateAssertions
import EventServer.Network.ConnectionLife
import EventServer.Network.ServerSafety
import EventServer.Network.SendConservation
import EventServer.Network.Confinement
import EventServer.Network.ConnectionNames
import EventServer.Network.Assignment
import EventServer.Network.SocketAddress
import EventServer.Network.ConnectorBackoff
import EventServer.Network.Acceptor
import EventServer.Thread.StartStop
import EventServer.Thread.BoundedQueue
import EventServer.Thread.Affinity
import EventServer.Thread.PoolLocking
import EventServer.Thread.PoolSteps
import EventServer.Thread.ThreadLifetime
import EventServer.Thread.PoolWakeups
import EventServer.Thread.PoolLinearizability
