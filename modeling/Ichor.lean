import Ichor.Properties.Trackers
import Ichor.Properties.Waits
import Ichor.Coroutines.AutoReset
import Ichor.Coroutines.Fairness
import Ichor.Coroutines.ManualReset
import Ichor.Http.Chunks
import Ichor.Http.Dispatch
import Ichor.Http.Replies
import Ichor.Http.Segmentation
import Ichor.Http.Pairing
import Ichor.Http.Recovery
import Ichor.Http.HeaderNames
import Ichor.Http.RoundTrip
import Ichor.Io.Closing
import Ichor.Io.Descriptors
import Ichor.Io.SharedServing
import Ichor.Io.WriteFile
import Ichor.Tcp.Connecting
import Ichor.Tcp.ReceivedStream
import Ichor.Tcp.SendOrder
import Ichor.Services.Restart
import Ichor.Timer.UringTimer
import Ichor.Uring.QueueAccounting
import Ichor.Uring.BufferRing
import Ichor.Uring.ProvidedMemory
import Ichor.Metrics.Statistics
import Ichor.Redis.Transaction
import Ichor.Stl.PriorityQueue
import Ichor.Stl.Any
import Ichor.Stl.Split
import Ichor.Stl.StaticVector.Lifetimes
import Ichor.Stl.StaticVector.Order
import Ichor.Stl.ReferenceCountedPointer
import Ichor.Properties.Broadcast
import Ichor.Properties.Waking
import Ichor.Properties.Generators
