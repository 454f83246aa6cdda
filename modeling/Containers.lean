import Containers.Buffer.Any
import Containers.Heap.Any
import Containers.Heap.Contents
import Containers.Json.BufferConfig
import Containers.Json.MapDiff
import Containers.Json.RoundTrip
import Containers.Map.Any
import Containers.PriorityQueue.Tracked
import Containers.Proofs.Buffer.Delivery
import Containers.Proofs.Buffer.RoundRobin
import Containers.Proofs.Heap.Effort
import Containers.Proofs.Heap.Faults
import Containers.Proofs.Heap.Mending
import Containers.Proofs.Json.Differences
import Containers.Proofs.Map.Locality
import Containers.Proofs.Map.Patch
import Containers.Proofs.Map.Replacement
import Containers.Proofs.PriorityQueue.Exchanges
import Containers.Proofs.PriorityQueue.Interchange
import Containers.Proofs.PriorityQueue.Repairs
import Containers.Proofs.PriorityQueue.Tracking
import Containers.Proofs.Queue.Compaction
import Containers.Proofs.Set.Members
import Containers.Proofs.Walk
import Containers.Queue.Contents
import Containers.Queue.Locked
import Containers.Set.Any
import Containers.Value.Folded
import Containers.Value.Ranking
import Containers.Proofs.Heap.Rest
import Containers.Proofs.Heap.Ranks
import Containers.Proofs.Heap.Root
import Containers.Proofs.Snapshot
