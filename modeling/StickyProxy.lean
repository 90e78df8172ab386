import StickyProxy.Common.Run
import StickyProxy.Common.Table
import StickyProxy.Common.Group
import StickyProxy.Common.Pool
import StickyProxy.Common.Simulation
import StickyProxy.Common.Follower
import StickyProxy.Common.Tokens
import StickyProxy.Common.Fallible
import StickyProxy.Common.Signal
import StickyProxy.Common.Traversal
import StickyProxy.Metrics.Model.Histogram
import StickyProxy.Metrics.Recording
import StickyProxy.Model.Assignment
import StickyProxy.Model.Hashing
import StickyProxy.Redis.Model.Keyspace
import StickyProxy.Redis.Accounting
import StickyProxy.Redis.Model.Calls
import StickyProxy.Redis.Interleaving
import StickyProxy.Redis.Effects
import StickyProxy.Redis.OnDemand
import StickyProxy.Postgres.Model.Database
import StickyProxy.Postgres.Model.Transactions
import StickyProxy.Postgres.Accounting
import StickyProxy.Postgres.Sequential
import StickyProxy.Postgres.Effects
import StickyProxy.Store.Model.Interface
import StickyProxy.Store.Effects
import StickyProxy.Store.Spec
import StickyProxy.Store.Refinement
import StickyProxy.Proxy.Model.Backends
import StickyProxy.Proxy.Eviction
import StickyProxy.Proxy.Model.UserCache
import StickyProxy.Proxy.Model.Breaker
import StickyProxy.Proxy.Model.PoisonPill
import StickyProxy.Proxy.Model.Serve
import StickyProxy.Proxy.Routing
import StickyProxy.Proxy.Model.PublicPath
import StickyProxy.Proxy.Binding
import StickyProxy.Proxy.Model.Outage
import StickyProxy.Proxy.Outage
import StickyProxy.Proxy.Model.Traffic
import StickyProxy.Proxy.Traffic
import StickyProxy.Cluster.Model.Replicas
import StickyProxy.Cluster.Stickiness
import StickyProxy.Drain.Model.Replica
import StickyProxy.Drain.Completeness
import StickyProxy.Drain.Model.Manager
import StickyProxy.Drain.Starting
import StickyProxy.Drain.Model.Gauges
import StickyProxy.Drain.Gauges
import StickyProxy.Transition.Model.Lock
import StickyProxy.Transition.Holding
import StickyProxy.Transition.Exclusion
import StickyProxy.Transition.Release
import StickyProxy.Snapshot.Model.Operations
import StickyProxy.Snapshot.Deletion
import StickyProxy.Health.Model.Checker
import StickyProxy.Health.Effects
import StickyProxy.Health.Recovery
import StickyProxy.Health.Targets
import StickyProxy.Discovery.Model.Backends
import StickyProxy.Discovery.Model.Kubernetes
import StickyProxy.Discovery.Convergence
import StickyProxy.Discovery.Model.Draining
import StickyProxy.Discovery.Recovery
import StickyProxy.Discovery.Order
import StickyProxy.Discovery.Model.Accounts
import StickyProxy.Discovery.Accounts
import StickyProxy.Health.Model.Controllers
import StickyProxy.Health.Exclusion
import StickyProxy.Rebalance.Model.LeastLoaded
import StickyProxy.Rebalance.Planning
import StickyProxy.Rebalance.Evacuation
import StickyProxy.Rebalance.Moves
import StickyProxy.Rebalance.Termination
import StickyProxy.Rebalance.Balance
import StickyProxy.Rebalance.Model.Rebalancer
import StickyProxy.Rebalance.Model.Replica
import StickyProxy.Rebalance.Correctness
import StickyProxy.Rebalance.Weights
import StickyProxy.Rebalance.Staleness
import StickyProxy.Health.Model.Scaling
import StickyProxy.Health.Scaling
import StickyProxy.Hooks.Model.Delivery
import StickyProxy.Hooks.Tracking
import StickyProxy.Sticky.Model.Keys
import StickyProxy.Sticky.Model.Replicas
import StickyProxy.Sticky.Finding
import StickyProxy.Ownership.Model.Checker
import StickyProxy.Ownership.Soundness
import StickyProxy.WebSocket.Model.Bridge
import StickyProxy.WebSocket.Effects
import StickyProxy.WebSocket.Relay
import StickyProxy.WebSocket.Loss
import StickyProxy.Breaker.Model.Calls
import StickyProxy.Breaker.Counting
import StickyProxy.Breaker.Diagram
import StickyProxy.Rebalance.Model.ConsistentHash
import StickyProxy.Proxy.Agreement
import StickyProxy.Rebalance.HashRouting
import StickyProxy.Redis.Model.Failures
import StickyProxy.Redis.Healing
import StickyProxy.Transition.Model.RoundTrips
import StickyProxy.Transition.Leak
import StickyProxy.Hold.Model.Manager
import StickyProxy.Hold.Discipline
import StickyProxy.Postgres.Model.Migration
import StickyProxy.Postgres.Rebuild
import StickyProxy.Postgres.Registration
import StickyProxy.WebSocket.Model.Swaps
import StickyProxy.WebSocket.LastSwap
import StickyProxy.WebSocket.Survival
import StickyProxy.WebSocket.Model.Buffers
import StickyProxy.WebSocket.Linearity
import StickyProxy.Store.Repeats
import StickyProxy.Postgres.Model.Queries
import StickyProxy.Rebalance.Reinsertion
import StickyProxy.Rebalance.Disruption
import StickyProxy.Common.Machine
import StickyProxy.Proxy.Quarantine
import StickyProxy.Proxy.Model.RateLimiter
import StickyProxy.Proxy.RateLimit
import StickyProxy.Proxy.Model.Jwt
import StickyProxy.Proxy.Transparency
import StickyProxy.Proxy.Model.Forwarding
import StickyProxy.Proxy.Identity
import StickyProxy.Ownership.Model.Batches
import StickyProxy.Ownership.Exact
import StickyProxy.WebSocket.Model.ReadAll
import StickyProxy.WebSocket.Model.Tracker
import StickyProxy.WebSocket.Housing
import StickyProxy.WebSocket.Tracking
import StickyProxy.WebSocket.Work
import StickyProxy.WebSocket.Attendance
import StickyProxy.WebSocket.Delivery
import StickyProxy.WebSocket.Reading
import StickyProxy.Proxy.Model.Notifier
import StickyProxy.Proxy.Debounce
import StickyProxy.Config.Model.Load
import StickyProxy.Config.Loading
import StickyProxy.Config.Model.Startup
import StickyProxy.Config.Startup
import StickyProxy.Discovery.Model.Watch
import StickyProxy.Discovery.Watching
import StickyProxy.Proxy.Model.SharedCache
import StickyProxy.Proxy.Sweeping
import StickyProxy.Proxy.Model.Listening
import StickyProxy.Proxy.Listening
import StickyProxy.Proxy.Model.Limiting
import StickyProxy.Proxy.Limiting
