import WeakSet.Report
import WeakSet.Proofs.Barred
import WeakSet.Proofs.Shard
import WeakSet.Proofs.Coverage
import WeakSet.Proofs.Lifecycle
import WeakSet.Proofs.Quiet
import WeakSet.Proofs.Bulk
import WeakSet.Proofs.Filtering
import WeakSet.Proofs.Listing
import WeakSet.Proofs.Iteration
import WeakSet.Proofs.Mirror
import WeakSet.Proofs.Placement
import WeakSet.Proofs.Lookups
import WeakSet.Proofs.Endings
import WeakSet.Proofs.Stages
import WeakSet.Proofs.Histories
import WeakSet.Proofs.Schedules
import WeakSet.Proofs.Independence
import WeakSet.Proofs.Together
import WeakSet.Proofs.Refinement
import WeakSet.Proofs.Ownership
import WeakSet.Proofs.Trapping
import WeakSet.Proofs.Isolation
import WeakSet.Proofs.Comparing
import WeakSet.Proofs.Verdicts
import WeakSet.Proofs.Predicates
import WeakSet.Proofs.Departures
import WeakSet.Proofs.Tickets
import WeakSet.Proofs.Operations
import WeakSet.Proofs.LastReturned
import WeakSet.Proofs.Destruction
import WeakSet.Proofs.Scriptless
import WeakSet.Proofs.Phantoms
import WeakSet.Proofs.Guards
import WeakSet.Proofs.Sharding
import WeakSet.Proofs.Representation
import WeakSet.Proofs.Logging
