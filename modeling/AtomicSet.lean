import AtomicSet.Benchmark.Setup
import AtomicSet.Main
import AtomicSet.Phase
import AtomicSet.Proofs.Agreement
import AtomicSet.Proofs.Helping.Cycles
import AtomicSet.Proofs.Helping.Legal
import AtomicSet.Proofs.Helping.Termination
import AtomicSet.Text.Listing
import AtomicSet.Proofs.Helping.ExactlyOnce
import AtomicSet.Proofs.Helping.Refusals
import AtomicSet.Proofs.Helping.Isolation
import AtomicSet.Proofs.Helping.Interrupted
import AtomicSet.Proofs.Helping.Unlinked
import AtomicSet.Proofs.Helping.Staleness
import AtomicSet.Proofs.Helping.Abandoned
import AtomicSet.Proofs.Helping.Mirrors
import AtomicSet.Proofs.Helping.InStep
import AtomicSet.Proofs.Helping.Invisible
import AtomicSet.Proofs.Helping.Counting
import AtomicSet.Proofs.Helping.SingleKey
import AtomicSet.Proofs.Locking.Exclusion
import AtomicSet.Proofs.Locking.TwoPhase
import AtomicSet.Proofs.Bracket
import AtomicSet.Proofs.Helping.Footprint
import AtomicSet.Proofs.Locking.AllOrNothing
import AtomicSet.Proofs.Locking.Contention
import AtomicSet.Proofs.Helping.Apart
import AtomicSet.Proofs.Helping.Interleaving
import AtomicSet.Proofs.ListCalls
import AtomicSet.Proofs.Helping.Restamping
import AtomicSet.Proofs.FileTree
import AtomicSet.Proofs.Benchmark.Output
import AtomicSet.Proofs.Benchmark.Table
import AtomicSet.Proofs.Benchmark.Results
import AtomicSet.Proofs.Benchmark.Leftovers
import AtomicSet.Proofs.Helping.Unwinding
import AtomicSet.Proofs.Text.ByteSize
