import Dibs.Lib.FinMap
import Dibs.Lib.Run
import Dibs.Lib.Lease
import Dibs.Os.Basic
import Dibs.Os.Backing
import Dibs.Os.Resolve
import Dibs.Os.Calls
import Dibs.State.HashTable
import Dibs.Fs.Cas
import Dibs.Fs.Handles
import Dibs.Fs.Inodes
import Dibs.Fs.Mod
import Dibs.Fs.Step
import Dibs.Fs.Outcomes
import Dibs.Fs.Transitions
import Dibs.Proofs.Rejection
import Dibs.Proofs.Exclusive
import Dibs.Proofs.OwnerLiveness
import Dibs.Proofs.StaleView
import Dibs.Proofs.Receipts
import Dibs.Proofs.Descriptors
import Dibs.Proofs.FlushTruth
import Dibs.Proofs.Truncation
import Dibs.Proofs.LostUpdate
import Dibs.Proofs.SelfConflict
import Dibs.Proofs.Parents
import Dibs.Proofs.Lock
import Dibs.Proofs.Isolation
import Dibs.Proofs.Window
import Dibs.Proofs.EvictionRace
import Dibs.Proofs.InodeBijection
import Dibs.Proofs.Subtree
import Dibs.Main
import Dibs.Proofs.Accounts
import Dibs.Proofs.Startup
import Dibs.Os.Tree
import Dibs.Proofs.InodeTruth
import Dibs.Fs.Threads
import Dibs.Proofs.Races
import Dibs.Proofs.EvictionWindow
import Dibs.Proofs.Move
import Dibs.Proofs.Shutdown
import Dibs.Proofs.Unlink
import Dibs.Lib.Slices
import Dibs.Proofs.Snapshot
import Dibs.Os.Below
import Dibs.Proofs.Conflicts
import Dibs.Proofs.FailedHash
import Dibs.Fs.Listing
import Dibs.Proofs.Enumeration
import Dibs.Os.Lossy
import Dibs.Proofs.InodeSteps
import Dibs.Proofs.ListingLookup
import Dibs.Fs.Hashing
import Dibs.Proofs.HashIdentity
import Dibs.Proofs.Times
import Dibs.Lib.Edits
import Dibs.Proofs.Journal
import Dibs.Fs.Passthrough
import Dibs.Proofs.Transparency
import Dibs.Proofs.Notes
import Dibs.Proofs.Contents
import Dibs.Lib.Linearize
import Dibs.State.Locks
import Dibs.Proofs.LockSteps
import Dibs.Proofs.Atomicity
import Dibs.Proofs.Progress
import Dibs.Proofs.Scans
import Dibs.Proofs.OpenFiles
import Dibs.Process
import Dibs.Proofs.Stopping
import Dibs.Proofs.Digests
import Dibs.Proofs.MountRuns
