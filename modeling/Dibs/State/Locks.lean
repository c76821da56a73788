import Dibs.Lib.Linearize
import Dibs.State.CasCalls

/-! The CAS table lock by lock (`src/state/hash_table.rs`). `entries` is a sharded map whose values are
    behind mutexes: `get` gives out a guard that keeps the shard from being written until it is dropped,
    `iter` holds the guard of one shard after the other, and `lock` waits for a mutex. Calls that hold
    such guards from one step to the next are taken apart into the steps that can wait or see what other
    threads do: `check_and_acquire_write`, `release_write` and `has_active_writer`, which lock one entry
    (the check also holds a guard into the handle table), and the scans `active_writers`, `all_entries`
    and `evict_older_than`, which lock every entry in turn. All the other operations are series of
    changes to single keys (`changes`), and a change waits for the guards into its shard. -/

namespace Dibs

/-- The shards of the maps: how many each map has, and in which one a key is. -/
structure Shards where
  count : ℕ
  entries : Path → ℕ
  receipts : ℕ × Path → ℕ
  handles : ℕ → ℕ
  entries_lt : ∀ p, entries p < count
  receipts_lt : ∀ k, receipts k < count

/-- The arguments of `check_and_acquire_write`. -/
structure CheckArgs where
  path : Path
  fh : ℕ
  sid : ℕ
  actual : Bytes

/-- A change to one key of one map. -/
inductive Change where
  | ensureEntry (now : Time) (path : Path)
  | removeEntry (path : Path)
  | insertEntry (path : Path) (state : FileState)
  | removeReceipt (sid : ℕ) (path : Path)
  | insertReceipt (sid : ℕ) (path : Path) (entry : ReaderEntry)

namespace Change

def apply (t : CasTable) : Change → CasTable
  | .ensureEntry now path => t.ensureEntry now path
  | .removeEntry path => { t with entries := t.entries.remove path }
  | .insertEntry path state => { t with entries := t.entries.insert path state }
  | .removeReceipt sid path => { t with readerHashes := t.readerHashes.remove (sid, path) }
  | .insertReceipt sid path entry =>
    { t with readerHashes := t.readerHashes.insert (sid, path) entry }

/-- The entry a change writes. -/
def entry : Change → Option Path
  | .ensureEntry _ path | .removeEntry path | .insertEntry path _ => some path
  | .removeReceipt .. | .insertReceipt .. => none

end Change

/-- The changes of an operation that takes no entry lock. -/
def CasTable.changes (t : CasTable) : CasCall → List Change
  | .recordReader now path hash sid => [.insertReceipt sid path ⟨hash, now⟩]
  | .updateReader now sid path hash => [.insertReceipt sid path ⟨hash, now⟩]
  | .ensureEntry now path => [.ensureEntry now path]
  | .remove path =>
    .removeEntry path ::
      ((t.readerHashes.iter.filter fun e => !decide (e.1.2 ≠ path)).map (·.1)).map
        fun k => .removeReceipt k.1 k.2
  | .rename old new =>
    (match t.entries.get old with
      | some state => [.removeEntry old, .insertEntry new state]
      | none => []) ++
    ((t.readerHashes.iter.filter fun e => e.1.2 = old).map fun e => (e.1.1, e.2)).flatMap fun e =>
      [.removeReceipt e.1 old, .insertReceipt e.1 new e.2]
  | _ => []

/-- The calls that take entry locks. -/
def CasCall.locking : CasCall → Bool
  | .checkAndAcquireWrite .. | .releaseWrite .. | .hasActiveWriter _ | .evictOlderThan .. => true
  | _ => false

theorem exec_removeReceipts (l : List (ℕ × Path)) (t : CasTable) :
    Run.exec Change.apply t (l.map fun k => .removeReceipt k.1 k.2) =
      { t with readerHashes := l.foldl (fun m k => m.remove k) t.readerHashes } := by
  induction l generalizing t with
  | nil => rfl
  | cons k l ih => rw [List.map_cons, Run.exec_cons, ih]; rfl

theorem exec_moveReceipts (old new : Path) (l : List (ℕ × ReaderEntry)) (t : CasTable) :
    Run.exec Change.apply t
        (l.flatMap fun e => [.removeReceipt e.1 old, .insertReceipt e.1 new e.2]) =
      { t with readerHashes :=
          l.foldl (fun m e => (m.remove (e.1, old)).insert (e.1, new) e.2) t.readerHashes } := by
  induction l generalizing t with
  | nil => rfl
  | cons e l ih => rw [List.flatMap_cons, Run.exec_append, ih]; rfl

/-- REFINEMENT: an operation that takes no entry lock is the series of its changes. -/
theorem CasTable.exec_changes (t : CasTable) {c : CasCall} (hc : c.locking = false) :
    (∀ p, (Run.exec Change.apply t (t.changes c)).entries.get p = (t.call c).entries.get p) ∧
    ∀ k, (Run.exec Change.apply t (t.changes c)).readerHashes.get k =
      (t.call c).readerHashes.get k := by
  cases c with
  | remove path =>
    rw [changes, Run.exec_cons, exec_removeReceipts]
    exact ⟨fun _ => rfl, fun k =>
      FinMap.get_foldl_remove_filter (fun (j : ℕ × Path) _ => decide (j.2 ≠ path))
        t.readerHashes k⟩
  | rename old new =>
    rw [changes, Run.exec_append, exec_moveReceipts, call, rename]
    cases t.entries.get old with
    | none => exact ⟨fun _ => rfl, fun _ => rfl⟩
    | some state => exact ⟨fun _ => rfl, fun _ => rfl⟩
  | evictOlderThan now seconds => cases hc
  | checkAndAcquireWrite now path fh sid handles actual => cases hc
  | releaseWrite path fh => cases hc
  | hasActiveWriter path => cases hc
  | _ => exact ⟨fun _ => rfl, fun _ => rfl⟩

/-- What handlers do to the handle table. -/
inductive HandleOp where
  | alloc (realFd : ℤ) (path : Path) (flags : OpenFlags) (hash : Option Bytes) (sid : ℕ)
  /-- `get_mut` in `write` -/
  | written (fh : ℕ)
  /-- `get_mut` in `flush` -/
  | flushed (fh : ℕ) (newHash : Bytes)
  | remove (fh : ℕ)

namespace HandleOp

def apply (t : HandleTable) : HandleOp → HandleTable
  | .alloc realFd path flags hash sid => (t.alloc realFd path flags hash sid).1
  | .written fh => t.modify fh fun h => { h with hasWritten := true }
  | .flushed fh newHash =>
    t.modify fh fun h => { h with hashAtOpen := some newHash, hasWritten := false }
  | .remove fh => t.remove fh

/-- The handle an operation writes. -/
def key (t : HandleTable) : HandleOp → ℕ
  | .alloc .. => t.nextFh
  | .written fh | .flushed fh _ | .remove fh => fh

end HandleOp

/-- A scan over `entries`, with what it has gathered. -/
inductive Scan where
  | activeWriters (n : ℕ)
  | allEntries (rows : List FileStateInfo)
  /-- the first half of `evict_older_than` -/
  | evict (cutoff : Time) (toRemove : List Path)

/-- What a scan does with an entry. -/
def Scan.look (path : Path) (state : FileState) : Scan → Scan
  | .activeWriters n => .activeWriters (if state.writeOwner.isSome then n + 1 else n)
  | .allEntries rows => .allEntries (rows ++ [⟨path, state.writeOwner, state.lastAccess⟩])
  | .evict cutoff toRemove =>
    .evict cutoff (if state.writeOwner.isNone && state.lastAccess < cutoff then toRemove ++ [path]
      else toRemove)

/-- Where a thread stands in one of the calls that lock entries: the call it makes next. -/
inductive LockPc where
  -- check_and_acquire_write: `ensure_entry`, `get(..).unwrap()`, `lock` with the look at the owner,
  -- `handles.get`, `reader_hashes.get`, and the assignment
  | ensure (k : CheckArgs)
  | find (k : CheckArgs)
  | lock (k : CheckArgs)
  | handle (k : CheckArgs)
  | receipt (k : CheckArgs)
  | acquire (k : CheckArgs)
  -- release_write
  | releaseFind (path : Path) (fh : ℕ)
  | releaseLock (path : Path) (fh : ℕ)
  -- has_active_writer
  | activeFind (path : Path)
  | activeLock (path : Path)
  -- a scan: its first `next`, and the ones behind it, with the rest of the shard it is in
  | scan (j : Scan)
  | look (j : Scan) (shard : ℕ) (todo : List Path)
  -- evict_older_than: the subtraction; and after its scan `entries.remove` for each collected path and
  -- `reader_hashes.retain`, which goes from shard to shard
  | cutoff (seconds : ℕ)
  | evict (cutoff : Time) (toRemove : List Path)
  | expire (cutoff : Time) (shard : ℕ)

namespace LockPc

/-- The entries whose shard the thread keeps from being written. -/
def pins : LockPc → List Path
  | .lock k | .handle k | .receipt k | .acquire k => [k.path]
  | .releaseLock path _ | .activeLock path => [path]
  | .look _ _ todo => todo
  | _ => []

/-- The shard of `entries` to which the thread holds a guard. -/
def guard (S : Shards) : LockPc → Option ℕ
  | .lock k | .handle k | .receipt k | .acquire k => some (S.entries k.path)
  | .releaseLock path _ | .activeLock path => some (S.entries path)
  | .look _ shard _ => some shard
  | _ => none

/-- The entry whose mutex the thread holds from one step to the next. -/
def mutex : LockPc → Option Path
  | .handle k | .receipt k | .acquire k => some k.path
  | _ => none

/-- The handle to which the thread holds a guard. -/
def handleGuard : LockPc → Option ℕ
  | .receipt k => some k.fh
  | _ => none

end LockPc

/-- A call that locks entries. -/
inductive LockCall where
  | checkAndAcquireWrite (k : CheckArgs)
  | releaseWrite (path : Path) (fh : ℕ)
  | hasActiveWriter (path : Path)
  | activeWriters
  | allEntries
  | evictOlderThan (seconds : ℕ)

def LockCall.start : LockCall → LockPc
  | .checkAndAcquireWrite k => .ensure k
  | .releaseWrite path fh => .releaseFind path fh
  | .hasActiveWriter path => .activeFind path
  | .activeWriters => .scan (.activeWriters 0)
  | .allEntries => .scan (.allEntries [])
  | .evictOlderThan seconds => .cutoff seconds

inductive LockEvent where
  /-- a thread that is in none of the calls enters one -/
  | begin_ (tid : ℕ) (c : LockCall)
  /-- a thread goes on with its call -/
  | run (tid : ℕ) (now : Time)
  /-- some thread changes a key of the table -/
  | change (c : Change)
  /-- some thread changes the handle table -/
  | handle (op : HandleOp)

/-- The tables, and where the threads stand. -/
structure Locked where
  table : CasTable
  handles : HandleTable
  pcs : FinMap ℕ LockPc := .empty

/-- What comes of a step of a call. -/
inductive Next where
  | waits
  | goesOn (pc : LockPc)
  /-- `unwrap` of nothing, or a subtraction that leaves the range of dates -/
  | panics
  | returns (a : CasAnswer)
  /-- a scan returns what it has gathered -/
  | scanned (j : Scan)

namespace Locked
variable (S : Shards)

/-- Some thread holds a guard into the shard of this entry. -/
def guarded (c : Locked) (path : Path) : Bool :=
  c.pcs.iter.any fun e => e.2.guard S = some (S.entries path)

/-- Some thread holds the mutex of this entry. -/
def locked (c : Locked) (path : Path) : Bool := c.pcs.iter.any fun e => e.2.mutex = some path

/-- Some thread holds a guard into the shard of this handle. -/
def handleGuarded (c : Locked) (fh : ℕ) : Bool :=
  c.pcs.iter.any fun e => e.2.handleGuard.any fun k => S.handles k = S.handles fh

/-- The paths in a shard of `entries`. -/
def inShard (t : CasTable) (shard : ℕ) : List Path :=
  (t.entries.iter.filter fun e => S.entries e.1 = shard).map (·.1)

/-- A scan takes the guard of the next shard, if there is one, and drops the one it holds. -/
def nextShard (t : CasTable) (j : Scan) (shard : ℕ) : Next :=
  if shard < S.count then .goesOn (.look j shard (inShard S t shard))
  else
    match j with
    | .activeWriters n => .scanned (.activeWriters n)
    | .allEntries rows => .scanned (.allEntries rows)
    | .evict cutoff toRemove => .goesOn (.evict cutoff toRemove)

/-- The receipts that `retain` drops in a shard of `reader_hashes`. -/
def expired (t : CasTable) (cutoff : Time) (shard : ℕ) : List (ℕ × Path) :=
  (t.readerHashes.iter.filter fun e =>
    S.receipts e.1 = shard && !decide (cutoff ≤ e.2.lastAccess)).map (·.1)

/-- The next step of a call: the table it leaves, and what comes of it. -/
def advance (c : Locked) (now : Time) : LockPc → CasTable × Next
  | .ensure k =>
    if c.guarded S k.path then (c.table, .waits)
    else (c.table.ensureEntry now k.path, .goesOn (.find k))
  | .find k =>
    match c.table.entries.get k.path with
    | none => (c.table, .panics)
    | some _ => (c.table, .goesOn (.lock k))
  | .lock k =>
    if c.locked k.path then (c.table, .waits)
    else
      match c.table.owner k.path with
      | some owner =>
        if owner = k.fh then
          ({ c.table with entries := c.table.entries.insert k.path ⟨some k.fh, now⟩ },
            .returns (.decision (.ok ())))
        else (c.table, .returns (.decision (.error (.owned k.path owner))))
      | none => (c.table, .goesOn (.handle k))
  | .handle k =>
    match c.handles.get k.fh with
    | none => (c.table, .goesOn (.acquire k))
    | some h =>
      match h.hashAtOpen with
      | some handleHash =>
        if handleHash ≠ k.actual then
          (c.table, .returns (.decision (.error (.handleHash k.path handleHash k.actual))))
        else (c.table, .goesOn (.acquire k))
      | none => (c.table, .goesOn (.receipt k))
  | .receipt k =>
    match c.table.readerHashes.get (k.sid, k.path) with
    | some reader =>
      if reader.hash ≠ k.actual then
        (c.table, .returns (.decision (.error (.readerHash k.path reader.hash k.actual))))
      else (c.table, .goesOn (.acquire k))
    | none => (c.table, .goesOn (.acquire k))
  | .acquire k =>
    ({ c.table with entries := c.table.entries.insert k.path ⟨some k.fh, now⟩ },
      .returns (.decision (.ok ())))
  | .releaseFind path fh =>
    match c.table.entries.get path with
    | none => (c.table, .returns .done)
    | some _ => (c.table, .goesOn (.releaseLock path fh))
  | .releaseLock path fh =>
    if c.locked path then (c.table, .waits) else (c.table.releaseWrite path fh, .returns .done)
  | .activeFind path =>
    match c.table.entries.get path with
    | none => (c.table, .returns (.writer false))
    | some _ => (c.table, .goesOn (.activeLock path))
  | .activeLock path =>
    if c.locked path then (c.table, .waits)
    else (c.table, .returns (.writer (c.table.owner path).isSome))
  | .scan j => (c.table, nextShard S c.table j 0)
  | .look j shard [] => (c.table, nextShard S c.table j (shard + 1))
  | .look j shard (path :: todo) =>
    if c.locked path then (c.table, .waits)
    else
      match c.table.entries.get path with
      | some state => (c.table, .goesOn (.look (j.look path state) shard todo))
      | none => (c.table, .goesOn (.look j shard todo))
  | .cutoff seconds =>
    if now - CasTable.chronoFromStd seconds < CasTable.dateMin then (c.table, .panics)
    else (c.table, .goesOn (.scan (.evict (now - CasTable.chronoFromStd seconds) [])))
  | .evict cutoff [] => (c.table, .goesOn (.expire cutoff 0))
  | .evict cutoff (path :: toRemove) =>
    if c.guarded S path then (c.table, .waits)
    else
      ({ c.table with entries := c.table.entries.remove path }, .goesOn (.evict cutoff toRemove))
  | .expire cutoff shard =>
    if shard < S.count then
      (Run.exec Change.apply c.table
          ((expired S c.table cutoff shard).map fun k => .removeReceipt k.1 k.2),
        .goesOn (.expire cutoff (shard + 1)))
    else (c.table, .scanned (.evict cutoff []))

/-- The thread goes on with `r`. -/
def goOn (c : Locked) (tid : ℕ) (r : CasTable × Next) : Locked :=
  { c with
    table := r.1
    pcs :=
      match r.2 with
      | .waits => c.pcs
      | .goesOn pc => c.pcs.insert tid pc
      | .panics | .returns _ | .scanned _ => c.pcs.remove tid }

/-- One event; what has to wait changes nothing. -/
def step (c : Locked) : LockEvent → Locked
  | .begin_ tid call =>
    match c.pcs.get tid with
    | some _ => c
    | none => { c with pcs := c.pcs.insert tid call.start }
  | .run tid now =>
    match c.pcs.get tid with
    | some pc => c.goOn tid (c.advance S now pc)
    | none => c
  | .change ch =>
    if ch.entry.any (c.guarded S) then c else { c with table := ch.apply c.table }
  | .handle op =>
    if c.handleGuarded S (op.key c.handles) then c else { c with handles := op.apply c.handles }

/-- The answer a thread gets about one entry; what a scan gathers is no answer of one moment. -/
def out (c : Locked) : LockEvent → List (ℕ × CasAnswer)
  | .run tid now =>
    match c.pcs.get tid with
    | some pc =>
      match (c.advance S now pc).2 with
      | .returns a => [(tid, a)]
      | _ => []
    | none => []
  | _ => []

variable {S} {c : Locked}

theorem guarded_eq_false {path : Path} : c.guarded S path = false ↔
    ∀ tid pc, c.pcs.get tid = some pc → pc.guard S ≠ some (S.entries path) := by
  rw [guarded, List.any_eq_false]
  constructor
  · intro h tid pc hpc heq
    have hno := h (tid, pc) (FinMap.mem_iter.mpr hpc)
    simp [heq] at hno
  · intro h e he
    simpa using h e.1 e.2 (FinMap.mem_iter.mp he)

theorem locked_eq_false {path : Path} : c.locked path = false ↔
    ∀ tid pc, c.pcs.get tid = some pc → pc.mutex ≠ some path := by
  rw [locked, List.any_eq_false]
  constructor
  · intro h tid pc hpc heq
    have hno := h (tid, pc) (FinMap.mem_iter.mpr hpc)
    simp [heq] at hno
  · intro h e he
    simpa using h e.1 e.2 (FinMap.mem_iter.mp he)

theorem handleGuarded_eq_false {fh : ℕ} : c.handleGuarded S fh = false ↔
    ∀ tid pc k, c.pcs.get tid = some pc → pc.handleGuard = some k →
      S.handles k ≠ S.handles fh := by
  rw [handleGuarded, List.any_eq_false]
  constructor
  · intro h tid pc k hpc hk heq
    have hno := h (tid, pc) (FinMap.mem_iter.mpr hpc)
    simp [hk, heq] at hno
  · intro h e he
    cases hk : e.2.handleGuard with
    | none => simp
    | some k => simpa using h e.1 e.2 k (FinMap.mem_iter.mp he) hk

theorem get_goOn (c : Locked) (tid : ℕ) (r : CasTable × Next) (j : ℕ) :
    (c.goOn tid r).pcs.get j =
      match r.2 with
      | .waits => c.pcs.get j
      | .goesOn pc => if j = tid then some pc else c.pcs.get j
      | .panics | .returns _ | .scanned _ => if j = tid then none else c.pcs.get j := by
  rw [goOn]
  cases r.2 with
  | waits => rfl
  | goesOn pc => exact FinMap.get_insert ..
  | panics => exact FinMap.get_remove ..
  | returns a => exact FinMap.get_remove ..
  | scanned j => exact FinMap.get_remove ..

end Locked

end Dibs
