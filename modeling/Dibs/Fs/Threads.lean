import Dibs.Fs.Step

/-! Request handlers that run at the same time. The handlers take `&self` and share the tables and the
    backing directory, so another handler may come between any two of their calls. A handler in flight
    is its next call with the locals it needs (`Pc`); each call is one step. The handlers of write-mode
    `open`, `write`, `flush` and `release` are taken apart, the other requests are served at once. A
    handler nothing comes between does what its function in `Dibs.Fs.Mod` does. -/

namespace Dibs

/-- Where a handler stands: the call it makes next. -/
inductive Pc where
  -- open: `hash_file`, `libc::open`, `alloc`, `check_and_acquire_write`, `record_reader`
  | openHash (sid : ℕ) (rel : Path) (flags : OpenFlags)
  | openCall (sid : ℕ) (rel : Path) (flags : OpenFlags) (preOpenHash : Option Bytes)
  | openAlloc (sid : ℕ) (rel : Path) (flags : OpenFlags) (preOpenHash : Option Bytes) (fd : ℤ)
  | openCheck (sid : ℕ) (rel : Path) (flags : OpenFlags) (preOpenHash : Option Bytes) (fd : ℤ)
      (fh : ℕ)
  | openRecord (sid : ℕ) (rel : Path) (actual : Bytes)
  -- a refused open: the handle and the descriptor are given back
  | openRemove (fd : ℤ) (fh : ℕ)
  | openClose (fd : ℤ)
  -- write: `has_active_writer`, then perhaps `hash_file` and the check, then the write itself
  | writeGuard (fh : ℕ) (h : HandleState) (offset : ℕ) (data : Bytes)
  | writeHash (fh : ℕ) (h : HandleState) (offset : ℕ) (data : Bytes)
  | writeCheck (fh : ℕ) (h : HandleState) (offset : ℕ) (data : Bytes) (actualHash : Bytes)
  | writeSave (h : HandleState) (data : Bytes)
  | writeMark (fh : ℕ) (h : HandleState) (offset : ℕ) (data : Bytes)
  | writePwrite (h : HandleState) (offset : ℕ) (data : Bytes)
  -- flush: `hash_file`, `update_reader`, the handle's own hash, `release_write`
  | flushHash (fh : ℕ) (h : HandleState)
  | flushReader (fh : ℕ) (h : HandleState) (newHash : Bytes)
  | flushHandle (fh : ℕ) (h : HandleState) (newHash : Bytes)
  | flushRelease (fh : ℕ) (h : HandleState)
  -- release, after the handle was taken out of the table
  | releaseWrite (fh : ℕ) (h : HandleState)
  | releaseClose (fd : ℤ)

namespace DibsFs
variable (X : Ext)

/-- A request arrives: what its handler does before its first call that others can disturb. A handler
    that has replied is gone. -/
def begin_ (s : DibsFs) (os : Os) (sid : ℕ) : Request → DibsFs × Option Pc
  | .open_ ino flags =>
    if isDibsIno ino ∨ accessMode flags = O_RDONLY then ((s.open_ X os sid ino flags).st, none)
    else
      match s.inodes.getPath ino with
      | none => (s, none)
      | some rel => if hasNul rel then (s, none) else (s, some (.openHash sid rel flags))
  | .write ino fh offset data =>
    if isDibsIno ino then (s, none)
    else
      match s.fileHandles.get fh with
      | none => (s, none)
      | some h => (s, some (.writeGuard fh h offset data))
  | .flush ino fh =>
    if isDibsIno ino then (s, none)
    else
      match s.fileHandles.get fh with
      | none => (s, none)
      | some h => if h.hasWritten then (s, some (.flushHash fh h)) else (s, none)
  | .release _ fh =>
    match s.fileHandles.get fh with
    | none => (s, none)
    | some h => ({ s with fileHandles := s.fileHandles.remove fh }, some (.releaseWrite fh h))
  | req => ((s.handle X os sid req).st, none)

/-- The next call of a handler, with the system's answers to it. -/
def call (s : DibsFs) (os : Os) : Pc → DibsFs × Option Pc
  | .openHash sid rel flags =>
    (s, some (.openCall sid rel flags (hashFile X s.backing os rel)))
  | .openCall sid rel flags pre =>
    match s.backing.libcOpen os rel flags 0 with
    | .error _ => (s, none)
    | .ok (b, fd) => ({ s with backing := b }, some (.openAlloc sid rel flags pre fd))
  | .openAlloc sid rel flags pre fd =>
    let handleHash := if accessMode flags = O_RDWR then pre else none
    let (handles, fh) := s.fileHandles.alloc fd rel flags handleHash sid
    ({ s with fileHandles := handles }, some (.openCheck sid rel flags pre fd fh))
  | .openCheck sid rel flags pre fd fh =>
    match pre with
    | some actual =>
      match s.casTable.checkAndAcquireWrite os.now rel fh sid s.fileHandles actual with
      | (cas, .error _) => ({ s with casTable := cas }, some (.openRemove fd fh))
      | (cas, .ok ()) =>
        ({ s with casTable := cas },
          if accessMode flags = O_RDWR then some (.openRecord sid rel actual) else none)
    | none => ({ s with casTable := s.casTable.ensureEntry os.now rel }, none)
  | .openRecord sid rel actual =>
    ({ s with casTable := s.casTable.recordReader os.now rel actual sid }, none)
  | .openRemove fd fh =>
    ({ s with fileHandles := s.fileHandles.remove fh }, some (.openClose fd))
  | .openClose fd => ({ s with backing := s.backing.close fd }, none)
  | .writeGuard fh h offset data =>
    if s.casTable.hasActiveWriter h.path then (s, some (.writeMark fh h offset data))
    else (s, some (.writeHash fh h offset data))
  | .writeHash fh h offset data =>
    (s, some (.writeCheck fh h offset data ((hashFile X s.backing os h.path).getD [])))
  | .writeCheck fh h offset data actual =>
    match s.casTable.checkAndAcquireWrite os.now h.path fh h.sid s.fileHandles actual with
    | (cas, .error _) => ({ s with casTable := cas }, some (.writeSave h data))
    | (cas, .ok ()) => ({ s with casTable := cas }, some (.writeMark fh h offset data))
  | .writeSave h data => (saveConflict X s os h.path data, none)
  | .writeMark fh h offset data =>
    ({ s with fileHandles := s.fileHandles.modify fh fun h => { h with hasWritten := true } },
      some (.writePwrite h offset data))
  | .writePwrite h offset data =>
    match s.backing.pwrite os h.realFd offset data with
    | .error _ => (s, none)
    | .ok (b, _) => ({ s with backing := b }, none)
  | .flushHash fh h =>
    match hashFile X s.backing os h.path with
    | some newHash => (s, some (.flushReader fh h newHash))
    | none => (s, some (.flushRelease fh h))
  | .flushReader fh h newHash =>
    ({ s with casTable := s.casTable.updateReader os.now h.sid h.path newHash },
      some (.flushHandle fh h newHash))
  | .flushHandle fh h newHash =>
    ({ s with
        fileHandles := s.fileHandles.modify fh fun h =>
          { h with hashAtOpen := some newHash, hasWritten := false } },
      some (.flushRelease fh h))
  | .flushRelease fh h => ({ s with casTable := s.casTable.releaseWrite h.path fh }, none)
  | .releaseWrite fh h =>
    ({ s with casTable := s.casTable.releaseWrite h.path fh },
      if 0 ≤ h.realFd then some (.releaseClose h.realFd) else none)
  | .releaseClose fd => ({ s with backing := s.backing.close fd }, none)

end DibsFs

/-- The shared state and the handlers in flight, by thread. -/
structure Threads where
  fs : DibsFs
  pcs : FinMap ℕ Pc := .empty

inductive ThreadEvent where
  /-- a thread that is idle takes a request -/
  | begin_ (tid : ℕ) (os : Os) (pid : ℕ) (req : Request)
  /-- a thread makes the next call of its handler -/
  | run (tid : ℕ) (os : Os)

namespace Threads
variable (X : Ext)

/-- The thread goes on with `r`. -/
def goOn (t : Threads) (tid : ℕ) (r : DibsFs × Option Pc) : Threads :=
  ⟨r.1, match r.2 with
    | some pc => t.pcs.insert tid pc
    | none => t.pcs.remove tid⟩

/-- One event; a busy thread takes no request, an idle one makes no call. -/
def step (t : Threads) : ThreadEvent → Threads
  | .begin_ tid os pid req =>
    match t.pcs.get tid with
    | some _ => t
    | none => t.goOn tid (t.fs.begin_ X os (getSid os pid) req)
  | .run tid os =>
    match t.pcs.get tid with
    | some pc => t.goOn tid (t.fs.call X os pc)
    | none => t

theorem get_goOn (t : Threads) (tid : ℕ) (r : DibsFs × Option Pc) (j : ℕ) :
    (t.goOn tid r).pcs.get j = if j = tid then r.2 else t.pcs.get j := by
  rw [goOn]
  cases r.2 with
  | some pc => exact FinMap.get_insert ..
  | none => exact FinMap.get_remove ..

/-- A handler that runs on to its reply. -/
def finish (os : Os) : ℕ → DibsFs × Option Pc → DibsFs
  | n + 1, (s, some pc) => finish os n (s.call X os pc)
  | _, (s, _) => s

theorem exec_run (tid : ℕ) (os : Os) : ∀ (n : ℕ) (t : Threads),
    (Run.exec (step X) t (List.replicate n (.run tid os))).fs =
      finish X os n (t.fs, t.pcs.get tid)
  | 0, t => by rw [finish] <;> simp
  | n + 1, t => by
    rw [List.replicate_succ, Run.exec_cons, exec_run tid os n, step]
    cases hpc : t.pcs.get tid with
    | some pc => simp only [get_goOn, if_true, finish]; rfl
    | none =>
      simp only [hpc]
      cases n <;> rfl

variable {X} {s : DibsFs} {os : Os}

theorem finish_replied (n : ℕ) : finish X os n (s, none) = s := by cases n <;> rfl

theorem finish_openWrite (sid : ℕ) (rel : Path) (flags : OpenFlags) (pre : Option Bytes)
    (b : Backing) (fd : ℤ) :
    finish X os 4 ({ s with backing := b }, some (.openAlloc sid rel flags pre fd)) =
      (s.openWrite os sid rel flags pre b fd).st := by
  rw [finish, DibsFs.call, DibsFs.openWrite]
  simp only
  cases pre with
  | none => rfl
  | some actual =>
    rw [finish, DibsFs.call]
    simp only
    cases s.casTable.checkAndAcquireWrite os.now rel
      (s.fileHandles.alloc fd rel flags (if accessMode flags = O_RDWR then some actual else none)
        sid).2 sid (s.fileHandles.alloc fd rel flags
          (if accessMode flags = O_RDWR then some actual else none) sid).1 actual with
    | mk cas r =>
      cases r with
      | error e => rfl
      | ok u =>
        by_cases hm : accessMode flags = O_RDWR
        · simp only [if_pos hm]; rfl
        · simp only [if_neg hm]; rfl

theorem finish_open (sid ino : ℕ) (flags : OpenFlags) :
    finish X os 6 (s.begin_ X os sid (.open_ ino flags)) =
      (s.handle X os sid (.open_ ino flags)).st := by
  rw [DibsFs.begin_]
  split
  · exact finish_replied 6
  · rename_i hmode
    obtain ⟨hdibs, hwrite⟩ := not_or.mp hmode
    have hvirtual : ¬ (ino = DIBS_STATUS_INO ∨ ino = DIBS_LOCKS_INO) := by
      rintro (rfl | rfl)
      · exact hdibs (by decide)
      · exact hdibs (by decide)
    rw [DibsFs.handle, DibsFs.open_, if_neg hvirtual, if_neg hdibs]
    cases hrel : s.inodes.getPath ino with
    | none => rfl
    | some rel =>
      simp only
      split
      · rfl
      · rw [finish, DibsFs.call, finish, DibsFs.call]
        cases hopen : s.backing.libcOpen os rel flags 0 with
        | error e => rfl
        | ok x =>
          obtain ⟨b, fd⟩ := x
          exact finish_openWrite sid rel flags _ b fd

theorem finish_writeMark (n fh : ℕ) (h : HandleState) (offset : ℕ) (data : Bytes) :
    finish X os (n + 2) (s, some (.writeMark fh h offset data)) =
      (s.writeThrough os fh h offset data).st := by
  rw [finish, DibsFs.call, finish, DibsFs.call, DibsFs.writeThrough]
  simp only
  cases s.backing.pwrite os h.realFd offset data with
  | error e => exact finish_replied n
  | ok x => exact finish_replied n

theorem finish_write (sid ino fh offset : ℕ) (data : Bytes) :
    finish X os 6 (s.begin_ X os sid (.write ino fh offset data)) =
      (s.handle X os sid (.write ino fh offset data)).st := by
  rw [DibsFs.begin_, DibsFs.handle, DibsFs.write]
  split
  · rfl
  · cases hh : s.fileHandles.get fh with
    | none => rfl
    | some h =>
      simp only
      rw [finish, DibsFs.call, DibsFs.writeGuard]
      by_cases hact : s.casTable.hasActiveWriter h.path = true
      · rw [if_pos hact, if_pos hact]
        exact finish_writeMark 3 fh h offset data
      · rw [if_neg hact, if_neg hact, finish, DibsFs.call, finish, DibsFs.call]
        simp only
        cases s.casTable.checkAndAcquireWrite os.now h.path fh h.sid s.fileHandles
          ((hashFile X s.backing os h.path).getD []) with
        | mk cas r =>
          cases r with
          | error e => rfl
          | ok u => exact finish_writeMark 1 fh h offset data

theorem finish_flush (sid ino fh : ℕ) :
    finish X os 6 (s.begin_ X os sid (.flush ino fh)) = (s.handle X os sid (.flush ino fh)).st := by
  rw [DibsFs.begin_, DibsFs.handle, DibsFs.flush]
  split
  · rfl
  · cases hh : s.fileHandles.get fh with
    | none => rfl
    | some h =>
      simp only
      split
      · rw [finish, DibsFs.call, DibsFs.flushHash]
        cases hashFile X s.backing os h.path with
        | none => rfl
        | some newHash => rfl
      · rfl

theorem finish_release (sid ino fh : ℕ) :
    finish X os 6 (s.begin_ X os sid (.release ino fh)) =
      (s.handle X os sid (.release ino fh)).st := by
  rw [DibsFs.begin_, DibsFs.handle, DibsFs.release]
  cases hh : s.fileHandles.get fh with
  | none => rfl
  | some h =>
    simp only
    rw [finish, DibsFs.call]
    by_cases hfd : 0 ≤ h.realFd
    · rw [if_pos hfd, if_pos hfd]; rfl
    · rw [if_neg hfd, if_neg hfd]; rfl

theorem finish_begin (sid : ℕ) (req : Request) :
    finish X os 6 (s.begin_ X os sid req) = (s.handle X os sid req).st := by
  cases req with
  | open_ ino flags => exact finish_open sid ino flags
  | write ino fh offset data => exact finish_write sid ino fh offset data
  | flush ino fh => exact finish_flush sid ino fh
  | release ino fh => exact finish_release sid ino fh
  | _ => rfl

/-- REFINEMENT: a handler nothing comes between leaves the state its function leaves, whatever handlers
    other threads are in. -/
theorem exec_alone (X : Ext) (t : Threads) (os : Os) (tid pid : ℕ) (req : Request)
    (hidle : t.pcs.get tid = none) :
    (Run.exec (step X) t (.begin_ tid os pid req :: List.replicate 6 (.run tid os))).fs =
      (t.fs.handle X os (getSid os pid) req).st := by
  rw [Run.exec_cons, exec_run, ← finish_begin, step]
  simp only [hidle, get_goOn, if_true]
  rfl

/-- The other threads stay where they are. -/
theorem exec_other {tid j : ℕ} (hj : j ≠ tid) (os : Os) : ∀ (n : ℕ) (t : Threads),
    (Run.exec (step X) t (List.replicate n (.run tid os))).pcs.get j = t.pcs.get j
  | 0, _ => rfl
  | n + 1, t => by
    rw [List.replicate_succ, Run.exec_cons, exec_other hj os n, step]
    split
    · rw [get_goOn, if_neg hj]
    · rfl

end Threads

end Dibs
