import Dibs.Os.Backing

/-! File and directory handles (`src/fs/handles.rs`). A table carries the proof that every live
    number is below the counter, so the number `alloc` hands out is never in use. -/

namespace Dibs

structure HandleState where
  fh : ℕ
  realFd : ℤ
  path : Path
  hashAtOpen : Option Bytes
  flags : OpenFlags
  hasWritten : Bool
  sid : ℕ
  deriving DecidableEq, Repr

structure HandleTable where
  handles : FinMap ℕ HandleState := .empty
  nextFh : ℕ := 1
  live_lt : ∀ fh h, handles.get fh = some h → fh < nextFh := by simp

namespace HandleTable

def new : HandleTable := {}

def get (t : HandleTable) (fh : ℕ) : Option HandleState := t.handles.get fh

def alloc (t : HandleTable) (realFd : ℤ) (path : Path) (flags : OpenFlags) (hash : Option Bytes)
    (sid : ℕ) : HandleTable × ℕ :=
  ({ handles := t.handles.insert t.nextFh ⟨t.nextFh, realFd, path, hash, flags, false, sid⟩
     nextFh := t.nextFh + 1
     live_lt := by
       intro fh h hg
       rw [FinMap.get_insert] at hg
       split at hg
       · rename_i heq; rw [heq]; exact Nat.lt_succ_self _
       · exact Nat.lt_succ_of_lt (t.live_lt fh h hg) },
   t.nextFh)

/-- `get_mut`: change a live handle in place. -/
def modify (t : HandleTable) (fh : ℕ) (f : HandleState → HandleState) : HandleTable :=
  { t with
    handles := t.handles.modify fh f
    live_lt := by
      intro fh' h hg
      rw [FinMap.get_modify] at hg
      split at hg
      · obtain ⟨h', hh', _⟩ := Option.map_eq_some_iff.mp hg
        exact t.live_lt fh' h' hh'
      · exact t.live_lt fh' h hg }

def remove (t : HandleTable) (fh : ℕ) : HandleTable :=
  { t with
    handles := t.handles.remove fh
    live_lt := by
      intro fh' h hg
      rw [FinMap.get_remove] at hg
      split at hg
      · cases hg
      · exact t.live_lt fh' h hg }

variable (t : HandleTable)

@[simp] theorem get_new (fh : ℕ) : new.get fh = none := rfl

@[simp] theorem alloc_snd (realFd : ℤ) (path : Path) (flags : OpenFlags) (hash : Option Bytes)
    (sid : ℕ) : (t.alloc realFd path flags hash sid).2 = t.nextFh := rfl

theorem get_alloc (realFd : ℤ) (path : Path) (flags : OpenFlags) (hash : Option Bytes) (sid : ℕ)
    (fh : ℕ) : (t.alloc realFd path flags hash sid).1.get fh =
      if fh = t.nextFh then some ⟨t.nextFh, realFd, path, hash, flags, false, sid⟩ else t.get fh :=
  FinMap.get_insert ..

theorem get_modify (fh : ℕ) (f : HandleState → HandleState) (fh' : ℕ) :
    (t.modify fh f).get fh' = if fh' = fh then (t.get fh').map f else t.get fh' :=
  FinMap.get_modify ..

theorem get_remove (fh fh' : ℕ) :
    (t.remove fh).get fh' = if fh' = fh then none else t.get fh' :=
  FinMap.get_remove ..

@[simp] theorem get_nextFh : t.get t.nextFh = none := by
  cases h : t.get t.nextFh with
  | none => rfl
  | some v => exact absurd (t.live_lt _ v h) (lt_irrefl _)

/-- A handle that is allocated and taken back leaves the live handles as they were. -/
theorem get_remove_alloc (realFd : ℤ) (path : Path) (flags : OpenFlags) (hash : Option Bytes)
    (sid fh : ℕ) : ((t.alloc realFd path flags hash sid).1.remove t.nextFh).get fh = t.get fh := by
  rw [get_remove, get_alloc]
  split
  · rename_i h; rw [h, get_nextFh]
  · rfl

end HandleTable

/-- Snapshot of an open file handle for display purposes. -/
structure OpenFileInfo where
  path : Path
  sid : ℕ
  flags : OpenFlags
  deriving DecidableEq, Repr

namespace HandleTable

/-- The path starts with `.dibs`. -/
def hidden (path : Path) : Bool := [[0x2E, 0x64, 0x69, 0x62, 0x73]].isPrefixOf path

/-- A snapshot of open file handles, excluding virtual handles (those with a negative descriptor or
    paths starting with `.dibs`). -/
def listOpen (t : HandleTable) : List OpenFileInfo :=
  (t.handles.iter.filter fun e => 0 ≤ e.2.realFd && !hidden e.2.path).map fun e =>
    ⟨e.2.path, e.2.sid, e.2.flags⟩

end HandleTable

/-- State for directory handles. -/
structure DirHandleState where
  fh : ℕ
  realFd : ℤ
  path : Path
  deriving DecidableEq, Repr

structure DirHandleTable where
  handles : FinMap ℕ DirHandleState := .empty
  nextFh : ℕ := 1

namespace DirHandleTable

def alloc (t : DirHandleTable) (realFd : ℤ) (path : Path) : DirHandleTable × ℕ :=
  (⟨t.handles.insert t.nextFh ⟨t.nextFh, realFd, path⟩, t.nextFh + 1⟩, t.nextFh)

def get (t : DirHandleTable) (fh : ℕ) : Option DirHandleState := t.handles.get fh

def remove (t : DirHandleTable) (fh : ℕ) : DirHandleTable :=
  { t with handles := t.handles.remove fh }

variable (t : DirHandleTable)

theorem get_alloc (realFd : ℤ) (path : Path) (fh : ℕ) : (t.alloc realFd path).1.get fh =
    if fh = t.nextFh then some ⟨t.nextFh, realFd, path⟩ else t.get fh :=
  FinMap.get_insert ..

theorem get_remove (fh fh' : ℕ) : (t.remove fh).get fh' = if fh' = fh then none else t.get fh' :=
  FinMap.get_remove ..

end DirHandleTable

end Dibs
