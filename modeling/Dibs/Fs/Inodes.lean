import Dibs.Os.Backing

/-! The inode table (`src/fs/inodes.rs`): two maps that every operation edits through entries found
    in the other one. -/

namespace Dibs

/-- Reserved inode range for synthetic `.dibs/` entries: `u64::MAX - 1000` and above. -/
def SYNTHETIC_INODE_BASE : ℕ := 2 ^ 64 - 1 - 1000

def DIBS_DIR_INO : ℕ := SYNTHETIC_INODE_BASE
def DIBS_STATUS_INO : ℕ := SYNTHETIC_INODE_BASE + 1
def DIBS_LOCKS_INO : ℕ := SYNTHETIC_INODE_BASE + 2
def DIBS_CONFLICTS_DIR_INO : ℕ := SYNTHETIC_INODE_BASE + 3

structure InodeTable where
  inoToPath : FinMap ℕ Path := .empty
  pathToIno : FinMap Path ℕ := .empty

namespace InodeTable

def new : InodeTable := {}

/-- Insert or update a mapping using the real inode from `stat()`. -/
def insert (t : InodeTable) (ino : ℕ) (path : Path) : InodeTable :=
  -- remove any old path mapping for this inode
  let t₁ : InodeTable :=
    match t.inoToPath.get ino with
    | some oldPath => ⟨t.inoToPath.remove ino, t.pathToIno.remove oldPath⟩
    | none => t
  -- remove any old inode mapping for this path
  let t₂ : InodeTable :=
    match t₁.pathToIno.get path with
    | some oldIno =>
      ⟨if oldIno ≠ ino then t₁.inoToPath.remove oldIno else t₁.inoToPath,
        t₁.pathToIno.remove path⟩
    | none => t₁
  ⟨t₂.inoToPath.insert ino path, t₂.pathToIno.insert path ino⟩

def getPath (t : InodeTable) (ino : ℕ) : Option Path := t.inoToPath.get ino

def getIno (t : InodeTable) (path : Path) : Option ℕ := t.pathToIno.get path

def removeByIno (t : InodeTable) (ino : ℕ) : InodeTable :=
  match t.inoToPath.get ino with
  | some path => ⟨t.inoToPath.remove ino, t.pathToIno.remove path⟩
  | none => t

def removeByPath (t : InodeTable) (path : Path) : InodeTable :=
  match t.pathToIno.get path with
  | some ino => ⟨t.inoToPath.remove ino, t.pathToIno.remove path⟩
  | none => t

/-- Rename a path in the inode table. -/
def rename (t : InodeTable) (oldPath newPath : Path) : InodeTable :=
  match t.pathToIno.get oldPath with
  | some ino => ⟨t.inoToPath.insert ino newPath, (t.pathToIno.remove oldPath).insert newPath ino⟩
  | none => t

def isSynthetic (ino : ℕ) : Bool := SYNTHETIC_INODE_BASE ≤ ino

variable (t : InodeTable)

/-! ### What a lookup sees after each operation -/

theorem getPath_removeByIno (ino j : ℕ) :
    (t.removeByIno ino).getPath j = if j = ino then none else t.getPath j := by
  unfold removeByIno
  cases hp : t.inoToPath.get ino with
  | some q => exact FinMap.get_remove ..
  | none =>
    by_cases h : j = ino
    · rw [if_pos h, h]; exact hp
    · rw [if_neg h]

theorem getIno_removeByIno (ino : ℕ) (p : Path) :
    (t.removeByIno ino).getIno p = if t.getPath ino = some p then none else t.getIno p := by
  unfold removeByIno getPath getIno
  cases hp : t.inoToPath.get ino with
  | some q => simp [FinMap.get_remove, eq_comm]
  | none => simp

theorem getPath_removeByPath (path : Path) (j : ℕ) :
    (t.removeByPath path).getPath j = if t.getIno path = some j then none else t.getPath j := by
  unfold removeByPath getPath getIno
  cases hp : t.pathToIno.get path with
  | some i => simp [FinMap.get_remove, eq_comm]
  | none => simp

theorem getIno_removeByPath (path p : Path) :
    (t.removeByPath path).getIno p = if p = path then none else t.getIno p := by
  unfold removeByPath
  cases hp : t.pathToIno.get path with
  | some i => exact FinMap.get_remove ..
  | none =>
    by_cases h : p = path
    · rw [if_pos h, h]; exact hp
    · rw [if_neg h]

theorem getPath_insert_eq (ino : ℕ) (path : Path) (j : ℕ) :
    (t.insert ino path).getPath j =
      if j = ino then some path
      else if t.getIno path = some j ∧ t.getPath ino ≠ some path then none
      else t.getPath j := by
  -- `insert` first does what `removeByIno` does
  have hfirst : (t.insert ino path).getPath j =
      if j = ino then some path else ((t.removeByIno ino).removeByPath path).getPath j := by
    rw [insert]
    change FinMap.get (FinMap.insert (match (t.removeByIno ino).pathToIno.get path with
      | some oldIno => (⟨if oldIno ≠ ino then (t.removeByIno ino).inoToPath.remove oldIno
          else (t.removeByIno ino).inoToPath, (t.removeByIno ino).pathToIno.remove path⟩ : InodeTable)
      | none => t.removeByIno ino).inoToPath ino path) j = _
    rw [FinMap.get_insert]
    by_cases hj : j = ino
    · rw [if_pos hj, if_pos hj]
    · rw [if_neg hj, if_neg hj, removeByPath]
      cases (t.removeByIno ino).pathToIno.get path with
      | none => rfl
      | some i =>
        by_cases hi : i = ino
        · subst hi
          simp only [ne_eq, not_true_eq_false, if_false]
          exact ((FinMap.get_remove ..).trans (if_neg hj)).symm
        · simp only [ne_eq, hi, not_false_eq_true, if_true]; rfl
  rw [hfirst, getPath_removeByPath, getIno_removeByIno, getPath_removeByIno]
  by_cases hj : j = ino
  · rw [if_pos hj, if_pos hj]
  · rw [if_neg hj, if_neg hj, if_neg hj]
    by_cases hp : t.getPath ino = some path
    · simp [hp]
    · simp [hp]

theorem getIno_insert_eq (ino : ℕ) (path p : Path) :
    (t.insert ino path).getIno p =
      if p = path then some ino
      else if t.getPath ino = some p then none
      else t.getIno p := by
  rw [← getIno_removeByIno, insert]
  change FinMap.get (FinMap.insert (match (t.removeByIno ino).pathToIno.get path with
    | some oldIno => (⟨if oldIno ≠ ino then (t.removeByIno ino).inoToPath.remove oldIno
        else (t.removeByIno ino).inoToPath, (t.removeByIno ino).pathToIno.remove path⟩ : InodeTable)
    | none => t.removeByIno ino).pathToIno path ino) p = _
  rw [FinMap.get_insert]
  by_cases hp : p = path
  · rw [if_pos hp, if_pos hp]
  · rw [if_neg hp, if_neg hp]
    cases (t.removeByIno ino).pathToIno.get path with
    | none => rfl
    | some i => exact (FinMap.get_remove ..).trans (if_neg hp)

theorem getPath_rename (old new : Path) (j : ℕ) :
    (t.rename old new).getPath j = if t.getIno old = some j then some new else t.getPath j := by
  unfold rename getPath getIno
  cases hp : t.pathToIno.get old with
  | some i => simp [FinMap.get_insert, eq_comm]
  | none => simp

theorem getIno_rename (old new p : Path) :
    (t.rename old new).getIno p =
      if t.getIno old = none then t.getIno p
      else if p = new then t.getIno old
      else if p = old then none
      else t.getIno p := by
  unfold rename getIno
  cases hp : t.pathToIno.get old with
  | some i => simp [FinMap.get_insert, FinMap.get_remove]
  | none => simp

end InodeTable

end Dibs
