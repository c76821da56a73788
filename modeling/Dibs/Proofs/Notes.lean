import Dibs.Fs.Transitions

/-! What an observer can know of the receipts and handles. The observer sees the events of a run, the
    replies and warnings, the contents of the backing directory and which path the mount takes an inode
    number for, and keeps notes: for each session and path the content behind its receipt and when it
    was recorded, and for each handle the content behind its hash. In every run the notes are all there
    is to know: each receipt and each hash of the daemon is the hash of what is noted (`noted_step`). -/

namespace Dibs.DibsFs

/-- What `hash_file` reads at a path. -/
def readable (b : Backing) (os : Os) (p : Path) : Option Bytes :=
  if os.unreadable p then none else b.content p

/-- The hash that stands for what was read, or for nothing. -/
def digest (X : Ext) : Option Bytes → Bytes
  | some x => hashContent X x
  | none => []

/-- The path of a name in a directory: `resolvePath`, by an inode table alone. -/
def pathOf (inodes : InodeTable) (parent : ℕ) (name : Name) : Path :=
  (if parent = 1 then [] else (inodes.getPath parent).getD []) ++ [name]

/-- What is noted behind a receipt: the content that was read, and when. -/
structure Sight where
  content : Option Bytes
  time : Time

/-- What is noted of a handle: the file, the session, the content behind its hash if it has one, and
    whether it has been written. -/
structure HeldFile where
  path : Path
  sid : ℕ
  content : Option (Option Bytes)
  written : Bool

/-- The notes. -/
structure Seen where
  receipt : ℕ → Path → Option Sight := fun _ _ => none
  handle : ℕ → Option HeldFile := fun _ => none

namespace Seen

def record (g : Seen) (sid : ℕ) (p : Path) (x : Sight) : Seen :=
  { g with receipt := fun S q => if (S, q) = (sid, p) then some x else g.receipt S q }

/-- A content that was read is recorded. -/
def sees (g : Seen) (sid : ℕ) (p : Path) (now : Time) : Option Bytes → Seen
  | some x => g.record sid p ⟨some x, now⟩
  | none => g

def hold (g : Seen) (fh : ℕ) (h : HeldFile) : Seen :=
  { g with handle := fun k => if k = fh then some h else g.handle k }

def drop (g : Seen) (fh : ℕ) : Seen :=
  { g with handle := fun k => if k = fh then none else g.handle k }

/-- The file at a path is gone. -/
def forget (g : Seen) (p : Path) : Seen :=
  { g with receipt := fun S q => if q = p then none else g.receipt S q }

/-- Receipts move with a renamed path. -/
def move (g : Seen) (old new : Path) : Seen :=
  { g with
    receipt := fun S q =>
      if q = new then (g.receipt S old).or (g.receipt S new)
      else if q = old then none
      else g.receipt S q }

/-- A pass drops the receipts that are older than its window. -/
def expire (g : Seen) (now : Time) (seconds : ℕ) : Seen :=
  if now - CasTable.chronoFromStd seconds < CasTable.dateMin then g
  else
    { g with
      receipt := fun S q =>
        (g.receipt S q).filter fun x => now - CasTable.chronoFromStd seconds ≤ x.time }

/-- What is noted at an event, by the directory before and after it. -/
def note (inodes : InodeTable) (before after : Backing) (c : Call) (reply : Reply)
    (warn : Option Warning) (g : Seen) : Seen :=
  match c, reply with
  | .fuse os pid (.open_ ino flags), .opened fh =>
    if isDibsIno ino then g.hold fh ⟨VIRTUAL_PATH, 0, none, false⟩
    else
      match inodes.getPath ino with
      | none => g
      | some rel =>
        -- a read-only open reads the file behind `libc::open`, a read-write one before it
        if accessMode flags = O_RDONLY then
          (g.sees (getSid os pid) rel os.now (readable after os rel)).hold fh
            ⟨rel, getSid os pid, (readable after os rel).map some, false⟩
        else if accessMode flags = O_RDWR then
          (g.sees (getSid os pid) rel os.now (readable before os rel)).hold fh
            ⟨rel, getSid os pid, (readable before os rel).map some, false⟩
        else g.hold fh ⟨rel, getSid os pid, none, false⟩
  | .fuse os pid (.create parent name _ _), .created _ fh =>
    let rel := pathOf inodes parent name
    -- recorded whether it can be read or not
    (g.record (getSid os pid) rel ⟨readable after os rel, os.now⟩).hold fh
      ⟨rel, getSid os pid, some (readable after os rel), false⟩
  | .fuse _ _ (.write ino fh _ _), _ =>
    match g.handle fh with
    | none => g
    | some h => if isDibsIno ino ∨ warn.isSome then g else g.hold fh { h with written := true }
  | .fuse os _ (.flush ino fh), _ =>
    match g.handle fh with
    | none => g
    | some h =>
      if isDibsIno ino = false ∧ h.written = true then
        match readable before os h.path with
        | none => g
        | some x =>
          (g.record h.sid h.path ⟨some x, os.now⟩).hold fh
            { h with content := some (some x), written := false }
      else g
  | .fuse _ _ (.release _ fh), _ => g.drop fh
  | .fuse _ _ (.unlink parent name), .ok => g.forget (pathOf inodes parent name)
  | .fuse _ _ (.rename parent name newparent newname _), .ok =>
    g.move (pathOf inodes parent name) (pathOf inodes newparent newname)
  | .evict now seconds, _ => g.expire now seconds
  | _, _ => g

end Seen

/-- The notes behind an event of the mount. -/
def noteOf (X : Ext) (s : DibsFs) (g : Seen) (c : Call) : Seen :=
  g.note s.inodes s.backing (s.step X c).backing c (s.out X c).reply (s.out X c).warn

/-- The daemon's receipts are the hashes of the contents that were noted, with their times. -/
def ReceiptsNoted (X : Ext) (t : CasTable) (g : Seen) : Prop :=
  ∀ S p, t.readerHashes.get (S, p) = (g.receipt S p).map fun x => ⟨digest X x.content, x.time⟩

/-- What the daemon knows of a handle, as far as it is noted. -/
def handleView (h : HandleState) : Path × ℕ × Option Bytes × Bool :=
  (h.path, h.sid, h.hashAtOpen, h.hasWritten)

def HeldFile.view (X : Ext) (h : HeldFile) : Path × ℕ × Option Bytes × Bool :=
  (h.path, h.sid, h.content.map (digest X), h.written)

/-- The handles of the daemon are the ones that were noted. -/
def HandlesNoted (X : Ext) (t : HandleTable) (g : Seen) : Prop :=
  ∀ fh, (t.get fh).map handleView = (g.handle fh).map (HeldFile.view X)

/-- The observer and the daemon agree. -/
structure Noted (X : Ext) (s : DibsFs) (g : Seen) : Prop where
  receipts : ReceiptsNoted X s.casTable g
  handles : HandlesNoted X s.fileHandles g

variable {X : Ext} {s s' : DibsFs} {g g' : Seen} {t t' : CasTable}

theorem ReceiptsNoted.congr (h : ReceiptsNoted X t g) (ht : t'.readerHashes = t.readerHashes)
    (hg : g'.receipt = g.receipt) : ReceiptsNoted X t' g' := by
  intro S p
  rw [ht, hg]
  exact h S p

theorem ReceiptsNoted.record (h : ReceiptsNoted X t g) (sid : ℕ) (p : Path) (now : Time) {r : Bytes}
    {x : Option Bytes} (hr : r = digest X x) :
    ReceiptsNoted X (t.recordReader now p r sid) (g.record sid p ⟨x, now⟩) := by
  intro S q
  rw [CasTable.recordReader, FinMap.get_insert, Seen.record]
  simp only
  split
  · rw [hr]; rfl
  · exact h S q

theorem ReceiptsNoted.remove (h : ReceiptsNoted X t g) (p : Path) :
    ReceiptsNoted X (t.remove p) (g.forget p) := by
  intro S q
  rw [CasTable.get_readerHashes_remove, Seen.forget]
  simp only
  split
  · rfl
  · exact h S q

theorem ReceiptsNoted.rename (h : ReceiptsNoted X t g) (old new : Path) :
    ReceiptsNoted X (t.rename old new) (g.move old new) := by
  intro S q
  rw [CasTable.get_readerHashes_rename, Seen.move]
  simp only
  split
  · rw [h S old, h S new]
    cases g.receipt S old <;> rfl
  · split
    · rfl
    · exact h S q

theorem ReceiptsNoted.evict (h : ReceiptsNoted X t g) (now : Time) (seconds : ℕ) :
    ReceiptsNoted X ((t.evictOlderThan now seconds).getD t) (g.expire now seconds) := by
  intro S q
  rw [Seen.expire]
  cases ht : t.evictOlderThan now seconds with
  | none =>
    rw [CasTable.evictOlderThan] at ht
    split at ht
    · rename_i hpanics
      rw [if_pos hpanics]
      exact h S q
    · cases ht
  | some u =>
    have hget := CasTable.get_readerHashes_evict t now ht (S, q)
    rw [CasTable.evictOlderThan] at ht
    split at ht
    · cases ht
    · rename_i hruns
      rw [if_neg hruns, Option.getD_some, hget, h S q]
      simp only
      cases g.receipt S q with
      | none => rfl
      | some x =>
        rw [Option.map_some, Option.filter_some, Option.filter_some]
        split <;> rfl

/-! ### Handles -/

theorem HandlesNoted.congr {u u' : HandleTable} (h : HandlesNoted X u g)
    (hu : ∀ fh, u'.get fh = u.get fh) (hg : g'.handle = g.handle) : HandlesNoted X u' g' := by
  intro fh
  rw [hu, hg]
  exact h fh

theorem HandlesNoted.alloc {u : HandleTable} (h : HandlesNoted X u g) (fd : ℤ) (rel : Path)
    (flags : OpenFlags) (sid : ℕ) {hash : Option Bytes} {x : Option (Option Bytes)}
    (hx : hash = x.map (digest X)) :
    HandlesNoted X (u.alloc fd rel flags hash sid).1 (g.hold u.nextFh ⟨rel, sid, x, false⟩) := by
  intro fh
  rw [HandleTable.get_alloc, Seen.hold]
  simp only
  split
  · rw [hx]; rfl
  · exact h fh

theorem HandlesNoted.modify {u : HandleTable} (h : HandlesNoted X u g) {fh : ℕ} {x x' : HeldFile}
    {f : HandleState → HandleState} (hx : g.handle fh = some x)
    (hf : ∀ y, handleView y = x.view X → handleView (f y) = x'.view X) :
    HandlesNoted X (u.modify fh f) (g.hold fh x') := by
  intro k
  rw [HandleTable.get_modify, Seen.hold]
  simp only
  split
  · rename_i heq
    have hk := h k
    rw [heq, hx, Option.map_some] at hk
    obtain ⟨y, hy, hview⟩ := Option.map_eq_some_iff.mp hk
    rw [heq, hy, Option.map_some, Option.map_some, Option.map_some, hf y hview]
  · exact h k

theorem HandlesNoted.remove {u : HandleTable} (h : HandlesNoted X u g) (fh : ℕ) :
    HandlesNoted X (u.remove fh) (g.drop fh) := by
  intro k
  rw [HandleTable.get_remove, Seen.drop]
  simp only
  split
  · rfl
  · exact h k

/-- A live handle is noted. -/
theorem HandlesNoted.held {u : HandleTable} (h : HandlesNoted X u g) {fh : ℕ} {y : HandleState}
    (hy : u.get fh = some y) : ∃ x, g.handle fh = some x ∧ handleView y = x.view X := by
  have hfh := h fh
  rw [hy, Option.map_some] at hfh
  obtain ⟨x, hx, hview⟩ := Option.map_eq_some_iff.mp hfh.symm
  exact ⟨x, hx, hview.symm⟩

/-- An event that changes neither receipts nor handles, and is not noted. -/
theorem Noted.quiet (hs : Noted X s g) {c : Call} (hnote : noteOf X s g c = g)
    (hr : (s.step X c).casTable.readerHashes = s.casTable.readerHashes)
    (hh : ∀ fh, (s.step X c).fileHandles.get fh = s.fileHandles.get fh) :
    Noted X (s.step X c) (noteOf X s g c) := by
  rw [hnote]
  exact ⟨hs.receipts.congr hr rfl, hs.handles.congr hh rfl⟩

/-- A receipt for what was read, if anything was. -/
theorem ReceiptsNoted.sees (h : ReceiptsNoted X t g) (sid : ℕ) (p : Path) (now : Time)
    (x : Option Bytes) :
    ReceiptsNoted X
      (match x.map (hashContent X) with
        | some r => t.recordReader now p r sid
        | none => t) (g.sees sid p now x) := by
  cases x with
  | none => exact h
  | some x => exact h.record sid p now rfl

end Dibs.DibsFs
