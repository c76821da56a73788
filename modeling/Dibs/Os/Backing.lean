import Dibs.Lib.FinMap
import Dibs.Os.Basic

/-! The backing directory as a file system. Names and contents are kept apart: `tree` says which
    object a path names, `data` holds the bytes of each regular file, so an unlinked file that is
    still open keeps its content and a write changes no name. Objects are numbered by a counter that
    never goes back; the inode number `stat` reports is an attribute, so the system may give the
    number of a deleted object to a new one. `fds` are the descriptors the daemon holds. -/

namespace Dibs

inductive Kind where
  | file
  | dir
  | symlink (target : Bytes)
  deriving DecidableEq, Repr

/-- What a name refers to. -/
structure Entry where
  obj : ℕ
  kind : Kind
  deriving DecidableEq, Repr

/-- `libc::timespec` -/
structure Timespec where
  sec : ℤ
  nsec : ℤ
  deriving DecidableEq, Repr

structure Attr where
  ino : ℕ
  mode : ℕ := 0
  uid : ℕ := 0
  gid : ℕ := 0
  flags : ℕ := 0
  atime : Timespec := ⟨0, 0⟩
  mtime : Timespec := ⟨0, 0⟩
  deriving DecidableEq, Repr

/-- An open file description: the object stays the same whatever happens to its names. -/
structure OpenFile where
  obj : ℕ
  kind : Kind
  flags : OpenFlags
  deriving DecidableEq, Repr

/-- What `stat` reports. -/
structure Stat where
  kind : Kind
  size : ℕ
  attr : Attr
  deriving DecidableEq, Repr

/-- `passthrough::path_to_cstring` fails on a path that holds a NUL byte. -/
def hasNul (p : Path) : Bool := p.any fun n => n.contains 0

structure Backing where
  tree : FinMap Path Entry := .empty
  data : FinMap ℕ Bytes := .empty
  attrs : FinMap ℕ Attr := .empty
  fds : FinMap ℤ OpenFile := .empty
  nextObj : ℕ := 1
  root_lt : 0 < nextObj := by decide
  tree_lt : ∀ p e, tree.get p = some e → e.obj < nextObj := by simp
  fds_lt : ∀ fd f, fds.get fd = some f → f.obj < nextObj := by simp

namespace Backing

/-- The object a canonical path names; the root is object `0`. -/
def entry (b : Backing) (p : Path) : Option Entry :=
  if p = [] then some ⟨0, .dir⟩ else b.tree.get p

/-- Bytes of an object. -/
def dataOf (b : Backing) (o : ℕ) : Bytes := (b.data.get o).getD []

def attrOf (b : Backing) (o : ℕ) : Attr := (b.attrs.get o).getD ⟨0, 0, 0, 0, 0, ⟨0, 0⟩, ⟨0, 0⟩⟩

/-! ### Elementary changes -/

def setData (b : Backing) (o : ℕ) (d : Bytes) : Backing := { b with data := b.data.insert o d }

def setAttr (b : Backing) (o : ℕ) (f : Attr → Attr) : Backing :=
  { b with attrs := b.attrs.insert o (f (b.attrOf o)) }

def unname (b : Backing) (p : Path) : Backing :=
  { b with
    tree := b.tree.remove p
    tree_lt := by
      intro q e h
      rw [FinMap.get_remove] at h
      split at h
      · cases h
      · exact b.tree_lt q e h }

/-- Link a new object at `p`. -/
def newObject (b : Backing) (p : Path) (kind : Kind) (a : Attr) : Backing :=
  { tree := b.tree.insert p ⟨b.nextObj, kind⟩
    data := b.data.insert b.nextObj []
    attrs := b.attrs.insert b.nextObj a
    fds := b.fds
    nextObj := b.nextObj + 1
    root_lt := Nat.succ_pos _
    tree_lt := by
      intro q e h
      rw [FinMap.get_insert] at h
      split at h
      · cases h; exact Nat.lt_succ_self _
      · exact Nat.lt_succ_of_lt (b.tree_lt q e h)
    fds_lt := fun fd f h => Nat.lt_succ_of_lt (b.fds_lt fd f h) }

/-- Hand out a descriptor for an object that has a name. -/
def addFd (b : Backing) (fd : ℤ) (p : Path) (o : ℕ) (kind : Kind) (flags : OpenFlags)
    (h : b.entry p = some ⟨o, kind⟩) : Backing :=
  { b with
    fds := b.fds.insert fd ⟨o, kind, flags⟩
    fds_lt := by
      intro fd' f hf
      rw [FinMap.get_insert] at hf
      split at hf
      · cases hf
        unfold entry at h
        split at h
        · cases h; exact b.root_lt
        · exact b.tree_lt p _ h
      · exact b.fds_lt fd' f hf }

/-- `libc::close` -/
def close (b : Backing) (fd : ℤ) : Backing :=
  { b with
    fds := b.fds.remove fd
    fds_lt := by
      intro fd' f hf
      rw [FinMap.get_remove] at hf
      split at hf
      · cases hf
      · exact b.fds_lt fd' f hf }

/-- Another program changes the directory behind the daemon's back: any names and contents, but the
    daemon keeps its descriptors. -/
def withFdsOf (b old : Backing) : Backing :=
  { b with
    fds := old.fds
    nextObj := max b.nextObj old.nextObj
    root_lt := lt_of_lt_of_le b.root_lt (le_max_left ..)
    tree_lt := fun p e h => lt_of_lt_of_le (b.tree_lt p e h) (le_max_left ..)
    fds_lt := fun fd f h => lt_of_lt_of_le (old.fds_lt fd f h) (le_max_right ..) }

/-! ### Path resolution -/

def slash : UInt8 := 0x2F
def dotdot : Name := [0x2E, 0x2E]

/-- Components of a symbolic link's target; empty ones and `.` mean nothing. -/
def components (target : Bytes) : List Name :=
  (target.splitOn slash).filter fun n => n ≠ [] && n ≠ [0x2E]

/-- Outcome of following a path from one directory downwards. -/
inductive Walk where
  /-- every component is there -/
  | found (p : Path)
  /-- only the last component is not there -/
  | missing (dir : Path) (name : Name)
  /-- a symbolic link comes first -/
  | link (dir : Path) (todo : List Name)
  | fail (e : Errno)
  deriving DecidableEq, Repr

/-- Walk down until the path ends or a symbolic link has to be followed. Links that lead out of the
    backing directory lead nowhere. -/
def walk (tree : FinMap Path Entry) (followLast : Bool) (cur : Path) : List Name → Walk
  | [] => .found cur
  | n :: rest =>
    if n = dotdot then
      if cur = [] then .fail .enoent else walk tree followLast cur.dropLast rest
    else
      match tree.get (cur ++ [n]) with
      | none => if rest = [] then .missing cur n else .fail .enoent
      | some ⟨_, .dir⟩ => walk tree followLast (cur ++ [n]) rest
      | some ⟨_, .file⟩ => if rest = [] then .found (cur ++ [n]) else .fail .enotdir
      | some ⟨_, .symlink t⟩ =>
        if rest = [] ∧ followLast = false then .found (cur ++ [n])
        else if t.head? = some slash then .fail .enoent
        else .link cur (components t ++ rest)

/-- Follow symbolic links, at most `fuel` of them. -/
def followLinks (tree : FinMap Path Entry) (followLast : Bool) : ℕ → Path → List Name → Walk
  | 0, cur, todo =>
    match walk tree followLast cur todo with
    | .link _ _ => .fail .eloop
    | w => w
  | fuel + 1, cur, todo =>
    match walk tree followLast cur todo with
    | .link dir todo' => followLinks tree followLast fuel dir todo'
    | w => w

def MAXSYMLINKS : ℕ := 32

/-- Resolve a path relative to the backing root. -/
def resolve (b : Backing) (followLast : Bool) (p : Path) : Walk :=
  followLinks b.tree followLast MAXSYMLINKS [] p

/-- The object at the end of a path. -/
def find (b : Backing) (followLast : Bool) (p : Path) : Except Errno (Path × Entry) :=
  match b.resolve followLast p with
  | .found q =>
    match b.entry q with
    | some e => .ok (q, e)
    | none => .error .enoent
  | .missing _ _ => .error .enoent
  | .link _ _ => .error .eloop
  | .fail e => .error e

theorem entry_of_find {b : Backing} {followLast : Bool} {p q : Path} {e : Entry}
    (h : b.find followLast p = .ok (q, e)) : b.entry q = some e := by
  unfold find at h
  split at h
  · split at h
    · cases h; assumption
    · cases h
  all_goals cases h

/-- The regular file a path leads to. -/
def fileAt (b : Backing) (p : Path) : Option ℕ :=
  match b.find true p with
  | .ok (_, ⟨o, .file⟩) => some o
  | _ => none

/-- The content of the regular file a path leads to. -/
def content (b : Backing) (p : Path) : Option Bytes := (b.fileAt p).map b.dataOf

/-- Some linked or open object has this inode number. -/
def inoUsed (b : Backing) (ino : ℕ) : Bool :=
  (b.attrOf 0).ino == ino || b.tree.iter.any (fun e => (b.attrOf e.2.obj).ino == ino)
    || b.fds.iter.any (fun f => (b.attrOf f.2.obj).ino == ino)

/-- Some name lies below `q`. -/
def hasChildren (b : Backing) (q : Path) : Bool :=
  b.tree.iter.any fun e => q.isPrefixOf e.1 && e.1 ≠ q

/-! ### System calls -/

/-- Make a new object, unless the path exists or no inode number is free. -/
def makeObject (b : Backing) (os : Os) (p : Path) (kind : Kind) (mode : ℕ) :
    Except Errno (Backing × Path) :=
  match b.resolve false p with
  | .found _ => .error .eexist
  | .missing dir n =>
    if b.inoUsed os.ino then .error .enospc
    else .ok (b.newObject (dir ++ [n]) kind { ino := os.ino, mode := mode }, dir ++ [n])
  | .link _ _ => .error .eloop
  | .fail e => .error e

theorem entry_newObject {b : Backing} {dir : Path} {n : Name} {kind : Kind} {a : Attr} :
    (b.newObject (dir ++ [n]) kind a).entry (dir ++ [n]) = some ⟨b.nextObj, kind⟩ := by
  simp [entry, newObject]

/-- `libc::open`. A descriptor number that is already open stands for none being free. `O_TRUNC`
    takes effect at the call, in every access mode. -/
def libcOpen (b : Backing) (os : Os) (p : Path) (flags : OpenFlags) (mode : ℕ) :
    Except Errno (Backing × ℤ) :=
  match os.fault .open_ with
  | some e => .error e
  | none =>
    if (b.fds.get os.fd).isSome then .error .emfile
    else
      let excl := hasFlag flags O_CREAT && hasFlag flags O_EXCL
      match b.resolve (!excl) p with
      | .found q =>
        if excl then .error .eexist
        else
          match h : b.entry q with
          | none => .error .enoent
          | some ⟨o, .file⟩ =>
            let b' := b.addFd os.fd q o .file flags h
            .ok (if hasFlag flags O_TRUNC then b'.setData o [] else b', os.fd)
          | some ⟨o, .dir⟩ =>
            if accessMode flags ≠ O_RDONLY ∨ hasFlag flags O_CREAT ∨ hasFlag flags O_TRUNC then
              .error .eisdir
            else .ok (b.addFd os.fd q o .dir flags h, os.fd)
          | some ⟨_, .symlink _⟩ => .error .eloop
      | .missing dir n =>
        if !hasFlag flags O_CREAT then .error .enoent
        else if b.inoUsed os.ino then .error .enospc
        else
          let b' := b.newObject (dir ++ [n]) .file { ino := os.ino, mode := mode }
          .ok (b'.addFd os.fd (dir ++ [n]) b.nextObj .file flags entry_newObject, os.fd)
      | .link _ _ => .error .eloop
      | .fail e => .error e

def statOf (b : Backing) (e : Entry) : Stat := ⟨e.kind, (b.dataOf e.obj).length, b.attrOf e.obj⟩

/-- `passthrough::fstat` -/
def fstat (b : Backing) (os : Os) (fd : ℤ) : Except Errno Stat :=
  match os.fault .fstat with
  | some e => .error e
  | none =>
    match b.fds.get fd with
    | none => .error .ebadf
    | some f => .ok (b.statOf ⟨f.obj, f.kind⟩)

/-- `passthrough::lstat`; the error of `path_to_cstring` has no number and is sent as `EIO`. -/
def lstat (b : Backing) (os : Os) (p : Path) : Except Errno Stat :=
  if hasNul p then .error .eio
  else
    match os.fault .lstat with
    | some e => .error e
    | none =>
      match b.find false p with
      | .error e => .error e
      | .ok (_, e) => .ok (b.statOf e)

/-- `off_t` is signed: a larger offset or size is negative. -/
def offMax : ℕ := 2 ^ 63

/-- Put `d` at offset `off`, filling a gap with zeros. Writing nothing changes nothing. -/
def splice (old : Bytes) (off : ℕ) (d : Bytes) : Bytes :=
  if d = [] then old
  else (old ++ List.replicate (off - old.length) 0).take off ++ d ++ old.drop (off + d.length)

/-- Cut or zero-extend to `size` bytes. -/
def resize (old : Bytes) (size : ℕ) : Bytes :=
  old.take size ++ List.replicate (size - old.length) 0

/-- `libc::pwrite` -/
def pwrite (b : Backing) (os : Os) (fd : ℤ) (off : ℕ) (d : Bytes) : Except Errno (Backing × ℕ) :=
  match os.fault .pwrite with
  | some e => .error e
  | none =>
    match b.fds.get fd with
    | none => .error .ebadf
    | some f =>
      if accessMode f.flags = O_RDONLY then .error .ebadf
      else if offMax ≤ off then .error .einval
      else
        let old := b.dataOf f.obj
        let at_ := if hasFlag f.flags O_APPEND && os.appendAtEnd then old.length else off
        let d' := d.take os.written
        .ok (b.setData f.obj (splice old at_ d'), d'.length)

/-- `libc::pread` -/
def pread (b : Backing) (os : Os) (fd : ℤ) (off size : ℕ) : Except Errno Bytes :=
  match os.fault .pread with
  | some e => .error e
  | none =>
    match b.fds.get fd with
    | none => .error .ebadf
    | some f =>
      if accessMode f.flags = O_WRONLY then .error .ebadf
      else if f.kind ≠ .file then .error .eisdir
      else if offMax ≤ off then .error .einval
      else .ok (((b.dataOf f.obj).drop off).take size)

/-- `libc::ftruncate` -/
def ftruncate (b : Backing) (os : Os) (fd : ℤ) (size : ℕ) : Except Errno Backing :=
  match os.fault .ftruncate with
  | some e => .error e
  | none =>
    match b.fds.get fd with
    | none => .error .ebadf
    | some f =>
      if accessMode f.flags = O_RDONLY ∨ offMax ≤ size then .error .einval
      else .ok (b.setData f.obj (resize (b.dataOf f.obj) size))

/-- `libc::truncate` -/
def truncate (b : Backing) (os : Os) (p : Path) (size : ℕ) : Except Errno Backing :=
  match os.fault .truncate with
  | some e => .error e
  | none =>
    match b.find true p with
    | .error e => .error e
    | .ok (_, e) =>
      if e.kind ≠ .file then .error .eisdir
      else if offMax ≤ size then .error .einval
      else .ok (b.setData e.obj (resize (b.dataOf e.obj) size))

/-- A call that changes the attributes of the object at the end of a path. -/
def changeAttr (b : Backing) (os : Os) (call : Syscall) (p : Path) (f : Attr → Attr) :
    Except Errno Backing :=
  match os.fault call with
  | some e => .error e
  | none =>
    match b.find true p with
    | .error e => .error e
    | .ok (_, e) => .ok (b.setAttr e.obj f)

/-- `libc::mkdir` -/
def mkdir (b : Backing) (os : Os) (p : Path) (mode : ℕ) : Except Errno Backing :=
  match os.fault .mkdir with
  | some e => .error e
  | none => (b.makeObject os p .dir mode).map (·.1)

/-- `libc::symlink` -/
def symlink (b : Backing) (os : Os) (target : Bytes) (p : Path) : Except Errno Backing :=
  match os.fault .symlink with
  | some e => .error e
  | none => (b.makeObject os p (.symlink target) 0).map (·.1)

/-- `libc::unlink` -/
def unlink (b : Backing) (os : Os) (p : Path) : Except Errno Backing :=
  match os.fault .unlink with
  | some e => .error e
  | none =>
    match b.find false p with
    | .error e => .error e
    | .ok (q, e) => if e.kind = .dir then .error .eperm else .ok (b.unname q)

/-- `libc::rmdir` -/
def rmdir (b : Backing) (os : Os) (p : Path) : Except Errno Backing :=
  match os.fault .rmdir with
  | some e => .error e
  | none =>
    match b.find false p with
    | .error e => .error e
    | .ok (q, e) =>
      if e.kind ≠ .dir then .error .enotdir
      else if q = [] then .error .einval
      else if b.hasChildren q then .error .enotempty
      else .ok (b.unname q)

/-- Give the object at `old` and everything below it a name starting with `new`; what `new` named
    before loses its name. -/
def moveNames (tree : FinMap Path Entry) (old new : Path) : FinMap Path Entry :=
  (tree.retain fun k _ => !old.isPrefixOf k && !new.isPrefixOf k).insertAll
    ((tree.iter.filter fun e => old.isPrefixOf e.1).map
      fun e => (new ++ e.1.drop old.length, e.2))

theorem insertAll_lt {l : List (Path × Entry)} {m : FinMap Path Entry} {n : ℕ}
    (hm : ∀ p e, m.get p = some e → e.obj < n) (hl : ∀ x ∈ l, x.2.obj < n) :
    ∀ p e, (m.insertAll l).get p = some e → e.obj < n := by
  induction l with
  | nil => exact hm
  | cons x l ih =>
    intro p e h
    rw [FinMap.insertAll, List.foldr_cons, FinMap.get_insert] at h
    split at h
    · cases h; exact hl x (List.mem_cons_self ..)
    · exact ih (fun y hy => hl y (List.mem_cons_of_mem _ hy)) p e h

theorem moveNames_lt {tree : FinMap Path Entry} {old new : Path} {n : ℕ}
    (ht : ∀ p e, tree.get p = some e → e.obj < n) :
    ∀ p e, (moveNames tree old new).get p = some e → e.obj < n := by
  apply insertAll_lt
  · intro p e h
    rw [FinMap.get_retain, Option.filter_eq_some_iff] at h
    exact ht p e h.1
  · intro x hx
    obtain ⟨y, hy, rfl⟩ := List.mem_map.mp hx
    exact ht y.1 y.2 (FinMap.mem_iter.mp (List.mem_filter.mp hy).1)

/-- `libc::rename` -/
def rename (b : Backing) (os : Os) (old new : Path) : Except Errno Backing :=
  match os.fault .rename with
  | some e => .error e
  | none =>
    match b.find false old with
    | .error e => .error e
    | .ok (p, e) =>
      let move (q : Path) : Except Errno Backing :=
        if p = [] ∨ (p <+: q ∧ p ≠ q) then .error .einval
        else .ok { b with
          tree := moveNames b.tree p q
          tree_lt := moveNames_lt b.tree_lt }
      match b.resolve false new with
      | .missing dir n => move (dir ++ [n])
      | .found q =>
        match b.entry q with
        | none => .error .enoent
        | some e' =>
          -- two names of one object: nothing to do
          if e'.obj = e.obj then .ok b
          else if e.kind = .dir ∧ e'.kind ≠ .dir then .error .enotdir
          else if e.kind ≠ .dir ∧ e'.kind = .dir then .error .eisdir
          else if e'.kind = .dir ∧ b.hasChildren q then .error .enotempty
          else move q
      | .link _ _ => .error .eloop
      | .fail e => .error e

/-- `Path::exists`, which follows symbolic links. -/
def pathExists (b : Backing) (p : Path) : Bool :=
  match b.find true p with
  | .ok _ => true
  | .error _ => false

/-- `std::fs::read_dir`: the names in a directory. -/
def readDir (b : Backing) (os : Os) (p : Path) : Except Errno (List Name) :=
  match os.fault .readDir with
  | some e => .error e
  | none =>
    match b.find true p with
    | .error e => .error e
    | .ok (q, e) =>
      if e.kind ≠ .dir then .error .enotdir
      else
        let names := b.tree.iter.filterMap fun x => if x.1.dropLast = q then x.1.getLast? else none
        .ok (names.insertionSort fun m n => os.rank m ≤ os.rank n)

/-- `libc::opendir`, `dirfd`, `dup`, `closedir`: one descriptor stays open, `-1` if `dup` fails. -/
def opendir (b : Backing) (os : Os) (p : Path) : Except Errno (Backing × ℤ) :=
  match os.fault .opendir with
  | some e => .error e
  | none =>
    match h : b.find true p with
    | .error e => .error e
    | .ok (q, ⟨o, kind⟩) =>
      if kind ≠ .dir then .error .enotdir
      else if os.fault .dup = none ∧ b.fds.get os.fd = none then
        .ok (b.addFd os.fd q o kind O_RDONLY (entry_of_find h), os.fd)
      else .ok (b, -1)

/-- `std::fs::read_link` -/
def readLink (b : Backing) (os : Os) (p : Path) : Except Errno Bytes :=
  match os.fault .readlink with
  | some e => .error e
  | none =>
    match b.find false p with
    | .error e => .error e
    | .ok (_, ⟨_, .symlink t⟩) => .ok t
    | .ok _ => .error .einval

/-- `libc::access`; permissions are the system's own answer. -/
def access (b : Backing) (os : Os) (p : Path) : Except Errno Unit :=
  match os.fault .access with
  | some e => .error e
  | none => (b.find true p).map fun _ => ()

/-- `std::fs::write`: create or truncate the file, then store the data; the caller ignores errors.
    The file may end up with only the first bytes. -/
def fsWrite (b : Backing) (os : Os) (p : Path) (d : Bytes) : Backing :=
  match os.saved with
  | none => b
  | some k =>
    match b.resolve true p with
    | .found q =>
      match b.entry q with
      | some ⟨o, .file⟩ => b.setData o (d.take k)
      | _ => b
    | .missing dir n =>
      if b.inoUsed os.ino then b
      else (b.newObject (dir ++ [n]) .file { ino := os.ino }).setData b.nextObj (d.take k)
    | _ => b

end Backing

end Dibs
