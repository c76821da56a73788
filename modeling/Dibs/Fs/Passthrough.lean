import Dibs.Fs.Step

/-! What the mount would be without its content checks: a filesystem that hands every request through to
    the backing directory. It keeps no hashes and no owners, and of an open handle only the descriptor.
    It is the measure for what the checks add: the mount serves every request it does not refuse as
    this filesystem does. -/

namespace Dibs

structure Passthrough where
  backing : Backing
  inodes : InodeTable
  dirHandles : DirHandleTable := {}
  /-- the descriptor behind each open file handle -/
  files : FinMap ℕ ℤ := .empty
  nextFh : ℕ := 1

namespace Passthrough

structure Answer where
  st : Passthrough
  reply : Reply

variable (X : Ext) (p : Passthrough) (os : Os)

def fail (p : Passthrough) (e : Errno) : Answer := ⟨p, .error e⟩

/-- The parts that names and attributes are served from. -/
def names : DibsFs := { backing := p.backing, inodes := p.inodes, dirHandles := p.dirHandles }

/-- A request that is served from names and attributes alone. -/
def fromNames (o : Out) : Answer :=
  ⟨{ p with
      backing := o.st.backing
      inodes := o.st.inodes
      dirHandles := o.st.dirHandles }, o.reply⟩

/-- Give out the next handle, for a descriptor. -/
def alloc (b : Backing) (fd : ℤ) : Passthrough :=
  { p with
    backing := b
    files := p.files.insert p.nextFh fd
    nextFh := p.nextFh + 1 }

def open_ (ino : ℕ) (flags : OpenFlags) : Answer :=
  if ino = DIBS_STATUS_INO ∨ ino = DIBS_LOCKS_INO then ⟨p.alloc p.backing (-1), .opened p.nextFh⟩
  else if isDibsIno ino then p.fail .eacces
  else
    match p.inodes.getPath ino with
    | none => p.fail .enoent
    | some rel =>
      if hasNul rel then p.fail .einval
      else
        match p.backing.libcOpen os rel flags 0 with
        | .error e => p.fail e
        | .ok (b, fd) => ⟨p.alloc b fd, .opened p.nextFh⟩

def read (fh offset size : ℕ) : Answer :=
  match p.files.get fh with
  | none => p.fail .ebadf
  | some fd =>
    match p.backing.pread os fd offset size with
    | .error e => p.fail e
    | .ok bytes => ⟨p, .data bytes⟩

def write (ino fh offset : ℕ) (data : Bytes) : Answer :=
  if isDibsIno ino then p.fail .eacces
  else
    match p.files.get fh with
    | none => p.fail .ebadf
    | some fd =>
      match p.backing.pwrite os fd offset data with
      | .error e => p.fail e
      | .ok (b, n) => ⟨{ p with backing := b }, .written n⟩

def release (fh : ℕ) : Answer :=
  match p.files.get fh with
  | some fd =>
    ⟨{ p with
        files := p.files.remove fh
        backing := if 0 ≤ fd then p.backing.close fd else p.backing }, .ok⟩
  | none => ⟨p, .ok⟩

def truncateCall (rel : Path) (fh : Option ℕ) (size : ℕ) : Except Errno Backing :=
  match fh.bind p.files.get with
  | some fd => p.backing.ftruncate os fd size
  | none => p.backing.truncate os rel size

def setattr (ino : ℕ) (a : DibsFs.SetattrArgs) : Answer :=
  if isDibsIno ino then p.fail .eacces
  else
    match p.inodes.getPath ino with
    | none => p.fail .enoent
    | some rel =>
      if hasNul rel then p.fail .einval
      else
        match a.size with
        | none => p.fromNames (p.names.finishSetattr os rel ino a)
        | some size =>
          match p.truncateCall os rel a.fh size with
          | .error e => p.fail e
          | .ok b => fromNames { p with backing := b }
              ((names { p with backing := b }).finishSetattr os rel ino a)

def create (parent : ℕ) (name : Name) (mode : ℕ) (flags : OpenFlags) : Answer :=
  if isDibsIno parent then p.fail .eacces
  else
    let rel := p.names.resolvePath parent name
    if hasNul rel then p.fail .einval
    else
      match p.backing.libcOpen os rel (flags ||| O_CREAT) mode with
      | .error e => p.fail e
      | .ok (b, fd) =>
        match b.fstat os fd with
        | .error e => fail { p with backing := b.close fd } e
        | .ok st =>
          ⟨alloc { p with inodes := p.inodes.insert (statToFileAttr st).ino rel } b fd,
            .created (statToFileAttr st) p.nextFh⟩

def unlink (parent : ℕ) (name : Name) : Answer :=
  if isDibsIno parent then p.fail .eacces
  else
    let rel := p.names.resolvePath parent name
    if hasNul rel then p.fail .einval
    else
      match p.backing.unlink os rel with
      | .error e => p.fail e
      | .ok b => ⟨{ p with backing := b, inodes := p.inodes.removeByPath rel }, .ok⟩

def rename (parent : ℕ) (name : Name) (newparent : ℕ) (newname : Name) : Answer :=
  if isDibsIno parent ∨ isDibsIno newparent then p.fail .eacces
  else
    let oldRel := p.names.resolvePath parent name
    let newRel := p.names.resolvePath newparent newname
    if hasNul oldRel ∨ hasNul newRel then p.fail .einval
    else
      match p.backing.rename os oldRel newRel with
      | .error e => p.fail e
      | .ok b => ⟨{ p with backing := b, inodes := p.inodes.rename oldRel newRel }, .ok⟩

def serve : Request → Answer
  | .setattr ino a => p.setattr os ino a
  | .open_ ino flags => p.open_ os ino flags
  | .read _ fh offset size => p.read os fh offset size
  | .write ino fh offset data => p.write os ino fh offset data
  | .flush _ _ => ⟨p, .ok⟩
  | .release _ fh => p.release fh
  | .create parent name mode flags => p.create os parent name mode flags
  | .unlink parent name => p.unlink os parent name
  | .rename parent name newparent newname _ => p.rename os parent name newparent newname
  -- no handle and no content is involved
  | req => p.fromNames (p.names.handle X os 0 req)

def out : Call → Answer
  | .fuse os _ req => p.serve X os req
  | .evict _ _ => ⟨p, .ok⟩
  | .outside b => ⟨{ p with backing := b.withFdsOf p.backing }, .ok⟩

def step (p : Passthrough) (c : Call) : Passthrough := (p.out X c).st

def mount (backing : Backing) (os : Os) (saveConflicts : Bool) : Passthrough :=
  { backing := (DibsFs.mount backing os saveConflicts []).backing
    inodes := InodeTable.new.insert 1 [] }

end Passthrough

end Dibs
