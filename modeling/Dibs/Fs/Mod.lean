import Dibs.Fs.Inodes
import Dibs.State.HashTable

/-! The FUSE request handlers (`src/fs/mod.rs`). A handler takes the filesystem state, the answers
    of the operating system for this request and the arguments, and returns the new state, the reply
    and the warning it logs, if any: each rejection by a content check logs exactly one warning, so
    the warning tells why an `EIO` was sent. `backing` is the tree behind `self.backing`. -/

namespace Dibs

inductive FileType where
  | regularFile
  | directory
  | symlink
  deriving DecidableEq, Repr

/-- `fuser::FileAttr`, without the fields that are copied from `stat` and never used. -/
structure FileAttr where
  ino : ℕ
  size : ℕ
  kind : FileType
  perm : ℕ
  uid : ℕ
  gid : ℕ
  flags : ℕ
  atime : ℤ
  mtime : ℤ
  deriving DecidableEq, Repr

/-- `SystemTime` is nanoseconds around the epoch. -/
inductive TimeOrNow where
  | specificTime (t : ℤ)
  | now
  deriving DecidableEq, Repr

structure DirEntry where
  ino : ℕ
  cookie : ℕ
  kind : FileType
  name : Name
  deriving DecidableEq, Repr

inductive Reply where
  | ok
  | entry (attr : FileAttr)
  | attr (attr : FileAttr)
  | opened (fh : ℕ)
  | created (attr : FileAttr) (fh : ℕ)
  | data (bytes : Bytes)
  | written (n : ℕ)
  | directory (entries : List DirEntry)
  | error (e : Errno)
  deriving DecidableEq, Repr

/-- The warnings of the handlers, one for each kind of rejection. -/
inductive Warning where
  | truncate (e : CasError)
  | open_ (e : CasError)
  | write (e : CasError)
  | unlink (path : Path)
  | renameSource (path : Path)
  | renameDest (path : Path)
  deriving DecidableEq, Repr

structure DibsFs where
  sessionId : Bytes := []
  startTime : Time := 0
  /-- Conflict storage directory in the backing fs. -/
  conflictDir : Option Path := none
  backing : Backing := {}
  inodes : InodeTable := .new
  fileHandles : HandleTable := .new
  dirHandles : DirHandleTable := {}
  casTable : CasTable := .new

structure Out where
  st : DibsFs
  reply : Reply
  warn : Option Warning := none

/-! ### Names and attributes -/

def DIBS_DIR_NAME : Name := [0x2E, 0x64, 0x69, 0x62, 0x73]
def DIBS_STATUS_NAME : Name := [0x73, 0x74, 0x61, 0x74, 0x75, 0x73]
def DIBS_LOCKS_NAME : Name := [0x6C, 0x6F, 0x63, 0x6B, 0x73]
def DIBS_CONFLICTS_NAME : Name := [0x63, 0x6F, 0x6E, 0x66, 0x6C, 0x69, 0x63, 0x74, 0x73]
/-- `.dibs-conflicts` -/
def CONFLICTS_DIR : Name := DIBS_DIR_NAME ++ [0x2D] ++ DIBS_CONFLICTS_NAME
/-- the path of every virtual file handle, `.dibs/virtual` -/
def VIRTUAL_PATH : Path := [DIBS_DIR_NAME, [0x76, 0x69, 0x72, 0x74, 0x75, 0x61, 0x6C]]
/-- the base name used when a path has none -/
def UNKNOWN_NAME : Name := [0x75, 0x6E, 0x6B, 0x6E, 0x6F, 0x77, 0x6E]

def isDibsName (name : Name) : Bool := name == DIBS_DIR_NAME
def isDibsIno (ino : ℕ) : Bool := InodeTable.isSynthetic ino

/-- `mode_to_filetype` on the kinds of objects a backing tree holds -/
def fileType : Kind → FileType
  | .file => .regularFile
  | .dir => .directory
  | .symlink _ => .symlink

/-- `system_time_from_parts` -/
def systemTimeFromParts (ts : Timespec) : ℤ := if 0 ≤ ts.sec then ts.sec * 10 ^ 9 + ts.nsec else 0

/-- `stat_to_file_attr` -/
def statToFileAttr (st : Stat) : FileAttr :=
  { ino := st.attr.ino, size := st.size, kind := fileType st.kind, perm := st.attr.mode % 0o10000
    uid := st.attr.uid, gid := st.attr.gid, flags := st.attr.flags
    atime := systemTimeFromParts st.attr.atime, mtime := systemTimeFromParts st.attr.mtime }

def dibsDirAttr (os : Os) (ino : ℕ) : FileAttr :=
  { ino := ino, size := 0, kind := .directory, perm := 0o555, uid := os.uid, gid := os.gid
    flags := 0, atime := os.now, mtime := os.now }

def dibsFileAttr (os : Os) (ino size : ℕ) : FileAttr :=
  { ino := ino, size := size, kind := .regularFile, perm := 0o444, uid := os.uid, gid := os.gid
    flags := 0, atime := os.now, mtime := os.now }

def UTIME_NOW : ℤ := -1
def UTIME_OMIT : ℤ := -2

/-- `to_timespec` in `setattr` -/
def toTimespec : Option TimeOrNow → Timespec
  | some (.specificTime t) =>
    let d := if 0 ≤ t then t else 0
    ⟨d / 10 ^ 9, d % 10 ^ 9⟩
  | some .now => ⟨0, UTIME_NOW⟩
  | none => ⟨0, UTIME_OMIT⟩

/-- What `utimensat` stores for one of the two times. -/
def applyTimespec (os : Os) (ts old : Timespec) : Timespec :=
  if ts.nsec = UTIME_NOW then ⟨os.now / 10 ^ 9, os.now % 10 ^ 9⟩
  else if ts.nsec = UTIME_OMIT then old
  else ts

namespace DibsFs
variable (X : Ext) (s : DibsFs) (os : Os)

def fail (s : DibsFs) (e : Errno) : Out := ⟨s, .error e, none⟩

/-- `resolve_path`: a parent that is not in the inode table counts as the root. -/
def resolvePath (parent : ℕ) (name : Name) : Path :=
  (if parent = 1 then [] else (s.inodes.getPath parent).getD []) ++ [name]

/-- `lookup_and_register`: stat a path and register it in the inode table. -/
def lookupAndRegister (rel : Path) : Except Errno (DibsFs × FileAttr) :=
  match s.backing.lstat os rel with
  | .error e => .error e
  | .ok st =>
    let attr := statToFileAttr st
    if rel = [] then .ok ({ s with inodes := s.inodes.insert 1 [] }, { attr with ino := 1 })
    else .ok ({ s with inodes := s.inodes.insert attr.ino rel }, attr)

def statusJson : Bytes :=
  X.statusJson s.casTable.len s.casTable.activeWriters ((os.now - s.startTime) / 10 ^ 9).toNat
    s.sessionId

def locksJson : Bytes := X.locksJson s.casTable.allEntries

/-- Reply with the result of a lookup. -/
def replyEntry (rel : Path) : Out :=
  match s.lookupAndRegister os rel with
  | .ok (s', attr) => ⟨s', .entry attr, none⟩
  | .error e => s.fail e

def lookup (parent : ℕ) (name : Name) : Out :=
  if parent = 1 ∧ isDibsName name then ⟨s, .entry (dibsDirAttr os DIBS_DIR_INO), none⟩
  else if parent = DIBS_DIR_INO then
    if name = DIBS_STATUS_NAME then
      ⟨s, .entry (dibsFileAttr os DIBS_STATUS_INO (s.statusJson X os).length), none⟩
    else if name = DIBS_LOCKS_NAME then
      ⟨s, .entry (dibsFileAttr os DIBS_LOCKS_INO (s.locksJson X).length), none⟩
    else if name = DIBS_CONFLICTS_NAME then
      ⟨s, .entry (dibsDirAttr os DIBS_CONFLICTS_DIR_INO), none⟩
    else s.fail .enoent
  else s.replyEntry os (s.resolvePath parent name)

/-- Reply with the attributes of the object at a path, under the inode number asked for. -/
def replyAttr (rel : Path) (ino : ℕ) : Out :=
  match s.backing.lstat os rel with
  | .ok st => ⟨s, .attr { statToFileAttr st with ino := ino }, none⟩
  | .error e => s.fail e

def getattr (ino : ℕ) : Out :=
  if ino = 1 then s.replyAttr os [] 1
  else if ino = DIBS_DIR_INO then ⟨s, .attr (dibsDirAttr os DIBS_DIR_INO), none⟩
  else if ino = DIBS_STATUS_INO then
    ⟨s, .attr (dibsFileAttr os DIBS_STATUS_INO (s.statusJson X os).length), none⟩
  else if ino = DIBS_LOCKS_INO then
    ⟨s, .attr (dibsFileAttr os DIBS_LOCKS_INO (s.locksJson X).length), none⟩
  else if ino = DIBS_CONFLICTS_DIR_INO then
    ⟨s, .attr (dibsDirAttr os DIBS_CONFLICTS_DIR_INO), none⟩
  else
    match s.inodes.getPath ino with
    | some rel => s.replyAttr os rel ino
    | none => s.fail .enoent

/-! ### setattr -/

structure SetattrArgs where
  mode : Option ℕ := none
  uid : Option ℕ := none
  gid : Option ℕ := none
  size : Option ℕ := none
  atime : Option TimeOrNow := none
  mtime : Option TimeOrNow := none
  fh : Option ℕ := none
  flags : Option ℕ := none

/-- The call that truncates: on the descriptor of a live handle, else on the path. -/
def truncateCall (rel : Path) (fh : Option ℕ) (newSize : ℕ) : Except Errno Backing :=
  match (fh.bind s.fileHandles.get).map (·.realFd) with
  | some fd => s.backing.ftruncate os fd newSize
  | none => s.backing.truncate os rel newSize

def finishTruncate (rel : Path) (fh : Option ℕ) (newSize : ℕ) : Except Out DibsFs :=
  match s.truncateCall os rel fh newSize with
  | .error e => .error (s.fail e)
  | .ok b => .ok { s with backing := b }

/-- The truncation part of `setattr`; an error is an early reply. Only a request that carries a
    file handle goes through the CAS check. -/
def setattrSize (rel : Path) (fh : Option ℕ) (newSize : ℕ) : Except Out DibsFs :=
  match fh with
  | some handleFh =>
    let sid := ((s.fileHandles.get handleFh).map (·.sid)).getD 0
    let actualHash := (hashFile X s.backing os rel).getD []
    match s.casTable.checkAndAcquireWrite os.now rel handleFh sid s.fileHandles actualHash with
    | (cas, .error e) => .error ⟨{ s with casTable := cas }, .error .eio, some (.truncate e)⟩
    | (cas, .ok ()) => finishTruncate { s with casTable := cas } os rel fh newSize
  | none => s.finishTruncate os rel fh newSize

/-- One of the calls after the truncation, skipped when an earlier one failed. -/
def attrCall (r : Backing × Option Errno) (wanted : Bool)
    (call : Backing → Except Errno Backing) : Backing × Option Errno :=
  match r.2 with
  | some _ => r
  | none =>
    if wanted then
      match call r.1 with
      | .ok b => (b, none)
      | .error e => (r.1, some e)
    else r

/-- `chmod`, `chown`, `utimensat` and `chflags`, in this order. -/
def attrCalls (b : Backing) (rel : Path) (a : SetattrArgs) : Backing × Option Errno :=
  let r := attrCall (b, none) a.mode.isSome fun b =>
    b.changeAttr os .chmod rel fun t => { t with mode := a.mode.getD 0 }
  let r := attrCall r (a.uid.isSome || a.gid.isSome) fun b =>
    b.changeAttr os .chown rel fun t => { t with uid := a.uid.getD t.uid, gid := a.gid.getD t.gid }
  let r := attrCall r (a.atime.isSome || a.mtime.isSome) fun b =>
    b.changeAttr os .utimensat rel fun t =>
      { t with
        atime := applyTimespec os (toTimespec a.atime) t.atime
        mtime := applyTimespec os (toTimespec a.mtime) t.mtime }
  attrCall r a.flags.isSome fun b =>
    b.changeAttr os .chflags rel fun t => { t with flags := a.flags.getD 0 }

def finishSetattr (rel : Path) (ino : ℕ) (a : SetattrArgs) : Out :=
  let r := attrCalls os s.backing rel a
  let s := { s with backing := r.1 }
  match r.2 with
  | some e => s.fail e
  | none => s.replyAttr os rel ino

def setattr (ino : ℕ) (a : SetattrArgs) : Out :=
  if isDibsIno ino then s.fail .eacces
  else
    match s.inodes.getPath ino with
    | none => s.fail .enoent
    | some rel =>
      if hasNul rel then s.fail .einval
      else
        match a.size with
        | none => s.finishSetattr os rel ino a
        | some newSize =>
          match s.setattrSize X os rel a.fh newSize with
          | .error out => out
          | .ok s' => s'.finishSetattr os rel ino a

/-! ### open, read, write, flush, release -/

/-- The write-mode part of `open`, after `libc::open` returned `fd` and left the tree `b`. -/
def openWrite (sid : ℕ) (rel : Path) (flags : OpenFlags) (preOpenHash : Option Bytes)
    (b : Backing) (fd : ℤ) : Out :=
  let handleHash := if accessMode flags = O_RDWR then preOpenHash else none
  let (handles, fh) := s.fileHandles.alloc fd rel flags handleHash sid
  match preOpenHash with
  | some actual =>
    match s.casTable.checkAndAcquireWrite os.now rel fh sid handles actual with
    | (cas, .error e) =>
      ⟨{ s with backing := b.close fd, fileHandles := handles.remove fh, casTable := cas },
        .error .eio, some (.open_ e)⟩
    | (cas, .ok ()) =>
      let cas := if accessMode flags = O_RDWR then cas.recordReader os.now rel actual sid else cas
      ⟨{ s with backing := b, fileHandles := handles, casTable := cas }, .opened fh, none⟩
  | none =>
    -- the file could not be hashed before the open
    ⟨{ s with backing := b, fileHandles := handles, casTable := s.casTable.ensureEntry os.now rel },
      .opened fh, none⟩

/-- The read-only part of `open`: the hash is taken after `libc::open`. -/
def openRead (sid : ℕ) (rel : Path) (flags : OpenFlags) (b : Backing) (fd : ℤ) : Out :=
  let hash := hashFile X b os rel
  let cas :=
    match hash with
    | some h => s.casTable.recordReader os.now rel h sid
    | none => s.casTable
  let (handles, fh) := s.fileHandles.alloc fd rel flags hash sid
  ⟨{ s with backing := b, fileHandles := handles, casTable := cas }, .opened fh, none⟩

def open_ (sid ino : ℕ) (flags : OpenFlags) : Out :=
  if ino = DIBS_STATUS_INO ∨ ino = DIBS_LOCKS_INO then
    let (handles, fh) := s.fileHandles.alloc (-1) VIRTUAL_PATH flags none 0
    ⟨{ s with fileHandles := handles }, .opened fh, none⟩
  else if isDibsIno ino then s.fail .eacces
  else
    match s.inodes.getPath ino with
    | none => s.fail .enoent
    | some rel =>
      if hasNul rel then s.fail .einval
      else
        -- for write modes, hash the file BEFORE libc::open, which may truncate it
        let preOpenHash :=
          if accessMode flags ≠ O_RDONLY then hashFile X s.backing os rel else none
        match s.backing.libcOpen os rel flags 0 with
        | .error e => s.fail e
        | .ok (b, fd) =>
          if accessMode flags = O_RDONLY then s.openRead X os sid rel flags b fd
          else s.openWrite os sid rel flags preOpenHash b fd

/-- One page of a virtual file. -/
def readSlice (bytes : Bytes) (offset size : ℕ) : Bytes := (bytes.drop offset).take size

def read (ino fh offset size : ℕ) : Out :=
  if ino = DIBS_STATUS_INO then ⟨s, .data (readSlice (s.statusJson X os) offset size), none⟩
  else if ino = DIBS_LOCKS_INO then ⟨s, .data (readSlice (s.locksJson X) offset size), none⟩
  else
    match s.fileHandles.get fh with
    | none => s.fail .ebadf
    | some h =>
      match s.backing.pread os h.realFd offset size with
      | .error e => s.fail e
      | .ok bytes => ⟨s, .data bytes, none⟩

/-- The file a rejected write is saved to: a clock rounded to milliseconds and the base name. -/
def conflictPath (dir rel : Path) : Path :=
  dir ++ [X.stamp (os.now / 10 ^ 6) ++ [0x5F] ++
    ((rel.getLast?).map toStringLossy).getD UNKNOWN_NAME]

/-- Save conflict data if configured. -/
def saveConflict (rel : Path) (data : Bytes) : DibsFs :=
  match s.conflictDir with
  | some dir => { s with backing := s.backing.fsWrite os (conflictPath X os dir rel) data }
  | none => s

/-- The CAS check in `write`, made only when the path has no owner at all. -/
def writeGuard (fh : ℕ) (h : HandleState) (data : Bytes) : Except Out DibsFs :=
  if s.casTable.hasActiveWriter h.path then .ok s
  else
    let actualHash := (hashFile X s.backing os h.path).getD []
    match s.casTable.checkAndAcquireWrite os.now h.path fh h.sid s.fileHandles actualHash with
    | (cas, .error e) =>
      .error ⟨saveConflict X { s with casTable := cas } os h.path data, .error .eio,
        some (.write e)⟩
    | (cas, .ok ()) => .ok { s with casTable := cas }

/-- Mark the handle as having written, then `pwrite`. -/
def writeThrough (fh : ℕ) (h : HandleState) (offset : ℕ) (data : Bytes) : Out :=
  let s := { s with fileHandles := s.fileHandles.modify fh fun h => { h with hasWritten := true } }
  match s.backing.pwrite os h.realFd offset data with
  | .error e => s.fail e
  | .ok (b, n) => ⟨{ s with backing := b }, .written n, none⟩

def write (ino fh offset : ℕ) (data : Bytes) : Out :=
  if isDibsIno ino then s.fail .eacces
  else
    match s.fileHandles.get fh with
    | none => s.fail .ebadf
    | some h =>
      match s.writeGuard X os fh h data with
      | .error out => out
      | .ok s' => s'.writeThrough os fh h offset data

/-- The receipt and handle update of `flush` after a write, if the file can be hashed. -/
def flushHash (fh : ℕ) (h : HandleState) : DibsFs :=
  match hashFile X s.backing os h.path with
  | some newHash =>
    { s with
      casTable := s.casTable.updateReader os.now h.sid h.path newHash
      fileHandles := s.fileHandles.modify fh fun h =>
        { h with hashAtOpen := some newHash, hasWritten := false } }
  | none => s

def flush (ino fh : ℕ) : Out :=
  if isDibsIno ino then ⟨s, .ok, none⟩
  else
    match s.fileHandles.get fh with
    | none => ⟨s, .ok, none⟩
    | some h =>
      if h.hasWritten then
        let s := s.flushHash X os fh h
        ⟨{ s with casTable := s.casTable.releaseWrite h.path fh }, .ok, none⟩
      else ⟨s, .ok, none⟩

def release (fh : ℕ) : Out :=
  match s.fileHandles.get fh with
  | some h =>
    ⟨{ s with
        fileHandles := s.fileHandles.remove fh
        casTable := s.casTable.releaseWrite h.path fh
        backing := if 0 ≤ h.realFd then s.backing.close h.realFd else s.backing }, .ok, none⟩
  | none => ⟨s, .ok, none⟩

/-! ### Directories -/

def opendir (ino : ℕ) : Out :=
  if ino = DIBS_DIR_INO ∨ ino = DIBS_CONFLICTS_DIR_INO then
    let (handles, fh) := s.dirHandles.alloc (-1) [DIBS_DIR_NAME]
    ⟨{ s with dirHandles := handles }, .opened fh, none⟩
  else
    match (if ino = 1 then some [] else s.inodes.getPath ino) with
    | none => s.fail .enoent
    | some rel =>
      if hasNul rel then s.fail .einval
      else
        match s.backing.opendir os rel with
        | .error e => s.fail e
        | .ok (b, fd) =>
          let (handles, fh) := s.dirHandles.alloc fd rel
          ⟨{ s with backing := b, dirHandles := handles }, .opened fh, none⟩

/-- The entries of a listing that fit in the reply, from the cookie `offset` on. -/
def page (entries : List (ℕ × FileType × Name)) (offset : ℕ) : List DirEntry :=
  ((entries.zipIdx.drop offset).take os.room).map fun e => ⟨e.1.1, e.2 + 1, e.1.2.1, e.1.2.2⟩

/-- One real name of a directory: register it and add it to the listing. -/
def listName (rel : Path) (acc : DibsFs × List (ℕ × FileType × Name)) (raw : Name) :
    DibsFs × List (ℕ × FileType × Name) :=
  let name := toStringLossy raw
  if name = CONFLICTS_DIR then acc
  else
    match acc.1.backing.lstat os (rel ++ [name]) with
    | .error _ => acc
    | .ok st =>
      let attr := statToFileAttr st
      ({ acc.1 with inodes := acc.1.inodes.insert attr.ino (rel ++ [name]) },
        acc.2 ++ [(attr.ino, attr.kind, name)])

def parentIno (ino : ℕ) (rel : Path) : ℕ :=
  if ino = 1 then 1
  else if rel.dropLast = [] then 1
  else (s.inodes.getIno rel.dropLast).getD 1

def readdir (ino offset : ℕ) : Out :=
  let dot : Name := [0x2E]
  if ino = DIBS_DIR_INO then
    ⟨s, .directory (page os
      [(DIBS_DIR_INO, .directory, dot), (1, .directory, Backing.dotdot),
        (DIBS_STATUS_INO, .regularFile, DIBS_STATUS_NAME),
        (DIBS_LOCKS_INO, .regularFile, DIBS_LOCKS_NAME),
        (DIBS_CONFLICTS_DIR_INO, .directory, DIBS_CONFLICTS_NAME)] offset), none⟩
  else if ino = DIBS_CONFLICTS_DIR_INO then
    ⟨s, .directory (page os
      [(DIBS_CONFLICTS_DIR_INO, .directory, dot), (DIBS_DIR_INO, .directory, Backing.dotdot)]
      offset), none⟩
  else
    match (if ino = 1 then some [] else s.inodes.getPath ino) with
    | none => s.fail .enoent
    | some rel =>
      match s.backing.readDir os rel with
      | .error e => s.fail e
      | .ok names =>
        let start := [(ino, .directory, dot), (s.parentIno ino rel, .directory, Backing.dotdot)] ++
          if ino = 1 then [(DIBS_DIR_INO, .directory, DIBS_DIR_NAME)] else []
        let r := names.foldl (listName os rel) (s, start)
        ⟨r.1, .directory (page os r.2 offset), none⟩

def releasedir (fh : ℕ) : Out :=
  match s.dirHandles.get fh with
  | some h =>
    ⟨{ s with
        dirHandles := s.dirHandles.remove fh
        backing := if 0 ≤ h.realFd then s.backing.close h.realFd else s.backing }, .ok, none⟩
  | none => ⟨s, .ok, none⟩

/-! ### Changes of names -/

def create (sid parent : ℕ) (name : Name) (mode : ℕ) (flags : OpenFlags) : Out :=
  if isDibsIno parent then s.fail .eacces
  else
    let rel := s.resolvePath parent name
    if hasNul rel then s.fail .einval
    else
      match s.backing.libcOpen os rel (flags ||| O_CREAT) mode with
      | .error e => s.fail e
      | .ok (b, fd) =>
        match b.fstat os fd with
        | .error e => fail { s with backing := b.close fd } e
        | .ok st =>
          let attr := statToFileAttr st
          -- hash the newly created file (empty or truncated); a failure leaves the empty hash
          let hash := (hashFile X b os rel).getD []
          let (handles, fh) := s.fileHandles.alloc fd rel flags (some hash) sid
          ⟨{ s with
              backing := b
              inodes := s.inodes.insert attr.ino rel
              casTable := (s.casTable.recordReader os.now rel hash sid).ensureEntry os.now rel
              fileHandles := handles }, .created attr fh, none⟩

def mkdir (parent : ℕ) (name : Name) (mode : ℕ) : Out :=
  if isDibsIno parent then s.fail .eacces
  else
    let rel := s.resolvePath parent name
    if hasNul rel then s.fail .einval
    else
      match s.backing.mkdir os rel mode with
      | .error e => s.fail e
      | .ok b => replyEntry { s with backing := b } os rel

/-- The check of `unlink` and `rename`: the session has a receipt, the file can be hashed, and the
    two differ. -/
def staleReceipt (sid : ℕ) (rel : Path) : Bool :=
  match s.casTable.getReaderHash sid rel with
  | some readerHash =>
    match hashFile X s.backing os rel with
    | some actualHash => readerHash ≠ actualHash
    | none => false
  | none => false

def unlink (sid parent : ℕ) (name : Name) : Out :=
  if isDibsIno parent then s.fail .eacces
  else
    let rel := s.resolvePath parent name
    if s.staleReceipt X os sid rel then ⟨s, .error .eio, some (.unlink rel)⟩
    else if hasNul rel then s.fail .einval
    else
      match s.backing.unlink os rel with
      | .error e => s.fail e
      | .ok b =>
        ⟨{ s with
            backing := b
            casTable := s.casTable.remove rel
            inodes := s.inodes.removeByPath rel }, .ok, none⟩

def rmdir (parent : ℕ) (name : Name) : Out :=
  if isDibsIno parent then s.fail .eacces
  else
    let rel := s.resolvePath parent name
    if hasNul rel then s.fail .einval
    else
      match s.backing.rmdir os rel with
      | .error e => s.fail e
      | .ok b => ⟨{ s with backing := b, inodes := s.inodes.removeByPath rel }, .ok, none⟩

/-- The flags of a rename request are not looked at. -/
def rename (sid parent : ℕ) (name : Name) (newparent : ℕ) (newname : Name) (_flags : ℕ) : Out :=
  if isDibsIno parent ∨ isDibsIno newparent then s.fail .eacces
  else
    let oldRel := s.resolvePath parent name
    let newRel := s.resolvePath newparent newname
    if s.staleReceipt X os sid oldRel then ⟨s, .error .eio, some (.renameSource oldRel)⟩
    else if s.backing.pathExists newRel ∧ s.staleReceipt X os sid newRel then
      ⟨s, .error .eio, some (.renameDest newRel)⟩
    else if hasNul oldRel ∨ hasNul newRel then s.fail .einval
    else
      match s.backing.rename os oldRel newRel with
      | .error e => s.fail e
      | .ok b =>
        ⟨{ s with
            backing := b
            inodes := s.inodes.rename oldRel newRel
            casTable := s.casTable.rename oldRel newRel }, .ok, none⟩

def symlink (parent : ℕ) (linkName : Name) (target : Bytes) : Out :=
  if isDibsIno parent then s.fail .eacces
  else
    let rel := s.resolvePath parent linkName
    if target.contains 0 ∨ hasNul rel then s.fail .einval
    else
      match s.backing.symlink os target rel with
      | .error e => s.fail e
      | .ok b => replyEntry { s with backing := b } os rel

def readlink (ino : ℕ) : Out :=
  match s.inodes.getPath ino with
  | none => s.fail .enoent
  | some rel =>
    match s.backing.readLink os rel with
    | .ok target => ⟨s, .data target, none⟩
    | .error e => s.fail e

def access (ino : ℕ) : Out :=
  if isDibsIno ino ∨ ino = 1 then ⟨s, .ok, none⟩
  else
    match s.inodes.getPath ino with
    | none => s.fail .enoent
    | some rel =>
      if hasNul rel then s.fail .einval
      else
        match s.backing.access os rel with
        | .ok _ => ⟨s, .ok, none⟩
        | .error e => s.fail e

end DibsFs

end Dibs
