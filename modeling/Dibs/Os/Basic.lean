import Mathlib

/-! What the daemon sees of the machine it runs on: byte strings, relative paths, error numbers, the
    `open(2)` flags, and the answers the operating system gives while one request is served (`Os`).
    Names are the single components the FUSE layer delivers, so a `PathBuf` relative to the backing
    root is the list of its components and the root itself is `[]`. -/

namespace Dibs

abbrev Bytes := List UInt8

/-- One path component, as raw bytes (`OsStr`). -/
abbrev Name := Bytes

/-- A path relative to the backing root (`PathBuf`). -/
abbrev Path := List Name

/-- Nanoseconds since the Unix epoch (`DateTime<Utc>`). -/
abbrev Time := ℤ

inductive Errno where
  | eperm | enoent | eio | ebadf | eacces | eexist | enotdir | eisdir | einval | emfile | enospc
  | eloop | enotempty | enotsup
  | other (code : ℕ)
  deriving DecidableEq, Repr

/-! ### Open flags (the values of the platform the repository builds on) -/

abbrev OpenFlags := BitVec 32

def O_RDONLY : OpenFlags := 0x0
def O_WRONLY : OpenFlags := 0x1
def O_RDWR : OpenFlags := 0x2
def O_ACCMODE : OpenFlags := 0x3
def O_APPEND : OpenFlags := 0x8
def O_CREAT : OpenFlags := 0x200
def O_TRUNC : OpenFlags := 0x400
def O_EXCL : OpenFlags := 0x800

/-- `flags & bit != 0` -/
def hasFlag (flags bit : OpenFlags) : Bool := flags &&& bit != 0

theorem hasFlag_or (flags bit f : OpenFlags) :
    hasFlag (flags ||| bit) f = (hasFlag flags f || hasFlag bit f) := by
  rw [Bool.eq_iff_iff]
  simp only [hasFlag, Bool.or_eq_true, bne_iff_ne, ne_eq, BitVec.and_or_distrib_right,
    BitVec.ofNat_eq_ofNat, BitVec.or_eq_zero_iff, not_and_or]

/-- `flags & libc::O_ACCMODE` -/
def accessMode (flags : OpenFlags) : OpenFlags := flags &&& O_ACCMODE

/-! ### Answers of the operating system -/

/-- The system calls that can fail on their own account. -/
inductive Syscall where
  | open_ | fstat | lstat | ftruncate | truncate | pwrite | pread | unlink | rename | mkdir | rmdir
  | symlink | chmod | chown | utimensat | chflags | opendir | dup | readDir | readlink | access
  deriving DecidableEq, Repr

/-- What the operating system answers while one request is served. Every choice that is the
    system's own (a failing call, an unreadable file, a short write, the number of a new descriptor
    or object, the clock) is read from here; what the calls do to the tree is in `Backing`. -/
structure Os where
  /-- A call fails with this error whatever its arguments are. -/
  fault : Syscall → Option Errno := fun _ => none
  /-- `hash_file` cannot read the file at this path. -/
  unreadable : Path → Bool := fun _ => false
  /-- The descriptor number the next `open` or `dup` would return. -/
  fd : ℕ := 3
  /-- The inode number the next object would get. -/
  ino : ℕ := 100
  /-- How many bytes of a `pwrite` reach the file at most. -/
  written : ℕ := 2 ^ 31
  /-- Whether `pwrite` on an `O_APPEND` descriptor goes to the end of the file. -/
  appendAtEnd : Bool := false
  /-- How many bytes `std::fs::write` stores (`none`: it cannot even open the file). -/
  saved : Option ℕ := some (2 ^ 31)
  /-- The order in which `read_dir` lists names. -/
  rank : Name → ℕ := fun _ => 0
  /-- How many directory entries fit in the reply. -/
  room : ℕ := 128
  /-- `getuid()` and `getgid()` of the daemon. -/
  uid : ℕ := 0
  gid : ℕ := 0
  /-- `getsid(pid)`, `none` for an error. -/
  getsid : ℕ → Option ℕ := fun pid => some pid
  now : Time := 0

/-- `get_sid`: the session of a process, the process number itself on error. -/
def getSid (os : Os) (pid : ℕ) : ℕ := (os.getsid pid).getD pid

/-! ### Lossy decoding of names -/

def isCont (b : UInt8) : Bool := 0x80 ≤ b && b ≤ 0xBF

/-- The range the second byte of a multi-byte UTF-8 sequence must lie in, by the first byte. -/
def secondRange (b : UInt8) : UInt8 × UInt8 :=
  if b = 0xE0 then (0xA0, 0xBF)
  else if b = 0xED then (0x80, 0x9F)
  else if b = 0xF0 then (0x90, 0xBF)
  else if b = 0xF4 then (0x80, 0x8F)
  else (0x80, 0xBF)

/-- Number of bytes of the sequence a first byte announces (`0`: not a first byte). -/
def seqLen (b : UInt8) : ℕ :=
  if b < 0x80 then 1
  else if 0xC2 ≤ b && b ≤ 0xDF then 2
  else if 0xE0 ≤ b && b ≤ 0xEF then 3
  else if 0xF0 ≤ b && b ≤ 0xF4 then 4
  else 0

/-- The next chunk of a byte string: whether it is a well-formed character, and its length. An
    ill-formed chunk is the longest proper beginning of a character, or a single byte. -/
def utf8Chunk : Bytes → Bool × ℕ
  | [] => (true, 0)
  | b :: rest =>
    match seqLen b with
    | 0 => (false, 1)
    | 1 => (true, 1)
    | n =>
      match rest with
      | [] => (false, 1)
      | c :: rest' =>
        if !((secondRange b).1 ≤ c && c ≤ (secondRange b).2) then (false, 1)
        else
          let k := min (n - 2) (rest'.takeWhile isCont).length
          (k == n - 2, 2 + k)

/-- U+FFFD in UTF-8. -/
def replacement : Bytes := [0xEF, 0xBF, 0xBD]

/-- `OsStr::to_string_lossy`: each ill-formed chunk becomes U+FFFD. The fuel is the length. -/
def lossyLoop : ℕ → Bytes → Bytes
  | 0, _ => []
  | _ + 1, [] => []
  | fuel + 1, b :: rest =>
    let c := utf8Chunk (b :: rest)
    (if c.1 then (b :: rest).take c.2 else replacement) ++ lossyLoop fuel ((b :: rest).drop c.2)

def toStringLossy (n : Name) : Name := lossyLoop n.length n

theorem utf8Chunk_pos (b : UInt8) (rest : Bytes) : 0 < (utf8Chunk (b :: rest)).2 := by
  rw [utf8Chunk]
  split
  · exact Nat.one_pos
  · exact Nat.one_pos
  · split
    · exact Nat.one_pos
    · split
      · exact Nat.one_pos
      · simp only; omega

/-- A decoded name without the first byte of U+FFFD is the name itself. -/
theorem lossyLoop_eq_self : ∀ (fuel : ℕ) (n : Bytes), n.length ≤ fuel → 0xEF ∉ lossyLoop fuel n →
    lossyLoop fuel n = n
  | 0, n, hlen, _ => by rw [lossyLoop, List.eq_nil_of_length_eq_zero (Nat.le_zero.mp hlen)]
  | _ + 1, [], _, _ => rfl
  | fuel + 1, b :: rest, hlen, h => by
    have hpos := utf8Chunk_pos b rest
    rw [lossyLoop] at h ⊢
    simp only [List.mem_append, not_or] at h ⊢
    obtain ⟨hhead, htail⟩ := h
    split at hhead
    · rename_i hwell
      have hdrop : ((b :: rest).drop (utf8Chunk (b :: rest)).2).length ≤ fuel := by
        rw [List.length_drop]
        omega
      rw [if_pos hwell, lossyLoop_eq_self fuel _ hdrop htail, List.take_append_drop]
    · exact absurd (by decide) hhead

theorem toStringLossy_eq_self {n m : Name} (h : toStringLossy n = m) (hm : 0xEF ∉ m) : n = m := by
  have hself := lossyLoop_eq_self n.length n (le_refl _) (by rw [← toStringLossy, h]; exact hm)
  rw [← h]
  exact hself.symm

end Dibs
