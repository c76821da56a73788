import Dibs.Lib.Run
import Dibs.Fs.Mod

/-! The mounted filesystem as a transition system: each step serves one FUSE request, or is one pass
    of the eviction thread, or is a change that another program makes to the backing directory. -/

namespace Dibs

inductive Request where
  | lookup (parent : ℕ) (name : Name)
  | getattr (ino : ℕ)
  | setattr (ino : ℕ) (args : DibsFs.SetattrArgs)
  | open_ (ino : ℕ) (flags : OpenFlags)
  | read (ino fh offset size : ℕ)
  | write (ino fh offset : ℕ) (data : Bytes)
  | flush (ino fh : ℕ)
  | release (ino fh : ℕ)
  | opendir (ino : ℕ)
  | readdir (ino offset : ℕ)
  | releasedir (fh : ℕ)
  | create (parent : ℕ) (name : Name) (mode : ℕ) (flags : OpenFlags)
  | mkdir (parent : ℕ) (name : Name) (mode : ℕ)
  | unlink (parent : ℕ) (name : Name)
  | rmdir (parent : ℕ) (name : Name)
  | rename (parent : ℕ) (name : Name) (newparent : ℕ) (newname : Name) (flags : ℕ)
  | symlink (parent : ℕ) (name : Name) (target : Bytes)
  | readlink (ino : ℕ)
  | link (ino newparent : ℕ) (newname : Name)
  | access (ino : ℕ)

/-- One event in the life of a mount. -/
inductive Call where
  /-- a request of the process `pid`, with the system's answers while it is served -/
  | fuse (os : Os) (pid : ℕ) (req : Request)
  /-- a pass of the eviction thread, with a window in seconds -/
  | evict (now : Time) (seconds : ℕ)
  /-- another program leaves the backing directory like this -/
  | outside (backing : Backing)

namespace DibsFs
variable (X : Ext)

/-- Serve one request of the session `sid`. -/
def handle (s : DibsFs) (os : Os) (sid : ℕ) : Request → Out
  | .lookup parent name => s.lookup X os parent name
  | .getattr ino => s.getattr X os ino
  | .setattr ino args => s.setattr X os ino args
  | .open_ ino flags => s.open_ X os sid ino flags
  | .read ino fh offset size => s.read X os ino fh offset size
  | .write ino fh offset data => s.write X os ino fh offset data
  | .flush ino fh => s.flush X os ino fh
  | .release _ fh => s.release fh
  | .opendir ino => s.opendir os ino
  | .readdir ino offset => s.readdir os ino offset
  | .releasedir fh => s.releasedir fh
  | .create parent name mode flags => s.create X os sid parent name mode flags
  | .mkdir parent name mode => s.mkdir os parent name mode
  | .unlink parent name => s.unlink X os sid parent name
  | .rmdir parent name => s.rmdir os parent name
  | .rename parent name newparent newname flags =>
    s.rename X os sid parent name newparent newname flags
  | .symlink parent name target => s.symlink os parent name target
  | .readlink ino => s.readlink os ino
  | .link _ _ _ => s.fail .enotsup
  | .access ino => s.access os ino

/-- What one event does; a pass that panics ends the eviction thread and changes nothing. -/
def out (s : DibsFs) : Call → Out
  | .fuse os pid req => s.handle X os (getSid os pid) req
  | .evict now seconds =>
    ⟨{ s with casTable := (s.casTable.evictOlderThan now seconds).getD s.casTable }, .ok, none⟩
  | .outside backing => ⟨{ s with backing := backing.withFdsOf s.backing }, .ok, none⟩

def step (s : DibsFs) (c : Call) : DibsFs := (s.out X c).st

/-- `DibsFs::new` and `init`: the conflict directory is made if it is wanted (errors are ignored),
    the tables are empty but for the root inode. -/
def mount (backing : Backing) (os : Os) (saveConflicts : Bool) (sessionId : Bytes) : DibsFs :=
  let backing :=
    if saveConflicts then
      match backing.mkdir os [CONFLICTS_DIR] 0o777 with
      | .ok b => b
      | .error _ => backing
    else backing
  { sessionId := sessionId
    startTime := os.now
    conflictDir := if saveConflicts then some [CONFLICTS_DIR] else none
    backing := backing
    inodes := InodeTable.new.insert 1 [] }

/-- The file handle a request carries. -/
def carries : Request → Option ℕ
  | .setattr _ args => args.fh
  | .read _ fh _ _ => some fh
  | .write _ fh _ _ => some fh
  | .flush _ fh => some fh
  | .release _ fh => some fh
  | _ => none

/-- The kernel only sends back handles that `open` or `create` returned. -/
def Issued (s : DibsFs) : Call → Prop
  | .fuse _ _ req => ∀ fh ∈ carries req, fh < s.fileHandles.nextFh
  | _ => True

instance (s : DibsFs) : ∀ c, Decidable (s.Issued c)
  | .fuse _ _ req => inferInstanceAs (Decidable (∀ fh ∈ carries req, fh < s.fileHandles.nextFh))
  | .evict _ _ => inferInstanceAs (Decidable True)
  | .outside _ => inferInstanceAs (Decidable True)

/-- States a mount over any backing directory reaches by any sequence of events. -/
inductive Reachable : DibsFs → Prop where
  | mount (backing : Backing) (os : Os) (saveConflicts : Bool) (sessionId : Bytes) :
      (∀ fd, backing.fds.get fd = none) → Reachable (mount backing os saveConflicts sessionId)
  | step {s : DibsFs} (c : Call) : Reachable s → s.Issued c → Reachable (s.step X c)

/-- An invariant of the mounted state that every event keeps holds in every reachable state. -/
theorem Reachable.inv {X : Ext} {I : DibsFs → Prop}
    (hmount : ∀ b os sc sid, (∀ fd, b.fds.get fd = none) → I (DibsFs.mount b os sc sid))
    (hstep : ∀ s c, I s → s.Issued c → I (s.step X c)) {s : DibsFs} (h : Reachable X s) :
    I s := by
  induction h with
  | mount b os sc sid hb => exact hmount b os sc sid hb
  | step c _ hc ih => exact hstep _ c ih hc

theorem Reachable.exec {X : Ext} {s : DibsFs} (hs : Reachable X s) {l : List Call}
    (hl : Run.Along (DibsFs.step X) Issued s l) : Reachable X (Run.exec (DibsFs.step X) s l) :=
  Run.exec_of_inv (fun _ c h hc => Reachable.step c h hc) l s hs hl

/-! ### A small mount for worked examples

A backing directory with one file `f`, inode 10, content `a`. Sessions 7 and 8 use it. -/

def fName : Name := [0x66]

def sampleBacking : Backing :=
  (({} : Backing).newObject [fName] .file { ino := 10 }).setData 1 [0x61]

/-- A backing directory with nothing in it. -/
def emptyBacking : Backing := {}

def sampleMount : DibsFs := mount sampleBacking {} false []

/-- Session 7 reads `f`; session 8 opens it, writes `b`, flushes and releases. -/
def staleMount : DibsFs := Run.exec (step sampleExt) sampleMount
  [.fuse {} 7 (.lookup 1 fName), .fuse {} 7 (.open_ 10 O_RDONLY),
    .fuse { fd := 4 } 8 (.open_ 10 O_WRONLY), .fuse {} 8 (.write 10 2 0 [0x62]),
    .fuse {} 8 (.flush 10 2), .fuse {} 8 (.release 10 2)]

theorem sampleMount_reachable : Reachable sampleExt sampleMount := .mount _ _ _ _ fun _ => rfl

theorem staleMount_reachable : Reachable sampleExt staleMount :=
  sampleMount_reachable.exec (by decide +kernel)

end DibsFs

end Dibs
