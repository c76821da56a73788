import Dibs.Fs.Step
import Dibs.State.Eviction

/-! The mount command (`src/main.rs`): a filesystem is made, the eviction thread is started on its CAS
    table, and the mount is tried, with a second filesystem after a failure that asks for it. Tables
    are shared through `Arc`s; an `Arc` is the number of a cell that holds a table, so that two
    holders of one number see each other's changes and holders of different numbers do not. Once
    mounted, `wait_for_shutdown` polls until the mount is to end; each iteration of its loop is a
    function of what the iteration observes. -/

namespace Dibs

inductive SessionACL where
  | all
  | owner
  deriving DecidableEq

/-- The mount options `main` sets. -/
inductive MountOption where
  | fsName (name : Bytes)
  | autoUnmount
  | defaultPermissions
  deriving DecidableEq

/-- `fuser::Config` -/
structure FuseConfig where
  mountOptions : List MountOption
  acl : SessionACL

/-- `fuse_config` at the first attempt. -/
def fuseConfig : FuseConfig where
  mountOptions := [.fsName [0x64, 0x69, 0x62, 0x73], .autoUnmount, .defaultPermissions]
  acl := .all

/-- What `main` looks at in the error of a mount attempt: `raw_os_error()`, and whether its text
    contains `allow_other`. -/
structure MountError where
  rawOsError : Option Errno
  mentionsAllowOther : Bool

/-- The failures after which the mount is tried again. -/
def MountError.retryable (e : MountError) : Bool :=
  e.rawOsError = some .eperm || e.mentionsAllowOther

/-- The fields of `DibsConfig` a mounted filesystem and the eviction thread use. -/
structure DibsConfig where
  backing : Backing
  sessionId : Bytes
  evictionMinutes : ℕ
  saveConflicts : Bool

/-- The process after a successful mount. -/
structure Daemon where
  /-- the tables behind the `Arc`s -/
  tables : ℕ → CasTable
  /-- the mounted filesystem; its table is the one behind `casTable` -/
  fs : DibsFs
  casTable : ℕ
  /-- the `Arc` that was moved into the eviction thread -/
  scanned : ℕ
  evictionMinutes : ℕ

inductive DaemonEvent where
  | serve (os : Os) (pid : ℕ) (req : Request)
  /-- a pass of the eviction thread, with no request being served -/
  | pass (now : Time)
  | outside (backing : Backing)

/-- The mount command from `DibsFs::new` on; `none` if it exits with an error. What `spawn_mount2`
    returns for a configuration is a parameter. -/
def mountCommand (config : DibsConfig) (os : Os) (spawnMount2 : FuseConfig → Except MountError Unit) :
    Option Daemon :=
  let dibsfs := DibsFs.mount config.backing os config.saveConflicts config.sessionId
  let casArc := 0
  match spawnMount2 fuseConfig with
  | .ok () => some ⟨fun _ => .new, dibsfs, casArc, casArc, config.evictionMinutes⟩
  | .error e =>
    if e.retryable then
      -- a second filesystem with tables of its own; the thread keeps the first table
      let retryDibsfs := DibsFs.mount dibsfs.backing os config.saveConflicts config.sessionId
      match spawnMount2 { fuseConfig with acl := .owner } with
      | .ok () => some ⟨fun _ => .new, retryDibsfs, casArc + 1, casArc, config.evictionMinutes⟩
      | .error _ => none
    else none

namespace Daemon
variable (X : Ext)

/-- The mounted filesystem with its table. -/
def mounted (d : Daemon) : DibsFs := { d.fs with casTable := d.tables d.casTable }

/-- The mounted filesystem changes, and its table behind the `Arc`. -/
def withMounted (d : Daemon) (s : DibsFs) : Daemon :=
  { d with fs := s, tables := Function.update d.tables d.casTable s.casTable }

def step (d : Daemon) : DaemonEvent → Daemon
  | .serve os pid req => d.withMounted (d.mounted.step X (.fuse os pid req))
  | .outside backing => d.withMounted (d.mounted.step X (.outside backing))
  | .pass now =>
    { d with
      tables := Function.update d.tables d.scanned
        (((d.tables d.scanned).evictOlderThan now (evictionSeconds d.evictionMinutes)).getD
          (d.tables d.scanned)) }

end Daemon

/-! ### Shutdown -/

inductive ShutdownAction where
  /-- Second signal — force unmount. -/
  | forceUnmount
  /-- FUSE session ended on its own, or first-signal probe unmount succeeded. -/
  | externalUnmount
  deriving DecidableEq, Repr

/-- What one iteration of `wait_for_shutdown` observes. -/
structure Observation where
  /-- `poll` reports a byte on the signal pipe, which the iteration consumes; else it timed out or
      was interrupted -/
  signal : Bool
  /-- what `guard.is_finished()` is -/
  isFinished : Bool
  /-- what `try_unmount` returns, if it is called -/
  tryUnmount : Bool
  deriving DecidableEq, Repr

/-- The variables of the loop; `poll_ticks` is a `u32`. -/
structure Waiting where
  firstSignalReceived : Bool := false
  pollTicks : ℕ := 0
  deriving DecidableEq, Repr

/-- The loop goes on, or has returned. -/
inductive Loop where
  | running (w : Waiting)
  | returned (a : ShutdownAction)
  deriving DecidableEq, Repr

/-- One iteration. -/
def Waiting.iteration (w : Waiting) (o : Observation) : Loop :=
  if o.signal then
    if w.firstSignalReceived then .returned .forceUnmount
    -- race with external unmount that happened just before the signal
    else if o.isFinished then .returned .externalUnmount
    else if o.tryUnmount then .returned .externalUnmount
    else .running { w with firstSignalReceived := true }
  else if o.isFinished then .returned .externalUnmount
  else if w.firstSignalReceived then
    let pollTicks := (w.pollTicks + 1) % 2 ^ 32
    if pollTicks % 5 = 0 ∧ o.tryUnmount then .returned .externalUnmount
    else .running { w with pollTicks := pollTicks }
  else .running w

def Loop.step : Loop → Observation → Loop
  | .running w, o => w.iteration o
  | .returned a, _ => .returned a

/-- `wait_for_shutdown` after the iterations with these observations. -/
def waitForShutdown (obs : List Observation) : Loop := Run.exec Loop.step (.running {}) obs

/-- What `main` does to the session and the mount in the end. -/
inductive ShutdownCall where
  | umountAndJoin
  | umountForced
  | join
  deriving DecidableEq, Repr

/-- The calls for an action; `umount_and_join` may fail. -/
def shutdownCalls (umountFails : Bool) : ShutdownAction → List ShutdownCall
  | .forceUnmount => if umountFails then [.umountAndJoin, .umountForced] else [.umountAndJoin]
  | .externalUnmount => [.join]

end Dibs
