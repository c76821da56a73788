import Dibs.Main
import Dibs.Fs.Threads

/-! The process after a successful mount, its threads beside each other (`src/main.rs`,
    `src/state/eviction.rs`). `main` polls until the mount is to end, stops the eviction thread, waits
    for it, and ends the session. The eviction thread sleeps and works by turns, and loads the
    shutdown flag before each. The session serves requests all the while, call by call as in
    `Dibs.Fs.Threads`. Each event is one step of one thread: a load, a store, a sleep, the collecting
    of a pass, one of its removals, a call of a handler, an iteration of the poll loop. -/

namespace Dibs

/-- `check_interval`, in seconds. -/
def checkInterval : ℕ := 60

/-- `tick`, in seconds. -/
def tick : ℕ := 1

/-- What the eviction thread does next. -/
inductive EvictionPc where
  /-- the load in the condition of the outer loop -/
  | outer
  /-- the load in the body of the inner loop -/
  | inner (remaining : ℕ)
  | sleep (remaining : ℕ)
  /-- the load behind the inner loop -/
  | leave
  /-- `evict_older_than` begins: it takes its cutoff and collects -/
  | evict
  /-- its removals, and behind the last of them `retain` -/
  | remove (cutoff : Time) (toRemove : List Path)
  /-- the loop was left, or a pass has panicked -/
  | ended
  deriving DecidableEq, Repr

namespace EvictionPc

/-- The condition of the inner loop. -/
def innerLoop (remaining : ℕ) : EvictionPc := if 0 < remaining then .inner remaining else .leave

/-- A step of the thread: the table it leaves, and what it does next. -/
def step (shutdown : Bool) (now : Time) (minutes : ℕ) (t : CasTable) :
    EvictionPc → CasTable × EvictionPc
  | .outer => (t, if shutdown then .ended else innerLoop checkInterval)
  | .inner remaining => (t, if shutdown then .leave else .sleep remaining)
  | .sleep remaining => (t, innerLoop (remaining - min remaining tick))
  | .leave => (t, if shutdown then .ended else .evict)
  | .evict =>
    let cutoff := now - CasTable.chronoFromStd (evictionSeconds minutes)
    -- the subtraction panics
    if cutoff < CasTable.dateMin then (t, .ended)
    else (t, .remove cutoff (Evicting.collected t cutoff))
  | .remove cutoff (path :: toRemove) =>
    ({ t with entries := t.entries.remove path }, .remove cutoff toRemove)
  | .remove cutoff [] =>
    ({ t with readerHashes := t.readerHashes.retain fun _ v => cutoff ≤ v.lastAccess }, .outer)
  | .ended => (t, .ended)

/-- The next step removes an entry. -/
def removing : EvictionPc → Bool
  | .remove _ (_ :: _) => true
  | _ => false

end EvictionPc

/-- What `main` does next. -/
inductive MainPc where
  | poll (w : Waiting)
  | store (a : ShutdownAction)
  | join (a : ShutdownAction)
  | close (a : ShutdownAction)
  | done
  deriving DecidableEq, Repr

structure Process where
  daemon : Daemon
  /-- the handlers in flight -/
  handlers : FinMap ℕ Pc := .empty
  main : MainPc := .poll {}
  shutdown : Bool := false
  eviction : EvictionPc := .outer

inductive ProcessEvent where
  /-- a thread of the session takes a request, or makes the next call of its handler -/
  | session (e : ThreadEvent)
  | outside (backing : Backing)
  /-- an iteration of `wait_for_shutdown` -/
  | poll (o : Observation)
  /-- a step of `main` behind it; `umount_and_join` may fail -/
  | main (umountFails : Bool)
  /-- a step of the eviction thread at this time -/
  | eviction (now : Time)

/-- What a step does that others could notice. -/
inductive Act where
  | slept (seconds : ℕ)
  /-- a pass begins -/
  | evicted
  | polled (o : Observation)
  | stored
  | joined
  | closed (calls : List ShutdownCall)
  deriving DecidableEq, Repr

namespace Process
variable (X : Ext)

/-- The mounted filesystem with the handlers in flight. -/
def threads (p : Process) : Threads := ⟨p.daemon.mounted, p.handlers⟩

def withThreads (p : Process) (t : Threads) : Process :=
  { p with daemon := p.daemon.withMounted t.fs, handlers := t.pcs }

/-- A step of the eviction thread, with the table it was given. -/
def evictionStep (p : Process) (now : Time) : CasTable × EvictionPc :=
  p.eviction.step p.shutdown now p.daemon.evictionMinutes (p.daemon.tables p.daemon.scanned)

def step (p : Process) : ProcessEvent → Process
  | .session e =>
    -- the process has left its session
    if p.main = .done then p else p.withThreads (p.threads.step X e)
  | .outside backing => { p with daemon := p.daemon.step X (.outside backing) }
  | .poll o =>
    match p.main with
    | .poll w =>
      match w.iteration o with
      | .running w' => { p with main := .poll w' }
      | .returned a => { p with main := .store a }
    | _ => p
  | .main _ =>
    match p.main with
    | .store a => { p with main := .join a, shutdown := true }
    -- blocks until the thread has ended
    | .join a => if p.eviction = .ended then { p with main := .close a } else p
    | .close _ => { p with main := .done }
    | _ => p
  | .eviction now =>
    let r := p.evictionStep now
    { p with
      daemon := { p.daemon with
        tables := Function.update p.daemon.tables p.daemon.scanned r.1 }
      eviction := r.2 }

def act (p : Process) : ProcessEvent → Option Act
  | .poll o =>
    match p.main with
    | .poll _ => some (.polled o)
    | _ => none
  | .main umountFails =>
    match p.main with
    | .store _ => some .stored
    | .join _ => if p.eviction = .ended then some .joined else none
    | .close a => some (.closed (shutdownCalls umountFails a))
    | _ => none
  | .eviction _ =>
    match p.eviction with
    | .sleep remaining => some (.slept (min remaining tick))
    | .evict => some .evicted
    | _ => none
  | _ => none

/-- One event of a process whose acts are written down. -/
def traced (w : Process × List Act) (e : ProcessEvent) : Process × List Act :=
  (w.1.step X e, w.2 ++ (w.1.act e).toList)

end Process

end Dibs
