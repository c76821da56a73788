import Dibs.Main

/-! The two phases of a shutdown. Every iteration of `wait_for_shutdown` asks whether the FUSE session
    has finished, except one: the iteration that consumes the second signal returns `ForceUnmount` at
    once. So what the loop promises holds of every sequence of observations but those in which the
    session finishes while the loop waits and the second signal is the first to notice (`LateSignal`).

        idle*   busy signal   idle*, probes fail     second signal
        ─────▶  ───────────▶  ─────────────────▶     ForceUnmount -/

namespace Dibs

/-- The iteration calls `try_unmount`. -/
def Waiting.probes (w : Waiting) (o : Observation) : Bool :=
  !o.isFinished && (if o.signal then !w.firstSignalReceived
    else w.firstSignalReceived && (w.pollTicks + 1) % 2 ^ 32 % 5 == 0)

/-- The loop, still running after `pre`, returns `a` in the iteration that observes `o`. -/
structure ReturnsAt (pre : List Observation) (w : Waiting) (o : Observation) (a : ShutdownAction) :
    Prop where
  before : waitForShutdown pre = .running w
  after : waitForShutdown (pre ++ [o]) = .returned a

/-- What the loop promises on a sequence of observations. -/
structure TwoPhase (obs : List Observation) : Prop where
  /-- the second consumed signal, after the probe at the first one failed, and the session is there -/
  force : ∀ pre w o, pre ++ [o] <+: obs → ReturnsAt pre w o .forceUnmount →
    o.signal = true ∧ (∃ s, pre.filter (·.signal) = [s] ∧ s.tryUnmount = false) ∧
      o.isFinished = false
  external : ∀ pre w o, pre ++ [o] <+: obs → ReturnsAt pre w o .externalUnmount →
    o.isFinished = true ∨ (w.probes o = true ∧ o.tryUnmount = true)
  stops : ∀ pre, pre <+: obs → 2 ≤ (pre.filter (·.signal)).length →
    ∃ a, waitForShutdown pre = .returned a
  ended : ∀ pre w o a fails, pre ++ [o] <+: obs → ReturnsAt pre w o a → o.isFinished = true →
    shutdownCalls fails a = [.join]

/-- A timeout in which the session is still there. -/
def Observation.idle (o : Observation) : Bool := !o.signal && !o.isFinished

/-- A signal at which the session is still there and the probe fails. -/
def Observation.busySignal (o : Observation) : Bool := o.signal && !o.isFinished && !o.tryUnmount

/-- The mount is busy at the first signal of `pre` and for `n` timeouts after it: no probe succeeds,
    the session does not finish and no second signal comes. -/
def BusyFor (pre : List Observation) (n : ℕ) : Prop :=
  ∃ l s m, pre = l ++ s :: m ∧ m.length = n ∧ (∀ x ∈ l, x.idle = true) ∧ s.busySignal = true ∧
    (∀ x ∈ m, x.idle = true) ∧
    ∀ i x, m[i]? = some x → (i + 1) % 2 ^ 32 % 5 = 0 → x.tryUnmount = false

/-- The second signal is consumed in an iteration in which the session has finished already. -/
def LateSignal (obs : List Observation) : Prop :=
  ∃ pre o n, pre ++ [o] <+: obs ∧ BusyFor pre n ∧ o.signal = true ∧ o.isFinished = true

/-! ### One iteration -/

/-- Outcomes of an iteration. -/
inductive IterationOut (w : Waiting) (o : Observation) : Loop → Prop where
  | forced : o.signal = true → w.firstSignalReceived = true → IterationOut w o (.returned .forceUnmount)
  | ended : o.isFinished = true ∨ (w.probes o = true ∧ o.tryUnmount = true) →
      IterationOut w o (.returned .externalUnmount)
  | warned : o.busySignal = true → w.firstSignalReceived = false →
      IterationOut w o (.running { w with firstSignalReceived := true })
  | ticked : o.idle = true → w.firstSignalReceived = true →
      ((w.pollTicks + 1) % 2 ^ 32 % 5 = 0 → o.tryUnmount = false) →
      IterationOut w o (.running { w with pollTicks := (w.pollTicks + 1) % 2 ^ 32 })
  | idled : o.idle = true → w.firstSignalReceived = false → IterationOut w o (.running w)

theorem iteration_out (w : Waiting) (o : Observation) : IterationOut w o (w.iteration o) := by
  rw [Waiting.iteration]
  split
  · rename_i hs
    split
    · rename_i hf; exact .forced hs hf
    · rename_i hf
      split
      · rename_i hfin; exact .ended (Or.inl hfin)
      · rename_i hfin
        split
        · rename_i hu
          exact .ended (Or.inr ⟨by simp [Waiting.probes, hs, hf, hfin], hu⟩)
        · rename_i hu
          exact .warned (by simp [Observation.busySignal, hs, hfin, hu]) (by simpa using hf)
  · rename_i hs
    split
    · rename_i hfin; exact .ended (Or.inl hfin)
    · rename_i hfin
      have hidle : o.idle = true := by simp [Observation.idle, hs, hfin]
      split
      · rename_i hf
        simp only
        split
        · rename_i hu
          exact .ended (Or.inr ⟨by simpa [Waiting.probes, hs, hf, hfin] using hu.1, hu.2⟩)
        · rename_i hu
          refine .ticked hidle hf fun hfive => ?_
          by_contra hne
          exact hu ⟨hfive, by simpa using hne⟩
      · rename_i hf; exact .idled hidle (by simpa using hf)

theorem waitForShutdown_concat (pre : List Observation) (o : Observation) :
    waitForShutdown (pre ++ [o]) = (waitForShutdown pre).step o := by
  rw [waitForShutdown, Run.exec_append]
  rfl

/-- A loop that runs after an iteration ran before it. -/
theorem running_concat {pre : List Observation} {o : Observation} {w : Waiting}
    (h : waitForShutdown (pre ++ [o]) = .running w) :
    ∃ w₀, waitForShutdown pre = .running w₀ ∧ IterationOut w₀ o (.running w) := by
  rw [waitForShutdown_concat] at h
  cases hpre : waitForShutdown pre with
  | returned a => rw [hpre] at h; cases h
  | running w₀ =>
    rw [hpre] at h
    have hout := iteration_out w₀ o
    rw [show w₀.iteration o = .running w from h] at hout
    exact ⟨w₀, rfl, hout⟩

/-! ### A run of the loop -/

theorem BusyFor.concat {pre : List Observation} {n : ℕ} {o : Observation} (h : BusyFor pre n)
    (ho : o.idle = true) (hprobe : (n + 1) % 2 ^ 32 % 5 = 0 → o.tryUnmount = false) :
    BusyFor (pre ++ [o]) (n + 1) := by
  obtain ⟨l, s, m, rfl, rfl, hl, hs, hm, hfive⟩ := h
  refine ⟨l, s, m ++ [o], by simp, by simp, hl, hs, ?_, ?_⟩
  · intro x hx
    rcases List.mem_append.mp hx with hx | hx
    · exact hm x hx
    · rw [List.mem_singleton.mp hx]; exact ho
  · intro i x hx hi
    rcases Nat.lt_trichotomy i m.length with hlt | rfl | hgt
    · rw [List.getElem?_append_left hlt] at hx
      exact hfive i x hx hi
    · rw [List.getElem?_concat_length] at hx
      rw [← Option.some.inj hx]
      exact hprobe hi
    · rw [List.getElem?_eq_none (by simp; omega)] at hx
      cases hx

/-- INVARIANT: what was observed if the loop is still running. -/
theorem running_cases (pre : List Observation) : ∀ w, waitForShutdown pre = .running w →
    (w = {} ∧ ∀ x ∈ pre, x.idle = true) ∨ ∃ n, w = ⟨true, n % 2 ^ 32⟩ ∧ BusyFor pre n := by
  induction pre using List.reverseRecOn with
  | nil =>
    intro w h
    cases h
    exact Or.inl ⟨rfl, fun x hx => absurd hx List.not_mem_nil⟩
  | append_singleton pre o ih =>
    intro w h
    obtain ⟨w₀, hpre, hout⟩ := running_concat h
    rcases ih w₀ hpre with ⟨rfl, hidle⟩ | ⟨n, rfl, hbusy⟩
    · cases hout with
      | warned hs _ =>
        exact Or.inr ⟨0, rfl, pre, o, [], rfl, rfl, hidle, hs, by simp, by simp⟩
      | ticked _ hf _ => cases hf
      | idled ho _ =>
        refine Or.inl ⟨rfl, fun x hx => ?_⟩
        rcases List.mem_append.mp hx with hx | hx
        · exact hidle x hx
        · rw [List.mem_singleton.mp hx]; exact ho
    · cases hout with
      | warned _ hf => cases hf
      | ticked ho _ hprobe =>
        rw [Nat.mod_add_mod] at hprobe
        exact Or.inr ⟨n + 1, by simp, hbusy.concat ho hprobe⟩
      | idled _ hf => cases hf

/-- Idle iterations before the first signal change nothing. -/
theorem waitForShutdown_idle (l : List Observation) (h : ∀ x ∈ l, x.idle = true) :
    waitForShutdown l = .running {} := by
  induction l using List.reverseRecOn with
  | nil => rfl
  | append_singleton l o ih =>
    rw [waitForShutdown_concat, ih fun x hx => h x (List.mem_append_left _ hx)]
    have ho := h o (List.mem_append_right _ (List.mem_singleton_self o))
    simp only [Observation.idle, Bool.and_eq_true, Bool.not_eq_true'] at ho
    simp [Loop.step, Waiting.iteration, ho]

/-- A mount that stays busy keeps the loop waiting for the second signal. -/
theorem waitForShutdown_busy {pre : List Observation} {n : ℕ} (h : BusyFor pre n) :
    waitForShutdown pre = .running ⟨true, n % 2 ^ 32⟩ := by
  obtain ⟨l, s, m, rfl, rfl, hl, hs, hm, hfive⟩ := h
  induction m using List.reverseRecOn with
  | nil =>
    simp only [Observation.busySignal, Bool.and_eq_true, Bool.not_eq_true'] at hs
    rw [waitForShutdown_concat, waitForShutdown_idle l hl]
    simp [Loop.step, Waiting.iteration, hs]
  | append_singleton m o ih =>
    have ho := hm o (List.mem_append_right _ (List.mem_singleton_self o))
    simp only [Observation.idle, Bool.and_eq_true, Bool.not_eq_true'] at ho
    have hprobe := hfive m.length o List.getElem?_concat_length
    rw [← List.cons_append, ← List.append_assoc, waitForShutdown_concat, ih ?_ ?_]
    · simp only [Loop.step, Waiting.iteration, ho, Bool.false_eq_true, if_false, if_true,
        Nat.mod_add_mod]
      rw [if_neg]
      · simp
      · rintro ⟨hm5, hu⟩
        rw [hprobe hm5] at hu
        cases hu
    · exact fun x hx => hm x (List.mem_append_left _ hx)
    · intro i x hx
      refine hfive i x ?_
      rw [List.getElem?_append_left, hx]
      exact (List.getElem?_eq_some_iff.mp hx).1

theorem filter_signal_idle {l : List Observation} (h : ∀ x ∈ l, x.idle = true) :
    l.filter (·.signal) = [] := by
  rw [List.filter_eq_nil_iff]
  intro x hx hs
  have hidle := h x hx
  simp [Observation.idle, hs] at hidle

/-- Up to now the signal at which the mount was busy is the only one. -/
theorem BusyFor.signals {pre : List Observation} {n : ℕ} (h : BusyFor pre n) :
    ∃ s, pre.filter (·.signal) = [s] ∧ s.tryUnmount = false := by
  obtain ⟨l, s, m, rfl, -, hl, hs, hm, -⟩ := h
  simp only [Observation.busySignal, Bool.and_eq_true, Bool.not_eq_true'] at hs
  refine ⟨s, ?_, hs.2⟩
  rw [List.filter_append, List.filter_cons_of_pos hs.1.1, filter_signal_idle hl,
    filter_signal_idle hm]
  rfl

theorem ReturnsAt.out {pre : List Observation} {w : Waiting} {o : Observation} {a : ShutdownAction}
    (h : ReturnsAt pre w o a) : IterationOut w o (.returned a) := by
  have hout := iteration_out w o
  have hafter := h.after
  rw [waitForShutdown_concat, h.before] at hafter
  rwa [show w.iteration o = .returned a from hafter] at hout

/-- The loop returns `ForceUnmount` only after it waited on a busy mount. -/
theorem ReturnsAt.forced {pre : List Observation} {w : Waiting} {o : Observation}
    (h : ReturnsAt pre w o .forceUnmount) : o.signal = true ∧ ∃ n, BusyFor pre n := by
  cases h.out with
  | forced hs hf =>
    rcases running_cases pre w h.before with ⟨rfl, -⟩ | ⟨n, -, hbusy⟩
    · cases hf
    · exact ⟨hs, n, hbusy⟩

/-- CORRECT (exact): the loop keeps its promises on a sequence of observations unless the second
    signal comes when the session has finished. -/
theorem twoPhase_iff (obs : List Observation) : TwoPhase obs ↔ ¬ LateSignal obs := by
  constructor
  · rintro h ⟨pre, o, n, hpre, hbusy, hs, hfin⟩
    have hafter : waitForShutdown (pre ++ [o]) = .returned .forceUnmount := by
      rw [waitForShutdown_concat, waitForShutdown_busy hbusy]
      simp [Loop.step, Waiting.iteration, hs]
    have hforce := h.force pre _ o hpre ⟨waitForShutdown_busy hbusy, hafter⟩
    rw [hfin] at hforce
    cases hforce.2.2
  · intro hlate
    have hforced : ∀ pre w o, pre ++ [o] <+: obs → ReturnsAt pre w o .forceUnmount →
        o.isFinished = false := by
      intro pre w o hpre hret
      obtain ⟨hs, n, hbusy⟩ := hret.forced
      by_contra hfin
      exact hlate ⟨pre, o, n, hpre, hbusy, hs, by simpa using hfin⟩
    refine ⟨fun pre w o hpre hret => ?_, fun pre w o _ hret => ?_, fun pre _ htwo => ?_,
      fun pre w o a fails hpre hret hfin => ?_⟩
    · obtain ⟨hs, n, hbusy⟩ := hret.forced
      exact ⟨hs, hbusy.signals, hforced pre w o hpre hret⟩
    · cases hret.out with
      | ended h => exact h
    · cases hw : waitForShutdown pre with
      | returned a => exact ⟨a, rfl⟩
      | running w =>
        rcases running_cases pre w hw with ⟨-, hidle⟩ | ⟨n, -, hbusy⟩
        · rw [filter_signal_idle hidle] at htwo; cases htwo
        · obtain ⟨s, hone, -⟩ := hbusy.signals
          rw [hone] at htwo
          simp at htwo
    · cases a with
      | externalUnmount => rfl
      | forceUnmount => rw [hforced pre w o hpre hret] at hfin; cases hfin

/-- Ctrl-C on a busy mount; the mount is then unmounted from outside, and before the next poll times
    out the user presses ctrl-C again: the session that has ended is force-unmounted. -/
theorem late_signal_forces : ¬ TwoPhase [⟨true, false, false⟩, ⟨true, true, false⟩] := by
  intro h
  have hforce := h.force [⟨true, false, false⟩] ⟨true, 0⟩ ⟨true, true, false⟩ (by simp) ⟨rfl, rfl⟩
  cases hforce.2.2

end Dibs
