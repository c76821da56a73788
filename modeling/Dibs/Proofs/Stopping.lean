import Dibs.Process
import Dibs.Proofs.Shutdown

/-! How the eviction thread works and how it is stopped, in every order of the threads' steps. It goes
    in rounds of sixty one-second sleeps and one pass, and no pass comes early. Once the flag is set it
    begins at most one more of these, and ends within three steps of its own and the removals of the
    pass it is in; `main` makes its closing calls only when it has (`eviction_orderly`).

        eviction   sleep × 60 · pass · sleep × 60 · pass · sleep …  │ ≤ 1 │
        main       poll · poll · … · poll                         store   join · close -/

namespace Dibs

/-- An act of the eviction thread. -/
def Act.byEviction : Act → Bool
  | .slept _ => true
  | .evicted => true
  | _ => false

/-- The acts of the eviction thread. -/
def evictionActs (l : List Act) : List Act := l.filter Act.byEviction

/-- The acts of `main`. -/
def mainActs (l : List Act) : List Act := l.filter fun x => !x.byEviction

/-- How often the eviction thread acts behind the first `x`. -/
def actsSince (x : Act) (l : List Act) : ℕ := (l.dropWhile (· ≠ x)).countP Act.byEviction

/-- The order of the acts of a process. -/
structure Orderly (l : List Act) : Prop where
  /-- rounds of sixty sleeps and a pass -/
  rounds : ∀ i x, (evictionActs l)[i]? = some x →
    x = if i % (checkInterval + 1) = checkInterval then .evicted else .slept tick
  /-- `main` polls until `wait_for_shutdown` returns, then stores, joins and closes -/
  main : ∃ obs tail, mainActs l = obs.map .polled ++ tail ∧
    (tail = [] ∨ ∃ a umountFails, waitForShutdown obs = .returned a ∧
      tail <+: [.stored, .joined, .closed (shutdownCalls umountFails a)])
  /-- at most one sleep or pass is begun once the flag is set -/
  stopped : actsSince .stored l ≤ 1
  /-- none once `main` has joined the thread -/
  joined : actsSince .joined l = 0

/-! ### The invariant -/

/-- How many acts the thread has left once the flag is set. -/
def EvictionPc.actsLeft : EvictionPc → ℕ
  | .sleep _ => 1
  | .evict => 1
  | _ => 0

/-- Where in a round the thread is after `n` acts. -/
def EvictionPc.At (shutdown : Bool) (n : ℕ) : EvictionPc → Prop
  | .outer => n % (checkInterval + 1) = 0
  | .inner remaining => 0 < remaining ∧ n % (checkInterval + 1) + remaining = checkInterval
  | .sleep remaining => 0 < remaining ∧ n % (checkInterval + 1) + remaining = checkInterval
  | .leave => shutdown = true ∨ n % (checkInterval + 1) = checkInterval
  | .evict => n % (checkInterval + 1) = checkInterval
  | .remove _ _ => n % (checkInterval + 1) = 0
  | .ended => True

/-- The acts of `main` that are behind it. -/
def MainPc.Behind (l : List Act) : MainPc → Prop
  | .poll w => ∃ obs, l = obs.map .polled ∧ waitForShutdown obs = .running w
  | .store a => ∃ obs, l = obs.map .polled ∧ waitForShutdown obs = .returned a
  | .join a => ∃ obs, l = obs.map .polled ++ [.stored] ∧ waitForShutdown obs = .returned a
  | .close a => ∃ obs, l = obs.map .polled ++ [.stored, .joined] ∧ waitForShutdown obs = .returned a
  | .done => ∃ obs a umountFails, waitForShutdown obs = .returned a ∧
      l = obs.map .polled ++ [.stored, .joined, .closed (shutdownCalls umountFails a)]

/-- `main` has set the flag. -/
def MainPc.hasStored : MainPc → Bool
  | .poll _ => false
  | .store _ => false
  | _ => true

/-- `main` has joined the eviction thread. -/
def MainPc.hasJoined : MainPc → Bool
  | .close _ => true
  | .done => true
  | _ => false

structure Stopping (m : MainPc) (shutdown : Bool) (e : EvictionPc) (l : List Act) : Prop where
  rounds : ∀ i x, (evictionActs l)[i]? = some x →
    x = if i % (checkInterval + 1) = checkInterval then .evicted else .slept tick
  at_ : e.At shutdown (evictionActs l).length
  behind : m.Behind (mainActs l)
  flag : shutdown = m.hasStored
  stopped : actsSince .stored l + (if shutdown then e.actsLeft else 0) ≤ 1
  joined : actsSince .joined l = 0
  ended : m.hasJoined = true → e = .ended

variable {m : MainPc} {shutdown : Bool} {e : EvictionPc} {l : List Act} {x : Act}

theorem evictionActs_concat (l : List Act) (x : Act) :
    evictionActs (l ++ [x]) = evictionActs l ++ if x.byEviction then [x] else [] := by
  rw [evictionActs, List.filter_append, List.filter_singleton]
  cases x.byEviction <;> rfl

theorem mainActs_concat (l : List Act) (x : Act) :
    mainActs (l ++ [x]) = mainActs l ++ if x.byEviction then [] else [x] := by
  rw [mainActs, List.filter_append, List.filter_singleton]
  cases x.byEviction <;> rfl

theorem actsSince_concat (hx : x.byEviction = false) (l : List Act) (y : Act) :
    actsSince x (l ++ [y]) = actsSince x l + if x ∈ l ∧ y.byEviction = true then 1 else 0 := by
  have hempty : (l.dropWhile (· ≠ x)).isEmpty = true ↔ x ∉ l := by
    rw [List.isEmpty_iff, List.dropWhile_eq_nil_iff]
    constructor
    · exact fun hall hmem => of_decide_eq_true (hall x hmem) rfl
    · exact fun hmem y hy => decide_eq_true fun hxy => hmem (hxy ▸ hy)
  rw [actsSince, List.dropWhile_append]
  by_cases hmem : x ∈ l
  · rw [if_neg (fun h => hempty.mp h hmem), List.countP_append, List.countP_singleton]
    simp only [hmem, true_and]
    rfl
  · rw [if_pos (hempty.mpr hmem), actsSince, List.isEmpty_iff.mp (hempty.mpr hmem)]
    simp only [hmem, false_and, if_false]
    by_cases hy : y = x
    · subst hy
      rw [List.dropWhile_cons_of_neg (by simp), List.countP_singleton, hx]
      rfl
    · rw [List.dropWhile_cons_of_pos (by simpa using hy)]
      rfl

theorem actsSince_of_notMem (h : x ∉ l) : actsSince x l = 0 := by
  have hdrop : l.dropWhile (· ≠ x) = [] :=
    List.dropWhile_eq_nil_iff.mpr fun y hy => decide_eq_true fun hxy => h (hxy ▸ hy)
  rw [actsSince, hdrop]
  rfl

/-- An act of `main` is none of the thread's. -/
theorem actsSince_main (hx : x.byEviction = false) {y : Act} (hy : y.byEviction = false) :
    actsSince x (l ++ [y]) = actsSince x l := by
  rw [actsSince_concat hx, if_neg (by simp [hy])]
  rfl

theorem mem_mainActs (hx : x.byEviction = false) : x ∈ mainActs l ↔ x ∈ l := by
  simp [mainActs, hx]

theorem MainPc.Behind.stored (h : m.Behind (mainActs l)) :
    Act.stored ∈ l ↔ m.hasStored = true := by
  rw [← mem_mainActs rfl]
  cases m with
  | poll w => obtain ⟨obs, hl, -⟩ := h; simp [hl, hasStored]
  | store a => obtain ⟨obs, hl, -⟩ := h; simp [hl, hasStored]
  | join a => obtain ⟨obs, hl, -⟩ := h; simp [hl, hasStored]
  | close a => obtain ⟨obs, hl, -⟩ := h; simp [hl, hasStored]
  | done => obtain ⟨obs, a, _, -, hl⟩ := h; simp [hl, hasStored]

theorem MainPc.Behind.joined (h : m.Behind (mainActs l)) :
    Act.joined ∈ l ↔ m.hasJoined = true := by
  rw [← mem_mainActs rfl]
  cases m with
  | poll w => obtain ⟨obs, hl, -⟩ := h; simp [hl, hasJoined]
  | store a => obtain ⟨obs, hl, -⟩ := h; simp [hl, hasJoined]
  | join a => obtain ⟨obs, hl, -⟩ := h; simp [hl, hasJoined]
  | close a => obtain ⟨obs, hl, -⟩ := h; simp [hl, hasJoined]
  | done => obtain ⟨obs, a, _, -, hl⟩ := h; simp [hl, hasJoined]

theorem EvictionPc.actsLeft_le (e : EvictionPc) : e.actsLeft ≤ 1 := by
  cases e with
  | sleep remaining => exact le_rfl
  | evict => exact le_rfl
  | _ => exact Nat.zero_le _

theorem EvictionPc.At.mono {n : ℕ} (h : e.At shutdown n) {f : Bool}
    (hf : shutdown = true → f = true) : e.At f n := by
  cases e with
  | leave => exact h.imp_left hf
  | _ => exact h

theorem innerLoop_at {n remaining : ℕ} (h : n % (checkInterval + 1) + remaining = checkInterval) :
    (EvictionPc.innerLoop remaining).At shutdown n := by
  rw [EvictionPc.innerLoop]
  split
  · rename_i hpos; exact ⟨hpos, h⟩
  · rename_i hpos; exact Or.inr (by omega)

theorem innerLoop_actsLeft (remaining : ℕ) : (EvictionPc.innerLoop remaining).actsLeft = 0 := by
  rw [EvictionPc.innerLoop]
  split <;> rfl

/-! ### One step -/

/-- STEP: `main` acts. -/
theorem Stopping.main_acts (h : Stopping m shutdown e l) (m' : MainPc) (hx : x.byEviction = false)
    (hbehind : m'.Behind (mainActs l ++ [x])) {f : Bool} (hf : f = m'.hasStored)
    (hkeep : m.hasStored = true → m'.hasStored = true)
    (hended : m'.hasJoined = true → e = .ended) : Stopping m' f e (l ++ [x]) := by
  subst hf
  have heviction : evictionActs (l ++ [x]) = evictionActs l := by
    rw [evictionActs_concat, hx]
    exact List.append_nil _
  have hmain : mainActs (l ++ [x]) = mainActs l ++ [x] := by
    rw [mainActs_concat, hx]
    rfl
  refine ⟨?_, ?_, ?_, rfl, ?_, ?_, hended⟩
  · rw [heviction]; exact h.rounds
  · rw [heviction]; exact h.at_.mono fun hf => hkeep (h.flag ▸ hf)
  · rw [hmain]; exact hbehind
  · rw [actsSince_main rfl hx]
    have hstopped := h.stopped
    rw [h.flag] at hstopped
    cases hm : m.hasStored with
    | true =>
      rw [hm] at hstopped
      rwa [hkeep hm]
    | false =>
      have hnone : actsSince .stored l = 0 := actsSince_of_notMem fun hmem => by
        rw [h.behind.stored, hm] at hmem; cases hmem
      rw [hnone]
      split
      · exact (Nat.zero_add _).trans_le e.actsLeft_le
      · exact Nat.zero_le _
  · rw [actsSince_main rfl hx]; exact h.joined

/-- STEP: the eviction thread takes a step that is no act. -/
theorem Stopping.eviction_looks (h : Stopping m shutdown e l) {e' : EvictionPc}
    (hat : e'.At shutdown (evictionActs l).length)
    (hleft : shutdown = true → e'.actsLeft = 0) (hended : e = .ended → e' = .ended) :
    Stopping m shutdown e' l := by
  refine { h with at_ := hat, stopped := ?_, ended := fun hm => hended (h.ended hm) }
  have hstopped := h.stopped
  split
  · rename_i hf; rw [hleft hf]; omega
  · omega

/-- STEP: the eviction thread acts. -/
theorem Stopping.eviction_acts (h : Stopping m shutdown e l) {e' : EvictionPc}
    (hx : x.byEviction = true)
    (hround : x = if (evictionActs l).length % (checkInterval + 1) = checkInterval
      then .evicted else .slept tick)
    (hat : e'.At shutdown ((evictionActs l).length + 1)) (hleft : e.actsLeft = 1)
    (hleft' : e'.actsLeft = 0) : Stopping m shutdown e' (l ++ [x]) := by
  have heviction : evictionActs (l ++ [x]) = evictionActs l ++ [x] := by
    rw [evictionActs_concat, hx]
    rfl
  have hmain : mainActs (l ++ [x]) = mainActs l := by
    rw [mainActs_concat, hx]
    exact List.append_nil _
  -- a thread that acts has not ended, so `main` has not joined it
  have hjoined : m.hasJoined = false := by
    cases hm : m.hasJoined with
    | false => rfl
    | true => rw [h.ended hm] at hleft; cases hleft
  refine ⟨?_, ?_, ?_, h.flag, ?_, ?_, ?_⟩
  · intro i y hy
    rw [heviction] at hy
    rcases Nat.lt_or_ge i (evictionActs l).length with hi | hi
    · rw [List.getElem?_append_left hi] at hy
      exact h.rounds i y hy
    · rw [List.getElem?_append_right hi, List.getElem?_singleton] at hy
      split at hy
      · rename_i hzero
        obtain rfl : i = (evictionActs l).length := by omega
        rw [← Option.some.inj hy]
        exact hround
      · cases hy
  · rw [heviction, List.length_append]; exact hat
  · rw [hmain]; exact h.behind
  · have hstopped := h.stopped
    have hstored : Act.stored ∈ l ↔ shutdown = true := by rw [h.behind.stored, h.flag]
    rw [hleft] at hstopped
    rw [actsSince_concat rfl, hleft', ite_self, Nat.add_zero]
    simp only [hstored, hx, and_true]
    exact hstopped
  · have hnot : Act.joined ∉ l := fun hmem => by
      rw [h.behind.joined, hjoined] at hmem; cases hmem
    rw [actsSince_concat rfl, h.joined, if_neg fun hmem => hnot hmem.1]
  · intro hm; rw [hjoined] at hm; cases hm

/-- How many steps the thread takes at most once the flag is set, but for removals. -/
def EvictionPc.stepsLeft : EvictionPc → ℕ
  | .sleep _ => 3
  | .evict => 3
  | .inner _ => 2
  | .remove _ _ => 2
  | .outer => 1
  | .leave => 1
  | .ended => 0

theorem EvictionPc.stepsLeft_le (e : EvictionPc) : e.stepsLeft ≤ 3 := by
  cases e <;> simp [stepsLeft]

theorem EvictionPc.stepsLeft_step (e : EvictionPc) (now : Time) (minutes : ℕ) (t : CasTable) :
    (e.step true now minutes t).2.stepsLeft ≤
      e.stepsLeft - if e.removing = true then 0 else 1 := by
  cases e with
  | sleep remaining =>
    rw [step, innerLoop]
    split
    · exact le_rfl
    · exact Nat.le_succ 1
  | evict =>
    rw [step]
    split
    · exact Nat.zero_le _
    · exact le_rfl
  | remove cutoff toRemove =>
    cases toRemove with
    | nil => exact le_rfl
    | cons path toRemove => exact le_rfl
  | _ => exact le_rfl

/-- The paths a pass still has to remove. -/
def EvictionPc.pathsLeft : EvictionPc → ℕ
  | .remove _ toRemove => toRemove.length
  | _ => 0

/-- Once the flag is set, a pass that collects has passed the last load before. -/
theorem EvictionPc.pathsLeft_step {e : EvictionPc} (he : e ≠ .evict) (now : Time) (minutes : ℕ)
    (t : CasTable) : (e.step true now minutes t).2 ≠ .evict ∧
      (e.step true now minutes t).2.pathsLeft + (if e.removing = true then 1 else 0) ≤
        e.pathsLeft := by
  cases e with
  | sleep remaining =>
    rw [step, innerLoop]
    simp only
    split
    · exact ⟨nofun, le_rfl⟩
    · exact ⟨nofun, le_rfl⟩
  | evict => exact absurd rfl he
  | remove cutoff toRemove =>
    cases toRemove with
    | nil => exact ⟨nofun, le_rfl⟩
    | cons path toRemove => exact ⟨nofun, le_rfl⟩
  | _ => exact ⟨nofun, le_rfl⟩

/-- A step of the eviction thread. -/
def ProcessEvent.isEviction : ProcessEvent → Bool
  | .eviction _ => true
  | _ => false

/-- A removal of the eviction thread. -/
def Process.removes (p : Process) : ProcessEvent → Bool
  | .eviction _ => p.eviction.removing
  | _ => false

/-- How many entries the thread removes in the course of the events. -/
def Process.removals (X : Ext) : Process → List ProcessEvent → ℕ
  | _, [] => 0
  | p, e :: l => (if p.removes e = true then 1 else 0) + removals X (p.step X e) l

/-- The invariant of a process and its acts. -/
def Process.Inv (w : Process × List Act) : Prop :=
  Stopping w.1.main w.1.shutdown w.1.eviction w.2

namespace Process
variable {X : Ext} {p : Process}

/-- STEP: an iteration of the poll loop. -/
theorem inv_poll (h : Inv (p, l)) (o : Observation) : Inv (traced X (p, l) (.poll o)) := by
  have hstop : Stopping p.main p.shutdown p.eviction l := h
  cases hm : p.main with
  | poll w =>
    rw [hm] at hstop
    have hflag : p.shutdown = false := hstop.flag
    obtain ⟨obs, hl, hw⟩ := hstop.behind
    have hconcat : waitForShutdown (obs ++ [o]) = w.iteration o := by
      rw [waitForShutdown_concat, hw]
      rfl
    have hacts : mainActs l ++ [.polled o] = (obs ++ [o]).map .polled := by
      rw [hl, List.map_append]
      rfl
    simp only [Inv, traced, step, act, hm]
    cases hit : w.iteration o with
    | running w' =>
      exact hstop.main_acts (.poll w') rfl ⟨_, hacts, hconcat.trans hit⟩ hflag id
        fun hj => by cases hj
    | returned a =>
      exact hstop.main_acts (.store a) rfl ⟨_, hacts, hconcat.trans hit⟩ hflag id
        fun hj => by cases hj
  | _ =>
    simp only [Inv, traced, step, act, hm]
    rw [← hm, Option.toList_none, List.append_nil]
    exact hstop

/-- STEP: `main` behind the loop. -/
theorem inv_main (h : Inv (p, l)) (umountFails : Bool) :
    Inv (traced X (p, l) (.main umountFails)) := by
  have hstop : Stopping p.main p.shutdown p.eviction l := h
  cases hm : p.main with
  | poll w =>
    simp only [Inv, traced, step, act, hm]
    rw [← hm, Option.toList_none, List.append_nil]
    exact hstop
  | store a =>
    rw [hm] at hstop
    obtain ⟨obs, hl, hw⟩ := hstop.behind
    simp only [Inv, traced, step, act, hm]
    exact hstop.main_acts (.join a) rfl ⟨obs, by rw [hl], hw⟩ rfl (fun _ => rfl) fun hj => by cases hj
  | join a =>
    rw [hm] at hstop
    have hflag : p.shutdown = true := hstop.flag
    obtain ⟨obs, hl, hw⟩ := hstop.behind
    by_cases hend : p.eviction = .ended
    · simp only [Inv, traced, step, act, hm, hend, if_true]
      rw [← hend]
      exact hstop.main_acts (.close a) rfl ⟨obs, by rw [hl, List.append_assoc]; rfl, hw⟩ hflag id
        fun _ => hend
    · simp only [Inv, traced, step, act, hm, hend, if_false]
      rw [Option.toList_none, List.append_nil, ← hm]
      exact h
  | close a =>
    rw [hm] at hstop
    have hflag : p.shutdown = true := hstop.flag
    obtain ⟨obs, hl, hw⟩ := hstop.behind
    simp only [Inv, traced, step, act, hm]
    exact hstop.main_acts .done rfl ⟨obs, a, umountFails, hw, by rw [hl, List.append_assoc]; rfl⟩
      hflag id fun _ => hstop.ended rfl
  | done =>
    simp only [Inv, traced, step, act, hm]
    rw [← hm, Option.toList_none, List.append_nil]
    exact hstop

/-- STEP: the eviction thread. -/
theorem inv_eviction (h : Inv (p, l)) (now : Time) : Inv (traced X (p, l) (.eviction now)) := by
  have hstop : Stopping p.main p.shutdown p.eviction l := h
  have hat := hstop.at_
  show Stopping p.main p.shutdown (p.evictionStep now).2 (l ++ (p.act (.eviction now)).toList)
  rw [evictionStep]
  generalize p.daemon.tables p.daemon.scanned = t
  cases he : p.eviction with
  | outer =>
    rw [he] at hat hstop
    rw [act, he, Option.toList_none, List.append_nil, EvictionPc.step]
    simp only
    split
    · exact hstop.eviction_looks trivial (fun _ => rfl) fun _ => rfl
    · exact hstop.eviction_looks (innerLoop_at (by rw [show _ = 0 from hat]; rfl))
        (fun _ => innerLoop_actsLeft _) fun hc => by cases hc
  | inner remaining =>
    rw [he] at hat hstop
    rw [act, he, Option.toList_none, List.append_nil, EvictionPc.step]
    simp only
    split
    · rename_i hf
      exact hstop.eviction_looks (Or.inl hf) (fun _ => rfl) fun hc => by cases hc
    · rename_i hf
      exact hstop.eviction_looks hat (fun hf' => absurd hf' hf) fun hc => by cases hc
  | sleep remaining =>
    rw [he] at hat hstop
    obtain ⟨hpos, hsum⟩ := hat
    have hmin : min remaining tick = tick := Nat.min_eq_right hpos
    rw [act, he, Option.toList_some, EvictionPc.step, hmin]
    refine hstop.eviction_acts rfl ?_ (innerLoop_at ?_) rfl (innerLoop_actsLeft _)
    · rw [if_neg (by omega)]
    · rw [checkInterval] at hsum ⊢
      rw [tick]
      omega
  | leave =>
    rw [he] at hat hstop
    rw [act, he, Option.toList_none, List.append_nil, EvictionPc.step]
    simp only
    split
    · exact hstop.eviction_looks trivial (fun _ => rfl) fun _ => rfl
    · rename_i hf
      exact hstop.eviction_looks (hat.resolve_left hf) (fun hf' => absurd hf' hf)
        fun hc => by cases hc
  | evict =>
    rw [he] at hat hstop
    have hround : (evictionActs l).length % (checkInterval + 1) = checkInterval := hat
    rw [act, he, Option.toList_some, EvictionPc.step]
    have hzero : ((evictionActs l).length + 1) % (checkInterval + 1) = 0 := by
      rw [checkInterval] at hround ⊢
      omega
    split
    · exact hstop.eviction_acts rfl (by rw [if_pos hround]) trivial rfl rfl
    · exact hstop.eviction_acts rfl (by rw [if_pos hround]) hzero rfl rfl
  | remove cutoff toRemove =>
    rw [he] at hat hstop
    rw [act, he, Option.toList_none, List.append_nil]
    cases toRemove with
    | nil => exact hstop.eviction_looks hat (fun _ => rfl) fun hc => by cases hc
    | cons path toRemove => exact hstop.eviction_looks hat (fun _ => rfl) fun hc => by cases hc
  | ended =>
    rw [he] at hstop
    rw [act, he, Option.toList_none, List.append_nil]
    exact hstop

/-- STEP: the process. -/
theorem inv_step (h : Inv (p, l)) (ev : ProcessEvent) : Inv (traced X (p, l) ev) := by
  have hquiet : ∀ p' : Process, p'.main = p.main → p'.shutdown = p.shutdown →
      p'.eviction = p.eviction → Inv (p', l ++ (none : Option Act).toList) := by
    intro p' hm hf he
    rw [Option.toList_none, List.append_nil, Inv, hm, hf, he]
    exact h
  cases ev with
  | session e =>
    refine hquiet _ ?_ ?_ ?_ <;> simp only [step] <;> split <;> rfl
  | outside backing => exact hquiet _ rfl rfl rfl
  | poll o => exact inv_poll h o
  | main umountFails => exact inv_main h umountFails
  | eviction now => exact inv_eviction h now

/-! ### The end of the thread -/

/-- Only `main` changes the flag, and it only sets it. -/
theorem step_shutdown (h : p.shutdown = true) (ev : ProcessEvent) :
    (p.step X ev).shutdown = true := by
  cases ev with
  | session e =>
    rw [step]
    split <;> exact h
  | outside backing => exact h
  | poll o =>
    rw [step]
    split
    · split <;> exact h
    · exact h
  | main umountFails =>
    rw [step]
    split
    · rfl
    · split <;> exact h
    · exact h
    · exact h
  | eviction now => exact h

/-- The other threads leave the eviction thread where it is. -/
theorem step_eviction {ev : ProcessEvent} (h : ev.isEviction = false) :
    (p.step X ev).eviction = p.eviction := by
  cases ev with
  | session e =>
    rw [step]
    split <;> rfl
  | outside backing => rfl
  | poll o =>
    rw [step]
    split
    · split <;> rfl
    · rfl
  | main umountFails =>
    rw [step]
    split
    · rfl
    · split <;> rfl
    · rfl
    · rfl
  | eviction now => cases h

theorem removes_other {ev : ProcessEvent} (h : ev.isEviction = false) : p.removes ev = false := by
  cases ev with
  | eviction now => cases h
  | _ => rfl

/-- Where a step of the eviction thread gets it once the flag is set. -/
theorem step_evictionPc (h : p.shutdown = true) (now : Time) :
    (p.step X (.eviction now)).eviction = (p.eviction.step true now p.daemon.evictionMinutes
      (p.daemon.tables p.daemon.scanned)).2 := by
  rw [← h]
  rfl

/-- A removal is a step of the thread. -/
theorem removals_le_countP : ∀ (events : List ProcessEvent) (p : Process),
    p.removals X events ≤ events.countP ProcessEvent.isEviction
  | [], _ => le_rfl
  | ev :: events, p => by
    have hrest := removals_le_countP events (p.step X ev)
    rw [removals, List.countP_cons]
    cases hev : ev.isEviction with
    | false => simpa [removes_other hev] using hrest
    | true =>
      rw [if_pos rfl]
      split
      · omega
      · omega

/-- RUN: whatever else goes on, three steps of its own besides the removals end the thread once the
    flag is set. -/
theorem eviction_ends : ∀ (events : List ProcessEvent) (p : Process), p.shutdown = true →
    p.eviction.stepsLeft + p.removals X events ≤ events.countP ProcessEvent.isEviction →
      (Run.exec (step X) p events).eviction = .ended
  | [], p, _, hn => by
    cases he : p.eviction with
    | ended => exact he
    | _ =>
      rw [he] at hn
      exact absurd hn (by simp [EvictionPc.stepsLeft])
  | ev :: events, p, hp, hn => by
    rw [Run.exec_cons]
    refine eviction_ends events _ (step_shutdown hp ev) ?_
    rw [List.countP_cons, removals] at hn
    cases hev : ev.isEviction with
    | false =>
      rw [step_eviction hev]
      rw [hev, removes_other hev] at hn
      simpa using hn
    | true =>
      cases ev with
      | eviction now =>
        have hstep := p.eviction.stepsLeft_step now p.daemon.evictionMinutes
          (p.daemon.tables p.daemon.scanned)
        have hremoves : p.removes (.eviction now) = p.eviction.removing := rfl
        have hrest := removals_le_countP (X := X) events (p.step X (.eviction now))
        rw [hev, if_pos rfl, hremoves] at hn
        rw [step_evictionPc hp]
        split at hn
        · rename_i hremoving
          rw [if_pos hremoving] at hstep
          omega
        · rename_i hremoving
          rw [if_neg hremoving] at hstep
          omega
      | _ => cases hev

/-- RUN: once the flag is set, a pass that has collected removes at most what it has collected, and no
    other pass begins. -/
theorem removals_le : ∀ (events : List ProcessEvent) (p : Process), p.shutdown = true →
    p.eviction ≠ .evict → p.removals X events ≤ p.eviction.pathsLeft
  | [], p, _, _ => Nat.zero_le _
  | ev :: events, p, hp, he => by
    rw [removals]
    cases hev : ev.isEviction with
    | false =>
      have hrest := removals_le events (p.step X ev) (step_shutdown hp ev)
      rw [step_eviction hev] at hrest
      simpa [removes_other hev] using hrest he
    | true =>
      cases ev with
      | eviction now =>
        obtain ⟨hne, hpaths⟩ := EvictionPc.pathsLeft_step he now p.daemon.evictionMinutes
          (p.daemon.tables p.daemon.scanned)
        have hrest := removals_le events (p.step X (.eviction now)) (step_shutdown hp _)
        have hremoves : p.removes (.eviction now) = p.eviction.removing := rfl
        rw [step_evictionPc hp] at hrest
        rw [hremoves]
        have hle := hrest hne
        omega
      | _ => cases hev

end Process

/-- What the invariant says of the acts. -/
theorem Stopping.orderly (h : Stopping m shutdown e l) : Orderly l := by
  refine ⟨h.rounds, ?_, (Nat.le_add_right ..).trans h.stopped, h.joined⟩
  have hbehind := h.behind
  cases m with
  | poll w =>
    obtain ⟨obs, hl, -⟩ := hbehind
    exact ⟨obs, [], by rw [hl, List.append_nil], Or.inl rfl⟩
  | store a =>
    obtain ⟨obs, hl, -⟩ := hbehind
    exact ⟨obs, [], by rw [hl, List.append_nil], Or.inl rfl⟩
  | join a =>
    obtain ⟨obs, hl, hw⟩ := hbehind
    exact ⟨obs, _, hl, Or.inr ⟨a, false, hw, List.prefix_append [Act.stored] _⟩⟩
  | close a =>
    obtain ⟨obs, hl, hw⟩ := hbehind
    exact ⟨obs, _, hl, Or.inr ⟨a, false, hw, List.prefix_append [Act.stored, Act.joined] _⟩⟩
  | done =>
    obtain ⟨obs, a, umountFails, hw, hl⟩ := hbehind
    exact ⟨obs, _, hl, Or.inr ⟨a, umountFails, hw, List.prefix_rfl⟩⟩

/-- RUN: the invariant holds from the mount on. -/
theorem Process.inv_exec (X : Ext) (d : Daemon) (events : List ProcessEvent) :
    Inv (Run.exec (traced X) ({ daemon := d }, []) events) := by
  have hmount : Inv ({ daemon := d }, []) :=
    ⟨by simp [evictionActs], rfl, ⟨[], rfl, rfl⟩, rfl, Nat.zero_le _, rfl, fun hj => by cases hj⟩
  exact Run.exec_of_inv (P := fun _ _ => True) (fun _ ev h _ => inv_step h ev) events _ hmount
    (Run.along_of_forall events _ fun _ _ => trivial)

/-- RUN: in every order of the steps of a mounted process, the acts of its threads are in order. From
    every state in which the flag is set the eviction thread needs three steps at most to end, besides
    the removals of the pass it is in, and these are at most the ones it has collected. -/
theorem eviction_orderly (X : Ext) (d : Daemon) (events : List ProcessEvent) :
    let w := Run.exec (Process.traced X) ({ daemon := d }, []) events
    Orderly w.2 ∧ (w.1.shutdown = true → ∀ more,
      (3 + w.1.removals X more ≤ more.countP ProcessEvent.isEviction →
        (Run.exec (Process.step X) w.1 more).eviction = .ended) ∧
      (w.1.eviction ≠ .evict → w.1.removals X more ≤ w.1.eviction.pathsLeft)) := by
  intro w
  refine ⟨(Process.inv_exec X d events).orderly, fun hf more => ⟨fun hmore => ?_, ?_⟩⟩
  · exact Process.eviction_ends more w.1 hf
      ((Nat.add_le_add_right w.1.eviction.stepsLeft_le _).trans hmore)
  · exact Process.removals_le more w.1 hf

end Dibs
