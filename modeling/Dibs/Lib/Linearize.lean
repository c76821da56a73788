import Dibs.Lib.Run

/-! Linearization. A concrete system of threads and an atomic one, both deterministic, both with answers
    that are addressed to threads. Each concrete event stands for a list of atomic ones, which may
    depend on the events to come: an operation can take effect before the step that fixes one of its
    arguments. A relation that each event keeps, with an account of the answers that are given in the
    atomic run and still owed in the concrete one, makes the concrete run an atomic run
    (`Linearizes.run`). -/

namespace Linearize
variable {σ τ ε ℓ κ ω : Type*}

/-- All answers of a run. -/
def outs (step : σ → ε → σ) (out : σ → ε → List (κ × ω)) : σ → List ε → List (κ × ω)
  | _, [] => []
  | s, e :: l => out s e ++ outs step out (step s e) l

/-- The atomic events of a run, in the order in which they take effect. -/
def atomics (step : σ → ε → σ) (lin : σ → ε → List ε → List ℓ) : σ → List ε → List ℓ
  | _, [] => []
  | s, e :: l => lin s e l ++ atomics step lin (step s e) l

/-- The answers to one thread. -/
def answersTo [DecidableEq κ] (k : κ) (l : List (κ × ω)) : List ω :=
  (l.filter fun a => a.1 = k).map (·.2)

section Answers
variable [DecidableEq κ]

@[simp] theorem answersTo_nil (k : κ) : answersTo k ([] : List (κ × ω)) = [] := rfl

theorem answersTo_append (k : κ) (l m : List (κ × ω)) :
    answersTo k (l ++ m) = answersTo k l ++ answersTo k m := by
  rw [answersTo, List.filter_append, List.map_append]; rfl

theorem answersTo_single (k i : κ) (a : ω) :
    answersTo k [(i, a)] = if i = k then [a] else [] := by
  rw [answersTo]
  by_cases h : i = k
  · rw [List.filter_cons_of_pos (by simp [h]), if_pos h]; rfl
  · rw [List.filter_cons_of_neg (by simp [h]), if_neg h]; rfl

end Answers

theorem outs_append (step : σ → ε → σ) (out : σ → ε → List (κ × ω)) (s : σ) (l m : List ε) :
    outs step out s (l ++ m) = outs step out s l ++ outs step out (Run.exec step s l) m := by
  induction l generalizing s with
  | nil => rfl
  | cons e l ih => rw [List.cons_append, outs, outs, ih, Run.exec_cons, List.append_assoc]

variable [DecidableEq κ]

/-- What a linearization has to show of one event. -/
structure Linearizes (step : σ → ε → σ) (out : σ → ε → List (κ × ω)) (atomic : τ → ℓ → τ)
    (reply : τ → ℓ → List (κ × ω)) (lin : σ → ε → List ε → List ℓ) (owed : σ → κ → List ω)
    (R : σ → τ → List ε → Prop) : Prop where
  keeps : ∀ {s t e l}, R s t (e :: l) → R (step s e) (Run.exec atomic t (lin s e l)) l
  account : ∀ {s t e l}, R s t (e :: l) → ∀ k,
    owed s k ++ answersTo k (outs atomic reply t (lin s e l)) =
      answersTo k (out s e) ++ owed (step s e) k

variable {step : σ → ε → σ} {out : σ → ε → List (κ × ω)} {atomic : τ → ℓ → τ}
  {reply : τ → ℓ → List (κ × ω)} {lin : σ → ε → List ε → List ℓ} {owed : σ → κ → List ω}
  {R : σ → τ → List ε → Prop}

/-- RULE: the states stay related, and each thread gets the answers of the atomic run but for those it
    is still owed. -/
theorem Linearizes.run (h : Linearizes step out atomic reply lin owed R) :
    ∀ (l : List ε) {s : σ} {t : τ}, R s t l →
      R (Run.exec step s l) (Run.exec atomic t (atomics step lin s l)) [] ∧
        ∀ k, owed s k ++ answersTo k (outs atomic reply t (atomics step lin s l)) =
          answersTo k (outs step out s l) ++ owed (Run.exec step s l) k
  | [], s, t, hR => ⟨hR, fun k => by simp [atomics, outs]⟩
  | e :: l, s, t, hR => by
    obtain ⟨hend, hrest⟩ := h.run l (h.keeps hR)
    rw [atomics, Run.exec_append, Run.exec_cons]
    refine ⟨hend, fun k => ?_⟩
    rw [outs_append, answersTo_append, ← List.append_assoc, h.account hR k, List.append_assoc,
      hrest k, outs, answersTo_append, List.append_assoc]

end Linearize
