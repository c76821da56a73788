import Mathlib.Logic.Basic

/-! Runs of a deterministic transition system `step : σ → α → σ` over a list of labels, and the
    rules every result about whole runs is derived from: an invariant that each admissible step keeps
    holds in the last state (`exec_of_inv`), and whatever it implies about a single step holds at each
    step of the run (`along_of_inv`, `along_iff_of_inv`). Where the steps give answers
    (`out : σ → α → ω`), two runs are compared by a relation that both keep (`answers_of_rel`), or by
    what they show of the state when some labels are left out (`answersOf_of_view`). -/

namespace Run
variable {σ α : Type*} (step : σ → α → σ)

/-- The state after the labels of `l`, in order. -/
def exec (s : σ) (l : List α) : σ := l.foldl step s

/-- `P` holds of each label of the run, in the state in which that label is processed. -/
def Along (P : σ → α → Prop) : σ → List α → Prop
  | _, [] => True
  | s, a :: l => P s a ∧ Along P (step s a) l

instance {step : σ → α → σ} {P : σ → α → Prop} [∀ s a, Decidable (P s a)] :
    ∀ (s : σ) (l : List α), Decidable (Along step P s l)
  | _, [] => inferInstanceAs (Decidable True)
  | s, a :: l =>
    have : Decidable (Along step P (step s a) l) := instDecidableAlong (step s a) l
    inferInstanceAs (Decidable (P s a ∧ Along step P (step s a) l))

variable {step}

@[simp] theorem exec_nil (s : σ) : exec step s [] = s := rfl

@[simp] theorem exec_cons (s : σ) (a : α) (l : List α) :
    exec step s (a :: l) = exec step (step s a) l := rfl

/-- A condition on the labels alone holds along every run over such labels. -/
theorem along_of_forall {P : α → Prop} :
    ∀ (l : List α) (s : σ), (∀ a ∈ l, P a) → Along step (fun _ a => P a) s l
  | [], _, _ => trivial
  | a :: l, _, h =>
    ⟨h a (List.mem_cons_self ..), along_of_forall l _ fun b hb => h b (List.mem_cons_of_mem _ hb)⟩

theorem Along.and_forall {P : σ → α → Prop} {Q : α → Prop} :
    ∀ {l : List α} {s : σ}, Along step P s l → (∀ a ∈ l, Q a) →
      Along step (fun s a => P s a ∧ Q a) s l
  | [], _, _, _ => trivial
  | a :: _, _, ⟨hP, hrest⟩, hQ =>
    ⟨⟨hP, hQ a (List.mem_cons_self ..)⟩,
      hrest.and_forall fun b hb => hQ b (List.mem_cons_of_mem _ hb)⟩

theorem Along.of_append {P : σ → α → Prop} :
    ∀ {l m : List α} {s : σ}, Along step P s (l ++ m) → Along step P s l
  | [], _, _, _ => trivial
  | _ :: _, _, _, ⟨hP, hrest⟩ => ⟨hP, hrest.of_append⟩

theorem Along.last {P : σ → α → Prop} {a : α} :
    ∀ {l : List α} {s : σ}, Along step P s (l ++ [a]) → P (exec step s l) a
  | [], _, h => h.1
  | _ :: _, _, ⟨_, hrest⟩ => hrest.last

/-- A property holds along a run if it holds at the last step of each of its beginnings. -/
theorem along_iff_beginnings {P : σ → α → Prop} : ∀ (l : List α) (s : σ),
    Along step P s l ↔ ∀ pre a, pre ++ [a] <+: l → P (exec step s pre) a
  | [], _ => by
    refine ⟨fun _ pre a h => ?_, fun _ => trivial⟩
    have hnil := List.prefix_nil.mp h
    simp at hnil
  | b :: l, s => by
    constructor
    · rintro ⟨hP, hrest⟩ pre a h
      cases pre with
      | nil =>
        obtain ⟨rfl, -⟩ := List.cons_prefix_cons.mp h
        exact hP
      | cons c pre =>
        obtain ⟨rfl, htail⟩ := List.cons_prefix_cons.mp h
        exact (along_iff_beginnings l (step s c)).mp hrest pre a htail
    · intro h
      refine ⟨h [] b (List.cons_prefix_cons.mpr ⟨rfl, List.nil_prefix⟩), ?_⟩
      exact (along_iff_beginnings l (step s b)).mpr fun pre a hpre =>
        h (b :: pre) a (List.cons_prefix_cons.mpr ⟨rfl, hpre⟩)

/-- RULE: an invariant kept by every step that satisfies `P` holds at the end of the run. -/
theorem exec_of_inv {I : σ → Prop} {P : σ → α → Prop}
    (hstep : ∀ s a, I s → P s a → I (step s a)) :
    ∀ (l : List α) (s : σ), I s → Along step P s l → I (exec step s l)
  | [], _, hs, _ => hs
  | a :: l, s, hs, ⟨hP, hrest⟩ => exec_of_inv hstep l (step s a) (hstep s a hs hP) hrest

/-- RULE: what the invariant and `P` imply about one step holds along the whole run. -/
theorem along_of_inv {I : σ → Prop} {P Q : σ → α → Prop}
    (hstep : ∀ s a, I s → P s a → I (step s a)) (hQ : ∀ s a, I s → P s a → Q s a) :
    ∀ (l : List α) (s : σ), I s → Along step P s l → Along step Q s l
  | [], _, _, _ => trivial
  | a :: l, s, hs, ⟨hP, hrest⟩ =>
    ⟨hQ s a hs hP, along_of_inv hstep hQ l (step s a) (hstep s a hs hP) hrest⟩

/-- RULE: where the invariant makes `P` and `Q` the same condition on a step, a run meets one just
    when it meets the other. -/
theorem along_iff_of_inv {I : σ → Prop} {P Q : σ → α → Prop}
    (hstep : ∀ s a, I s → P s a → I (step s a)) (hiff : ∀ s a, I s → (Q s a ↔ P s a)) :
    ∀ (l : List α) (s : σ), I s → (Along step Q s l ↔ Along step P s l)
  | [], _, _ => Iff.rfl
  | a :: l, s, hs => by
    constructor
    · rintro ⟨hQ, hrest⟩
      have hP := (hiff s a hs).mp hQ
      exact ⟨hP, (along_iff_of_inv hstep hiff l _ (hstep s a hs hP)).mp hrest⟩
    · rintro ⟨hP, hrest⟩
      exact ⟨(hiff s a hs).mpr hP, (along_iff_of_inv hstep hiff l _ (hstep s a hs hP)).mpr hrest⟩

theorem exec_append (s : σ) (l m : List α) : exec step s (l ++ m) = exec step (exec step s l) m :=
  List.foldl_append ..

/-! ### Answers -/

section Answers
variable {ω ν : Type*} {out : σ → α → ω}

/-- The answers to the labels of `l`, in order. -/
def answers (step : σ → α → σ) (out : σ → α → ω) : σ → List α → List ω
  | _, [] => []
  | s, a :: l => out s a :: answers step out (step s a) l

/-- The answers to the labels that `keep` selects; the others are processed all the same. -/
def answersOf (step : σ → α → σ) (out : σ → α → ω) (keep : α → Bool) : σ → List α → List ω
  | _, [] => []
  | s, a :: l =>
    if keep a then out s a :: answersOf step out keep (step s a) l
    else answersOf step out keep (step s a) l

/-- Two runs side by side on the same labels. -/
def both (step : σ → α → σ) (w : σ × σ) (a : α) : σ × σ := (step w.1 a, step w.2 a)

theorem answers_append (s : σ) (l m : List α) :
    answers step out s (l ++ m) = answers step out s l ++ answers step out (exec step s l) m := by
  induction l generalizing s with
  | nil => rfl
  | cons a l ih => rw [List.cons_append, answers, answers, ih, exec_cons, List.cons_append]

theorem exec_both (w : σ × σ) (l : List α) :
    exec (both step) w l = (exec step w.1 l, exec step w.2 l) := by
  induction l generalizing w with
  | nil => rfl
  | cons a l ih => rw [exec_cons, ih]; rfl

/-- RULE: related states whose answers agree, and whose successors are related, give the same
    answers along the whole run. -/
theorem answers_of_rel {R : σ × σ → Prop} {P : σ × σ → α → Prop}
    (hstep : ∀ w a, R w → P w a → R (both step w a))
    (hout : ∀ w a, R w → P w a → out w.1 a = out w.2 a) :
    ∀ (l : List α) (w : σ × σ), R w → Along (both step) P w l →
      answers step out w.1 l = answers step out w.2 l
  | [], _, _, _ => rfl
  | a :: l, w, hw, ⟨hP, hrest⟩ => by
    rw [answers, answers, hout w a hw hP]
    exact congrArg _ (answers_of_rel hstep hout l (both step w a) (hstep w a hw hP) hrest)

/-- RULE: if the labels that are left out do not change what is seen of the state, and for the others
    the answer and what is seen next depend only on what is seen, then leaving the former out changes
    neither the answers to the latter nor what is seen at the end. -/
theorem answersOf_of_view {view : σ → ν} {keep : α → Bool} {P : α → Prop}
    (hskip : ∀ s a, P a → keep a = false → view (step s a) = view s)
    (hkeep : ∀ s t a, P a → keep a = true → view s = view t →
      out s a = out t a ∧ view (step s a) = view (step t a)) :
    ∀ (l : List α) (s t : σ), (∀ a ∈ l, P a) → view s = view t →
      answersOf step out keep s l = answers step out t (l.filter keep) ∧
        view (exec step s l) = view (exec step t (l.filter keep))
  | [], _, _, _, hv => ⟨rfl, hv⟩
  | a :: l, s, t, hP, hv => by
    have hrest : ∀ b ∈ l, P b := fun b hb => hP b (List.mem_cons_of_mem _ hb)
    have ha : P a := hP a (List.mem_cons_self ..)
    cases hk : keep a with
    | false =>
      rw [List.filter_cons_of_neg (by simp [hk]), answersOf, hk, if_neg Bool.false_ne_true, exec_cons]
      exact answersOf_of_view hskip hkeep l (step s a) t hrest ((hskip s a ha hk).trans hv)
    | true =>
      obtain ⟨hout, hnext⟩ := hkeep s t a ha hk hv
      obtain ⟨hans, hend⟩ := answersOf_of_view hskip hkeep l (step s a) (step t a) hrest hnext
      rw [List.filter_cons_of_pos hk, answersOf, hk, if_pos rfl, answers, hout, hans, exec_cons,
        exec_cons]
      exact ⟨rfl, hend⟩

end Answers

end Run
