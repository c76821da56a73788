import Mathlib.Data.List.Basic

/-! Reading a list piece by piece while it may change. Each request asks for up to `n` elements of what
    the list is at that moment, from the offset at which the answer before it ended; nothing is kept
    between requests. If every list agrees with the one before it on the elements before the offset,
    the answers put together are the last list (`flatten_answers`). -/

namespace Slices
variable {α : Type*}

/-- The answers to a series of requests, the first one at the offset `off`. -/
def answers : ℕ → List (List α × ℕ) → List (List α)
  | _, [] => []
  | off, (l, n) :: reqs =>
    (l.drop off).take n :: answers (off + ((l.drop off).take n).length) reqs

/-- Each list agrees with the one before it on what lies before the offset of its request. -/
def Agree : List α → ℕ → List (List α × ℕ) → Prop
  | _, _, [] => True
  | prev, off, (l, n) :: reqs =>
    l.take off = prev.take off ∧ Agree l (off + ((l.drop off).take n).length) reqs

instance decidableAgree [DecidableEq α] :
    ∀ (prev : List α) (off : ℕ) (reqs : List (List α × ℕ)), Decidable (Agree prev off reqs)
  | _, _, [] => inferInstanceAs (Decidable True)
  | prev, off, (l, n) :: reqs =>
    have : Decidable (Agree l (off + ((l.drop off).take n).length) reqs) :=
      decidableAgree l _ reqs
    inferInstanceAs (Decidable (l.take off = prev.take off ∧
      Agree l (off + ((l.drop off).take n).length) reqs))

/-- What was delivered up to a request and the answer to it are together a beginning of its list. -/
theorem take_append_slice (l : List α) (off n : ℕ) :
    l.take off ++ (l.drop off).take n = l.take (off + ((l.drop off).take n).length) := by
  rw [List.take_add, ← List.prefix_iff_eq_take.mp (List.take_prefix n (l.drop off))]

/-- An empty answer to a request for at least one element means that the list ends here. -/
theorem take_of_slice_eq_nil {l : List α} {off n : ℕ} (hn : 0 < n) (h : (l.drop off).take n = []) :
    l.take off = l := by
  rcases List.take_eq_nil_iff.mp h with h0 | hdrop
  · omega
  · exact List.take_of_length_le (List.drop_eq_nil_iff.mp hdrop)

/-- RULE: a series that ends with an empty answer has delivered the list as it is at the end. -/
theorem flatten_answers {last : List α} : ∀ (reqs : List (List α × ℕ)) (prev : List α) (off : ℕ),
    (∀ r ∈ reqs, 0 < r.2) → Agree prev off reqs → (answers off reqs).getLast? = some [] →
      (reqs.getLast?).map (·.1) = some last → prev.take off ++ (answers off reqs).flatten = last
  | [], _, _, _, _, hend, _ => by cases hend
  | [(l, n)], prev, off, hpos, hagree, hend, hlast => by
    have hl : l = last := Option.some.inj hlast
    have hempty : (l.drop off).take n = [] := Option.some.inj hend
    rw [← hagree.1, answers, answers, hempty, take_of_slice_eq_nil (hpos _ (List.mem_singleton_self _))
      hempty, hl]
    simp
  | (l, n) :: (l', n') :: reqs, prev, off, hpos, hagree, hend, hlast => by
    rw [answers, answers, List.getLast?_cons_cons] at hend
    rw [List.getLast?_cons_cons] at hlast
    have hrest := flatten_answers ((l', n') :: reqs) l _
      (fun x hx => hpos x (List.mem_cons_of_mem _ hx)) hagree.2 hend hlast
    rw [← hagree.1, answers, List.flatten_cons, ← List.append_assoc, take_append_slice, hrest]

/-- A list that does not change agrees with itself. -/
theorem agree_of_forall {l : List α} : ∀ (reqs : List (List α × ℕ)) (off : ℕ),
    (∀ r ∈ reqs, r.1 = l) → Agree l off reqs
  | [], _, _ => trivial
  | (l', n) :: reqs, off, h => by
    have hl : l' = l := h (l', n) (List.mem_cons_self ..)
    subst hl
    exact ⟨rfl, agree_of_forall reqs _ fun r hr => h r (List.mem_cons_of_mem _ hr)⟩

end Slices
