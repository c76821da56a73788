import Mathlib.Data.List.Basic
import Mathlib.Order.Lattice

/-! Strings under edits. A string is written to at an offset (a gap is filled with `z`), appended to,
    cut or extended to a length, or replaced. A history of edits is replayed from left to right. What
    is put at an offset is read back there (`slice_put`), and a range that lies in the string is read
    unchanged after every edit that misses it (`slice_replay`). -/

namespace Edits
variable {α : Type*}

inductive Edit (α : Type*) where
  | put (off : ℕ) (d : List α)
  | append (d : List α)
  | resize (size : ℕ)
  | replace (d : List α)
  deriving DecidableEq

/-- Put `d` at offset `off`; putting nothing changes nothing. -/
def put (z : α) (l : List α) (off : ℕ) : List α → List α
  | [] => l
  | d => (l ++ List.replicate (off - l.length) z).take off ++ d ++ l.drop (off + d.length)

def resize (z : α) (l : List α) (size : ℕ) : List α :=
  l.take size ++ List.replicate (size - l.length) z

def Edit.apply (z : α) (l : List α) : Edit α → List α
  | .put off d => Edits.put z l off d
  | .append d => l ++ d
  | .resize size => Edits.resize z l size
  | .replace d => d

/-- The string after a history of edits. -/
def replay (z : α) (l : List α) (es : List (Edit α)) : List α := es.foldl (Edit.apply z) l

/-- The `n` elements from `a` on. -/
def slice (a n : ℕ) (l : List α) : List α := (l.drop a).take n

/-- The edit changes nothing from `a` to `a + n` in a string that reaches so far. -/
def Edit.Misses (a n : ℕ) : Edit α → Prop
  | .put off d => d = [] ∨ off + d.length ≤ a ∨ a + n ≤ off
  | .append _ => True
  | .resize size => a + n ≤ size
  | .replace _ => n = 0

instance [DecidableEq α] (a n : ℕ) : DecidablePred (Edit.Misses (α := α) a n)
  | .put off d => inferInstanceAs (Decidable (d = [] ∨ off + d.length ≤ a ∨ a + n ≤ off))
  | .append _ => inferInstanceAs (Decidable True)
  | .resize size => inferInstanceAs (Decidable (a + n ≤ size))
  | .replace _ => inferInstanceAs (Decidable (n = 0))

variable (z : α) (l : List α)

theorem replay_append (es fs : List (Edit α)) :
    replay z l (es ++ fs) = replay z (replay z l es) fs := List.foldl_append ..

/-! ### Element by element -/

theorem put_of_ne_nil (off : ℕ) {d : List α} (hd : d ≠ []) :
    put z l off d =
      (l ++ List.replicate (off - l.length) z).take off ++ d ++ l.drop (off + d.length) := by
  cases d with
  | nil => exact absurd rfl hd
  | cons x d => rfl

/-- To put something at the end is to append it. -/
theorem put_length (d : List α) : put z l l.length d = l ++ d := by
  cases d with
  | nil => exact (List.append_nil l).symm
  | cons x d =>
    rw [put_of_ne_nil z l _ (List.cons_ne_nil x d), Nat.sub_self, List.replicate_zero,
      List.append_nil, List.take_length, List.drop_of_length_le (Nat.le_add_right ..), List.append_nil]

theorem length_padded (off : ℕ) :
    ((l ++ List.replicate (off - l.length) z).take off).length = off := by
  rw [List.length_take, List.length_append, List.length_replicate]
  omega

theorem length_put (off : ℕ) (d : List α) (hd : d ≠ []) :
    (put z l off d).length = max l.length (off + d.length) := by
  rw [put_of_ne_nil z l off hd, List.length_append, List.length_append, length_padded,
    List.length_drop]
  omega

/-- Before the offset a string that is long enough is as it was. -/
theorem getElem?_put_before {off : ℕ} {d : List α} {i : ℕ} (hi : i < off) (hl : i < l.length) :
    (put z l off d)[i]? = l[i]? := by
  cases d with
  | nil => rfl
  | cons x d =>
    have hpad := length_padded z l off
    rw [put_of_ne_nil z l off (List.cons_ne_nil x d),
      List.getElem?_append_left (by rw [List.length_append]; omega),
      List.getElem?_append_left (by omega), List.getElem?_take_of_lt hi,
      List.getElem?_append_left hl]

/-- Behind what was put the string is as it was. -/
theorem getElem?_put_behind {off : ℕ} {d : List α} {i : ℕ} (hi : off + d.length ≤ i) :
    (put z l off d)[i]? = l[i]? := by
  cases hd : d with
  | nil => rfl
  | cons x d' =>
    rw [← hd]
    have hlen : ((l ++ List.replicate (off - l.length) z).take off ++ d).length = off + d.length := by
      rw [List.length_append, length_padded]
    rw [put_of_ne_nil z l off (by rw [hd]; simp), List.getElem?_append_right (by omega),
      List.getElem?_drop, hlen]
    congr 1
    omega

theorem getElem?_slice (a n i : ℕ) : (slice a n l)[i]? = if i < n then l[a + i]? else none := by
  rw [slice, List.getElem?_take, List.getElem?_drop]

/-- Strings with the same elements in a range have the same slice. -/
theorem slice_congr {l l' : List α} {a n : ℕ} (h : ∀ i, a ≤ i → i < a + n → l[i]? = l'[i]?) :
    slice a n l = slice a n l' := by
  refine List.ext_getElem? fun i => ?_
  rw [getElem?_slice, getElem?_slice]
  split
  · exact h (a + i) (Nat.le_add_right ..) (by omega)
  · rfl

/-! ### Reading back -/

/-- RULE: what was put at an offset is read there. -/
theorem slice_put (off : ℕ) (d : List α) : slice off d.length (put z l off d) = d := by
  cases hd : d with
  | nil => rfl
  | cons x d' =>
    rw [← hd, slice, put_of_ne_nil z l off (by rw [hd]; simp), List.append_assoc,
      List.drop_append_of_le_length (le_of_eq (length_padded z l off).symm),
      List.drop_of_length_le (le_of_eq (length_padded z l off)), List.nil_append, List.take_left]

theorem slice_append (d : List α) : slice l.length d.length (l ++ d) = d := by
  rw [slice, List.drop_left, List.take_length]

/-- STEP: an edit that misses a range of the string leaves it there and readable as before. -/
theorem slice_apply {a n : ℕ} (hl : a + n ≤ l.length) {e : Edit α} (he : e.Misses a n) :
    slice a n (e.apply z l) = slice a n l ∧ (n = 0 ∨ a + n ≤ (e.apply z l).length) := by
  cases e with
  | put off d =>
    rw [Edit.apply]
    by_cases hne : d = []
    · rw [hne]
      exact ⟨rfl, Or.inr hl⟩
    · refine ⟨slice_congr fun i hai hi => ?_, Or.inr ?_⟩
      · rcases he with rfl | hbehind | hbefore
        · exact absurd rfl hne
        · exact getElem?_put_behind z l (by omega)
        · exact getElem?_put_before z l (by omega) (by omega)
      · rw [length_put z l off d hne]
        omega
  | append d =>
    refine ⟨slice_congr fun i _ hi => List.getElem?_append_left (by omega), Or.inr ?_⟩
    rw [Edit.apply, List.length_append]
    omega
  | resize size =>
    have he' : a + n ≤ size := he
    refine ⟨slice_congr fun i _ hi => ?_, Or.inr ?_⟩
    · rw [Edit.apply, Edits.resize, List.getElem?_append_left (by rw [List.length_take]; omega),
        List.getElem?_take_of_lt (by omega)]
    · rw [Edit.apply, Edits.resize, List.length_append, List.length_take, List.length_replicate]
      omega
  | replace d =>
    have he' : n = 0 := he
    subst he'
    exact ⟨by simp [slice], Or.inl rfl⟩

/-- RULE: a range of the string is read as before after a history of edits that miss it. -/
theorem slice_replay {a n : ℕ} (es : List (Edit α)) (hl : a + n ≤ l.length)
    (hes : ∀ e ∈ es, e.Misses a n) :
    slice a n (replay z l es) = slice a n l ∧ (n = 0 ∨ a + n ≤ (replay z l es).length) := by
  induction es generalizing l with
  | nil => exact ⟨rfl, Or.inr hl⟩
  | cons e es ih =>
    obtain ⟨hslice, hlen⟩ := slice_apply z l hl (hes e (List.mem_cons_self ..))
    rcases hlen with rfl | hlen
    · exact ⟨by simp [slice], Or.inl rfl⟩
    · obtain ⟨hslice', hlen'⟩ := ih (e.apply z l) hlen fun f hf => hes f (List.mem_cons_of_mem _ hf)
      exact ⟨hslice'.trans hslice, hlen'⟩

end Edits
