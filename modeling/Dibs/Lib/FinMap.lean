import Mathlib.Data.List.AList

/-! A finite map with the operations a concurrent hash map offers one call at a time: `get`,
    `insert`, `remove`, `modify` (a mutable borrow), `retain` and a scan over all pairs (`iter`).
    The carrier is Mathlib's association list without duplicate keys; every operation comes with one
    `get` equation, and proofs about clients only use these equations. -/

universe u v

/-- Finite maps from `K` to `V`: association lists in which no key occurs twice. -/
def FinMap (K : Type u) (V : Type v) : Type (max u v) := AList fun _ : K => V

namespace FinMap
variable {K : Type u} {V : Type v}

def empty : FinMap K V := (∅ : AList fun _ : K => V)

instance : Inhabited (FinMap K V) := ⟨empty⟩

/-- All pairs, in the order in which the map stores them. -/
def iter (m : FinMap K V) : List (K × V) := m.entries.map fun e => (e.1, e.2)

def len (m : FinMap K V) : ℕ := m.entries.length

/-- Keep the pairs that satisfy `f`. -/
def retain (f : K → V → Bool) (m : FinMap K V) : FinMap K V :=
  ⟨m.entries.filter fun e => f e.1 e.2, m.nodupKeys.sublist List.filter_sublist⟩

/-- No key occurs twice. -/
theorem pairwise_iter (m : FinMap K V) : m.iter.Pairwise fun x y => x.1 ≠ y.1 :=
  List.pairwise_map.mpr (List.nodupKeys_iff_pairwise.mp m.nodupKeys)

variable [DecidableEq K]

def get (m : FinMap K V) (k : K) : Option V := AList.lookup k m

def insert (m : FinMap K V) (k : K) (v : V) : FinMap K V := AList.insert k v m

def remove (m : FinMap K V) (k : K) : FinMap K V := AList.erase k m

/-- Update the value at `k` in place, if there is one. -/
def modify (m : FinMap K V) (k : K) (f : V → V) : FinMap K V :=
  match m.get k with
  | some v => m.insert k (f v)
  | none => m

/-- Insert every pair of a list, the first one last. -/
def insertAll (m : FinMap K V) (l : List (K × V)) : FinMap K V :=
  l.foldr (fun e m => m.insert e.1 e.2) m

/-! ### What a lookup sees after each operation -/

@[simp] theorem get_empty (k : K) : (empty : FinMap K V).get k = none := rfl

theorem get_insert (m : FinMap K V) (k : K) (v : V) (j : K) :
    (m.insert k v).get j = if j = k then some v else m.get j := by
  by_cases h : j = k
  · subst h; rw [if_pos rfl]; exact AList.lookup_insert m
  · rw [if_neg h]; exact AList.lookup_insert_ne h

@[simp] theorem get_insert_self (m : FinMap K V) (k : K) (v : V) : (m.insert k v).get k = some v := by
  rw [get_insert, if_pos rfl]

theorem get_remove (m : FinMap K V) (k j : K) :
    (m.remove k).get j = if j = k then none else m.get j := by
  by_cases h : j = k
  · subst h; rw [if_pos rfl]; exact AList.lookup_erase j m
  · rw [if_neg h]; exact AList.lookup_erase_ne h

@[simp] theorem get_remove_self (m : FinMap K V) (k : K) : (m.remove k).get k = none := by
  rw [get_remove, if_pos rfl]

theorem get_modify (m : FinMap K V) (k : K) (f : V → V) (j : K) :
    (m.modify k f).get j = if j = k then (m.get j).map f else m.get j := by
  unfold modify
  cases hk : m.get k with
  | none => by_cases h : j = k <;> simp [h, hk]
  | some v => by_cases h : j = k <;> simp [h, hk, get_insert]

theorem mem_iter {m : FinMap K V} {k : K} {v : V} : (k, v) ∈ m.iter ↔ m.get k = some v := by
  have hlook : m.get k = some v ↔ (⟨k, v⟩ : Sigma fun _ : K => V) ∈ m.entries :=
    AList.mem_lookup_iff (s := m)
  rw [hlook, iter, List.mem_map]
  constructor
  · rintro ⟨⟨k', v'⟩, hmem, heq⟩
    obtain ⟨rfl, rfl⟩ := Prod.mk.inj heq
    exact hmem
  · intro hmem
    exact ⟨⟨k, v⟩, hmem, rfl⟩

theorem get_retain (f : K → V → Bool) (m : FinMap K V) (k : K) :
    (m.retain f).get k = (m.get k).filter (f k) := by
  have key : ∀ v, (m.retain f).get k = some v ↔ m.get k = some v ∧ f k v = true := by
    intro v
    rw [← mem_iter, ← mem_iter]
    simp only [iter, retain, List.mem_map, List.mem_filter]
    constructor
    · rintro ⟨⟨k', v'⟩, ⟨hmem, hf⟩, heq⟩
      obtain ⟨rfl, rfl⟩ := Prod.mk.inj heq
      exact ⟨⟨_, hmem, rfl⟩, hf⟩
    · rintro ⟨⟨⟨k', v'⟩, hmem, heq⟩, hf⟩
      obtain ⟨rfl, rfl⟩ := Prod.mk.inj heq
      exact ⟨_, ⟨hmem, hf⟩, rfl⟩
  ext v
  rw [key v, Option.filter_eq_some_iff]

/-- The pairs of a map, one of them taken out. -/
theorem iter_perm {m : FinMap K V} {k : K} {v : V} (h : m.get k = some v) :
    m.iter.Perm ((k, v) :: (m.remove k).iter) := by
  have hlook : ∀ w, m.get k = some w ↔ (⟨k, w⟩ : Sigma fun _ : K => V) ∈ m.entries :=
    fun _ => AList.mem_lookup_iff (s := m)
  have hkey : k ∈ m.entries.keys := List.mem_keys_of_mem ((hlook v).mp h)
  obtain ⟨w, l₁, l₂, hl₁, hl, herase⟩ := List.exists_of_kerase hkey
  have hw : m.get k = some w := by
    rw [hlook, hl]
    simp
  have hvw : v = w := Option.some.inj (h.symm.trans hw)
  have hiter : (m.remove k).iter = (l₁ ++ l₂).map fun e => (e.1, e.2) := congrArg _ herase
  rw [hiter, iter, hl, hvw, List.map_append, List.map_cons, List.map_append]
  exact List.perm_middle

/-- Counting by keys: overwriting a value makes no difference. -/
theorem countP_insert {m : FinMap K V} {k : K} {v : V} (h : m.get k = some v) (w : V) (f : K → Bool) :
    (m.insert k w).iter.countP (fun e => f e.1) = m.iter.countP fun e => f e.1 := by
  have hiter : (m.insert k w).iter = (k, w) :: (m.remove k).iter := rfl
  rw [hiter, (iter_perm h).countP_eq, List.countP_cons, List.countP_cons]

theorem countP_remove_le (m : FinMap K V) (k : K) (f : K × V → Bool) :
    (m.remove k).iter.countP f ≤ m.iter.countP f := by
  have hsub : (m.remove k).iter.Sublist m.iter := (List.kerase_sublist k m.entries).map _
  exact hsub.countP_le

/-- A list that gives `k` no other value than `v` leaves `v` there. -/
theorem get_insertAll_of_mem {m : FinMap K V} {k : K} {v : V} :
    ∀ {l : List (K × V)}, (k, v) ∈ l → (∀ w, (k, w) ∈ l → w = v) → (m.insertAll l).get k = some v
  | x :: l, hmem, huniq => by
    rw [insertAll, List.foldr_cons, get_insert]
    by_cases hk : k = x.1
    · rw [if_pos hk, huniq x.2 (List.mem_cons.mpr (Or.inl (by rw [hk])))]
    · rw [if_neg hk]
      rcases List.mem_cons.mp hmem with rfl | hmem'
      · exact absurd rfl hk
      · exact get_insertAll_of_mem hmem' fun w hw => huniq w (List.mem_cons_of_mem _ hw)

theorem get_insertAll_of_forall {m : FinMap K V} {k : K} :
    ∀ {l : List (K × V)}, (∀ w, (k, w) ∉ l) → (m.insertAll l).get k = m.get k
  | [], _ => rfl
  | x :: l, h => by
    rw [insertAll, List.foldr_cons, get_insert, if_neg]
    · exact get_insertAll_of_forall fun w hw => h w (List.mem_cons_of_mem _ hw)
    · rintro rfl; exact h x.2 (List.mem_cons_self ..)

/-- Removing the keys of a list one by one. -/
theorem get_foldl_remove (l : List K) (m : FinMap K V) (k : K) :
    (l.foldl (fun m j => m.remove j) m).get k = if k ∈ l then none else m.get k := by
  induction l generalizing m with
  | nil => simp
  | cons j l ih =>
    rw [List.foldl_cons, ih, get_remove]
    by_cases hk : k = j
    · simp [hk]
    · simp [hk]

/-- `retain` removes the keys that do not satisfy `f` one by one. -/
theorem get_foldl_remove_filter (f : K → V → Bool) (m : FinMap K V) (k : K) :
    (((m.iter.filter fun e => !f e.1 e.2).map (·.1)).foldl (fun m j => m.remove j) m).get k =
      (m.retain f).get k := by
  rw [get_foldl_remove, get_retain]
  have hmem : k ∈ (m.iter.filter fun e => !f e.1 e.2).map (·.1) ↔
      ∃ v, m.get k = some v ∧ f k v = false := by
    rw [List.mem_map]
    constructor
    · rintro ⟨⟨k', v⟩, he, rfl⟩
      obtain ⟨hmem, hf⟩ := List.mem_filter.mp he
      exact ⟨v, mem_iter.mp hmem, by simpa using hf⟩
    · rintro ⟨v, hv, hf⟩
      exact ⟨(k, v), List.mem_filter.mpr ⟨mem_iter.mpr hv, by simp [hf]⟩, rfl⟩
  cases hk : m.get k with
  | none => rw [ite_self]; rfl
  | some v =>
    rw [Option.filter_some]
    cases hf : f k v with
    | true =>
      rw [if_neg]
      · rfl
      · intro hin
        obtain ⟨w, hw, hfalse⟩ := hmem.mp hin
        rw [hk] at hw
        rw [← Option.some.inj hw, hf] at hfalse
        cases hfalse
    | false => rw [if_pos (hmem.mpr ⟨v, hk, hf⟩)]; rfl

/-- Two maps, one of which has what `f` makes of the values of the other, show the same values. -/
theorem filterMap_iter_perm {W : Type v} {m : FinMap K V} {g : FinMap K W} {f : V → Option W}
    (h : ∀ k, g.get k = (m.get k).bind f) :
    (m.iter.filterMap fun e => f e.2).Perm (g.iter.map (·.2)) := by
  have hnodup : ∀ {l : List (K × W)}, l.Pairwise (fun x y => x.1 ≠ y.1) → l.Nodup :=
    fun hl => hl.imp fun hne heq => hne (by rw [heq])
  have hpairs : (m.iter.filterMap fun e => (f e.2).map fun w => (e.1, w)).Perm g.iter := by
    refine (List.perm_ext_iff_of_nodup (hnodup ?_) (hnodup g.pairwise_iter)).mpr ?_
    · refine List.pairwise_filterMap.mpr (m.pairwise_iter.imp ?_)
      intro x y hne a ha b hb heq
      obtain ⟨w, -, rfl⟩ := Option.map_eq_some_iff.mp ha
      obtain ⟨w', -, rfl⟩ := Option.map_eq_some_iff.mp hb
      exact hne heq
    · rintro ⟨k, w⟩
      rw [List.mem_filterMap, mem_iter, h k, Option.bind_eq_some_iff]
      constructor
      · rintro ⟨⟨k', v⟩, hmem, heq⟩
        obtain ⟨w', hw', heq'⟩ := Option.map_eq_some_iff.mp heq
        obtain ⟨rfl, rfl⟩ := Prod.mk.inj heq'
        exact ⟨v, mem_iter.mp hmem, hw'⟩
      · rintro ⟨v, hv, hw⟩
        exact ⟨(k, v), mem_iter.mpr hv, by rw [hw]; rfl⟩
  have hmap := hpairs.map (·.2)
  rw [List.map_filterMap] at hmap
  simpa only [Option.map_map, Function.comp_def, Option.map_id'] using hmap

end FinMap
