import Dibs.Os.Calls

/-! The name of a directory entry. A path that leads to a directory `q`, with one more component, leads
    to that entry of `q`: the links on the way are the same, and the last component is not followed.
    So `lstat` below a directory looks up one name in the tree, and it finds what `read_dir` lists. -/

namespace Dibs.Backing

/-- Where the entry `n` of the directory `q` is, or would be. -/
def below (t : FinMap Path Entry) (q : Path) (n : Name) : Walk :=
  match t.get (q ++ [n]) with
  | none => .missing q n
  | some _ => .found (q ++ [n])

variable {t : FinMap Path Entry} {n : Name}

/-- One more component after a walk that ends in a directory, or stops at a link. -/
theorem walk_below (hn : n ≠ dotdot) :
    ∀ (todo : List Name) (cur : Path),
      (∀ q, walk t true cur todo = .found q → (∀ o, q ≠ [] → t.get q ≠ some ⟨o, .file⟩) →
        walk t false cur (todo ++ [n]) = below t q n) ∧
      (∀ d r, walk t true cur todo = .link d r →
        walk t false cur (todo ++ [n]) = .link d (r ++ [n]))
  | [], cur => by
    refine ⟨fun q hq _ => ?_, fun d r h => by rw [walk] at h; cases h⟩
    obtain rfl := Walk.found.inj hq
    rw [List.nil_append, walk, if_neg hn, below]
    cases t.get (cur ++ [n]) with
    | none => simp
    | some e =>
      obtain ⟨o, k⟩ := e
      cases k <;> simp [walk]
  | m :: rest, cur => by
    have hne : rest ++ [n] ≠ [] := by simp
    rw [List.cons_append, walk, walk]
    by_cases hdd : m = dotdot
    · simp only [if_pos hdd]
      by_cases hc : cur = []
      · simp [hc]
      · simp only [if_neg hc]
        exact walk_below hn rest cur.dropLast
    · simp only [if_neg hdd]
      cases hg : t.get (cur ++ [m]) with
      | none =>
        simp only [if_neg hne]
        by_cases hr : rest = [] <;> simp [hr]
      | some e =>
        obtain ⟨o, k⟩ := e
        cases k with
        | dir => exact walk_below hn rest (cur ++ [m])
        | file =>
          simp only [if_neg hne]
          by_cases hr : rest = []
          · refine ⟨fun q hq hfile => ?_, fun d r h => by rw [if_pos hr] at h; cases h⟩
            -- a file has no entries
            rw [if_pos hr] at hq
            obtain rfl := Walk.found.inj hq
            exact absurd hg (hfile o (by simp))
          · simp [hr]
        | symlink tg =>
          simp only [hne, false_and, if_false, Bool.true_eq_false, and_false]
          by_cases hs : tg.head? = some slash
          · simp [hs]
          · simp only [if_neg hs]
            constructor
            · intro q hq
              cases hq
            · intro d r h
              obtain ⟨rfl, rfl⟩ := Walk.link.inj h
              rw [List.append_assoc]

theorem followLinks_below (hn : n ≠ dotdot) {q : Path}
    (hdir : ∀ o, q ≠ [] → t.get q ≠ some ⟨o, .file⟩) :
    ∀ (k : ℕ) (cur : Path) (todo : List Name), followLinks t true k cur todo = .found q →
      followLinks t false k cur (todo ++ [n]) = below t q n := by
  -- the outcome at the entry is final, whatever the fuel
  have hfinal : ∀ d r, below t q n ≠ .link d r := by
    intro d r
    rw [below]
    split <;> simp
  refine followLinks_induct (by simp) ?_ ?_
  · intro k cur todo hw
    exact followLinks_of_walk ((walk_below hn todo cur).1 q hw hdir) hfinal
  · intro k cur todo d r hw ih
    rw [followLinks_of_link ((walk_below hn todo cur).2 d r hw)]
    exact ih

variable {b b' : Backing} {p q : Path} {o : ℕ}

theorem resolve_entry (hn : n ≠ dotdot) (h : b.find true p = .ok (q, ⟨o, .dir⟩)) :
    b.resolve false (p ++ [n]) = below b.tree q n := by
  obtain ⟨hres, hent⟩ := find_ok_iff.mp h
  refine followLinks_below hn (fun o' hq hf => ?_) MAXSYMLINKS [] p hres
  rw [entry, if_neg hq, hf] at hent
  cases hent

/-- The entry of a directory, if it is there. -/
theorem find_entry_of_dir (hn : n ≠ dotdot) (h : b.find true p = .ok (q, ⟨o, .dir⟩)) :
    b.find false (p ++ [n]) =
      match b.tree.get (q ++ [n]) with
      | some e => .ok (q ++ [n], e)
      | none => .error .enoent := by
  have hent : b.entry (q ++ [n]) = b.tree.get (q ++ [n]) := if_neg (by simp)
  rw [find, resolve_entry hn h, below]
  cases hg : b.tree.get (q ++ [n]) with
  | none => rfl
  | some e => simp only [hent, hg]

/-! ### The names in a directory -/

variable {os : Os} {names : List Name}

/-- SPEC: `read_dir` gives the names of the entries of the directory. -/
theorem readDir_mem (h : b.readDir os p = .ok names) :
    ∃ q o, b.find true p = .ok (q, ⟨o, .dir⟩) ∧
      ∀ n, n ∈ names ↔ ∃ e, b.tree.get (q ++ [n]) = some e := by
  rw [readDir] at h
  split at h
  · cases h
  · split at h
    · cases h
    · rename_i q e hfind
      split at h
      · cases h
      · rename_i hkind
        obtain ⟨o, k⟩ := e
        obtain rfl : k = .dir := by simpa using hkind
        refine ⟨q, o, hfind, fun n => ?_⟩
        rw [← Except.ok.inj h, List.mem_insertionSort, List.mem_filterMap]
        constructor
        · rintro ⟨⟨k, f⟩, hk, hlast⟩
          split at hlast
          · rename_i hq
            obtain ⟨hne, heq⟩ := List.getLast?_eq_some_iff.mp hlast
            rw [heq, List.dropLast_concat] at hq
            rw [← hq]
            exact ⟨f, heq ▸ FinMap.mem_iter.mp hk⟩
          · cases hlast
        · rintro ⟨f, hf⟩
          exact ⟨(q ++ [n], f), FinMap.mem_iter.mpr hf, by simp⟩

theorem readDir_nodup (h : b.readDir os p = .ok names) : names.Nodup := by
  rw [readDir] at h
  split at h
  · cases h
  · split at h
    · cases h
    · rename_i q e hfind
      split at h
      · cases h
      · rw [← Except.ok.inj h]
        refine (List.perm_insertionSort _ _).nodup_iff.mpr ?_
        refine List.Pairwise.filterMap _ (fun x y hne n hn m hm heq => hne ?_)
          (FinMap.pairwise_iter b.tree)
        -- two names of the same directory with the same last component are one path
        split at hn
        · rename_i hx
          split at hm
          · rename_i hy
            obtain ⟨_, hx'⟩ := List.getLast?_eq_some_iff.mp hn
            obtain ⟨_, hy'⟩ := List.getLast?_eq_some_iff.mp hm
            rw [hx', List.dropLast_concat] at hx
            rw [hy', List.dropLast_concat] at hy
            rw [hx', hy', hx, hy, heq]
          · cases hm
        · cases hn

end Dibs.Backing
