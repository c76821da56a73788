import Dibs.Os.Backing

/-! Path resolution when the tree grows: a path that resolved keeps resolving to the same object when
    a new name is linked, and a path whose last component was missing leads to the object that is
    linked there. The system calls that only change contents leave every resolution alone. -/

namespace Dibs.Backing

/-- Every name of `t` still refers to the same object in `t'`. -/
def Extends (t t' : FinMap Path Entry) : Prop := ∀ p e, t.get p = some e → t'.get p = some e

theorem Extends.insert {t : FinMap Path Entry} {q : Path} (e : Entry) (h : t.get q = none) :
    Extends t (t.insert q e) := by
  intro p e' hp
  rw [FinMap.get_insert]
  split
  · rename_i heq; rw [heq, h] at hp; cases hp
  · exact hp

/-- A walk that meets no missing component is the same in a larger tree. -/
theorem walk_mono {t t' : FinMap Path Entry} (ht : Extends t t') (fl : Bool) :
    ∀ (todo : List Name) (cur : Path),
      (∀ q, walk t fl cur todo = .found q → walk t' fl cur todo = .found q) ∧
      (∀ d r, walk t fl cur todo = .link d r → walk t' fl cur todo = .link d r)
  | [], cur => by simp [walk]
  | n :: rest, cur => by
    unfold walk
    by_cases hdd : n = dotdot
    · simp only [if_pos hdd]
      by_cases hc : cur = []
      · simp [hc]
      · simp only [if_neg hc]; exact walk_mono ht fl rest cur.dropLast
    · simp only [if_neg hdd]
      cases hg : t.get (cur ++ [n]) with
      | none => by_cases hr : rest = [] <;> simp [hr]
      | some e =>
        rw [ht _ _ hg]
        obtain ⟨o, k⟩ := e
        cases k with
        | dir => exact walk_mono ht fl rest (cur ++ [n])
        | file => exact ⟨fun _ h => h, fun _ _ h => h⟩
        | symlink tg => exact ⟨fun _ h => h, fun _ _ h => h⟩

/-- Where a walk reports a missing last component there is no name, and linking a file there makes
    the walk find it. -/
theorem walk_missing {t : FinMap Path Entry} {fl : Bool} {d : Path} {m : Name} :
    ∀ (todo : List Name) (cur : Path), walk t fl cur todo = .missing d m →
      t.get (d ++ [m]) = none ∧
      ∀ t' fl' o, Extends t t' → t'.get (d ++ [m]) = some ⟨o, .file⟩ →
        walk t' fl' cur todo = .found (d ++ [m])
  | [], cur => by simp [walk]
  | n :: rest, cur => by
    intro h
    unfold walk at h
    by_cases hdd : n = dotdot
    · rw [if_pos hdd] at h
      by_cases hc : cur = []
      · simp [hc] at h
      · rw [if_neg hc] at h
        obtain ⟨h1, h2⟩ := walk_missing rest cur.dropLast h
        refine ⟨h1, fun t' fl' o ht hn => ?_⟩
        unfold walk
        rw [if_pos hdd, if_neg hc]
        exact h2 t' fl' o ht hn
    · rw [if_neg hdd] at h
      cases hg : t.get (cur ++ [n]) with
      | none =>
        simp only [hg] at h
        by_cases hr : rest = []
        · rw [if_pos hr] at h
          obtain ⟨rfl, rfl⟩ := Walk.missing.inj h
          refine ⟨hg, fun t' fl' o _ hn => ?_⟩
          unfold walk
          simp only [if_neg hdd, hn, if_pos hr]
        · rw [if_neg hr] at h; cases h
      | some e =>
        obtain ⟨o, k⟩ := e
        simp only [hg] at h
        cases k with
        | dir =>
          simp only at h
          obtain ⟨h1, h2⟩ := walk_missing rest (cur ++ [n]) h
          refine ⟨h1, fun t' fl' o' ht hn => ?_⟩
          unfold walk
          simp only [if_neg hdd, ht _ _ hg]
          exact h2 t' fl' o' ht hn
        | file => simp only at h; split at h <;> cases h
        | symlink tg =>
          simp only at h
          split at h
          · cases h
          · split at h <;> cases h

/-- Only the last component tells a walk that follows it from one that does not. -/
theorem walk_follow {t : FinMap Path Entry} :
    ∀ (todo : List Name) (cur : Path), (∀ q, walk t false cur todo ≠ .found q) →
      walk t true cur todo = walk t false cur todo
  | [], cur => by simp [walk]
  | n :: rest, cur => by
    intro h
    unfold walk at h ⊢
    by_cases hdd : n = dotdot
    · simp only [if_pos hdd] at h ⊢
      by_cases hc : cur = []
      · simp [hc]
      · simp only [if_neg hc] at h ⊢; exact walk_follow rest cur.dropLast h
    · simp only [if_neg hdd] at h ⊢
      cases hg : t.get (cur ++ [n]) with
      | none => rfl
      | some e =>
        obtain ⟨o, k⟩ := e
        simp only [hg] at h
        cases k with
        | dir => exact walk_follow rest (cur ++ [n]) h
        | file => rfl
        | symlink tg =>
          simp only at h ⊢
          by_cases hr : rest = []
          · simp [hr] at h
          · simp [hr]

/-- A walk that does not end at a symbolic link ends there also when it follows the last
    component. -/
theorem walk_found_follow {t : FinMap Path Entry} {q : Path}
    (hq : ∀ o tg, q ≠ [] → t.get q ≠ some ⟨o, .symlink tg⟩) :
    ∀ (todo : List Name) (cur : Path), walk t false cur todo = .found q →
      walk t true cur todo = .found q
  | [], cur => by simp [walk]
  | n :: rest, cur => by
    intro h
    unfold walk at h ⊢
    by_cases hdd : n = dotdot
    · rw [if_pos hdd] at h ⊢
      by_cases hc : cur = []
      · simp [hc] at h
      · rw [if_neg hc] at h ⊢; exact walk_found_follow hq rest cur.dropLast h
    · rw [if_neg hdd] at h ⊢
      cases hg : t.get (cur ++ [n]) with
      | none => simp only [hg] at h; split at h <;> cases h
      | some e =>
        obtain ⟨o, k⟩ := e
        simp only [hg] at h
        cases k with
        | dir => exact walk_found_follow hq rest (cur ++ [n]) h
        | file => exact h
        | symlink tg =>
          simp only at h
          split at h
          · cases h; exact absurd hg (hq o tg (by simp))
          · split at h <;> cases h

/-! ### Following links -/

section
variable {t : FinMap Path Entry} {fl : Bool} {w : Walk} {k : ℕ} {cur d : Path} {todo r : List Name}

theorem followLinks_of_walk (h : walk t fl cur todo = w) (hlink : ∀ d r, w ≠ .link d r) :
    followLinks t fl k cur todo = w := by
  cases k with
  | zero =>
    rw [followLinks, h]
    split
    · exact absurd rfl (hlink _ _)
    · rfl
  | succ k =>
    rw [followLinks, h]
    split
    · exact absurd rfl (hlink _ _)
    · rfl

theorem followLinks_of_link (h : walk t fl cur todo = .link d r) :
    followLinks t fl (k + 1) cur todo = followLinks t fl k d r := by
  rw [followLinks, h]

/-- Induction on the links followed: what the walks between them keep holds where following ends
    with `w`, unless it ends because there are too many links. -/
theorem followLinks_induct {motive : ℕ → Path → List Name → Prop}
    (hloop : w ≠ .fail .eloop)
    (here : ∀ k cur todo, walk t fl cur todo = w → motive k cur todo)
    (link : ∀ k cur todo d r, walk t fl cur todo = .link d r → motive k d r →
      motive (k + 1) cur todo) :
    ∀ k cur todo, followLinks t fl k cur todo = w → motive k cur todo := by
  intro k
  induction k with
  | zero =>
    intro cur todo h
    rw [followLinks] at h
    split at h
    · exact absurd h.symm hloop
    · exact here 0 cur todo h
  | succ k ih =>
    intro cur todo h
    rw [followLinks] at h
    split at h
    · rename_i d r hw; exact link k cur todo d r hw (ih d r h)
    · exact here (k + 1) cur todo h

end

theorem followLinks_mono {t t' : FinMap Path Entry} (ht : Extends t t') {fl : Bool} {q : Path} :
    ∀ (k : ℕ) (cur : Path) (todo : List Name),
      followLinks t fl k cur todo = .found q → followLinks t' fl k cur todo = .found q := by
  refine followLinks_induct (by simp) ?_ ?_
  · intro k cur todo hw
    exact followLinks_of_walk ((walk_mono ht fl todo cur).1 q hw) (by simp)
  · intro k cur todo d r hw ih
    rw [followLinks_of_link ((walk_mono ht fl todo cur).2 d r hw)]
    exact ih

theorem followLinks_missing {t : FinMap Path Entry} {fl : Bool} {d : Path} {m : Name} :
    ∀ (k : ℕ) (cur : Path) (todo : List Name), followLinks t fl k cur todo = .missing d m →
      t.get (d ++ [m]) = none ∧
      ∀ t' fl' o, (fl' = false → fl = false) → Extends t t' →
        t'.get (d ++ [m]) = some ⟨o, .file⟩ →
        followLinks t' fl' k cur todo = .found (d ++ [m]) := by
  refine followLinks_induct (by simp) ?_ ?_
  · intro k cur todo hw
    obtain ⟨hnone, hfound⟩ := walk_missing todo cur hw
    exact ⟨hnone, fun t' fl' o _ ht hn => followLinks_of_walk (hfound t' fl' o ht hn) (by simp)⟩
  · intro k cur todo d' r hw ih
    obtain ⟨hnone, hfound⟩ := ih
    refine ⟨hnone, fun t' fl' o hfl ht hn => ?_⟩
    -- the link is met whether or not the last component is followed
    have hlink : walk t fl' cur todo = .link d' r := by
      cases fl' with
      | false => rw [← hfl rfl]; exact hw
      | true =>
        cases fl with
        | true => exact hw
        | false => rw [walk_follow todo cur (by simp [hw])]; exact hw
    rw [followLinks_of_link ((walk_mono ht fl' todo cur).2 d' r hlink)]
    exact hfound t' fl' o hfl ht hn

theorem followLinks_found_follow {t : FinMap Path Entry} {q : Path}
    (hq : ∀ o tg, q ≠ [] → t.get q ≠ some ⟨o, .symlink tg⟩) :
    ∀ (k : ℕ) (cur : Path) (todo : List Name),
      followLinks t false k cur todo = .found q → followLinks t true k cur todo = .found q := by
  refine followLinks_induct (by simp) ?_ ?_
  · intro k cur todo hw
    exact followLinks_of_walk (walk_found_follow hq todo cur hw) (by simp)
  · intro k cur todo d r hw ih
    rw [followLinks_of_link ((walk_follow todo cur (by simp [hw])).trans hw)]
    exact ih

/-! ### The file a path leads to -/

theorem find_ok_iff {b : Backing} {fl : Bool} {p q : Path} {e : Entry} :
    b.find fl p = .ok (q, e) ↔ b.resolve fl p = .found q ∧ b.entry q = some e := by
  unfold find
  cases b.resolve fl p with
  | found q' => cases he : b.entry q' <;> aesop
  | missing d m => simp
  | link d r => simp
  | fail e' => simp

/-- Following the last component makes no difference where a path does not lead to a link. -/
theorem find_follow {b : Backing} {p q : Path} {e : Entry} (h : b.find false p = .ok (q, e))
    (he : ∀ tg, e.kind ≠ .symlink tg) : b.find true p = .ok (q, e) := by
  obtain ⟨hres, hent⟩ := find_ok_iff.mp h
  refine find_ok_iff.mpr ⟨followLinks_found_follow ?_ MAXSYMLINKS [] p hres, hent⟩
  intro o tg hq hg
  rw [entry, if_neg hq, hg] at hent
  obtain rfl := Option.some.inj hent
  exact he tg rfl

/-- Resolution only looks at names. -/
theorem find_congr {b b' : Backing} (h : b'.tree = b.tree) (fl : Bool) (p : Path) :
    b'.find fl p = b.find fl p := by
  simp only [find, resolve, entry, h]

theorem fileAt_eq_some {b : Backing} {p : Path} {o : ℕ} :
    b.fileAt p = some o ↔ ∃ q, b.resolve true p = .found q ∧ b.entry q = some ⟨o, .file⟩ := by
  unfold fileAt
  cases hf : b.find true p with
  | error e =>
    simp only [reduceCtorEq, false_iff]
    rintro ⟨q, hq⟩
    rw [find_ok_iff.mpr hq] at hf
    cases hf
  | ok x =>
    obtain ⟨q, o', k⟩ := x
    obtain ⟨h1, h2⟩ := find_ok_iff.mp hf
    cases k <;> simp [h1, h2]

theorem fileAt_congr {b b' : Backing} (h : b'.tree = b.tree) (p : Path) :
    b'.fileAt p = b.fileAt p := by
  rw [fileAt, fileAt, find_congr h]

theorem entry_mono {b b' : Backing} (h : Extends b.tree b'.tree) {p : Path} {e : Entry}
    (he : b.entry p = some e) : b'.entry p = some e := by
  unfold entry at he ⊢
  by_cases hp : p = []
  · rw [if_pos hp] at he ⊢; exact he
  · rw [if_neg hp] at he ⊢; exact h p e he

theorem fileAt_lt {b : Backing} {p : Path} {o : ℕ} (h : b.fileAt p = some o) : o < b.nextObj := by
  obtain ⟨q, -, he⟩ := fileAt_eq_some.mp h
  unfold entry at he
  split at he
  · cases he
  · exact b.tree_lt q _ he

theorem content_congr {b b' : Backing} {p : Path} (ht : b'.fileAt p = b.fileAt p)
    (hd : ∀ o, b.fileAt p = some o → b'.dataOf o = b.dataOf o) : b'.content p = b.content p := by
  unfold content
  rw [ht]
  cases ho : b.fileAt p with
  | none => rfl
  | some o => simp [hd o ho]

/-! ### The object a path leads to -/

/-- The object at the end of a path, links followed. -/
def target (b : Backing) (p : Path) : Option Entry :=
  match b.find true p with
  | .ok (_, e) => some e
  | .error _ => none

theorem target_eq_some {b : Backing} {p : Path} {e : Entry} :
    b.target p = some e ↔ ∃ q, b.resolve true p = .found q ∧ b.entry q = some e := by
  rw [target]
  cases hf : b.find true p with
  | error e' =>
    simp only [reduceCtorEq, false_iff]
    rintro ⟨q, hq⟩
    rw [find_ok_iff.mpr hq] at hf
    cases hf
  | ok x =>
    obtain ⟨q, e'⟩ := x
    obtain ⟨h1, h2⟩ := find_ok_iff.mp hf
    simp [h1, h2]

theorem fileAt_iff_target {b : Backing} {p : Path} {o : ℕ} :
    b.fileAt p = some o ↔ b.target p = some ⟨o, .file⟩ := by
  rw [fileAt_eq_some, target_eq_some]

theorem target_congr {b b' : Backing} (h : b'.tree = b.tree) (p : Path) :
    b'.target p = b.target p := by
  rw [target, target, find_congr h]

/-- A path keeps its object when the tree grows. -/
theorem target_mono {b b' : Backing} (h : Extends b.tree b'.tree) {p : Path} {e : Entry}
    (he : b.target p = some e) : b'.target p = some e := by
  obtain ⟨q, hq, hent⟩ := target_eq_some.mp he
  exact target_eq_some.mpr ⟨q, followLinks_mono h MAXSYMLINKS [] p hq, entry_mono h hent⟩

/-! ### Projections of the elementary changes -/

variable (b : Backing)

@[simp] theorem tree_setData (o : ℕ) (d : Bytes) : (b.setData o d).tree = b.tree := rfl
@[simp] theorem fds_setData (o : ℕ) (d : Bytes) : (b.setData o d).fds = b.fds := rfl
@[simp] theorem nextObj_setData (o : ℕ) (d : Bytes) : (b.setData o d).nextObj = b.nextObj := rfl
@[simp] theorem tree_close (fd : ℤ) : (b.close fd).tree = b.tree := rfl
@[simp] theorem dataOf_close (fd : ℤ) (o : ℕ) : (b.close fd).dataOf o = b.dataOf o := rfl
@[simp] theorem nextObj_close (fd : ℤ) : (b.close fd).nextObj = b.nextObj := rfl
@[simp] theorem fileAt_setData (o : ℕ) (d : Bytes) (p : Path) :
    (b.setData o d).fileAt p = b.fileAt p := fileAt_congr rfl p
@[simp] theorem fileAt_close (fd : ℤ) (p : Path) : (b.close fd).fileAt p = b.fileAt p :=
  fileAt_congr rfl p

theorem dataOf_setData (o : ℕ) (d : Bytes) (o' : ℕ) :
    (b.setData o d).dataOf o' = if o' = o then d else b.dataOf o' := by
  simp only [dataOf, setData, FinMap.get_insert]
  split <;> rfl

theorem attrOf_setAttr (o : ℕ) (f : Attr → Attr) (o' : ℕ) :
    (b.setAttr o f).attrOf o' = if o' = o then f (b.attrOf o) else b.attrOf o' := by
  simp only [attrOf, setAttr, FinMap.get_insert]
  split <;> rfl

theorem fds_close (fd fd' : ℤ) :
    (b.close fd).fds.get fd' = if fd' = fd then none else b.fds.get fd' := FinMap.get_remove ..

theorem dataOf_newObject (p : Path) (k : Kind) (a : Attr) (o : ℕ) :
    (b.newObject p k a).dataOf o = if o = b.nextObj then [] else b.dataOf o := by
  simp only [dataOf, newObject, FinMap.get_insert]
  split <;> rfl

end Dibs.Backing
