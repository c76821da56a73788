import Dibs.Os.Calls

/-! The tree of names as the system keeps it: every name lies in a directory, and without hard links
    each inode number belongs to one path. The calls that add, remove or move a name keep it so, and a
    path that meets no symbolic link on its way leads where it says. -/

namespace Dibs.Backing
variable {b b' : Backing} {os : Os}

/-- A tree without hard links. Each name lies in a directory, the root has no name, and objects at
    different paths have different inode numbers, none of them the `1` of the mounted root. -/
structure Plain (b : Backing) : Prop where
  root : b.tree.get [] = none
  parent : ∀ p n e, b.tree.get (p ++ [n]) = some e →
    n ≠ dotdot ∧ ∃ o, b.entry p = some ⟨o, .dir⟩
  ino : ∀ p q e f, b.entry p = some e → b.entry q = some f →
    (b.attrOf e.obj).ino = (b.attrOf f.obj).ino → p = q
  free : ∀ p e, b.entry p = some e → (b.attrOf e.obj).ino ≠ 1

theorem entry_of_ne {p : Path} (h : p ≠ []) : b.entry p = b.tree.get p := if_neg h

/-- The root is the same in every tree, the other paths are looked up. -/
theorem entry_congr {p : Path} (h : p ≠ [] → b'.tree.get p = b.tree.get p) :
    b'.entry p = b.entry p := by
  by_cases hp : p = []
  · subst hp; rfl
  · rw [entry_of_ne hp, entry_of_ne hp, h hp]

theorem entry_concat (p : Path) (n : Name) : b.entry (p ++ [n]) = b.tree.get (p ++ [n]) :=
  entry_of_ne (List.append_ne_nil_of_right_ne_nil p (List.cons_ne_nil n []))

/-- What is above a name is a directory. -/
theorem Plain.dir_above (h : b.Plain) {p x : Path} {e : Entry} (hx : x ≠ [])
    (he : b.tree.get (p ++ x) = some e) : ∃ o, b.entry p = some ⟨o, .dir⟩ := by
  induction x using List.reverseRecOn generalizing e with
  | nil => exact absurd rfl hx
  | append_singleton y n ih =>
    rw [← List.append_assoc] at he
    obtain ⟨-, o, ho⟩ := h.parent (p ++ y) n e he
    by_cases hy : y = []
    · rw [hy, List.append_nil] at ho; exact ⟨o, ho⟩
    · rw [entry_of_ne (List.append_ne_nil_of_right_ne_nil p hy)] at ho
      exact ih hy ho

theorem Plain.dotdot_notMem (h : b.Plain) {p : Path} {e : Entry} (he : b.entry p = some e) :
    dotdot ∉ p := by
  induction p using List.reverseRecOn generalizing e with
  | nil => exact List.not_mem_nil
  | append_singleton p n ih =>
    rw [entry_concat] at he
    obtain ⟨hn, o, ho⟩ := h.parent p n e he
    rw [List.mem_append, List.mem_singleton]
    rintro (hp | hp)
    · exact ih ho hp
    · exact hn hp.symm

/-! ### Paths that meet no symbolic link -/

def isLink (t : FinMap Path Entry) (q : Path) : Bool :=
  match t.get q with
  | some ⟨_, .symlink _⟩ => true
  | _ => false

/-- No component is a symbolic link, and none is `..`. -/
def Direct (b : Backing) (p : Path) : Prop := dotdot ∉ p ∧ ∀ q ∈ p.inits, isLink b.tree q = false

instance (b : Backing) (p : Path) : Decidable (b.Direct p) :=
  inferInstanceAs (Decidable (_ ∧ _))

/-- The outcomes of a walk along `q` that does not leave it. -/
inductive OnPath (q : Path) : Walk → Prop where
  | found : OnPath q (.found q)
  | missing {d : Path} {m : Name} : q = d ++ [m] → OnPath q (.missing d m)
  | fail (e : Errno) : OnPath q (.fail e)

/-- A walk meets only the links on its path, the last component counting if it is followed. -/
theorem walk_onPath {t : FinMap Path Entry} {fl : Bool} :
    ∀ (todo : List Name) (cur : Path), dotdot ∉ todo →
      (∀ x n r, todo = x ++ n :: r → (r = [] → fl = true) → isLink t (cur ++ x ++ [n]) = false) →
      OnPath (cur ++ todo) (walk t fl cur todo)
  | [], cur, _, _ => by rw [walk, List.append_nil]; exact .found
  | n :: rest, cur, hdd, hlink => by
    obtain ⟨hn, hrest⟩ := not_or.mp (List.mem_cons.not.mp hdd)
    have hstep : ∀ x m r, rest = x ++ m :: r → (r = [] → fl = true) →
        isLink t (cur ++ [n] ++ x ++ [m]) = false := by
      intro x m r hr hfl
      rw [List.append_assoc cur]
      exact hlink (n :: x) m r (by rw [hr]; rfl) hfl
    have hcons : cur ++ n :: rest = cur ++ [n] ++ rest := by simp
    rw [walk, if_neg (Ne.symm hn)]
    cases hg : t.get (cur ++ [n]) with
    | none =>
      by_cases hr : rest = []
      · simp only [hr]; exact .missing rfl
      · simp only [if_neg hr]; exact .fail _
    | some e =>
      obtain ⟨o, k⟩ := e
      cases k with
      | dir => simp only; rw [hcons]; exact walk_onPath rest (cur ++ [n]) hrest hstep
      | file =>
        by_cases hr : rest = []
        · simp only [hr]; exact .found
        · simp only [if_neg hr]; exact .fail _
      | symlink tg =>
        by_cases hr : rest = [] ∧ fl = false
        · simp only [if_pos hr]; rw [hr.1]; exact .found
        · have hno := hlink [] n rest rfl (fun h => by simpa [h] using hr)
          simp [isLink, hg] at hno

theorem followLinks_onPath {t : FinMap Path Entry} {fl : Bool} {q cur : Path} {todo : List Name}
    (h : OnPath q (walk t fl cur todo)) (k : ℕ) : OnPath q (followLinks t fl k cur todo) := by
  cases k with
  | zero => rw [followLinks]; generalize walk t fl cur todo = w at h; cases h <;> constructor; assumption
  | succ k => rw [followLinks]; generalize walk t fl cur todo = w at h; cases h <;> constructor; assumption

theorem Direct.of_concat {p : Path} {n : Name} (h : b.Direct p) (hn : n ≠ dotdot) :
    dotdot ∉ p ++ [n] := by
  rw [List.mem_append, List.mem_singleton]
  rintro (hp | hp)
  · exact h.1 hp
  · exact hn hp.symm

/-- A name in a directory that is reached without links is resolved in that directory. -/
theorem resolve_below {p : Path} {n : Name} (h : b.Direct p) (hn : n ≠ dotdot) :
    OnPath (p ++ [n]) (b.resolve false (p ++ [n])) := by
  refine followLinks_onPath (walk_onPath (p ++ [n]) [] (h.of_concat hn) ?_) MAXSYMLINKS
  intro x m r heq hr
  refine h.2 _ ((List.mem_inits ..).mpr ?_)
  have hcat : x ++ [m] ++ r = p ++ [n] := by rw [heq]; simp
  rcases List.prefix_concat_iff.mp ⟨r, hcat⟩ with hall | hpre
  · -- the last component, which is not followed
    rw [hall] at hcat
    exact absurd (hr (by simpa using hcat)) Bool.false_ne_true
  · rw [List.nil_append]; exact hpre

/-- A path without links is resolved along itself, also where the last component is followed. -/
theorem resolve_direct {p : Path} (h : b.Direct p) (fl : Bool) : OnPath p (b.resolve fl p) := by
  refine followLinks_onPath (walk_onPath p [] h.1 fun x m r heq _ => ?_) MAXSYMLINKS
  exact h.2 _ ((List.mem_inits ..).mpr ⟨r, by rw [heq]; simp⟩)

theorem Direct.concat {p : Path} {n : Name} (h : b.Direct p) (hn : n ≠ dotdot)
    (hl : isLink b.tree (p ++ [n]) = false) : b.Direct (p ++ [n]) := by
  refine ⟨h.of_concat hn, fun q hq => ?_⟩
  rcases List.prefix_concat_iff.mp ((List.mem_inits ..).mp hq) with rfl | hpre
  · exact hl
  · exact h.2 q ((List.mem_inits ..).mpr hpre)

/-- Where the walk stands is a directory, so a name that is missing is missing in a directory. -/
theorem walk_dir (h : b.Plain) {fl : Bool} :
    ∀ (todo : List Name) (cur : Path), (∃ o, b.entry cur = some ⟨o, .dir⟩) →
      (∀ d m, walk b.tree fl cur todo = .missing d m →
        m ≠ dotdot ∧ ∃ o, b.entry d = some ⟨o, .dir⟩) ∧
      (∀ d r, walk b.tree fl cur todo = .link d r → ∃ o, b.entry d = some ⟨o, .dir⟩)
  | [], cur, _ => by simp [walk]
  | n :: rest, cur, hcur => by
    rw [walk]
    by_cases hdd : n = dotdot
    · rw [if_pos hdd]
      by_cases hc : cur = []
      · simp [hc]
      · rw [if_neg hc]
        obtain ⟨o, ho⟩ := hcur
        rw [entry_of_ne hc, ← List.dropLast_append_getLast hc] at ho
        exact walk_dir h rest cur.dropLast (h.parent _ _ _ ho).2
    · rw [if_neg hdd]
      cases hg : b.tree.get (cur ++ [n]) with
      | none =>
        by_cases hr : rest = []
        · simp only [hr, if_true]
          constructor
          · intro d m heq
            obtain ⟨rfl, rfl⟩ := Walk.missing.inj heq
            exact ⟨hdd, hcur⟩
          · intro d r heq; cases heq
        · simp [hr]
      | some e =>
        obtain ⟨o, k⟩ := e
        cases k with
        | dir => exact walk_dir h rest (cur ++ [n]) ⟨o, by rw [entry_concat]; exact hg⟩
        | file => by_cases hr : rest = [] <;> simp [hr]
        | symlink tg =>
          simp only
          split
          · simp
          · split
            · simp
            · constructor
              · intro d m heq; cases heq
              · intro d r heq
                obtain ⟨rfl, -⟩ := Walk.link.inj heq
                exact hcur

theorem followLinks_dir (h : b.Plain) {fl : Bool} {d : Path} {m : Name} :
    ∀ (k : ℕ) (cur : Path) (todo : List Name), followLinks b.tree fl k cur todo = .missing d m →
      (∃ o, b.entry cur = some ⟨o, .dir⟩) → m ≠ dotdot ∧ ∃ o, b.entry d = some ⟨o, .dir⟩ := by
  refine followLinks_induct (by simp) ?_ ?_
  · intro k cur todo hw hcur
    exact (walk_dir h todo cur hcur).1 d m hw
  · intro k cur todo d' r hw ih hcur
    exact ih ((walk_dir h todo cur hcur).2 d' r hw)

theorem resolve_missing_dir (h : b.Plain) {fl : Bool} {p d : Path} {m : Name}
    (hres : b.resolve fl p = .missing d m) : m ≠ dotdot ∧ ∃ o, b.entry d = some ⟨o, .dir⟩ :=
  followLinks_dir h MAXSYMLINKS [] p hres ⟨0, rfl⟩

/-! ### The path of an object leads to it -/

theorem Plain.walk_entry (h : b.Plain) {fl : Bool} {e : Entry}
    (hfl : fl = true → ∀ t, e.kind ≠ .symlink t) :
    ∀ (todo : List Name) (cur : Path), b.entry (cur ++ todo) = some e →
      walk b.tree fl cur todo = .found (cur ++ todo)
  | [], cur, _ => by rw [walk, List.append_nil]
  | n :: rest, cur, he => by
    have hcons : cur ++ n :: rest = cur ++ [n] ++ rest := by simp
    have hn : n ≠ dotdot := by
      rintro rfl
      exact h.dotdot_notMem he (List.mem_append_right _ (List.mem_cons_self ..))
    rw [hcons] at he ⊢
    rw [walk, if_neg hn]
    by_cases hr : rest = []
    · subst hr
      rw [List.append_nil, entry_concat] at he
      obtain ⟨o, k⟩ := e
      simp only [he, List.append_nil, true_and, if_true]
      cases k with
      | dir => rfl
      | file => rfl
      | symlink tg =>
        cases fl with
        | false => rfl
        | true => exact absurd rfl (hfl rfl tg)
    · have hdir := h.dir_above hr (by rwa [entry_of_ne (by simp)] at he)
      obtain ⟨o, ho⟩ := hdir
      rw [entry_concat] at ho
      simp only [ho]
      exact h.walk_entry hfl rest (cur ++ [n]) he

theorem Plain.find_entry (h : b.Plain) {fl : Bool} {p : Path} {e : Entry} (he : b.entry p = some e)
    (hfl : fl = true → ∀ t, e.kind ≠ .symlink t) : b.find fl p = .ok (p, e) := by
  refine find_ok_iff.mpr ⟨?_, he⟩
  have hwalk := h.walk_entry hfl p [] he
  rw [resolve, MAXSYMLINKS, followLinks, hwalk]
  rfl

/-! ### Names are added, removed and moved -/

theorem entry_lt {p : Path} {e : Entry} (he : b.entry p = some e) : e.obj < b.nextObj := by
  rw [entry] at he
  split at he
  · cases he; exact b.root_lt
  · exact b.tree_lt p e he

theorem ne_of_inoUsed {n : ℕ} (h : b.inoUsed n = false) {p : Path} {e : Entry}
    (he : b.entry p = some e) : (b.attrOf e.obj).ino ≠ n := by
  simp only [inoUsed, Bool.or_eq_false_iff, beq_eq_false_iff_ne] at h
  rw [entry] at he
  split at he
  · cases he; exact h.1.1
  · have hany := List.any_eq_false.mp h.1.2 (p, e) (FinMap.mem_iter.mpr he)
    simpa using hany

/-- A new object with the inode number `n` has been linked in the directory `d`. -/
structure Links (b b' : Backing) (d : Path) (m : Name) (n : ℕ) : Prop where
  dir : ∃ o, b.entry d = some ⟨o, .dir⟩
  name : m ≠ dotdot
  absent : b.tree.get (d ++ [m]) = none
  unused : b.inoUsed n = false
  tree : ∃ k, b'.tree = b.tree.insert (d ++ [m]) ⟨b.nextObj, k⟩
  ino : ∀ o, (b'.attrOf o).ino = if o = b.nextObj then n else (b.attrOf o).ino

/-- A name with nothing below it has been removed. -/
structure Unlinks (b b' : Backing) (p : Path) : Prop where
  leaf : ∀ x e, b.tree.get (p ++ x) = some e → x = []
  tree : ∀ k, b'.tree.get k = if k = p then none else b.tree.get k
  ino : ∀ o, (b'.attrOf o).ino = (b.attrOf o).ino

/-- The object at `p`, with everything below it, has been moved to `q`. -/
structure Moves (b b' : Backing) (p q : Path) : Prop where
  source : p ≠ []
  apart : ¬ p <+: q
  dir : ∃ d m o, q = d ++ [m] ∧ m ≠ dotdot ∧ b.entry d = some ⟨o, .dir⟩
  tree : ∀ k, b'.tree.get k =
    if q <+: k then b.tree.get (p ++ k.drop q.length)
    else if p <+: k then none
    else b.tree.get k
  ino : ∀ o, (b'.attrOf o).ino = (b.attrOf o).ino

/-- What has a name afterwards is the new object, or had that name before. -/
theorem Links.entry_cases {d : Path} {m : Name} {n : ℕ} (h : Links b b' d m n) {p : Path} {e : Entry}
    (he : b'.entry p = some e) :
    (p = d ++ [m] ∧ (b'.attrOf e.obj).ino = n) ∨
      (b.entry p = some e ∧ (b'.attrOf e.obj).ino = (b.attrOf e.obj).ino) := by
  obtain ⟨k, htree⟩ := h.tree
  by_cases hp : p = d ++ [m]
  · left
    rw [hp, entry_concat, htree, FinMap.get_insert_self] at he
    refine ⟨hp, ?_⟩
    rw [h.ino, ← Option.some.inj he, if_pos rfl]
  · right
    have hsame : b'.entry p = b.entry p :=
      entry_congr fun _ => by rw [htree, FinMap.get_insert, if_neg hp]
    have hold : b.entry p = some e := hsame ▸ he
    exact ⟨hold, by rw [h.ino, if_neg (Nat.ne_of_lt (entry_lt hold))]⟩

theorem Links.entry_mono {d : Path} {m : Name} {n : ℕ} (h : Links b b' d m n) {p : Path} {e : Entry}
    (he : b.entry p = some e) : b'.entry p = some e := by
  obtain ⟨k, htree⟩ := h.tree
  exact Backing.entry_mono (by rw [htree]; exact Extends.insert _ h.absent) he

theorem Links.plain {d : Path} {m : Name} {n : ℕ} (h : Links b b' d m n) (hb : b.Plain)
    (hn : n ≠ 1) : b'.Plain where
  root := by
    obtain ⟨k, htree⟩ := h.tree
    rw [htree, FinMap.get_insert, if_neg (by simp), hb.root]
  parent := by
    intro p x e he
    rw [← entry_concat] at he
    rcases h.entry_cases he with ⟨heq, -⟩ | ⟨hold, -⟩
    · obtain ⟨rfl, rfl⟩ : p = d ∧ x = m := by simpa using heq
      obtain ⟨o, ho⟩ := h.dir
      exact ⟨h.name, o, h.entry_mono ho⟩
    · rw [entry_concat] at hold
      obtain ⟨hx, o, ho⟩ := hb.parent p x e hold
      exact ⟨hx, o, h.entry_mono ho⟩
  ino := by
    intro p q e f he hf heq
    rcases h.entry_cases he with ⟨rfl, hi⟩ | ⟨hold, hi⟩
    · rcases h.entry_cases hf with ⟨rfl, -⟩ | ⟨hold', hi'⟩
      · rfl
      · exact absurd (by rw [← hi', ← heq, hi]) (ne_of_inoUsed h.unused hold')
    · rcases h.entry_cases hf with ⟨rfl, hi'⟩ | ⟨hold', hi'⟩
      · exact absurd (by rw [← hi, heq, hi']) (ne_of_inoUsed h.unused hold)
      · exact hb.ino p q e f hold hold' (by rw [← hi, heq, hi'])
  free := by
    intro p e he
    rcases h.entry_cases he with ⟨-, hi⟩ | ⟨hold, hi⟩
    · rw [hi]; exact hn
    · rw [hi]; exact hb.free p e hold

theorem Unlinks.entry_of {p : Path} (h : Unlinks b b' p) {q : Path} {e : Entry}
    (he : b'.entry q = some e) : b.entry q = some e := by
  rw [← he]
  refine (entry_congr fun hq => ?_).symm
  rw [entry_of_ne hq, h.tree] at he
  split at he
  · cases he
  · rename_i hne; rw [h.tree, if_neg hne]

theorem Unlinks.plain {p : Path} (h : Unlinks b b' p) (hb : b.Plain) : b'.Plain where
  root := by rw [h.tree, hb.root, ite_self]
  parent := by
    intro q n e he
    rw [h.tree] at he
    split at he
    · cases he
    · obtain ⟨hn, o, ho⟩ := hb.parent q n e he
      have hne : q ≠ p := by
        rintro rfl
        exact absurd (h.leaf [n] e he) (List.cons_ne_nil n [])
      exact ⟨hn, o, (entry_congr fun _ => by rw [h.tree, if_neg hne]).trans ho⟩
  ino := by
    intro q r e f he hf heq
    rw [h.ino, h.ino] at heq
    exact hb.ino q r e f (h.entry_of he) (h.entry_of hf) heq
  free := by
    intro q e he
    rw [h.ino]
    exact hb.free q e (h.entry_of he)

theorem Moves.target_ne {p q : Path} (h : Moves b b' p q) : q ≠ [] := by
  obtain ⟨d, m, o, rfl, -, -⟩ := h.dir
  exact List.append_ne_nil_of_right_ne_nil d (List.cons_ne_nil m [])

/-- Where the object at `k` was before the move. -/
theorem Moves.entry_cases {p q : Path} (h : Moves b b' p q) {k : Path} {e : Entry}
    (he : b'.entry k = some e) :
    (∃ x, k = q ++ x ∧ b.entry (p ++ x) = some e) ∨
      (¬ q <+: k ∧ ¬ p <+: k ∧ b.entry k = some e) := by
  by_cases hk : k = []
  · subst hk
    refine Or.inr ⟨?_, ?_, he⟩
    · rw [List.prefix_nil]; exact h.target_ne
    · rw [List.prefix_nil]; exact h.source
  · rw [entry_of_ne hk, h.tree] at he
    split at he
    · rename_i hpre
      obtain ⟨x, rfl⟩ := hpre
      rw [List.drop_left] at he
      exact Or.inl ⟨x, rfl, by rw [entry_of_ne (by simp [h.source])]; exact he⟩
    · rename_i hpre
      split at he
      · cases he
      · rename_i hpre'
        exact Or.inr ⟨hpre, hpre', by rw [entry_of_ne hk]; exact he⟩

theorem Moves.entry_moved {p q x : Path} (h : Moves b b' p q) {e : Entry}
    (he : b.entry (p ++ x) = some e) : b'.entry (q ++ x) = some e := by
  rw [entry_of_ne (by simp [h.source])] at he
  rw [entry_of_ne (by simp [h.target_ne]), h.tree, if_pos (List.prefix_append q x), List.drop_left, he]

theorem Moves.entry_kept {p q k : Path} (h : Moves b b' p q) {e : Entry} (hq : ¬ q <+: k)
    (hp : ¬ p <+: k) (he : b.entry k = some e) : b'.entry k = some e :=
  (entry_congr fun _ => by rw [h.tree, if_neg hq, if_neg hp]).trans he

theorem Moves.plain {p q : Path} (h : Moves b b' p q) (hb : b.Plain) : b'.Plain where
  root := by
    rw [h.tree, if_neg (by simp [h.target_ne]), if_neg (by simp [h.source]), hb.root]
  parent := by
    intro k n e he
    rw [← entry_concat] at he
    rcases h.entry_cases he with ⟨x, hk, hold⟩ | ⟨hq, hp, hold⟩
    · by_cases hx : x = []
      · -- `q` itself: its directory is neither moved nor below `q`
        obtain ⟨d, m, o, hqd, hm, ho⟩ := h.dir
        rw [hx, List.append_nil, hqd] at hk
        obtain ⟨rfl, rfl⟩ : k = d ∧ n = m := by simpa using hk
        refine ⟨hm, o, h.entry_kept ?_ ?_ ho⟩
        · rintro ⟨y, hy⟩
          have hlen := congrArg List.length hy
          rw [hqd] at hlen
          simp at hlen
        · intro hpd
          exact h.apart (hqd ▸ hpd.trans (List.prefix_append k [n]))
      · obtain ⟨y, z, rfl⟩ : ∃ y z, x = y ++ [z] :=
          ⟨x.dropLast, x.getLast hx, (List.dropLast_append_getLast hx).symm⟩
        rw [← List.append_assoc] at hk hold
        obtain ⟨rfl, hn⟩ := List.append_inj' hk rfl
        obtain rfl := List.singleton_inj.mp hn
        rw [entry_concat] at hold
        obtain ⟨hn, o, ho⟩ := hb.parent (p ++ y) n e hold
        exact ⟨hn, o, h.entry_moved ho⟩
    · rw [entry_concat] at hold
      obtain ⟨hn, o, ho⟩ := hb.parent k n e hold
      exact ⟨hn, o, h.entry_kept (fun hqk => hq (hqk.trans (List.prefix_append k [n])))
        (fun hpk => hp (hpk.trans (List.prefix_append k [n]))) ho⟩
  ino := by
    intro k l e f he hf heq
    rw [h.ino, h.ino] at heq
    rcases h.entry_cases he with ⟨x, rfl, hx⟩ | ⟨-, hp, hk⟩
    · rcases h.entry_cases hf with ⟨y, rfl, hy⟩ | ⟨-, hp', hl⟩
      · have hsame := hb.ino _ _ e f hx hy heq
        rw [List.append_cancel_left hsame]
      · have hsame := hb.ino _ _ e f hx hl heq
        exact absurd (hsame ▸ List.prefix_append p x) hp'
    · rcases h.entry_cases hf with ⟨y, rfl, hy⟩ | ⟨-, hp', hl⟩
      · have hsame := hb.ino _ _ e f hk hy heq
        exact absurd (hsame ▸ List.prefix_append p y) hp
      · exact hb.ino k l e f hk hl heq
  free := by
    intro k e he
    rw [h.ino]
    rcases h.entry_cases he with ⟨x, -, hx⟩ | ⟨-, -, hk⟩
    · exact hb.free _ e hx
    · exact hb.free _ e hk

/-! ### The calls that change names -/

theorem newObject_links {d : Path} {m : Name} (k : Kind) {a : Attr}
    (hdir : ∃ o, b.entry d = some ⟨o, .dir⟩) (hm : m ≠ dotdot) (habsent : b.tree.get (d ++ [m]) = none)
    (hused : b.inoUsed a.ino = false) : Links b (b.newObject (d ++ [m]) k a) d m a.ino := by
  refine ⟨hdir, hm, habsent, hused, ⟨k, rfl⟩, fun o => ?_⟩
  simp only [attrOf, newObject, FinMap.get_insert]
  split <;> rfl

theorem makeObject_links (hb : b.Plain) {p q : Path} {k : Kind} {mode : ℕ}
    (h : b.makeObject os p k mode = .ok (b', q)) :
    ∃ d m, b.resolve false p = .missing d m ∧ Links b b' d m os.ino := by
  obtain ⟨d, m, hres, hused, hnone, rfl⟩ := makeObject_ok h
  obtain ⟨hm, hdir⟩ := resolve_missing_dir hb hres
  exact ⟨d, m, hres, newObject_links k hdir hm hnone hused⟩

theorem mkdir_links (hb : b.Plain) {p : Path} {mode : ℕ} (h : b.mkdir os p mode = .ok b') :
    ∃ d m, b.resolve false p = .missing d m ∧ Links b b' d m os.ino := by
  obtain ⟨q, hm⟩ := mkdir_ok h
  exact makeObject_links hb hm

theorem symlink_links (hb : b.Plain) {p : Path} {target : Bytes}
    (h : b.symlink os target p = .ok b') :
    ∃ d m, b.resolve false p = .missing d m ∧ Links b b' d m os.ino := by
  obtain ⟨q, hm⟩ := symlink_ok h
  exact makeObject_links hb hm

/-- `libc::open` opens what the path leads to, or a file it links where the path ends. -/
theorem libcOpen_links (hb : b.Plain) {p : Path} {flags : OpenFlags} {mode : ℕ} {fd : ℤ}
    (h : b.libcOpen os p flags mode = .ok (b', fd)) :
    ∃ fl f, b'.fds.get fd = some f ∧
      ((∃ q, b.resolve fl p = .found q ∧ b.entry q = some ⟨f.obj, f.kind⟩ ∧ b'.tree = b.tree ∧
          b'.attrs = b.attrs) ∨
        ∃ d m, b.resolve fl p = .missing d m ∧ Links b b' d m os.ino ∧ f.obj = b.nextObj) := by
  unfold libcOpen at h
  split at h
  · cases h
  · split at h
    · cases h
    · simp only at h
      split at h
      · rename_i q hres
        split at h
        · cases h
        · split at h
          · cases h
          · rename_i o hent
            obtain ⟨rfl, rfl⟩ := Prod.mk.inj (Except.ok.inj h)
            refine ⟨_, ⟨o, .file, flags⟩, ?_, Or.inl ⟨q, hres, hent, ?_, ?_⟩⟩
            · split <;> exact FinMap.get_insert_self ..
            · split <;> rfl
            · split <;> rfl
          · rename_i o hent
            split at h
            · cases h
            · obtain ⟨rfl, rfl⟩ := Prod.mk.inj (Except.ok.inj h)
              exact ⟨_, ⟨o, .dir, flags⟩, FinMap.get_insert_self .., Or.inl ⟨q, hres, hent, rfl, rfl⟩⟩
          · cases h
      · rename_i d m hres
        split at h
        · cases h
        · split at h
          · cases h
          · rename_i hused
            obtain ⟨rfl, rfl⟩ := Prod.mk.inj (Except.ok.inj h)
            obtain ⟨hm, hdir⟩ := resolve_missing_dir hb hres
            have hlinks := newObject_links .file (a := { ino := os.ino, mode := mode }) hdir hm
              (followLinks_missing MAXSYMLINKS [] p hres).1 (eq_false_of_ne_true hused)
            exact ⟨_, ⟨b.nextObj, .file, flags⟩, FinMap.get_insert_self .., Or.inr ⟨d, m, hres,
              ⟨hlinks.dir, hlinks.name, hlinks.absent, hlinks.unused, hlinks.tree, hlinks.ino⟩, rfl⟩⟩
      · cases h
      · cases h

theorem unlink_unlinks (hb : b.Plain) {p : Path} (h : b.unlink os p = .ok b') :
    ∃ q, Unlinks b b' q := by
  obtain ⟨q, e, hfind, hkind, rfl⟩ := unlink_cases h
  refine ⟨q, fun x f hx => ?_, fun k => FinMap.get_remove .., fun o => rfl⟩
  by_contra hne
  obtain ⟨o, ho⟩ := hb.dir_above hne hx
  rw [entry_of_find hfind] at ho
  cases ho
  exact hkind rfl

theorem hasChildren_false {q x : Path} {e : Entry} (h : b.hasChildren q = false)
    (he : b.tree.get (q ++ x) = some e) : x = [] := by
  have hany := List.any_eq_false.mp h (q ++ x, e) (FinMap.mem_iter.mpr he)
  simpa using hany

theorem rmdir_unlinks {p : Path} (h : b.rmdir os p = .ok b') : ∃ q, Unlinks b b' q := by
  obtain ⟨q, hchild, rfl⟩ := rmdir_cases h
  exact ⟨q, fun x f hx => hasChildren_false hchild hx, fun k => FinMap.get_remove .., fun o => rfl⟩

theorem get_moveNames (t : FinMap Path Entry) (p q k : Path) :
    (moveNames t p q).get k =
      if q <+: k then t.get (p ++ k.drop q.length)
      else if p <+: k then none
      else t.get k := by
  -- the pairs that are put in: what is below `p`, under its new name
  have hmem : ∀ k e, (k, e) ∈ (t.iter.filter fun e => p.isPrefixOf e.1).map
      (fun e => (q ++ e.1.drop p.length, e.2)) ↔ ∃ x, k = q ++ x ∧ t.get (p ++ x) = some e := by
    intro k e
    simp only [List.mem_map, List.mem_filter, List.isPrefixOf_iff_prefix, Prod.exists, Prod.mk.injEq]
    constructor
    · rintro ⟨j, f, ⟨hf, x, rfl⟩, rfl, rfl⟩
      exact ⟨x, by rw [List.drop_left], FinMap.mem_iter.mp hf⟩
    · rintro ⟨x, rfl, hx⟩
      exact ⟨p ++ x, e, ⟨FinMap.mem_iter.mpr hx, List.prefix_append p x⟩, by rw [List.drop_left], rfl⟩
  rw [moveNames]
  by_cases hq : q <+: k
  · obtain ⟨x, rfl⟩ := hq
    rw [if_pos (List.prefix_append q x), List.drop_left]
    cases hx : t.get (p ++ x) with
    | some e =>
      refine FinMap.get_insertAll_of_mem ((hmem _ _).mpr ⟨x, rfl, hx⟩) fun f hf => ?_
      obtain ⟨y, heq, hy⟩ := (hmem _ _).mp hf
      rw [← List.append_cancel_left heq, hx] at hy
      exact (Option.some.inj hy).symm
    | none =>
      rw [FinMap.get_insertAll_of_forall, FinMap.get_retain]
      · simp [Option.filter_eq_none_iff]
      · intro f hf
        obtain ⟨y, heq, hy⟩ := (hmem _ _).mp hf
        rw [← List.append_cancel_left heq, hx] at hy
        cases hy
  · rw [if_neg hq, FinMap.get_insertAll_of_forall, FinMap.get_retain]
    · by_cases hp : p <+: k
      · rw [if_pos hp]
        simp [Option.filter_eq_none_iff, hp]
      · rw [if_neg hp]
        cases t.get k with
        | none => rfl
        | some e =>
          rw [← List.isPrefixOf_iff_prefix, Bool.not_eq_true] at hp hq
          simp [hp, hq]
    · intro f hf
      obtain ⟨x, rfl, -⟩ := (hmem _ _).mp hf
      exact hq (List.prefix_append q x)

/-- `libc::rename` moves what the old name leads to, unless both names lead to the same object. -/
theorem rename_moves (hb : b.Plain) {old new : Path} (h : b.rename os old new = .ok b') :
    ∃ p q e, b.find false old = .ok (p, e) ∧ b.ends new q ∧
      ((b' = b ∧ p = q) ∨ Moves b b' p q) := by
  cases rename_out h with
  | same p q e e' hfind hfind' hobj =>
    refine ⟨p, q, e, hfind, Or.inl (find_ok_iff.mp hfind').1, Or.inl ⟨rfl, ?_⟩⟩
    exact hb.ino p q e e' (entry_of_find hfind) (entry_of_find hfind') (by rw [hobj])
  | moved p q e hfind hends hroot hinside hother =>
    have hp := entry_of_find hfind
    have hdir : p ≠ q ∧ ∃ d m o, q = d ++ [m] ∧ m ≠ dotdot ∧ b.entry d = some ⟨o, .dir⟩ := by
      rcases hends with hres | ⟨d, m, rfl, hres⟩
      · obtain ⟨e', he', hobj, hchild⟩ := hother hres
        have hne : p ≠ q := by
          rintro rfl
          rw [hp] at he'
          exact hobj (by rw [Option.some.inj he'])
        have hq : q ≠ [] := by
          -- the root is a directory that is not empty
          rintro rfl
          obtain rfl : ⟨0, .dir⟩ = e' := Option.some.inj he'
          rw [entry_of_ne hne] at hp
          exact hne (hasChildren_false (hchild rfl) hp)
        rw [entry_of_ne hq, ← List.dropLast_append_getLast hq] at he'
        obtain ⟨hm, o, ho⟩ := hb.parent _ _ _ he'
        exact ⟨hne, _, _, o, (List.dropLast_append_getLast hq).symm, hm, ho⟩
      · obtain ⟨hm, o, ho⟩ := resolve_missing_dir hb hres
        refine ⟨?_, d, m, o, rfl, hm, ho⟩
        rintro rfl
        rw [entry_concat, (followLinks_missing MAXSYMLINKS [] new hres).1] at hp
        cases hp
    refine ⟨p, q, e, hfind, hends, Or.inr ⟨hroot, fun hpq => hinside ⟨hpq, hdir.1⟩, hdir.2, ?_, ?_⟩⟩
    · exact get_moveNames b.tree p q
    · exact fun _ => rfl

end Dibs.Backing
