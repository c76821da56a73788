import Dibs.Os.Resolve

/-! What each system call can do, said once: which names, contents and descriptors it may change.
    The handlers' proofs use these lemmas and never unfold a call. -/

namespace Dibs.Backing
variable {b b' : Backing} {os : Os}

/-- Only attributes differ, and no inode number. -/
structure SameFiles (b b' : Backing) : Prop where
  tree : b'.tree = b.tree
  data : ∀ o, b'.dataOf o = b.dataOf o
  ino : ∀ o, (b'.attrOf o).ino = (b.attrOf o).ino
  fds : b'.fds = b.fds
  nextObj : b'.nextObj = b.nextObj

theorem SameFiles.rfl : SameFiles b b :=
  ⟨Eq.refl _, fun _ => Eq.refl _, fun _ => Eq.refl _, Eq.refl _, Eq.refl _⟩

theorem SameFiles.trans {b'' : Backing} (h : SameFiles b b') (h' : SameFiles b' b'') :
    SameFiles b b'' :=
  ⟨h'.tree.trans h.tree, fun o => (h'.data o).trans (h.data o),
    fun o => (h'.ino o).trans (h.ino o), h'.fds.trans h.fds, h'.nextObj.trans h.nextObj⟩

/-- Nothing that was there is lost: names, contents and descriptors of old objects stay, only new
    names for new objects are added. -/
structure Grows (b b' : Backing) : Prop where
  tree : Extends b.tree b'.tree
  data : ∀ o, o < b.nextObj → b'.dataOf o = b.dataOf o
  fds : b'.fds = b.fds

theorem Grows.rfl : Grows b b := ⟨fun _ _ h => h, fun _ _ => Eq.refl _, Eq.refl _⟩

/-- `libc::open` on a regular file that exists: a new descriptor for the file the path leads to, and
    an empty file if `O_TRUNC` is set. -/
structure OpensFile (b b' : Backing) (p : Path) (flags : OpenFlags) (fd : ℤ) (o : ℕ) : Prop where
  file : b.fileAt p = some o
  tree : b'.tree = b.tree
  data : ∀ o', b'.dataOf o' = if hasFlag flags O_TRUNC = true ∧ o' = o then [] else b.dataOf o'
  attrs : b'.attrs = b.attrs
  fds : ∀ fd', b'.fds.get fd' = if fd' = fd then some ⟨o, .file, flags⟩ else b.fds.get fd'
  nextObj : b'.nextObj = b.nextObj

/-- `libc::open` on a directory: only a new descriptor. -/
structure OpensDir (b b' : Backing) (p : Path) (flags : OpenFlags) (fd : ℤ) : Prop where
  mode : accessMode flags = O_RDONLY
  creat : hasFlag flags O_CREAT = false
  noFile : b.fileAt p = none
  tree : b'.tree = b.tree
  data : ∀ o', b'.dataOf o' = b.dataOf o'
  fds : ∃ o, b.target p = some ⟨o, .dir⟩ ∧
    ∀ fd', b'.fds.get fd' = if fd' = fd then some ⟨o, .dir, flags⟩ else b.fds.get fd'
  nextObj : b'.nextObj = b.nextObj

/-- `libc::open` that creates an empty file. -/
structure CreatesFile (b b' : Backing) (p : Path) (flags : OpenFlags) (fd : ℤ) : Prop where
  creat : hasFlag flags O_CREAT = true
  noFile : b.fileAt p = none
  file : b'.fileAt p = some b.nextObj
  tree : Extends b.tree b'.tree
  data : ∀ o', b'.dataOf o' = if o' = b.nextObj then [] else b.dataOf o'
  fds : ∀ fd', b'.fds.get fd' =
    if fd' = fd then some ⟨b.nextObj, .file, flags⟩ else b.fds.get fd'
  nextObj : b'.nextObj = b.nextObj + 1

theorem fileAt_eq_none_of_resolve {p : Path} (h : ∀ q, b.resolve true p ≠ .found q) :
    b.fileAt p = none := by
  cases ho : b.fileAt p with
  | none => rfl
  | some o =>
    obtain ⟨q, hq, -⟩ := fileAt_eq_some.mp ho
    exact absurd hq (h q)

/-- Where a resolution that does not follow the last component reports it missing, there is no
    file for the one that does. -/
theorem followLinks_missing_follow {t : FinMap Path Entry} {d : Path} {m : Name} :
    ∀ (k : ℕ) (cur : Path) (todo : List Name), followLinks t false k cur todo = .missing d m →
      followLinks t true k cur todo = .missing d m := by
  refine followLinks_induct (by simp) ?_ ?_
  · intro k cur todo hw
    exact followLinks_of_walk ((walk_follow todo cur (by simp [hw])).trans hw) (by simp)
  · intro k cur todo d' r hw ih
    rw [followLinks_of_link ((walk_follow todo cur (by simp [hw])).trans hw)]
    exact ih

theorem resolve_missing_follow {fl : Bool} {p d : Path} {m : Name}
    (h : b.resolve fl p = .missing d m) : b.resolve true p = .missing d m := by
  cases fl with
  | true => exact h
  | false => exact followLinks_missing_follow MAXSYMLINKS [] p h

/-- A new file at the missing end of a path is what the path leads to afterwards. -/
theorem fileAt_newObject {fl : Bool} {p d : Path} {m : Name} (h : b.resolve fl p = .missing d m)
    (hb : b'.tree = b.tree.insert (d ++ [m]) ⟨b.nextObj, .file⟩) :
    b'.fileAt p = some b.nextObj ∧ Extends b.tree b'.tree := by
  have hmiss := followLinks_missing MAXSYMLINKS [] p (resolve_missing_follow h)
  have hext : Extends b.tree b'.tree := by rw [hb]; exact Extends.insert _ hmiss.1
  have hget : b'.tree.get (d ++ [m]) = some ⟨b.nextObj, .file⟩ := by
    rw [hb, FinMap.get_insert_self]
  have hres : b'.resolve true p = .found (d ++ [m]) :=
    hmiss.2 b'.tree true b.nextObj (by simp) hext hget
  refine ⟨fileAt_eq_some.mpr ⟨d ++ [m], hres, ?_⟩, hext⟩
  simpa [entry] using hget

/-- SPEC: what `libc::open` can do. -/
theorem libcOpen_cases {p : Path} {flags : OpenFlags} {mode : ℕ} {fd : ℤ}
    (h : b.libcOpen os p flags mode = .ok (b', fd)) :
    fd = os.fd ∧ b.fds.get fd = none ∧
      ((∃ o, OpensFile b b' p flags fd o) ∨ OpensDir b b' p flags fd ∨
        CreatesFile b b' p flags fd) := by
  unfold libcOpen at h
  split at h
  · cases h
  · split at h
    · cases h
    · rename_i hfd
      have hfree : b.fds.get os.fd = none := by simpa using hfd
      simp only at h
      split at h
      · rename_i q hres
        split at h
        · cases h
        · rename_i hexcl
          simp only [hexcl, Bool.not_false] at hres
          split at h
          · cases h
          · rename_i o hent
            obtain ⟨rfl, rfl⟩ := Prod.mk.inj (Except.ok.inj h)
            refine ⟨rfl, hfree, Or.inl ⟨o, fileAt_eq_some.mpr ⟨q, hres, hent⟩, ?_, ?_, ?_, ?_, ?_⟩⟩
            · split <;> rfl
            · intro o'
              by_cases ht : hasFlag flags O_TRUNC = true
              · simp only [ht, if_true, dataOf_setData, true_and]; rfl
              · simp only [ht]; rfl
            · split <;> rfl
            · intro fd'
              split <;> exact FinMap.get_insert ..
            · split <;> rfl
          · rename_i o hent
            split at h
            · cases h
            · rename_i hmode
              obtain ⟨rfl, rfl⟩ := Prod.mk.inj (Except.ok.inj h)
              have hnone : b.fileAt p = none := by
                cases ho : b.fileAt p with
                | none => rfl
                | some o' =>
                  obtain ⟨q', hq', he'⟩ := fileAt_eq_some.mp ho
                  rw [hres] at hq'
                  cases hq'
                  rw [hent] at he'
                  cases he'
              refine ⟨rfl, hfree, Or.inr (Or.inl ⟨?_, ?_, hnone, rfl, fun _ => rfl, ⟨o, ?_, ?_⟩, rfl⟩)⟩
              · by_contra hne; exact hmode (Or.inl hne)
              · by_contra hne; exact hmode (Or.inr (Or.inl (by simpa using hne)))
              · exact target_eq_some.mpr ⟨q, hres, hent⟩
              · intro fd'; exact FinMap.get_insert ..
          · cases h
      · rename_i d m hres
        split at h
        · cases h
        · split at h
          · cases h
          · rename_i hcreat _
            obtain ⟨rfl, rfl⟩ := Prod.mk.inj (Except.ok.inj h)
            have hnew := @fileAt_newObject b ((b.newObject (d ++ [m]) .file
              { ino := os.ino, mode := mode }).addFd os.fd (d ++ [m]) b.nextObj .file flags
                entry_newObject) _ _ _ _ hres rfl
            refine ⟨rfl, hfree, Or.inr (Or.inr ⟨by simpa using hcreat, ?_, hnew.1, hnew.2, ?_, ?_,
              rfl⟩)⟩
            · apply fileAt_eq_none_of_resolve
              intro q hq
              rw [resolve_missing_follow hres] at hq
              cases hq
            · intro o'; exact b.dataOf_newObject (d ++ [m]) .file { ino := os.ino, mode := mode } o'
            · intro fd'; exact FinMap.get_insert ..
      · cases h
      · cases h

/-- SPEC: `libc::open` adds one descriptor, for the object the path leads to afterwards. -/
theorem libcOpen_target {p : Path} {flags : OpenFlags} {mode : ℕ} {fd : ℤ}
    (h : b.libcOpen os p flags mode = .ok (b', fd)) :
    Extends b.tree b'.tree ∧ ∃ o k, b'.target p = some ⟨o, k⟩ ∧
      ∀ fd', b'.fds.get fd' = if fd' = fd then some ⟨o, k, flags⟩ else b.fds.get fd' := by
  obtain ⟨-, -, ⟨o, hfile⟩ | hdir | hnew⟩ := libcOpen_cases h
  · refine ⟨fun q e hq => by rw [hfile.tree]; exact hq, o, .file, ?_, hfile.fds⟩
    rw [target_congr hfile.tree]
    exact fileAt_iff_target.mp hfile.file
  · obtain ⟨o, htarget, hfds⟩ := hdir.fds
    exact ⟨fun q e hq => by rw [hdir.tree]; exact hq, o, .dir,
      (target_congr hdir.tree p).trans htarget, hfds⟩
  · exact ⟨hnew.tree, b.nextObj, .file, fileAt_iff_target.mp hnew.file, hnew.fds⟩

/-- A descriptor that was just opened can be looked up. -/
theorem libcOpen_fd {p : Path} {flags : OpenFlags} {mode : ℕ} {fd : ℤ}
    (h : b.libcOpen os p flags mode = .ok (b', fd)) : b'.fds.get fd ≠ none := by
  obtain ⟨-, o, k, -, hfds⟩ := libcOpen_target h
  rw [hfds, if_pos rfl]
  simp

/-- With `O_CREAT`, names are added exactly if there was no file. -/
theorem libcOpen_tree_iff {p : Path} {flags : OpenFlags} {mode : ℕ} {fd : ℤ}
    (h : b.libcOpen os p flags mode = .ok (b', fd)) (hc : hasFlag flags O_CREAT = true) :
    b'.tree = b.tree ↔ b.fileAt p ≠ none := by
  obtain ⟨-, -, ⟨o, hfile⟩ | hdir | hnew⟩ := libcOpen_cases h
  · simp [hfile.tree, hfile.file]
  · rw [hdir.creat] at hc; cases hc
  · constructor
    · intro heq
      rw [← fileAt_congr heq, hnew.file]
      simp
    · intro hne; exact absurd hnew.noFile hne

/-- SPEC: `libc::pwrite` changes the content of the descriptor's object. -/
theorem pwrite_cases {fd : ℤ} {off n : ℕ} {d : Bytes} (h : b.pwrite os fd off d = .ok (b', n)) :
    ∃ f d', b.fds.get fd = some f ∧ accessMode f.flags ≠ O_RDONLY ∧ b' = b.setData f.obj d' := by
  unfold pwrite at h
  split at h
  · cases h
  · split at h
    · cases h
    · rename_i f hf
      split at h
      · cases h
      · rename_i hmode
        split at h
        · cases h
        · exact ⟨f, _, hf, hmode, (Prod.mk.inj (Except.ok.inj h)).1.symm⟩

/-- SPEC: `libc::ftruncate` changes the content of the descriptor's object. -/
theorem ftruncate_cases {fd : ℤ} {size : ℕ} (h : b.ftruncate os fd size = .ok b') :
    ∃ f, b.fds.get fd = some f ∧ accessMode f.flags ≠ O_RDONLY ∧
      b' = b.setData f.obj (resize (b.dataOf f.obj) size) := by
  unfold ftruncate at h
  split at h
  · cases h
  · split at h
    · cases h
    · rename_i f hf
      split at h
      · cases h
      · rename_i hmode
        exact ⟨f, hf, fun hm => hmode (Or.inl hm), (Except.ok.inj h).symm⟩

/-- SPEC: `libc::truncate` changes the content of the file the path leads to. -/
theorem truncate_cases {p : Path} {size : ℕ} (h : b.truncate os p size = .ok b') :
    ∃ o, b.fileAt p = some o ∧ b' = b.setData o (resize (b.dataOf o) size) := by
  unfold truncate at h
  split at h
  · cases h
  · split at h
    · cases h
    · rename_i q e hfind
      split at h
      · cases h
      · rename_i hkind
        split at h
        · cases h
        · obtain ⟨h1, h2⟩ := find_ok_iff.mp hfind
          obtain ⟨o, k⟩ := e
          have hk : k = .file := by simpa using hkind
          subst hk
          exact ⟨o, fileAt_eq_some.mpr ⟨q, h1, h2⟩, (Except.ok.inj h).symm⟩

/-- A change of attributes edits those of the object at the end of the path. -/
theorem changeAttr_ok {call : Syscall} {p : Path} {f : Attr → Attr}
    (h : b.changeAttr os call p f = .ok b') :
    ∃ q e, b.find true p = .ok (q, e) ∧ b' = b.setAttr e.obj f := by
  unfold changeAttr at h
  split at h
  · cases h
  · split at h
    · cases h
    · rename_i q e hfind
      exact ⟨q, e, hfind, (Except.ok.inj h).symm⟩

theorem changeAttr_tree {call : Syscall} {p : Path} {f : Attr → Attr}
    (h : b.changeAttr os call p f = .ok b') : b'.tree = b.tree := by
  obtain ⟨q, e, -, rfl⟩ := changeAttr_ok h
  rfl

theorem changeAttr_same {call : Syscall} {p : Path} {f : Attr → Attr}
    (h : b.changeAttr os call p f = .ok b') (hf : ∀ a, (f a).ino = a.ino) : SameFiles b b' := by
  obtain ⟨q, e, -, rfl⟩ := changeAttr_ok h
  refine ⟨rfl, fun _ => rfl, fun o => ?_, rfl, rfl⟩
  rw [attrOf_setAttr]
  split
  · rename_i heq; rw [heq, hf]
  · rfl

/-- A made object is new, at a name that was not there, with an inode number that was free. -/
theorem makeObject_ok {p q : Path} {k : Kind} {mode : ℕ}
    (h : b.makeObject os p k mode = .ok (b', q)) :
    ∃ d m, b.resolve false p = .missing d m ∧ b.inoUsed os.ino = false ∧
      b.tree.get (d ++ [m]) = none ∧
      b' = b.newObject (d ++ [m]) k { ino := os.ino, mode := mode } := by
  unfold makeObject at h
  split at h
  · cases h
  · rename_i d m hres
    split at h
    · cases h
    · rename_i hused
      obtain ⟨rfl, -⟩ := Prod.mk.inj (Except.ok.inj h)
      exact ⟨d, m, hres, eq_false_of_ne_true hused, (followLinks_missing MAXSYMLINKS [] p hres).1, rfl⟩
  · cases h
  · cases h

theorem mkdir_ok {p : Path} {mode : ℕ} (h : b.mkdir os p mode = .ok b') :
    ∃ q, b.makeObject os p .dir mode = .ok (b', q) := by
  unfold mkdir at h
  split at h
  · cases h
  · cases hm : b.makeObject os p .dir mode with
    | error e => rw [hm] at h; cases h
    | ok x => rw [hm] at h; cases h; exact ⟨x.2, rfl⟩

theorem symlink_ok {p : Path} {target : Bytes} (h : b.symlink os target p = .ok b') :
    ∃ q, b.makeObject os p (.symlink target) 0 = .ok (b', q) := by
  unfold symlink at h
  split at h
  · cases h
  · cases hm : b.makeObject os p (.symlink target) 0 with
    | error e => rw [hm] at h; cases h
    | ok x => rw [hm] at h; cases h; exact ⟨x.2, rfl⟩

theorem makeObject_grows {p q : Path} {k : Kind} {mode : ℕ}
    (h : b.makeObject os p k mode = .ok (b', q)) : Grows b b' := by
  obtain ⟨d, m, -, -, hnone, rfl⟩ := makeObject_ok h
  refine ⟨Extends.insert _ hnone, fun o ho => ?_, rfl⟩
  rw [dataOf_newObject, if_neg (Nat.ne_of_lt ho)]

theorem makeObject_tree_ne {p q : Path} {k : Kind} {mode : ℕ}
    (h : b.makeObject os p k mode = .ok (b', q)) : b'.tree ≠ b.tree := by
  obtain ⟨d, m, -, -, hnone, rfl⟩ := makeObject_ok h
  intro heq
  have hnew : (b.newObject (d ++ [m]) k { ino := os.ino, mode := mode }).tree.get (d ++ [m]) =
      some ⟨b.nextObj, k⟩ := FinMap.get_insert_self ..
  rw [heq, hnone] at hnew
  cases hnew

theorem mkdir_tree_ne {p : Path} {mode : ℕ} (h : b.mkdir os p mode = .ok b') : b'.tree ≠ b.tree := by
  obtain ⟨q, hm⟩ := mkdir_ok h
  exact makeObject_tree_ne hm

theorem symlink_tree_ne {p : Path} {target : Bytes} (h : b.symlink os target p = .ok b') :
    b'.tree ≠ b.tree := by
  obtain ⟨q, hm⟩ := symlink_ok h
  exact makeObject_tree_ne hm

theorem mkdir_grows {p : Path} {mode : ℕ} (h : b.mkdir os p mode = .ok b') : Grows b b' := by
  obtain ⟨q, hm⟩ := mkdir_ok h
  exact makeObject_grows hm

theorem symlink_grows {p : Path} {target : Bytes} (h : b.symlink os target p = .ok b') :
    Grows b b' := by
  obtain ⟨q, hm⟩ := symlink_ok h
  exact makeObject_grows hm

/-- Only names differ. -/
structure SameData (b b' : Backing) : Prop where
  data : ∀ o, b'.dataOf o = b.dataOf o
  fds : b'.fds = b.fds
  nextObj : b'.nextObj = b.nextObj

/-- SPEC: `libc::unlink` takes away the name at the end of the path, unless that is a directory. -/
theorem unlink_cases {p : Path} (h : b.unlink os p = .ok b') :
    ∃ q e, b.find false p = .ok (q, e) ∧ e.kind ≠ .dir ∧ b' = b.unname q := by
  unfold unlink at h
  split at h
  · cases h
  · split at h
    · cases h
    · rename_i q e hfind
      split at h
      · cases h
      · rename_i hkind
        exact ⟨q, e, hfind, hkind, (Except.ok.inj h).symm⟩

/-- SPEC: `libc::rmdir` takes away the name of an empty directory. -/
theorem rmdir_cases {p : Path} (h : b.rmdir os p = .ok b') :
    ∃ q, b.hasChildren q = false ∧ b' = b.unname q := by
  unfold rmdir at h
  split at h
  · cases h
  · split at h
    · cases h
    · rename_i q e hfind
      split at h
      · cases h
      · split at h
        · cases h
        · split at h
          · cases h
          · rename_i hchild
            exact ⟨q, eq_false_of_ne_true hchild, (Except.ok.inj h).symm⟩

/-- The end of a path, there or not. -/
def ends (b : Backing) (p q : Path) : Prop :=
  b.resolve false p = .found q ∨ ∃ d m, q = d ++ [m] ∧ b.resolve false p = .missing d m

/-- Outcomes of `libc::rename` when it succeeds. -/
inductive RenameOut (b : Backing) (old new : Path) : Backing → Prop where
  /-- two names of one object -/
  | same (p q : Path) (e e' : Entry) : b.find false old = .ok (p, e) →
      b.find false new = .ok (q, e') → e'.obj = e.obj → RenameOut b old new b
  /-- what the new name leads to, if anything, is another object, and no directory with entries -/
  | moved (p q : Path) (e : Entry) : b.find false old = .ok (p, e) → b.ends new q → p ≠ [] →
      ¬ (p <+: q ∧ p ≠ q) →
      (b.resolve false new = .found q → ∃ e', b.entry q = some e' ∧ e'.obj ≠ e.obj ∧
        (e'.kind = .dir → b.hasChildren q = false)) →
      RenameOut b old new { b with
        tree := moveNames b.tree p q
        tree_lt := moveNames_lt b.tree_lt }

/-- SPEC: the list is complete. -/
theorem rename_out {old new : Path} (h : b.rename os old new = .ok b') : b.RenameOut old new b' := by
  unfold rename at h
  split at h
  · cases h
  · split at h
    · cases h
    · rename_i p e hfind
      have hmove : ∀ q, b.ends new q →
          (b.resolve false new = .found q → ∃ e', b.entry q = some e' ∧ e'.obj ≠ e.obj ∧
            (e'.kind = .dir → b.hasChildren q = false)) →
          (if p = [] ∨ (p <+: q ∧ p ≠ q) then (.error .einval : Except Errno Backing)
            else .ok { b with
              tree := moveNames b.tree p q
              tree_lt := moveNames_lt b.tree_lt }) = .ok b' → b.RenameOut old new b' := by
        intro q hends hother heq
        split at heq
        · cases heq
        · rename_i hcond
          obtain ⟨hroot, hinside⟩ := not_or.mp hcond
          cases heq
          exact .moved p q e hfind hends hroot hinside hother
      simp only at h
      split at h
      · rename_i d m hres
        exact hmove _ (Or.inr ⟨d, m, rfl, hres⟩) (fun hfound => by rw [hres] at hfound; cases hfound) h
      · rename_i q hres
        split at h
        · cases h
        · rename_i e' he'
          split at h
          · rename_i hobj
            cases h
            exact .same p q e e' hfind (find_ok_iff.mpr ⟨hres, he'⟩) hobj
          · rename_i hobj
            split at h
            · cases h
            · split at h
              · cases h
              · split at h
                · cases h
                · rename_i hchild
                  refine hmove q (Or.inl hres) (fun _ => ⟨e', he', hobj, fun hdir => ?_⟩) h
                  exact eq_false_of_ne_true fun htrue => hchild ⟨hdir, htrue⟩
      · cases h
      · cases h

theorem unlink_sameData {p : Path} (h : b.unlink os p = .ok b') : SameData b b' := by
  obtain ⟨q, e, -, -, rfl⟩ := unlink_cases h
  exact ⟨fun _ => rfl, rfl, rfl⟩

theorem rmdir_sameData {p : Path} (h : b.rmdir os p = .ok b') : SameData b b' := by
  obtain ⟨q, -, rfl⟩ := rmdir_cases h
  exact ⟨fun _ => rfl, rfl, rfl⟩

theorem rename_sameData {old new : Path} (h : b.rename os old new = .ok b') : SameData b b' := by
  cases rename_out h with
  | same p q e e' _ _ _ => exact ⟨fun _ => rfl, rfl, rfl⟩
  | moved p q e _ _ _ _ _ => exact ⟨fun _ => rfl, rfl, rfl⟩

/-- SPEC: `opendir` only adds the descriptor it returns, if it returns one. -/
theorem opendir_cases {p : Path} {fd : ℤ} (h : b.opendir os p = .ok (b', fd)) :
    b'.tree = b.tree ∧ (∀ o, b'.dataOf o = b.dataOf o) ∧ b'.nextObj = b.nextObj ∧
      ((fd = -1 ∧ b'.fds = b.fds) ∨
        (fd = os.fd ∧ b.fds.get fd = none ∧ ∃ f, ∀ fd', b'.fds.get fd' =
          if fd' = fd then some f else b.fds.get fd')) := by
  unfold opendir at h
  split at h
  · cases h
  · split at h
    · cases h
    · split at h
      · cases h
      · split at h
        · rename_i hdup
          obtain ⟨rfl, rfl⟩ := Prod.mk.inj (Except.ok.inj h)
          exact ⟨rfl, fun _ => rfl, rfl, Or.inr ⟨rfl, hdup.2, _, fun fd' => FinMap.get_insert ..⟩⟩
        · obtain ⟨rfl, rfl⟩ := Prod.mk.inj (Except.ok.inj h)
          exact ⟨rfl, fun _ => rfl, rfl, Or.inl ⟨rfl, rfl⟩⟩

/-- SPEC: `std::fs::write` changes no old content but that of the file at its path. -/
theorem fsWrite_spec (b : Backing) (os : Os) (p : Path) (d : Bytes) :
    Extends b.tree (b.fsWrite os p d).tree ∧ (b.fsWrite os p d).fds = b.fds ∧
      ∀ o, o < b.nextObj → (b.fsWrite os p d).dataOf o =
        if b.fileAt p = some o ∧ os.saved ≠ none then d.take (os.saved.getD 0)
        else b.dataOf o := by
  unfold fsWrite
  cases hs : os.saved with
  | none => exact ⟨fun _ _ h => h, rfl, by simp⟩
  | some k =>
    simp only [ne_eq, reduceCtorEq, not_false_eq_true, and_true, Option.getD_some]
    cases hres : b.resolve true p with
    | found q =>
      simp only
      cases hent : b.entry q with
      | none =>
        refine ⟨fun _ _ h => h, rfl, fun o _ => (if_neg ?_).symm⟩
        rw [fileAt_eq_some]
        rintro ⟨q', hq', he'⟩
        rw [hres] at hq'; cases hq'; rw [hent] at he'; cases he'
      | some e =>
        obtain ⟨o', kd⟩ := e
        have hfile : ∀ o, b.fileAt p = some o ↔ (⟨o', kd⟩ : Entry) = ⟨o, .file⟩ := by
          intro o
          rw [fileAt_eq_some]
          constructor
          · rintro ⟨q', hq', he'⟩
            rw [hres] at hq'; cases hq'; rw [hent] at he'; exact Option.some.inj he'
          · intro he; exact ⟨q, hres, by rw [hent, he]⟩
        cases kd with
        | file =>
          refine ⟨fun _ _ h => h, rfl, fun o _ => ?_⟩
          rw [dataOf_setData]
          by_cases ho : o = o'
          · rw [if_pos ho, if_pos ((hfile o).mpr (by rw [ho]))]
          · rw [if_neg ho, if_neg]
            intro hf
            exact ho (Entry.mk.inj ((hfile o).mp hf)).1.symm
        | dir =>
          refine ⟨fun _ _ h => h, rfl, fun o _ => (if_neg fun hf => ?_).symm⟩
          cases (hfile o).mp hf
        | symlink t =>
          refine ⟨fun _ _ h => h, rfl, fun o _ => (if_neg fun hf => ?_).symm⟩
          cases (hfile o).mp hf
    | missing dir m =>
      have hnone : b.fileAt p = none := fileAt_eq_none_of_resolve (by simp [hres])
      simp only [hnone, reduceCtorEq, if_false]
      split
      · exact ⟨fun _ _ h => h, rfl, fun _ _ => rfl⟩
      · refine ⟨Extends.insert _ (followLinks_missing MAXSYMLINKS [] p hres).1, rfl, ?_⟩
        intro o ho
        rw [dataOf_setData, if_neg (Nat.ne_of_lt ho), dataOf_newObject, if_neg (Nat.ne_of_lt ho)]
    | link d' r =>
      have hnone : b.fileAt p = none := fileAt_eq_none_of_resolve (by simp [hres])
      exact ⟨fun _ _ h => h, rfl, by simp [hnone]⟩
    | fail e =>
      have hnone : b.fileAt p = none := fileAt_eq_none_of_resolve (by simp [hres])
      exact ⟨fun _ _ h => h, rfl, by simp [hnone]⟩

/-! ### Object numbers -/

theorem makeObject_nextObj {p q : Path} {k : Kind} {mode : ℕ}
    (h : b.makeObject os p k mode = .ok (b', q)) : b'.nextObj = b.nextObj + 1 := by
  obtain ⟨d, m, -, -, -, rfl⟩ := makeObject_ok h
  rfl

theorem libcOpen_nextObj {p : Path} {flags : OpenFlags} {mode : ℕ} {fd : ℤ}
    (h : b.libcOpen os p flags mode = .ok (b', fd)) : b.nextObj ≤ b'.nextObj := by
  obtain ⟨-, -, ⟨o, hfile⟩ | hdir | hnew⟩ := libcOpen_cases h
  · rw [hfile.nextObj]
  · rw [hdir.nextObj]
  · rw [hnew.nextObj]
    exact Nat.le_succ _

theorem fsWrite_nextObj (b : Backing) (os : Os) (p : Path) (d : Bytes) :
    b.nextObj ≤ (b.fsWrite os p d).nextObj := by
  unfold fsWrite
  split
  · exact Nat.le_refl _
  · split
    · split <;> exact Nat.le_refl _
    · split
      · exact Nat.le_refl _
      · exact Nat.le_succ _
    · exact Nat.le_refl _

end Dibs.Backing
