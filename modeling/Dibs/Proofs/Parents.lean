import Dibs.Fs.Outcomes

/-! Requests below a directory the daemon does not know. `getattr`, `open` and `opendir` answer
    `ENOENT` for an inode that has no path, but `resolve_path` takes an unknown parent for the root
    (`unwrap_or_default`). So a request below a stale directory inode, or a lookup below
    `.dibs/conflicts`, is carried out on the entry of that name in the backing root, and it is
    harmless only where that root entry makes it fail (`RefusedAtRoot`). -/

namespace Dibs.DibsFs

/-- The parent inodes of a request that names a directory entry. -/
def parents : Request → List ℕ
  | .lookup parent _ | .create parent _ _ _ | .mkdir parent _ _ | .unlink parent _
  | .rmdir parent _ | .symlink parent _ _ => [parent]
  | .rename parent _ newparent _ _ => [parent, newparent]
  | _ => []

/-- Neither the root, nor the virtual directory, nor in the inode table. -/
def Unknown (s : DibsFs) (ino : ℕ) : Prop :=
  ino ≠ 1 ∧ ino ≠ DIBS_DIR_INO ∧ s.inodes.getPath ino = none

/-- The reply is an error, every name of the backing directory refers to what it did, and the inode
    table is unchanged. -/
structure NothingTouched (s : DibsFs) (o : Out) : Prop where
  error : ∃ e, o.reply = .error e
  names : o.st.backing.tree = s.backing.tree
  inodes : o.st.inodes = s.inodes

/-- What stops a request whose parent is unknown: a parent in the synthetic range (except for
    `lookup`, which does not check), or that the operation on the entry of the root fails. -/
def RefusedAtRoot (X : Ext) (s : DibsFs) (os : Os) (sid : ℕ) : Request → Prop
  | .lookup _ name => ∃ e, s.backing.lstat os [name] = .error e
  | .create parent name mode flags => isDibsIno parent = true ∨ hasNul [name] = true ∨
      (∃ e, s.backing.libcOpen os [name] (flags ||| O_CREAT) mode = .error e) ∨
      (os.fault .fstat ≠ none ∧ s.backing.fileAt [name] ≠ none)
  | .mkdir parent name mode => isDibsIno parent = true ∨ hasNul [name] = true ∨
      ∃ e, s.backing.mkdir os [name] mode = .error e
  | .unlink parent name => isDibsIno parent = true ∨ s.staleReceipt X os sid [name] = true ∨
      hasNul [name] = true ∨ ∃ e, s.backing.unlink os [name] = .error e
  | .rmdir parent name => isDibsIno parent = true ∨ hasNul [name] = true ∨
      ∃ e, s.backing.rmdir os [name] = .error e
  | .rename parent name newparent newname _ =>
      isDibsIno parent = true ∨ isDibsIno newparent = true ∨
      s.staleReceipt X os sid (s.resolvePath parent name) = true ∨
      (s.backing.pathExists (s.resolvePath newparent newname) = true ∧
        s.staleReceipt X os sid (s.resolvePath newparent newname) = true) ∨
      (hasNul (s.resolvePath parent name) = true ∨
        hasNul (s.resolvePath newparent newname) = true) ∨
      ∃ e, s.backing.rename os (s.resolvePath parent name) (s.resolvePath newparent newname) =
        .error e
  | .symlink parent name target => isDibsIno parent = true ∨
      (target.contains 0 = true ∨ hasNul [name] = true) ∨
      ∃ e, s.backing.symlink os target [name] = .error e
  | _ => True

variable {X : Ext} {s : DibsFs} {os : Os} {sid : ℕ}

/-- An unknown parent counts as the root. -/
theorem resolvePath_unknown {parent : ℕ} (h : s.Unknown parent) (name : Name) :
    s.resolvePath parent name = [name] := by
  rw [resolvePath, if_neg h.1, h.2.2]
  rfl

theorem nothingTouched_fail (e : Errno) : NothingTouched s (s.fail e) := ⟨⟨e, rfl⟩, rfl, rfl⟩

theorem lookup_untouched_iff {parent : ℕ} {name : Name} (h : s.Unknown parent) :
    NothingTouched s (s.lookup X os parent name) ↔ ∃ e, s.backing.lstat os [name] = .error e := by
  rw [lookup, if_neg fun hr => h.1 hr.1, if_neg h.2.1, resolvePath_unknown h, replyEntry,
    lookupAndRegister]
  cases hl : s.backing.lstat os [name] with
  | error e => exact ⟨fun _ => ⟨e, rfl⟩, fun _ => nothingTouched_fail e⟩
  | ok st =>
    simp only [List.cons_ne_nil, if_false]
    constructor
    · rintro ⟨⟨e, he⟩, -, -⟩; cases he
    · rintro ⟨e, he⟩; cases he

/-- An open that creates its file adds a name. -/
theorem create_untouched_iff {parent : ℕ} {name : Name} {mode : ℕ} {flags : OpenFlags}
    (h : s.Unknown parent) :
    NothingTouched s (s.create X os sid parent name mode flags) ↔
      RefusedAtRoot X s os sid (.create parent name mode flags) := by
  have hcreat : hasFlag (flags ||| O_CREAT) O_CREAT = true := by
    rw [hasFlag_or]
    exact Bool.or_eq_true_iff.mpr (Or.inr (by decide))
  rw [create, resolvePath_unknown h, RefusedAtRoot]
  by_cases hd : isDibsIno parent = true
  · simp [hd, nothingTouched_fail]
  · by_cases hnul : hasNul [name] = true
    · simp [hd, hnul, nothingTouched_fail]
    · simp only [hd, hnul]
      cases hopen : s.backing.libcOpen os [name] (flags ||| O_CREAT) mode with
      | error e => simp [nothingTouched_fail]
      | ok r =>
        obtain ⟨b, fd⟩ := r
        have htree := Backing.libcOpen_tree_iff hopen hcreat
        simp only [Backing.fstat]
        cases hf : os.fault .fstat with
        | some e =>
          -- the descriptor is closed again and the error is sent
          simp only [Bool.false_eq_true, reduceCtorEq, exists_false, ne_eq, not_false_eq_true,
            true_and, false_or, if_false]
          rw [← ne_eq, ← htree]
          exact ⟨fun hn => hn.names, fun heq => ⟨⟨e, rfl⟩, heq, rfl⟩⟩
        | none =>
          obtain ⟨f, hfd⟩ := Option.ne_none_iff_exists'.mp (Backing.libcOpen_fd hopen)
          simp only [hfd, Bool.false_eq_true, reduceCtorEq, exists_false, ne_eq, not_true_eq_false,
            false_and, or_false, iff_false, if_false]
          rintro ⟨⟨e, he⟩, -, -⟩
          cases he

theorem mkdir_untouched_iff {parent : ℕ} {name : Name} {mode : ℕ} (h : s.Unknown parent) :
    NothingTouched s (s.mkdir os parent name mode) ↔
      RefusedAtRoot X s os sid (.mkdir parent name mode) := by
  rw [mkdir, resolvePath_unknown h, RefusedAtRoot]
  by_cases hd : isDibsIno parent = true
  · simp [hd, nothingTouched_fail]
  · by_cases hnul : hasNul [name] = true
    · simp [hd, hnul, nothingTouched_fail]
    · simp only [hd, hnul]
      cases hm : s.backing.mkdir os [name] mode with
      | error e => simp [nothingTouched_fail]
      | ok b =>
        obtain ⟨t, r, heq⟩ := replyEntry_out { s with backing := b } os [name]
        simp only [heq, Bool.false_eq_true, reduceCtorEq, exists_false, or_false, iff_false,
          if_false]
        exact fun hn => Backing.mkdir_tree_ne hm hn.names

theorem symlink_untouched_iff {parent : ℕ} {name : Name} {target : Bytes} (h : s.Unknown parent) :
    NothingTouched s (s.symlink os parent name target) ↔
      RefusedAtRoot X s os sid (.symlink parent name target) := by
  rw [symlink, resolvePath_unknown h, RefusedAtRoot]
  by_cases hd : isDibsIno parent = true
  · simp [hd, nothingTouched_fail]
  · by_cases hnul : target.contains 0 = true ∨ hasNul [name] = true
    · simp only [hd, hnul]
      simp [nothingTouched_fail]
    · simp only [hd, hnul]
      cases hm : s.backing.symlink os target [name] with
      | error e => simp [nothingTouched_fail]
      | ok b =>
        obtain ⟨t, r, heq⟩ := replyEntry_out { s with backing := b } os [name]
        simp only [heq, Bool.false_eq_true, reduceCtorEq, exists_false, or_false, iff_false,
          if_false]
        exact fun hn => Backing.symlink_tree_ne hm hn.names

theorem unlink_untouched_iff {parent : ℕ} {name : Name} (h : s.Unknown parent) :
    NothingTouched s (s.unlink X os sid parent name) ↔
      RefusedAtRoot X s os sid (.unlink parent name) := by
  rw [unlink, resolvePath_unknown h, RefusedAtRoot]
  by_cases hd : isDibsIno parent = true
  · simp [hd, nothingTouched_fail]
  · by_cases hst : s.staleReceipt X os sid [name] = true
    · simp only [hd, hst]
      simp only [Bool.false_eq_true, if_false, if_true, false_or, true_or, iff_true]
      exact ⟨⟨.eio, rfl⟩, rfl, rfl⟩
    · by_cases hnul : hasNul [name] = true
      · simp [hd, hst, hnul, nothingTouched_fail]
      · simp only [hd, hst, hnul]
        cases hm : s.backing.unlink os [name] with
        | error e => simp [nothingTouched_fail]
        | ok b =>
          simp only [Bool.false_eq_true, reduceCtorEq, exists_false, or_false, iff_false, if_false]
          rintro ⟨⟨e, he⟩, -, -⟩
          cases he

theorem rmdir_untouched_iff {parent : ℕ} {name : Name} (h : s.Unknown parent) :
    NothingTouched s (s.rmdir os parent name) ↔
      RefusedAtRoot X s os sid (.rmdir parent name) := by
  rw [rmdir, resolvePath_unknown h, RefusedAtRoot]
  by_cases hd : isDibsIno parent = true
  · simp [hd, nothingTouched_fail]
  · by_cases hnul : hasNul [name] = true
    · simp [hd, hnul, nothingTouched_fail]
    · simp only [hd, hnul]
      cases hm : s.backing.rmdir os [name] with
      | error e => simp [nothingTouched_fail]
      | ok b =>
        simp only [Bool.false_eq_true, reduceCtorEq, exists_false, or_false, iff_false, if_false]
        rintro ⟨⟨e, he⟩, -, -⟩
        cases he

theorem rename_untouched_iff {parent newparent fl : ℕ} {name newname : Name} :
    NothingTouched s (s.rename X os sid parent name newparent newname fl) ↔
      RefusedAtRoot X s os sid (.rename parent name newparent newname fl) := by
  rw [rename, RefusedAtRoot]
  by_cases hd : isDibsIno parent = true ∨ isDibsIno newparent = true
  · rw [if_pos hd]
    exact ⟨fun _ => hd.elim Or.inl fun h => Or.inr (Or.inl h), fun _ => nothingTouched_fail _⟩
  · rw [if_neg hd]
    obtain ⟨hp, hn⟩ := not_or.mp hd
    simp only [hp, hn]
    by_cases hst : s.staleReceipt X os sid (s.resolvePath parent name) = true
    · simp only [hst, Bool.false_eq_true, if_true, false_or, true_or, iff_true]
      exact ⟨⟨.eio, rfl⟩, rfl, rfl⟩
    · by_cases hdst : s.backing.pathExists (s.resolvePath newparent newname) = true ∧
          s.staleReceipt X os sid (s.resolvePath newparent newname) = true
      · simp only [hst, hdst, Bool.false_eq_true, and_self, if_true, if_false, false_or, true_or,
          iff_true]
        exact ⟨⟨.eio, rfl⟩, rfl, rfl⟩
      · simp only [hst, hdst, Bool.false_eq_true, if_false, false_or]
        by_cases hnul : hasNul (s.resolvePath parent name) = true ∨
            hasNul (s.resolvePath newparent newname) = true
        · simp only [hnul, if_true, true_or, iff_true]
          exact nothingTouched_fail _
        · simp only [hnul, if_false, false_or]
          cases hm : s.backing.rename os (s.resolvePath parent name)
              (s.resolvePath newparent newname) with
          | error e => simp [nothingTouched_fail]
          | ok b =>
            simp only [reduceCtorEq, exists_false, iff_false]
            rintro ⟨⟨e, he⟩, -, -⟩
            cases he

/-- UNKNOWN PARENTS: a request below an unknown parent touches nothing if and only if the operation
    is refused at the entry of that name in the backing root. -/
theorem unknown_parent_untouched_iff (X : Ext) (s : DibsFs) (os : Os) (sid : ℕ) (req : Request)
    (h : ∃ ino ∈ parents req, s.Unknown ino) :
    NothingTouched s (s.handle X os sid req) ↔ RefusedAtRoot X s os sid req := by
  obtain ⟨ino, hmem, hu⟩ := h
  cases req with
  | lookup parent name =>
    obtain rfl := List.mem_singleton.mp hmem
    exact lookup_untouched_iff hu
  | create parent name mode flags =>
    obtain rfl := List.mem_singleton.mp hmem
    exact create_untouched_iff hu
  | mkdir parent name mode =>
    obtain rfl := List.mem_singleton.mp hmem
    exact mkdir_untouched_iff hu
  | unlink parent name =>
    obtain rfl := List.mem_singleton.mp hmem
    exact unlink_untouched_iff hu
  | rmdir parent name =>
    obtain rfl := List.mem_singleton.mp hmem
    exact rmdir_untouched_iff hu
  | symlink parent name target =>
    obtain rfl := List.mem_singleton.mp hmem
    exact symlink_untouched_iff hu
  | rename parent name newparent newname fl => exact rename_untouched_iff
  | _ => simp [parents] at hmem

/-- `create` below `.dibs/conflicts` is refused and touches nothing. -/
theorem create_below_conflicts_untouched :
    NothingTouched sampleMount
      (sampleMount.handle sampleExt {} 7 (.create DIBS_CONFLICTS_DIR_INO fName 0o644 O_WRONLY)) :=
  (unknown_parent_untouched_iff sampleExt sampleMount {} 7 _
    ⟨DIBS_CONFLICTS_DIR_INO, List.mem_singleton.mpr rfl, by decide, by decide,
      by decide +kernel⟩).mpr (Or.inl (by decide))

/-- The directory `d` (inode 20) is looked up; another program moves it to `e` and makes a new `d`
    (inode 21), which is looked up as well, so inode 20 has no path any more. -/
def staleDirectory : List Call :=
  [.fuse { ino := 20 } 7 (.mkdir 1 [0x64] 0o755),
    .outside ((sampleBacking.newObject [[0x65]] .dir { ino := 20 }).newObject [[0x64]] .dir
      { ino := 21 }),
    .fuse {} 7 (.lookup 1 [0x64])]

/-- A lookup of `f` below `.dibs/conflicts` returns and registers the file `f` of the backing root,
    and an unlink of `f` below the stale directory deletes that file. -/
theorem unknown_parents_reach_root :
    (Reachable sampleExt sampleMount ∧ sampleMount.Unknown DIBS_CONFLICTS_DIR_INO ∧
      (sampleMount.handle sampleExt {} 7 (.lookup DIBS_CONFLICTS_DIR_INO fName)).st.inodes.getPath
        10 = some [fName] ∧
      ¬ NothingTouched sampleMount
        (sampleMount.handle sampleExt {} 7 (.lookup DIBS_CONFLICTS_DIR_INO fName))) ∧
    (let s := Run.exec (step sampleExt) sampleMount staleDirectory;
      Reachable sampleExt s ∧ s.Unknown 20 ∧ s.backing.content [fName] = some [0x61] ∧
        (s.handle sampleExt {} 7 (.unlink 20 fName)).reply = .ok ∧
        (s.handle sampleExt {} 7 (.unlink 20 fName)).st.backing.content [fName] = none) := by
  refine ⟨⟨sampleMount_reachable, ⟨by decide, by decide, by decide +kernel⟩, by decide +kernel, ?_⟩,
    sampleMount_reachable.exec (by decide +kernel), ⟨by decide, by decide, by decide +kernel⟩,
    by decide +kernel, by decide +kernel, by decide +kernel⟩
  rintro ⟨-, -, hinodes⟩
  have hnew : (sampleMount.handle sampleExt {} 7
      (.lookup DIBS_CONFLICTS_DIR_INO fName)).st.inodes.getPath 10 = some [fName] := by
    decide +kernel
  rw [hinodes] at hnew
  exact absurd hnew (by decide +kernel)

end Dibs.DibsFs
