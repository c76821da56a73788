import Dibs.Os.Below
import Dibs.Os.Tree
import Dibs.Proofs.Subtree

/-! What the inode table says of the backing tree. While names are looked up, made, removed and renamed
    through the mount, the number of a linked object leads to that object, as long as a rename takes
    along everything that is registered below the old name. -/

namespace Dibs

/-- The table is right about every object that has a name, and the two maps agree one way: the number
    registered for a path leads back to the path. -/
structure Cached (b : Backing) (t : InodeTable) : Prop where
  plain : b.Plain
  root : t.getPath 1 = some []
  back : ∀ p i, t.getIno p = some i → t.getPath i = some p
  here : ∀ p e q, b.entry p = some e → t.getPath (b.attrOf e.obj).ino = some q → q = p

namespace Cached
variable {b b' : Backing} {t : InodeTable} {os : Os}

theorem path_inj (h : Cached b t) {p q : Path} {i : ℕ} (hp : t.getIno p = some i)
    (hq : t.getPath i = some q) : q = p :=
  Option.some.inj (hq.symm.trans (h.back p i hp))

/-- The number of the root is registered for no other path. -/
theorem ino_ne_one (h : Cached b t) {p : Path} (hp : p ≠ []) : t.getIno p ≠ some 1 :=
  fun hi => hp (h.path_inj hi h.root).symm

/-- The table `init` leaves. -/
theorem new (hb : b.Plain) : Cached b (InodeTable.new.insert 1 []) where
  plain := hb
  root := (InodeTable.getPath_insert_eq ..).trans (if_pos rfl)
  back := by
    intro p i hi
    rw [InodeTable.getIno_insert_eq] at hi
    rw [InodeTable.getPath_insert_eq]
    split at hi
    · rename_i hp; rw [if_pos (Option.some.inj hi).symm, hp]
    · split at hi <;> cases hi
  here := by
    intro p e q he hq
    rw [InodeTable.getPath_insert_eq, if_neg (hb.free p e he)] at hq
    split at hq <;> cases hq

/-- Registering a number that belongs to no other path. -/
theorem insert (h : Cached b t) {n : ℕ} {p : Path} (hp : p ≠ []) (hn : n ≠ 1)
    (hown : ∀ q e, b.entry q = some e → (b.attrOf e.obj).ino = n → q = p) :
    Cached b (t.insert n p) where
  plain := h.plain
  root := by
    rw [InodeTable.getPath_insert_eq, if_neg (Ne.symm hn),
      if_neg fun hi => h.ino_ne_one hp hi.1, h.root]
  back := by
    intro q i hi
    rw [InodeTable.getIno_insert_eq] at hi
    rw [InodeTable.getPath_insert_eq]
    split at hi
    · rename_i hq
      rw [if_pos (Option.some.inj hi).symm, hq]
    · rename_i hq
      split at hi
      · cases hi
      · rename_i hpath
        have hback := h.back q i hi
        have hne : i ≠ n := by rintro rfl; exact hpath hback
        rw [if_neg hne, if_neg fun hi' => hq (h.path_inj hi'.1 hback), hback]
  here := by
    intro q e r he hr
    rw [InodeTable.getPath_insert_eq] at hr
    split at hr
    · rename_i hino
      rw [← Option.some.inj hr, hown q e he hino]
    · split at hr
      · cases hr
      · exact h.here q e r he hr

theorem removeByPath (h : Cached b t) {p : Path} (hp : p ≠ []) : Cached b (t.removeByPath p) where
  plain := h.plain
  root := by
    rw [InodeTable.getPath_removeByPath, if_neg (h.ino_ne_one hp), h.root]
  back := by
    intro q i hi
    rw [InodeTable.getIno_removeByPath] at hi
    split at hi
    · cases hi
    · rename_i hq
      have hback := h.back q i hi
      rw [InodeTable.getPath_removeByPath, if_neg fun hi' => hq (h.path_inj hi' hback), hback]
  here := by
    intro q e r he hr
    rw [InodeTable.getPath_removeByPath] at hr
    split at hr
    · cases hr
    · exact h.here q e r he hr

theorem congr (h : Cached b t) (htree : b'.tree = b.tree)
    (hino : ∀ o, (b'.attrOf o).ino = (b.attrOf o).ino) : Cached b' t := by
  have hentry : ∀ p, b'.entry p = b.entry p := fun p => by rw [Backing.entry, Backing.entry, htree]
  refine ⟨⟨by rw [htree]; exact h.plain.root, ?_, ?_, ?_⟩, h.root, h.back, ?_⟩
  · intro p n e he
    rw [htree] at he
    rw [hentry]
    exact h.plain.parent p n e he
  · intro p q e f he hf heq
    rw [hentry] at he hf
    rw [hino, hino] at heq
    exact h.plain.ino p q e f he hf heq
  · intro p e he
    rw [hentry] at he
    rw [hino]
    exact h.plain.free p e he
  · intro p e q he hq
    rw [hentry] at he
    rw [hino] at hq
    exact h.here p e q he hq

/-- A new object whose number, if the table has it, is registered for its path. -/
theorem links (h : Cached b t) {d : Path} {m : Name} {n : ℕ} (hl : Backing.Links b b' d m n)
    (hn : n ≠ 1) (hreg : ∀ p, t.getPath n = some p → p = d ++ [m]) : Cached b' t where
  plain := hl.plain h.plain hn
  root := h.root
  back := h.back
  here := by
    intro p e q he hq
    rcases hl.entry_cases he with ⟨rfl, hi⟩ | ⟨hold, hi⟩
    · rw [hi] at hq
      exact hreg q hq
    · rw [hi] at hq
      exact h.here p e q hold hq

/-- A new object that is registered at once; what the table said of its number is forgotten. -/
theorem links_insert (h : Cached b t) {d : Path} {m : Name} {n : ℕ}
    (hl : Backing.Links b b' d m n) (hn : n ≠ 1) : Cached b' (t.insert n (d ++ [m])) := by
  have hins : Cached b (t.insert n (d ++ [m])) :=
    h.insert (by simp) hn fun q e he hi => absurd hi (Backing.ne_of_inoUsed hl.unused he)
  refine hins.links hl hn fun p hp => ?_
  rw [InodeTable.getPath_insert_eq, if_pos rfl] at hp
  exact (Option.some.inj hp).symm

theorem unlinks (h : Cached b t) {p : Path} (hu : Backing.Unlinks b b' p) : Cached b' t where
  plain := hu.plain h.plain
  root := h.root
  back := h.back
  here := by
    intro q e r he hr
    rw [hu.ino] at hr
    exact h.here q e r (hu.entry_of he) hr

theorem rename_self (h : Cached b t) (p : Path) : Cached b (t.rename p p) where
  plain := h.plain
  root := by
    rw [InodeTable.getPath_rename]
    split
    · rename_i hi; rw [← h.back p 1 hi, h.root]
    · exact h.root
  back := by
    intro q i hi
    rw [InodeTable.getIno_rename] at hi
    rw [InodeTable.getPath_rename]
    have hq : t.getIno q = some i := by
      split at hi
      · exact hi
      · split at hi
        · rename_i hqp; rw [hqp]; exact hi
        · exact hi
    split
    · rename_i hp; rw [← h.back p i hp, h.back q i hq]
    · exact h.back q i hq
  here := by
    intro q e r he hr
    rw [InodeTable.getPath_rename] at hr
    split at hr
    · rename_i hp; exact h.here q e r he (by rw [h.back p _ hp, hr])
    · exact h.here q e r he hr

/-- A move that the table follows: what it has registered at `p` or below is at `p` itself, under the
    number that it renames. -/
theorem moves (h : Cached b t) {p q : Path} (hm : Backing.Moves b b' p q)
    (hreg : ∀ x e, b.entry (p ++ x) = some e → t.getPath (b.attrOf e.obj).ino = some (p ++ x) →
      t.getIno p = some (b.attrOf e.obj).ino) : Cached b' (t.rename p q) where
  plain := hm.plain h.plain
  root := by
    rw [InodeTable.getPath_rename, if_neg (h.ino_ne_one hm.source), h.root]
  back := by
    intro k i hi
    rw [InodeTable.getIno_rename] at hi
    rw [InodeTable.getPath_rename]
    by_cases hp : t.getIno p = none
    · rw [if_pos hp] at hi
      rw [hp, if_neg (by simp), h.back k i hi]
    · rw [if_neg hp] at hi
      split at hi
      · rename_i hk; rw [if_pos hi, hk]
      · split at hi
        · cases hi
        · rename_i hkp
          rw [if_neg fun hpi => hkp (h.path_inj hpi (h.back k i hi)), h.back k i hi]
  here := by
    intro k e r he hr
    rw [hm.ino, InodeTable.getPath_rename] at hr
    rcases hm.entry_cases he with ⟨x, rfl, hold⟩ | ⟨hq, hp, hold⟩
    · have hback : ∀ r, t.getPath (b.attrOf e.obj).ino = some r →
          t.getIno p = some (b.attrOf e.obj).ino := by
        intro r hr'
        have heq := h.here _ e r hold hr'
        exact hreg x e hold (by rw [hr', heq])
      split at hr
      · rename_i hi
        have heq := h.here _ e p hold (h.back p _ hi)
        have hx : x = [] := by simpa using heq
        rw [hx, List.append_nil]
        exact (Option.some.inj hr).symm
      · rename_i hi
        exact absurd (hback r hr) hi
    · split at hr
      · rename_i hi
        have heq := h.here k e p hold (h.back p _ hi)
        exact absurd (heq ▸ List.prefix_refl p) hp
      · exact h.here k e r hold hr

end Cached

namespace DibsFs
variable {X : Ext} {s : DibsFs} {os : Os}

/-- The path `resolve_path` and `readdir` start from. -/
def dirPath (s : DibsFs) (parent : ℕ) : Path :=
  if parent = 1 then [] else (s.inodes.getPath parent).getD []

/-- The path of the parent passes no symbolic link and no `..`, and the name is not `..`. -/
def Named (s : DibsFs) (parent : ℕ) (name : Name) : Prop :=
  name ≠ Backing.dotdot ∧ s.backing.Direct (s.dirPath parent)

/-- If the `stat` that would register a new object at `rel` fails, its number is not in the table for
    another path. -/
def Registers (s : DibsFs) (os : Os) (call : Syscall) (rel : Path) : Prop :=
  os.fault call ≠ none → ∀ p ∈ s.inodes.getPath os.ino, p = rel

/-- A rename of `old` takes along what is registered: whatever number leads to its object at `old` or
    below is the number that is registered for `old`. -/
def Followed (s : DibsFs) (old : Path) : Prop :=
  ∀ x ∈ s.inodes.inoToPath.iter, old <+: x.2 →
    (s.backing.entry x.2).map (fun e => (s.backing.attrOf e.obj).ino) = some x.1 →
      s.inodes.getIno old = some x.1

/-- A rename is carried out. -/
def renames (X : Ext) (s : DibsFs) (os : Os) (sid : ℕ) (old new : Path) : Bool :=
  !s.staleReceipt X os sid old && !(s.backing.pathExists new && s.staleReceipt X os sid new) &&
    !hasNul old && !hasNul new && (s.backing.rename os old new).isOk

/-- The requests under which the table stays right. -/
def Tracked (X : Ext) (s : DibsFs) : Call → Prop
  | .fuse _ _ (.lookup parent name) => s.Named parent name
  | .fuse _ _ (.readdir ino _) => s.backing.Direct (s.dirPath ino)
  | .fuse os _ (.create parent name mode flags) =>
    let rel := s.resolvePath parent name
    s.Named parent name ∧
      ((s.backing.libcOpen os rel (flags ||| O_CREAT) mode).isOk = true →
        Backing.isLink s.backing.tree rel = false ∧
          (s.backing.fileAt rel = none → s.Registers os .fstat rel))
  | .fuse os _ (.mkdir parent name mode) =>
    let rel := s.resolvePath parent name
    s.Named parent name ∧ ((s.backing.mkdir os rel mode).isOk = true → s.Registers os .lstat rel)
  | .fuse os _ (.symlink parent name target) =>
    let rel := s.resolvePath parent name
    s.Named parent name ∧
      ((s.backing.symlink os target rel).isOk = true → s.Registers os .lstat rel)
  | .fuse os pid (.rename parent name newparent newname _) =>
    let old := s.resolvePath parent name
    let new := s.resolvePath newparent newname
    s.Named parent name ∧ s.Named newparent newname ∧
      (s.renames X os (getSid os pid) old new = true → old ≠ new → s.Followed old)
  | _ => True

/-- The requests that look names up or change them, with an ordinary number for a new object. -/
def Naming : Call → Prop
  | .fuse os _ req =>
    os.ino ≠ 1 ∧
      match req with
      | .lookup .. | .readdir .. | .create .. | .mkdir .. | .symlink .. | .unlink .. | .rmdir ..
      | .rename .. => True
      | _ => False
  | _ => False

theorem resolvePath_eq (parent : ℕ) (name : Name) :
    s.resolvePath parent name = s.dirPath parent ++ [name] := rfl

theorem resolvePath_ne_nil (parent : ℕ) (name : Name) : s.resolvePath parent name ≠ [] := by
  rw [resolvePath_eq]; simp

/-- What `lstat` sees under a name of a directory reached without links is the object at that path. -/
theorem lstat_below {b : Backing} {d : Path} {n : Name} {st : Stat} (hd : b.Direct d)
    (hn : n ≠ Backing.dotdot) (h : b.lstat os (d ++ [n]) = .ok st) :
    ∃ e, b.entry (d ++ [n]) = some e ∧ st.attr = b.attrOf e.obj := by
  rw [Backing.lstat] at h
  split at h
  · cases h
  · split at h
    · cases h
    · split at h
      · cases h
      · rename_i q e hfind
        obtain ⟨hres, hent⟩ := Backing.find_ok_iff.mp hfind
        have hon := Backing.resolve_below hd hn
        rw [hres] at hon
        cases hon
        exact ⟨e, hent, by rw [← Except.ok.inj h]; rfl⟩

theorem cached_register {b : Backing} {t : InodeTable} {d : Path} {n : Name} {st : Stat}
    (h : Cached b t) (hd : b.Direct d) (hn : n ≠ Backing.dotdot)
    (hst : b.lstat os (d ++ [n]) = .ok st) : Cached b (t.insert st.attr.ino (d ++ [n])) := by
  obtain ⟨e, he, hattr⟩ := lstat_below hd hn hst
  rw [hattr]
  exact h.insert (by simp) (h.plain.free _ e he) fun q f hf hi => h.plain.ino q _ f e hf he hi

theorem cached_replyEntry {d : Path} {n : Name} (h : Cached s.backing s.inodes)
    (hd : s.backing.Direct d) (hn : n ≠ Backing.dotdot) :
    Cached (s.replyEntry os (d ++ [n])).st.backing (s.replyEntry os (d ++ [n])).st.inodes := by
  rw [replyEntry, lookupAndRegister]
  cases hst : s.backing.lstat os (d ++ [n]) with
  | error e => exact h
  | ok st =>
    simp only [List.append_eq_nil_iff, List.cons_ne_nil, and_false, if_false]
    exact cached_register h hd hn hst

/-- A made object is registered, or could not be looked at. -/
theorem cached_made {b : Backing} {d : Path} {n : Name} (h : Cached s.backing s.inodes)
    (hd : s.backing.Direct d) (hn : n ≠ Backing.dotdot) (hino : os.ino ≠ 1)
    (hnul : hasNul (d ++ [n]) = false) (hreg : s.Registers os .lstat (d ++ [n]))
    (hl : ∃ d' m, s.backing.resolve false (d ++ [n]) = .missing d' m ∧
      Backing.Links s.backing b d' m os.ino) :
    Cached (replyEntry { s with backing := b } os (d ++ [n])).st.backing
      (replyEntry { s with backing := b } os (d ++ [n])).st.inodes := by
  obtain ⟨d', m, hres, hl⟩ := hl
  have hon := Backing.resolve_below hd hn
  rw [hres] at hon
  cases hon with
  | missing heq =>
    rw [heq] at hreg hnul ⊢
    have hplain := hl.plain h.plain hino
    obtain ⟨k, htree⟩ := hl.tree
    have hent : b.entry (d' ++ [m]) = some ⟨s.backing.nextObj, k⟩ := by
      rw [Backing.entry_concat, htree, FinMap.get_insert_self]
    have hfind : b.find false (d' ++ [m]) = .ok (d' ++ [m], ⟨s.backing.nextObj, k⟩) :=
      hplain.find_entry hent (by simp)
    rw [replyEntry, lookupAndRegister, Backing.lstat, if_neg (by simp [hnul])]
    cases hf : os.fault .lstat with
    | some e =>
      exact h.links hl hino fun p hp => hreg (by simp [hf]) p hp
    | none =>
      simp only [hfind, List.append_eq_nil_iff, List.cons_ne_nil, and_false, if_false]
      have hnum : (statToFileAttr (b.statOf ⟨s.backing.nextObj, k⟩)).ino = os.ino := by
        have hi := hl.ino s.backing.nextObj
        rw [if_pos rfl] at hi
        exact hi
      rw [hnum]
      exact h.links_insert hl hino

/-- The table of a state is right about its tree. -/
def Right (s : DibsFs) : Prop := Cached s.backing s.inodes

theorem right_lookup (h : s.Right) {parent : ℕ} {name : Name} (hn : s.Named parent name) :
    (s.lookup X os parent name).st.Right := by
  rw [lookup]
  split
  · exact h
  · split
    · split
      · exact h
      · split
        · exact h
        · split <;> exact h
    · exact cached_replyEntry h hn.2 hn.1

theorem readDir_names {b : Backing} (hb : b.Plain) {p : Path} {names : List Name}
    (h : b.readDir os p = .ok names) : ∀ n ∈ names, n ≠ Backing.dotdot := by
  obtain ⟨q, o, -, hmem⟩ := Backing.readDir_mem h
  intro n hn
  obtain ⟨e, he⟩ := (hmem n).mp hn
  exact (hb.parent q n e he).1

theorem right_listName {rel : Path} {n : Name} {acc : DibsFs × List (ℕ × FileType × Name)}
    (h : acc.1.Right) (hd : acc.1.backing.Direct rel) (hn : n ≠ Backing.dotdot) :
    (listName os rel acc n).1.Right := by
  have hlossy : toStringLossy n ≠ Backing.dotdot :=
    fun heq => hn (toStringLossy_eq_self heq (by decide))
  rw [listName]
  simp only
  split
  · exact h
  · split
    · exact h
    · rename_i st hst
      exact cached_register h hd hlossy hst

theorem right_listNames {rel : Path} :
    ∀ (names : List Name) (acc : DibsFs × List (ℕ × FileType × Name)), acc.1.Right →
      acc.1.backing.Direct rel → (∀ n ∈ names, n ≠ Backing.dotdot) →
      (names.foldl (listName os rel) acc).1.Right
  | [], _, h, _, _ => h
  | n :: names, acc, h, hd, hn => by
    rw [List.foldl_cons]
    have hback : (listName os rel acc n).1.backing = acc.1.backing := by
      obtain ⟨t, ht⟩ := listName_fst os rel [n] acc
      rw [List.foldl_cons, List.foldl_nil] at ht
      rw [ht]
    refine right_listNames names _ (right_listName h hd (hn n (List.mem_cons_self ..))) ?_
      fun m hm => hn m (List.mem_cons_of_mem _ hm)
    rw [hback]
    exact hd

theorem right_readdir (h : s.Right) {ino offset : ℕ} (hd : s.backing.Direct (s.dirPath ino)) :
    (s.readdir os ino offset).st.Right := by
  rw [readdir]
  simp only
  split
  · exact h
  · split
    · exact h
    · split
      · exact h
      · rename_i rel hrel
        have hpath : s.dirPath ino = rel := by
          rw [dirPath]
          split at hrel
          · rename_i hone; rw [if_pos hone]; exact Option.some.inj hrel
          · rename_i hone; rw [if_neg hone, hrel, Option.getD_some]
        split
        · exact h
        · rename_i names hnames
          exact right_listNames names _ h (hpath ▸ hd) (readDir_names h.plain hnames)

theorem right_mkdir (h : s.Right) {parent mode : ℕ} {name : Name} (hn : s.Named parent name)
    (hino : os.ino ≠ 1)
    (hreg : (s.backing.mkdir os (s.resolvePath parent name) mode).isOk = true →
      s.Registers os .lstat (s.resolvePath parent name)) :
    (s.mkdir os parent name mode).st.Right := by
  rw [mkdir]
  split
  · exact h
  · simp only
    split
    · exact h
    · rename_i hnul
      cases hb : s.backing.mkdir os (s.resolvePath parent name) mode with
      | error e => exact h
      | ok b =>
        exact cached_made h hn.2 hn.1 hino (eq_false_of_ne_true hnul) (hreg (by rw [hb]; rfl))
          (Backing.mkdir_links h.plain hb)

theorem right_symlink (h : s.Right) {parent : ℕ} {name : Name} {target : Bytes}
    (hn : s.Named parent name) (hino : os.ino ≠ 1)
    (hreg : (s.backing.symlink os target (s.resolvePath parent name)).isOk = true →
      s.Registers os .lstat (s.resolvePath parent name)) :
    (s.symlink os parent name target).st.Right := by
  rw [symlink]
  split
  · exact h
  · simp only
    split
    · exact h
    · rename_i hnul
      cases hb : s.backing.symlink os target (s.resolvePath parent name) with
      | error e => exact h
      | ok b =>
        exact cached_made h hn.2 hn.1 hino (eq_false_of_ne_true (not_or.mp hnul).2)
          (hreg (by rw [hb]; rfl)) (Backing.symlink_links h.plain hb)

theorem right_unlink (h : s.Right) (sid : ℕ) {parent : ℕ} {name : Name} :
    (s.unlink X os sid parent name).st.Right := by
  have hout := s.unlink_out X os sid parent name
  generalize s.unlink X os sid parent name = o at hout ⊢
  cases hout with
  | failed e => exact h
  | stale => exact h
  | removed b _ _ hb =>
    obtain ⟨q, hq⟩ := Backing.unlink_unlinks h.plain hb
    exact (h.unlinks hq).removeByPath (resolvePath_ne_nil parent name)

theorem right_rmdir (h : s.Right) {parent : ℕ} {name : Name} : (s.rmdir os parent name).st.Right := by
  rw [rmdir]
  split
  · exact h
  · simp only
    split
    · exact h
    · split
      · exact h
      · rename_i b hb
        obtain ⟨q, hq⟩ := Backing.rmdir_unlinks hb
        exact (h.unlinks hq).removeByPath (resolvePath_ne_nil parent name)

theorem right_rename (h : s.Right) (sid : ℕ) {parent newparent : ℕ} {name newname : Name} (flags : ℕ)
    (hn : s.Named parent name) (hn' : s.Named newparent newname)
    (hfollow : s.renames X os sid (s.resolvePath parent name) (s.resolvePath newparent newname) =
        true → s.resolvePath parent name ≠ s.resolvePath newparent newname →
      s.Followed (s.resolvePath parent name)) :
    (s.rename X os sid parent name newparent newname flags).st.Right := by
  rw [rename]
  split
  · exact h
  · simp only
    split
    · exact h
    · rename_i hsource
      split
      · exact h
      · rename_i hdest
        split
        · exact h
        · rename_i hnul
          cases hb : s.backing.rename os (s.resolvePath parent name)
              (s.resolvePath newparent newname) with
          | error e => exact h
          | ok b =>
            have hgoes : s.renames X os sid (s.resolvePath parent name)
                (s.resolvePath newparent newname) = true := by
              rw [renames, hb]
              simp only [Bool.not_eq_true, not_or] at hsource hnul
              simp only [hsource, hnul.1, hnul.2, Bool.not_false, Bool.true_and, Bool.and_true,
                Except.isOk, Except.toBool, Bool.not_eq_true', Bool.and_eq_false_iff]
              rw [← Bool.not_eq_true, ← Bool.not_eq_true]
              exact not_and_or.mp hdest
            obtain ⟨p, q, e, hfind, hends, hmove⟩ := Backing.rename_moves h.plain hb
            -- both names are resolved where they say
            have hp : p = s.resolvePath parent name := by
              have hon := Backing.resolve_below hn.2 hn.1
              rw [← resolvePath_eq, (Backing.find_ok_iff.mp hfind).1] at hon
              cases hon
              rfl
            have hq : q = s.resolvePath newparent newname := by
              have hon := Backing.resolve_below hn'.2 hn'.1
              rw [← resolvePath_eq] at hon
              rcases hends with hres | ⟨d, m, hqd, hres⟩
              · rw [hres] at hon
                cases hon
                rfl
              · rw [hres] at hon
                cases hon with
                | missing heq => rw [hqd, heq]
            rw [hp, hq] at hmove
            rcases hmove with ⟨rfl, heq⟩ | hmove
            · change Cached _ (s.inodes.rename _ _)
              rw [heq]
              exact Cached.rename_self h _
            · refine Cached.moves h hmove fun x f hf hx => ?_
              have hne : s.resolvePath parent name ≠ s.resolvePath newparent newname :=
                fun heq => hmove.apart (heq ▸ List.prefix_refl _)
              exact hfollow hgoes hne (_, _) (FinMap.mem_iter.mpr hx) (List.prefix_append _ x)
                (by rw [hf]; rfl)

/-- `create` opens the file under its own name, which is no link, and registers what it opened. -/
theorem right_create (h : s.Right) (sid : ℕ) {parent mode : ℕ} {name : Name} {flags : OpenFlags}
    (hn : s.Named parent name) (hino : os.ino ≠ 1)
    (hcreate : (s.backing.libcOpen os (s.resolvePath parent name) (flags ||| O_CREAT) mode).isOk =
        true → Backing.isLink s.backing.tree (s.resolvePath parent name) = false ∧
      (s.backing.fileAt (s.resolvePath parent name) = none →
        s.Registers os .fstat (s.resolvePath parent name))) :
    (s.create X os sid parent name mode flags).st.Right := by
  rw [create]
  split
  · exact h
  · simp only
    split
    · exact h
    · cases hb : s.backing.libcOpen os (s.resolvePath parent name) (flags ||| O_CREAT) mode with
      | error e => exact h
      | ok x =>
        obtain ⟨b, fd⟩ := x
        obtain ⟨hlink, hreg⟩ := hcreate (by rw [hb]; rfl)
        have hdirect := hn.2.concat hn.1 hlink
        obtain ⟨fl, f, hfd, hcases⟩ := Backing.libcOpen_links h.plain hb
        have hon := Backing.resolve_direct hdirect fl
        rw [← resolvePath_eq] at hon
        simp only [Backing.fstat, hfd]
        rcases hcases with ⟨q, hres, hent, htree, hattrs⟩ | ⟨d, m, hres, hl, hobj⟩
        · -- the file was there
          rw [hres] at hon
          cases hon
          have hattr : ∀ o, b.attrOf o = s.backing.attrOf o := fun o => by
            rw [Backing.attrOf, Backing.attrOf, hattrs]
          cases hf : os.fault .fstat with
          | some e => exact h.congr htree fun o => by rw [← hattr o]; rfl
          | none =>
            have hnum : (statToFileAttr (b.statOf ⟨f.obj, f.kind⟩)).ino =
                (s.backing.attrOf f.obj).ino := by rw [← hattr]; rfl
            refine Cached.congr (Cached.insert h (resolvePath_ne_nil parent name) ?_ ?_) htree
              fun o => by rw [hattr o]
            · rw [hnum]; exact h.plain.free _ _ hent
            · intro q e he hi
              exact h.plain.ino q _ e _ he hent (by rw [hi, hnum])
        · rw [hres] at hon
          cases hon with
          | missing heq =>
            cases hf : os.fault .fstat with
            | some e =>
              have hnone : s.backing.fileAt (s.resolvePath parent name) = none := by
                apply Backing.fileAt_eq_none_of_resolve
                intro q hq
                rw [Backing.resolve_missing_follow hres] at hq
                cases hq
              have hcached := h.links hl hino fun p hp => by
                rw [← heq]; exact hreg hnone (by simp [hf]) p hp
              exact hcached.congr rfl fun _ => rfl
            | none =>
              have hnum : (statToFileAttr (b.statOf ⟨f.obj, f.kind⟩)).ino = os.ino := by
                have hi := hl.ino s.backing.nextObj
                rw [if_pos rfl, ← hobj] at hi
                exact hi
              change Cached b (s.inodes.insert _ (s.resolvePath parent name))
              rw [hnum, heq]
              exact h.links_insert hl hino

/-- STEP: every tracked request that looks names up or changes them leaves the table right. -/
theorem right_step (h : s.Right) {c : Call} (hc : Naming c) (ht : s.Tracked X c) :
    (s.step X c).Right := by
  cases c with
  | evict now seconds => exact hc.elim
  | outside backing => exact hc.elim
  | fuse os pid req =>
    obtain ⟨hino, hreq⟩ := hc
    cases req with
    | lookup parent name => exact right_lookup h ht
    | readdir ino offset => exact right_readdir h ht
    | create parent name mode flags => exact right_create h _ ht.1 hino ht.2
    | mkdir parent name mode => exact right_mkdir h ht.1 hino ht.2
    | symlink parent name target => exact right_symlink h ht.1 hino ht.2
    | unlink parent name => exact right_unlink h _
    | rmdir parent name => exact right_rmdir h
    | rename parent name newparent newname flags => exact right_rename h _ flags ht.1 ht.2.1 ht.2.2
    | _ => exact hreq.elim

theorem right_mount (b : Backing) (os : Os) (sc : Bool) (sessionId : Bytes)
    (hb : (mount b os sc sessionId).backing.Plain) : (mount b os sc sessionId).Right := .new hb

/-- Inode resolution is correct: the root number leads to the root, and a number of a linked object
    leads to that object, as `lstat` and `readlink` look it up and, for anything but a symbolic link,
    as `open` and `truncate` do. -/
structure Resolves (s : DibsFs) : Prop where
  root : s.inodes.getPath 1 = some []
  objects : ∀ p e q, s.backing.entry p = some e →
    s.inodes.getPath (s.backing.attrOf e.obj).ino = some q →
    ∀ fl, (fl = true → ∀ t, e.kind ≠ .symlink t) → ∃ r, s.backing.find fl q = .ok (r, e)

theorem Right.resolves (h : s.Right) : s.Resolves where
  root := h.root
  objects := by
    intro p e q he hq fl hfl
    obtain rfl := h.here p e q he hq
    exact ⟨q, h.plain.find_entry he hfl⟩

/-- TRUTH: over a tree without hard links, after every beginning of a run of tracked requests, each
    inode number of a linked object that the table has leads to that object. -/
theorem inodes_resolve (X : Ext) (backing : Backing) (os : Os) (saveConflicts : Bool)
    (sessionId : Bytes) (hplain : (mount backing os saveConflicts sessionId).backing.Plain)
    (calls : List Call) (hcalls : ∀ c ∈ calls, Naming c)
    (htracked : Run.Along (step X) (Tracked X) (mount backing os saveConflicts sessionId) calls) :
    ∀ l, l <+: calls →
      Resolves (Run.exec (step X) (mount backing os saveConflicts sessionId) l) := by
  rintro l ⟨m, rfl⟩
  have hl := htracked.of_append.and_forall fun c hc => hcalls c (List.mem_append_left m hc)
  have hright := Run.exec_of_inv (I := Right) (fun s c h hc => right_step h hc.2 hc.1) l _
    (right_mount backing os saveConflicts sessionId hplain) hl
  exact hright.resolves

instance (s : DibsFs) (parent : ℕ) (name : Name) : Decidable (s.Named parent name) :=
  inferInstanceAs (Decidable (_ ∧ _))

instance (s : DibsFs) (old : Path) : Decidable (s.Followed old) :=
  inferInstanceAs (Decidable (∀ x ∈ s.inodes.inoToPath.iter, _))

theorem plain_empty : emptyBacking.Plain where
  root := rfl
  parent := fun _ _ _ he => by cases he
  ino := by
    intro p q e f he hf _
    have hnil : ∀ {p e}, emptyBacking.entry p = some e → p = [] := by
      intro p e he
      by_contra hp
      rw [Backing.entry_of_ne hp] at he
      cases he
    rw [hnil he, hnil hf]
  free := by
    intro p e _
    simp [Backing.attrOf, emptyBacking]

theorem nestedBacking_plain : nestedBacking.Plain := by
  have hdir := (Backing.newObject_links (b := emptyBacking) (d := []) (m := [0x64]) .dir (a := { ino := 20 })
    ⟨0, rfl⟩ (by decide) rfl (by decide)).plain plain_empty (by decide)
  exact (Backing.newObject_links (d := [[0x64]]) (m := fName) .file (a := { ino := 21 })
    ⟨1, rfl⟩ (by decide) rfl (by decide)).plain hdir (by decide)

/-- `d`, which is not empty, is renamed to `e` before anything in it is looked up; then its inode number
    leads to `e`, and that of the file to `e/f`. -/
theorem early_rename_resolves :
    nestedMount.backing.Plain ∧
      Resolves (Run.exec (step sampleExt) nestedMount [.fuse {} 7 (.lookup 1 [0x64]),
        .fuse {} 7 (.rename 1 [0x64] 1 [0x65] 0), .fuse {} 7 (.lookup 20 fName)]) ∧
      (Run.exec (step sampleExt) nestedMount [.fuse {} 7 (.lookup 1 [0x64]),
        .fuse {} 7 (.rename 1 [0x64] 1 [0x65] 0), .fuse {} 7 (.lookup 20 fName)]).inodes.getPath 21 =
          some [[0x65], fName] := by
  refine ⟨nestedBacking_plain, ?_, by decide +kernel⟩
  refine inodes_resolve sampleExt nestedBacking {} false [] nestedBacking_plain _ ?_ ?_ _
    (List.prefix_refl _)
  · simp [Naming]
  · refine ⟨?_, ⟨?_, ?_, fun _ _ => ?_⟩, ?_, trivial⟩
    · change Named _ _ _; decide +kernel
    · decide +kernel
    · decide +kernel
    · decide +kernel
    · change Named _ _ _; decide +kernel

/-- After `d` and `d/f` have been looked up, a rename of `d` to `e` leaves 21, the number of the file
    that is now at `e/f`, at `d/f`. -/
theorem rename_leaves_numbers_below :
    nestedMount.backing.Plain ∧
      (∀ c ∈ [Call.fuse {} 7 (.lookup 1 [0x64]), .fuse {} 7 (.lookup 20 fName),
        .fuse {} 7 (.rename 1 [0x64] 1 [0x65] 0)], Naming c) ∧
      ¬ Resolves (Run.exec (step sampleExt) nestedMount [.fuse {} 7 (.lookup 1 [0x64]),
        .fuse {} 7 (.lookup 20 fName), .fuse {} 7 (.rename 1 [0x64] 1 [0x65] 0)]) := by
  refine ⟨nestedBacking_plain, by simp [Naming], fun h => ?_⟩
  obtain ⟨r, hr⟩ := h.objects [[0x65], fName] ⟨2, .file⟩ [[0x64], fName] (by decide +kernel)
    (by decide +kernel) false (by simp)
  have hgone : (Backing.find (Run.exec (step sampleExt) nestedMount [.fuse {} 7 (.lookup 1 [0x64]),
      .fuse {} 7 (.lookup 20 fName), .fuse {} 7 (.rename 1 [0x64] 1 [0x65] 0)]).backing false
      [[0x64], fName]).isOk = false := by decide +kernel
  rw [hr] at hgone
  cases hgone

end DibsFs

end Dibs
