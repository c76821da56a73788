import Dibs.Fs.Transitions
import Dibs.Fs.Listing
import Dibs.Proofs.InodeBijection

/-! How the mounted filesystem uses the inode table: every event edits it by a sequence of its
    operations, mostly none or one. So whatever each operation keeps holds in every reachable state,
    however the backing directory is changed from outside. One such fact is half of the bijection: a
    number found by its path has that path. -/

namespace Dibs

namespace InodeTable
variable {t t' t'' : InodeTable}

/-- `t'` is what a sequence of operations makes of `t`. -/
def Edits (t t' : InodeTable) : Prop := ∃ calls, t' = Run.exec call t calls

theorem Edits.refl (t : InodeTable) : t.Edits t := ⟨[], rfl⟩

theorem Edits.one (t : InodeTable) (c : InodeCall) : t.Edits (t.call c) := ⟨[c], rfl⟩

theorem Edits.trans (h : t.Edits t') (h' : t'.Edits t'') : t.Edits t'' := by
  obtain ⟨l, rfl⟩ := h
  obtain ⟨l', rfl⟩ := h'
  exact ⟨l ++ l', (List.foldl_append ..).symm⟩

/-- A number that a path leads to leads back to that path. -/
def Forward (t : InodeTable) : Prop := ∀ i p, t.getIno p = some i → t.getPath i = some p

/-- STEP: every operation keeps this, also the rename that leaves a stale number behind. -/
theorem Forward.call (h : t.Forward) (c : InodeCall) : (t.call c).Forward := by
  intro i p hi
  cases c with
  | insert ino path =>
    simp only [InodeTable.call] at hi ⊢
    rw [getIno_insert_eq] at hi
    rw [getPath_insert_eq]
    by_cases hp : p = path
    · rw [if_pos hp] at hi
      rw [if_pos (Option.some.inj hi).symm, hp]
    · rw [if_neg hp, Option.ite_none_left_eq_some] at hi
      obtain ⟨hno, hi⟩ := hi
      have hpath := h i p hi
      rw [if_neg, if_neg, hpath]
      · rintro ⟨hold, -⟩
        exact hp (Option.some.inj (hpath.symm.trans (h i path hold)))
      · rintro rfl
        exact hno hpath
  | removeByIno ino =>
    simp only [InodeTable.call] at hi ⊢
    rw [getIno_removeByIno, Option.ite_none_left_eq_some] at hi
    rw [getPath_removeByIno, if_neg, h i p hi.2]
    rintro rfl
    exact hi.1 (h i p hi.2)
  | removeByPath path =>
    simp only [InodeTable.call] at hi ⊢
    rw [getIno_removeByPath, Option.ite_none_left_eq_some] at hi
    rw [getPath_removeByPath, if_neg, h i p hi.2]
    intro hold
    exact hi.1 (Option.some.inj ((h i p hi.2).symm.trans (h i path hold)))
  | rename old new =>
    simp only [InodeTable.call] at hi ⊢
    rw [getIno_rename] at hi
    rw [getPath_rename]
    cases hold : t.getIno old with
    | none =>
      rw [hold, if_pos rfl] at hi
      rw [if_neg (by simp), h i p hi]
    | some k =>
      rw [hold, if_neg (by simp)] at hi
      by_cases hp : p = new
      · rw [if_pos hp] at hi
        rw [if_pos hi, hp]
      · rw [if_neg hp, Option.ite_none_left_eq_some] at hi
        rw [if_neg, h i p hi.2]
        rintro hk
        rw [hk] at hold
        exact hi.1 (Option.some.inj ((h i p hi.2).symm.trans (h i old hold)))

theorem Forward.edits (h : t.Forward) (he : t.Edits t') : t'.Forward := by
  obtain ⟨l, rfl⟩ := he
  exact Run.exec_of_inv (I := Forward) (P := fun _ _ => True) (fun _ c h _ => h.call c) l t h
    (Run.along_of_forall l t fun _ _ => trivial)

end InodeTable

namespace DibsFs
variable (X : Ext) (s : DibsFs) (os : Os)

theorem edits_replyEntry (rel : Path) : s.inodes.Edits (s.replyEntry os rel).st.inodes := by
  rw [replyEntry, lookupAndRegister]
  cases s.backing.lstat os rel with
  | error e => exact .refl _
  | ok st =>
    by_cases hr : rel = []
    · simp only [if_pos hr]
      exact .one _ (.insert 1 [])
    · simp only [if_neg hr]
      exact .one _ (.insert st.attr.ino rel)

theorem edits_register (rel : Path) (es : List (ℕ × FileType × Name)) :
    ∀ t : InodeTable, t.Edits (register t rel es) := by
  induction es with
  | nil => exact fun t => .refl t
  | cons e es ih => exact fun t => (InodeTable.Edits.one t (.insert e.1 (rel ++ [e.2.2]))).trans (ih _)

theorem edits_passive {req : Request} (hp : passive req = true) (sid : ℕ) :
    s.inodes.Edits (s.handle X os sid req).st.inodes := by
  have same : s.inodes.Edits s.inodes := .refl _
  have reads : ∀ {req}, readOnly req = true →
      s.inodes.Edits (s.handle X os sid req).st.inodes := by
    intro req h
    rw [(s.handle_readOnly X os h sid).1]
    exact same
  cases req with
  | getattr ino => exact reads rfl
  | read ino fh offset size => exact reads rfl
  | readlink ino => exact reads rfl
  | link ino newparent newname => exact reads rfl
  | access ino => exact reads rfl
  | lookup parent name =>
    simp only [handle, lookup]
    split
    · exact same
    · split
      · split_ifs <;> exact same
      · exact s.edits_replyEntry os _
  | readdir ino offset =>
    simp only [handle, readdir]
    split_ifs
    · exact same
    · exact same
    all_goals
      split
      · exact same
      · split
        · exact same
        · rw [listNames_eq]
          exact edits_register ..
  | mkdir parent name mode =>
    simp only [handle, mkdir]
    split_ifs
    · exact same
    · exact same
    · split
      · exact same
      · exact edits_replyEntry { s with backing := _ } os _
  | rmdir parent name =>
    simp only [handle, rmdir]
    split_ifs
    · exact same
    · exact same
    · split
      · exact same
      · exact .one _ (.removeByPath _)
  | symlink parent name target =>
    simp only [handle, symlink]
    split_ifs
    · exact same
    · exact same
    · split
      · exact same
      · exact edits_replyEntry { s with backing := _ } os _
  | opendir ino =>
    simp only [handle, opendir]
    split_ifs
    · exact same
    all_goals
      split
      · exact same
      · split_ifs
        · exact same
        · split <;> exact same
  | releasedir fh =>
    simp only [handle, releasedir]
    split <;> exact same
  | _ => cases hp

/-- STEP: every event edits the inode table by its operations. -/
theorem step_edits (c : Call) : s.inodes.Edits (s.step X c).inodes := by
  have hout := s.step_out X c
  rw [step]
  generalize s.out X c = o at hout ⊢
  cases hout with
  | passive hp => exact s.edits_passive X _ hp _
  | created b fd attr _ _ => exact .one _ (.insert _ _)
  | unlinked b _ _ _ => exact .one _ (.removeByPath _)
  | renamed b _ _ _ _ _ => exact .one _ (.rename _ _)
  | openRead rel b fd _ _ =>
    rw [openRead]
    exact .refl _
  | writeRejected h e _ _ _ _ =>
    simp only [saveConflict]
    split <;> exact .refl _
  | writeThrough h cas _ _ _ =>
    obtain ⟨b, hst, -⟩ := writeThrough_st { s with casTable := cas } _ _ h _ _
    rw [hst]
    exact .refl _
  | _ => exact .refl _

/-- RUN: in every reachable state a number found by its path has that path. -/
theorem Reachable.forward {X : Ext} {s : DibsFs} (h : Reachable X s) : s.inodes.Forward := by
  refine h.inv (I := fun s => s.inodes.Forward) (fun b os sc sid _ => ?_) fun s c hs _ =>
    hs.edits (s.step_edits X c)
  have hnew : InodeTable.new.Forward := fun i p hi => by cases hi
  exact hnew.call (.insert 1 [])

/-! ### The registrations of one listing -/

variable {t : InodeTable} {rel p : Path} {i : ℕ} {es : List (ℕ × FileType × Name)}

/-- Another number under another path takes nothing away. -/
theorem getPath_insert_of_ne (h : t.Forward) {ino : ℕ} {path : Path} (hi : t.getPath i = some p)
    (hino : i ≠ ino) (hpath : p ≠ path) : (t.insert ino path).getPath i = some p := by
  rw [InodeTable.getPath_insert_eq, if_neg hino, if_neg, hi]
  rintro ⟨hold, -⟩
  exact hpath (Option.some.inj (hi.symm.trans (h i path hold)))

theorem getPath_register_of_ne (h : t.Forward) (hi : t.getPath i = some p)
    (hne : ∀ e ∈ es, i ≠ e.1 ∧ p ≠ rel ++ [e.2.2]) : (register t rel es).getPath i = some p := by
  induction es generalizing t with
  | nil => exact hi
  | cons e es ih =>
    obtain ⟨hino, hpath⟩ := hne e (List.mem_cons_self ..)
    exact ih (h.call (.insert ..)) (getPath_insert_of_ne h hi hino hpath) fun e' he' =>
      hne e' (List.mem_cons_of_mem _ he')

/-- Entries with numbers and names of their own are all registered in the end. -/
theorem getPath_register (h : t.Forward) (hino : (es.map (·.1)).Nodup)
    (hname : (es.map (·.2.2)).Nodup) {e : ℕ × FileType × Name} (he : e ∈ es) :
    (register t rel es).getPath e.1 = some (rel ++ [e.2.2]) := by
  induction es generalizing t with
  | nil => cases he
  | cons a es ih =>
    rw [List.map_cons, List.nodup_cons] at hino hname
    have hnext := h.call (.insert a.1 (rel ++ [a.2.2]))
    rw [register, List.foldl_cons]
    rcases List.mem_cons.mp he with rfl | he
    · have hself := (t.getPath_insert_eq e.1 (rel ++ [e.2.2]) e.1).trans (if_pos rfl)
      refine getPath_register_of_ne hnext hself fun e' he' => ⟨fun heq => ?_, fun heq => ?_⟩
      · exact hino.1 (heq ▸ List.mem_map_of_mem he')
      · have hsame : e'.2.2 = e.2.2 := by simpa using heq.symm
        exact hname.1 (hsame ▸ List.mem_map_of_mem he')
    · exact ih hnext hino.2 hname.2 he

/-- A number that is in no entry gets no path. -/
theorem getPath_register_none (hi : t.getPath i = none) (hne : ∀ e ∈ es, i ≠ e.1) :
    (register t rel es).getPath i = none := by
  induction es generalizing t with
  | nil => exact hi
  | cons e es ih =>
    refine ih ?_ fun e' he' => hne e' (List.mem_cons_of_mem _ he')
    rw [InodeTable.getPath_insert_eq, if_neg (hne e (List.mem_cons_self ..)), hi, ite_self]

end DibsFs

end Dibs
