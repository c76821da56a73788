import Dibs.Lib.Run
import Dibs.Fs.Inodes

/-! The two maps of the inode table as inverses of each other. Each operation edits one map through
    what it finds in the other. `insert` and the removals keep the maps inverse; `rename` forgets the
    number that the new path had before, so they stay inverse exactly as long as no registered path is
    renamed onto another registered path. -/

namespace Dibs

/-- An operation of the inode table. -/
inductive InodeCall where
  | insert (ino : ℕ) (path : Path)
  | removeByIno (ino : ℕ)
  | removeByPath (path : Path)
  | rename (oldPath newPath : Path)

namespace InodeTable
variable {t : InodeTable}

def call (t : InodeTable) : InodeCall → InodeTable
  | .insert ino path => t.insert ino path
  | .removeByIno ino => t.removeByIno ino
  | .removeByPath path => t.removeByPath path
  | .rename oldPath newPath => t.rename oldPath newPath

/-- The two maps are inverse to each other. -/
def Inverse (t : InodeTable) : Prop := ∀ i p, t.getPath i = some p ↔ t.getIno p = some i

/-- The table is a bijection: the maps are inverse, no two numbers resolve to one path, and
    registering a pair drops no mapping of another number and another path. -/
structure OneToOne (t : InodeTable) : Prop where
  inverse : t.Inverse
  distinct : ∀ i j p, t.getPath i = some p → t.getPath j = some p → i = j
  kept : ∀ ino path j p, t.getPath j = some p → j ≠ ino → p ≠ path →
    (t.insert ino path).getPath j = some p ∧ (t.insert ino path).getIno p = some j

/-- The call is no rename of a registered path onto a path registered for another number. -/
def Vacant (t : InodeTable) : InodeCall → Prop
  | .rename old new => ∀ i j, t.getIno old = some i → t.getIno new = some j → i = j
  | _ => True

theorem Inverse.path_inj (h : t.Inverse) {i : ℕ} {p q : Path} (hp : t.getIno p = some i)
    (hq : t.getIno q = some i) : p = q := by
  rw [← h] at hp hq
  exact Option.some.inj (hp.symm.trans hq)

theorem Inverse.ino_inj (h : t.Inverse) {i j : ℕ} {p : Path} (hi : t.getPath i = some p)
    (hj : t.getPath j = some p) : i = j := by
  rw [h] at hi hj
  exact Option.some.inj (hi.symm.trans hj)

theorem Inverse.oneToOne (h : t.Inverse) : t.OneToOne where
  inverse := h
  distinct := fun _ _ _ hi hj => h.ino_inj hi hj
  kept := by
    intro ino path j p hj hne hp
    constructor
    · rw [getPath_insert_eq, if_neg hne, if_neg, hj]
      rintro ⟨hpath, -⟩
      rw [← h, hj] at hpath
      exact hp (Option.some.inj hpath)
    · rw [getIno_insert_eq, if_neg hp, if_neg, (h j p).mp hj]
      intro hino
      exact hne (h.ino_inj hj hino)

theorem inverse_new : new.Inverse := fun i p => iff_of_false (by simp [new, getPath])
  (by simp [new, getIno])

theorem Inverse.insert (h : t.Inverse) (ino : ℕ) (path : Path) : (t.insert ino path).Inverse := by
  intro i p
  rw [getPath_insert_eq, getIno_insert_eq]
  by_cases hi : i = ino
  · subst hi
    rw [if_pos rfl]
    by_cases hp : p = path
    · rw [if_pos hp, hp]
      exact iff_of_true rfl rfl
    · rw [if_neg hp, Option.ite_none_left_eq_some]
      refine iff_of_false (fun heq => hp (Option.some.inj heq).symm) ?_
      rintro ⟨hno, heq⟩
      exact hno ((h i p).mpr heq)
  · rw [if_neg hi, Option.ite_none_left_eq_some]
    by_cases hp : p = path
    · subst hp
      rw [if_pos rfl]
      refine iff_of_false ?_ fun heq => hi (Option.some.inj heq).symm
      rintro ⟨hno, heq⟩
      exact hno ⟨(h i p).mp heq, fun hino => hi (h.ino_inj heq hino)⟩
    · rw [if_neg hp, Option.ite_none_left_eq_some]
      -- a mapping of neither the number nor the path is not touched
      constructor
      · rintro ⟨-, heq⟩
        exact ⟨fun hino => hi (h.ino_inj heq hino), (h i p).mp heq⟩
      · rintro ⟨-, heq⟩
        refine ⟨?_, (h i p).mpr heq⟩
        rintro ⟨hpath, -⟩
        exact hp (h.path_inj heq hpath)

theorem Inverse.removeByIno (h : t.Inverse) (ino : ℕ) : (t.removeByIno ino).Inverse := by
  intro i p
  rw [getPath_removeByIno, getIno_removeByIno, Option.ite_none_left_eq_some,
    Option.ite_none_left_eq_some, h i p]
  refine and_congr_left fun heq => not_congr ?_
  rw [h]
  exact ⟨fun hi => by rw [← hi]; exact heq, fun hino => Option.some.inj (heq.symm.trans hino)⟩

theorem Inverse.removeByPath (h : t.Inverse) (path : Path) : (t.removeByPath path).Inverse := by
  intro i p
  rw [getPath_removeByPath, getIno_removeByPath, Option.ite_none_left_eq_some,
    Option.ite_none_left_eq_some, h i p]
  refine and_congr_left fun heq => not_congr ?_
  exact ⟨fun hpath => h.path_inj heq hpath, fun hp => by rw [← hp]; exact heq⟩

theorem Inverse.rename (h : t.Inverse) {old new : Path} (hc : t.Vacant (.rename old new)) :
    (t.rename old new).Inverse := by
  intro i p
  rw [getPath_rename, getIno_rename]
  cases hold : t.getIno old with
  | none => simp [h i p]
  | some k =>
    simp only [reduceCtorEq, if_false]
    by_cases hp : p = new
    · subst hp
      rw [if_pos rfl]
      split
      · rename_i hk; exact iff_of_true rfl hk
      · rename_i hk
        refine iff_of_false (fun heq => ?_) hk
        exact hk (congrArg some (hc k i hold ((h i p).mp heq)))
    · rw [if_neg hp]
      split
      · rename_i hk
        refine iff_of_false (fun heq => hp (Option.some.inj heq).symm) ?_
        rw [Option.ite_none_left_eq_some]
        rintro ⟨hno, heq⟩
        exact hno (h.path_inj heq (hold.trans hk))
      · rename_i hk
        rw [Option.ite_none_left_eq_some, h i p]
        refine ⟨fun heq => ⟨?_, heq⟩, And.right⟩
        rintro rfl
        exact hk (hold.symm.trans heq)

/-- A rename onto a path of another number leaves that number behind. -/
theorem Inverse.vacant_of_rename (h : t.Inverse) {old new : Path}
    (hr : (t.rename old new).Inverse) : t.Vacant (.rename old new) := by
  intro i j hi hj
  by_contra hne
  have hstale : (t.rename old new).getPath j = some new := by
    rw [getPath_rename, if_neg, (h j new).mpr hj]
    rw [hi]
    exact fun heq => hne (Option.some.inj heq)
  rw [hr j new, getIno_rename, hi] at hstale
  simp only [reduceCtorEq, if_false, if_true] at hstale
  exact hne (Option.some.inj hstale)

/-- STEP: a call keeps the maps inverse exactly if it is no rename onto another number's path. -/
theorem Inverse.call_iff (h : t.Inverse) (c : InodeCall) : (t.call c).Inverse ↔ t.Vacant c := by
  cases c with
  | insert ino path => exact iff_of_true (h.insert ino path) trivial
  | removeByIno ino => exact iff_of_true (h.removeByIno ino) trivial
  | removeByPath path => exact iff_of_true (h.removeByPath path) trivial
  | rename old new => exact ⟨fun hr => h.vacant_of_rename hr, fun hc => h.rename hc⟩

/-- BIJECTION: a sequence of calls leads through bijections only, exactly if it renames no registered
    path onto a path registered for another number. -/
theorem bijective_throughout_iff (calls : List InodeCall) :
    Run.Along call (fun t c => (t.call c).OneToOne) new calls ↔
      Run.Along call Vacant new calls :=
  Run.along_iff_of_inv (I := Inverse) (fun _ c h hc => (h.call_iff c).mpr hc)
    (fun _ c h => ⟨fun ho => (h.call_iff c).mp ho.inverse,
      fun hc => ((h.call_iff c).mpr hc).oneToOne⟩) calls new inverse_new

/-- `f` (number 10) is renamed onto `g` (number 11), then number 11 is given to a new file `h`. -/
def renamedThenReused : List InodeCall :=
  [.insert 10 [[0x66]], .insert 11 [[0x67]], .rename [[0x66]] [[0x67]]]

/-- After the rename both numbers resolve to `g`, and registering number 11 elsewhere drops the
    mapping of `g`, which belongs to number 10. -/
theorem rename_leaves_stale_number :
    ¬ Inverse (Run.exec call new renamedThenReused) ∧
      (Run.exec call new renamedThenReused).getPath 10 = some [[0x67]] ∧
      (Run.exec call new renamedThenReused).getPath 11 = some [[0x67]] ∧
      (Run.exec call new renamedThenReused).getIno [[0x67]] = some 10 ∧
      ((Run.exec call new renamedThenReused).insert 11 [[0x68]]).getIno [[0x67]] = none := by
  have h₁ : (Run.exec call new renamedThenReused).getPath 11 = some [[0x67]] := by decide +kernel
  have h₂ : (Run.exec call new renamedThenReused).getIno [[0x67]] = some 10 := by decide +kernel
  refine ⟨fun h => ?_, by decide +kernel, h₁, h₂, by decide +kernel⟩
  rw [h, h₂] at h₁
  exact absurd (Option.some.inj h₁) (by decide)

end InodeTable

end Dibs
