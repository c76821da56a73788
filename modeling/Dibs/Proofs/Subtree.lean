import Dibs.Fs.Outcomes

/-! Renaming a directory. `CasTable::rename` moves what is recorded of one path; the paths below it
    are recorded under their full names and stay where they are. So the records of a subtree follow a
    rename exactly if there are none to follow. -/

namespace Dibs

namespace CasTable
variable {t : CasTable} {old new : Path}

/-- Nothing is recorded of a path: no entry and no receipt. -/
def Unrecorded (t : CasTable) (p : Path) : Prop :=
  t.entries.get p = none ∧ ∀ sid, t.getReaderHash sid p = none

/-- The records of the paths strictly below `old` are found below `new`, and nothing remains below
    `old`. -/
structure SubtreeMoved (t t' : CasTable) (old new : Path) : Prop where
  receipts : ∀ sid x, x ≠ [] → t'.getReaderHash sid (new ++ x) = t.getReaderHash sid (old ++ x)
  owners : ∀ x, x ≠ [] → t'.owner (new ++ x) = t.owner (old ++ x)
  left : ∀ x, x ≠ [] → t'.Unrecorded (old ++ x)

/-- Nothing is recorded strictly below `old`, and no owner and no receipt strictly below `new` but for
    `old` itself; and if `new` lies below `old`, nothing is recorded of `old`. -/
structure SubtreeBare (t : CasTable) (old new : Path) : Prop where
  below : ∀ x, x ≠ [] → t.Unrecorded (old ++ x)
  target : ∀ x, x ≠ [] → new ++ x ≠ old →
    t.owner (new ++ x) = none ∧ ∀ sid, t.getReaderHash sid (new ++ x) = none
  inside : ∀ x, x ≠ [] → new = old ++ x → t.Unrecorded old

theorem Unrecorded.owner {p : Path} (h : t.Unrecorded p) : t.owner p = none := by
  rw [CasTable.owner, h.1]; rfl

/-- What is recorded of a path that is neither of the two names stays. -/
theorem unrecorded_rename_iff {p : Path} (ho : p ≠ old) (hn : p ≠ new) :
    (t.rename old new).Unrecorded p ↔ t.Unrecorded p := by
  refine and_congr ?_ (forall_congr' fun sid => ?_)
  · rw [get_entries_rename, if_neg hn, if_neg ho, ite_self]
  · rw [getReaderHash_rename, if_neg hn, if_neg ho]

/-- The new name has nothing recorded just when neither name had. -/
theorem unrecorded_rename_new_iff :
    (t.rename old new).Unrecorded new ↔ t.Unrecorded old ∧ t.Unrecorded new := by
  simp only [Unrecorded, get_entries_rename, getReaderHash_rename, if_true, Option.or_eq_none_iff]
  by_cases ho : t.entries.get old = none
  · simp only [ho, if_true, true_and, forall_and]
    tauto
  · simp only [ho, if_false, false_and]

theorem append_ne_self {p x : Path} (hx : x ≠ []) : p ++ x ≠ p := fun h => hx (by simpa using h)

theorem subtreeBare_of_moved (h : SubtreeMoved t (t.rename old new) old new) :
    SubtreeBare t old new := by
  have hinside : ∀ x, x ≠ [] → new = old ++ x → t.Unrecorded old ∧ t.Unrecorded new := by
    rintro x hx hnew
    have hleft := h.left x hx
    rw [← hnew] at hleft
    exact unrecorded_rename_new_iff.mp hleft
  have hbelow : ∀ x, x ≠ [] → t.Unrecorded (old ++ x) := by
    intro x hx
    by_cases hnew : old ++ x = new
    · rw [hnew]; exact (hinside x hx hnew.symm).2
    · exact (unrecorded_rename_iff (append_ne_self hx) hnew).mp (h.left x hx)
  refine ⟨hbelow, fun x hx hne => ⟨?_, fun sid => ?_⟩, fun x hx hnew => (hinside x hx hnew).1⟩
  · have hown := h.owners x hx
    rw [owner_rename, if_neg (append_ne_self hx), if_neg hne, ite_self] at hown
    exact hown.trans (hbelow x hx).owner
  · have hrec := h.receipts sid x hx
    rw [getReaderHash_rename, if_neg (append_ne_self hx), if_neg hne] at hrec
    exact hrec.trans ((hbelow x hx).2 sid)

theorem moved_of_subtreeBare (h : SubtreeBare t old new) :
    SubtreeMoved t (t.rename old new) old new where
  receipts := by
    intro sid x hx
    rw [(h.below x hx).2 sid, getReaderHash_rename, if_neg (append_ne_self hx)]
    split
    · rfl
    · rename_i hne; exact (h.target x hx hne).2 sid
  owners := by
    intro x hx
    rw [(h.below x hx).owner, owner_rename, if_neg (append_ne_self hx)]
    by_cases hne : new ++ x = old
    · rw [if_pos hne, hne]
      split
      · rename_i hnone; rw [owner, hnone]; rfl
      · rfl
    · rw [if_neg hne, ite_self]; exact (h.target x hx hne).1
  left := by
    intro x hx
    by_cases hnew : old ++ x = new
    · have hbelow := h.below x hx
      rw [hnew] at hbelow ⊢
      exact unrecorded_rename_new_iff.mpr ⟨h.inside x hx hnew.symm, hbelow⟩
    · exact (unrecorded_rename_iff (append_ne_self hx) hnew).mpr (h.below x hx)

end CasTable

namespace DibsFs

theorem rename_casTable {X : Ext} {s : DibsFs} {os : Os} {sid parent : ℕ} {name : Name}
    {newparent : ℕ} {newname : Name} {flags : ℕ}
    (h : (s.rename X os sid parent name newparent newname flags).reply = .ok) :
    (s.rename X os sid parent name newparent newname flags).st.casTable =
      s.casTable.rename (s.resolvePath parent name) (s.resolvePath newparent newname) := by
  have hout := s.rename_out X os sid parent name newparent newname flags
  generalize s.rename X os sid parent name newparent newname flags = o at hout h
  cases hout with
  | failed e => cases h
  | staleSource => cases h
  | staleDest => cases h
  | renamed b => rfl

/-- SUBTREE: after a rename that is carried out, what was recorded below the old name is found below
    the new one, and nothing is left, exactly if there was nothing recorded below either name. -/
theorem subtree_moved_iff (X : Ext) (s : DibsFs) (os : Os) (sid parent : ℕ) (name : Name)
    (newparent : ℕ) (newname : Name) (flags : ℕ)
    (hok : (s.rename X os sid parent name newparent newname flags).reply = .ok) :
    CasTable.SubtreeMoved s.casTable
        (s.rename X os sid parent name newparent newname flags).st.casTable
        (s.resolvePath parent name) (s.resolvePath newparent newname) ↔
      CasTable.SubtreeBare s.casTable (s.resolvePath parent name)
        (s.resolvePath newparent newname) := by
  rw [rename_casTable hok]
  exact ⟨CasTable.subtreeBare_of_moved, CasTable.moved_of_subtreeBare⟩

/-- A backing directory with a directory `d`, inode 20, that holds a file `f`, inode 21. -/
def nestedBacking : Backing :=
  (emptyBacking.newObject [[0x64]] .dir { ino := 20 }).newObject [[0x64], fName] .file { ino := 21 }

def nestedMount : DibsFs := mount nestedBacking {} false []

/-- With nothing recorded, a rename of `d` to `e` leaves nothing behind. -/
theorem unread_directory_moved :
    (nestedMount.rename sampleExt {} 7 1 [0x64] 1 [0x65] 0).reply = .ok ∧
      CasTable.SubtreeMoved nestedMount.casTable
        (nestedMount.rename sampleExt {} 7 1 [0x64] 1 [0x65] 0).st.casTable [[0x64]] [[0x65]] := by
  have hok : (nestedMount.rename sampleExt {} 7 1 [0x64] 1 [0x65] 0).reply = .ok := by
    decide +kernel
  have hbare : CasTable.SubtreeBare nestedMount.casTable [[0x64]] [[0x65]] :=
    ⟨fun _ _ => ⟨rfl, fun _ => rfl⟩, fun _ _ _ => ⟨rfl, fun _ => rfl⟩,
      fun _ _ _ => ⟨rfl, fun _ => rfl⟩⟩
  exact ⟨hok, (subtree_moved_iff sampleExt nestedMount {} 7 1 [0x64] 1 [0x65] 0 hok).mpr hbare⟩

/-- Session 7 reads `d/f`; session 8 writes it; then `d` is to be renamed to `e`. -/
def readBelow : List Call :=
  [.fuse {} 7 (.lookup 1 [0x64]), .fuse {} 7 (.lookup 20 fName), .fuse {} 7 (.open_ 21 O_RDONLY),
    .fuse {} 7 (.release 21 1), .fuse {} 8 (.open_ 21 O_WRONLY), .fuse {} 8 (.write 21 2 0 [0x62]),
    .fuse {} 8 (.flush 21 2), .fuse {} 8 (.release 21 2)]

/-- The receipt of session 7 stays at `d/f`: the write-mode open of `e/f`, which session 7 last saw
    empty, is let through as a blind write. -/
theorem receipt_left_below_renamed_directory :
    ∃ s : DibsFs, s = Run.exec (step sampleExt) nestedMount readBelow ∧ Reachable sampleExt s ∧
      (s.rename sampleExt {} 8 1 [0x64] 1 [0x65] 0).reply = .ok ∧
      ¬ CasTable.SubtreeMoved s.casTable
        (s.rename sampleExt {} 8 1 [0x64] 1 [0x65] 0).st.casTable [[0x64]] [[0x65]] ∧
      (s.rename sampleExt {} 8 1 [0x64] 1 [0x65] 0).st.casTable.getReaderHash 7 [[0x64], fName] =
        some (sampleSha256 []) ∧
      (out sampleExt (Run.exec (step sampleExt) s [.fuse {} 8 (.rename 1 [0x64] 1 [0x65] 0),
        .fuse {} 7 (.lookup 20 fName)]) (.fuse {} 7 (.open_ 21 O_WRONLY))).reply = .opened 3 := by
  have hleft : (rename sampleExt (Run.exec (step sampleExt) nestedMount readBelow) {} 8 1 [0x64] 1
      [0x65] 0).st.casTable.getReaderHash 7 [[0x64], fName] = some (sampleSha256 []) := by
    decide +kernel
  refine ⟨_, rfl, Reachable.exec (.mount _ _ _ _ fun _ => rfl) (by decide +kernel), by decide +kernel,
    fun h => ?_, hleft, by decide +kernel⟩
  have hgone := (h.left [fName] (by decide)).2 7
  rw [List.singleton_append, hleft] at hgone
  cases hgone

end DibsFs

end Dibs
