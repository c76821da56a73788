import Dibs.Fs.Step
import Dibs.Fs.Outcomes
import Dibs.Os.Below

/-! What `readdir` does on a real directory, in one equation. The names `read_dir` gives are turned into
    entries one by one (`entryOf`), each entry is registered in the inode table, and the reply is the
    page of the whole listing that starts at the cookie. Neither the entries nor the registrations
    depend on the cookie. -/

namespace Dibs

namespace DibsFs
variable (s : DibsFs) (os : Os)

/-- `.` -/
def dot : Name := [0x2E]

/-- The entries every listing starts with. -/
def dots (ino : ℕ) (rel : Path) : List (ℕ × FileType × Name) :=
  [(ino, .directory, dot), (s.parentIno ino rel, .directory, Backing.dotdot)] ++
    if ino = 1 then [(DIBS_DIR_INO, .directory, DIBS_DIR_NAME)] else []

/-- The entry of a name, if it gets one. -/
def entryOf (b : Backing) (rel : Path) (raw : Name) : Option (ℕ × FileType × Name) :=
  if toStringLossy raw = CONFLICTS_DIR then none
  else
    match b.lstat os (rel ++ [toStringLossy raw]) with
    | .error _ => none
    | .ok st => some (st.attr.ino, fileType st.kind, toStringLossy raw)

def entriesOf (b : Backing) (rel : Path) (names : List Name) : List (ℕ × FileType × Name) :=
  names.filterMap (entryOf os b rel)

/-- The whole listing of a directory. -/
def listing (ino : ℕ) (rel : Path) (names : List Name) : List (ℕ × FileType × Name) :=
  s.dots ino rel ++ entriesOf os s.backing rel names

/-- The inode table after the entries of a listing are registered. -/
def register (t : InodeTable) (rel : Path) (es : List (ℕ × FileType × Name)) : InodeTable :=
  es.foldl (fun t e => t.insert e.1 (rel ++ [e.2.2])) t

/-- The path under which a directory is listed; the root needs no entry in the inode table. -/
def dirPathOf (ino : ℕ) : Option Path := if ino = 1 then some [] else s.inodes.getPath ino

/-- `ino` is a real directory with these names in it. -/
structure RealDir (ino : ℕ) (rel : Path) (names : List Name) : Prop where
  real : ino ≠ DIBS_DIR_INO ∧ ino ≠ DIBS_CONFLICTS_DIR_INO
  path : s.dirPathOf ino = some rel
  names : s.backing.readDir os rel = .ok names

variable {s os}

theorem listName_eq (rel : Path) (acc : DibsFs × List (ℕ × FileType × Name)) (raw : Name) :
    listName os rel acc raw = match entryOf os acc.1.backing rel raw with
      | none => acc
      | some e => ({ acc.1 with inodes := acc.1.inodes.insert e.1 (rel ++ [e.2.2]) }, acc.2 ++ [e]) := by
  rw [listName, entryOf]
  by_cases hc : toStringLossy raw = CONFLICTS_DIR
  · simp only [if_pos hc]
  · simp only [if_neg hc]
    cases acc.1.backing.lstat os (rel ++ [toStringLossy raw]) <;> rfl

/-- The names of a directory, one after the other. -/
theorem listNames_eq (rel : Path) (names : List Name) (acc : DibsFs × List (ℕ × FileType × Name)) :
    names.foldl (listName os rel) acc =
      ({ acc.1 with
          inodes := register acc.1.inodes rel (entriesOf os acc.1.backing rel names) },
        acc.2 ++ entriesOf os acc.1.backing rel names) := by
  induction names generalizing acc with
  | nil => simp [entriesOf, register]
  | cons raw names ih =>
    rw [List.foldl_cons, ih, listName_eq]
    cases he : entryOf os acc.1.backing rel raw with
    | none => simp only [entriesOf, List.filterMap_cons_none he]
    | some e =>
      simp only [entriesOf, List.filterMap_cons_some he, register, List.foldl_cons,
        List.append_assoc, List.singleton_append]

/-- If decoding changes no name that gets an entry, the entries have their names in order. -/
theorem map_name_entries {b : Backing} {rel : Path} {names : List Name}
    (h : ∀ n ∈ names, ∀ e, entryOf os b rel n = some e → e.2.2 = n) :
    (entriesOf os b rel names).map (·.2.2) =
      names.filter fun n => (entryOf os b rel n).isSome := by
  induction names with
  | nil => rfl
  | cons n names ih =>
    have htail := ih fun m hm => h m (List.mem_cons_of_mem _ hm)
    cases he : entryOf os b rel n with
    | none =>
      rw [entriesOf, List.filterMap_cons_none he, List.filter_cons_of_neg (by simp [he])]
      exact htail
    | some e =>
      rw [entriesOf, List.filterMap_cons_some he, List.filter_cons_of_pos (by simp [he]),
        List.map_cons, h n (List.mem_cons_self ..) e he]
      exact congrArg _ htail

/-- SPEC: `readdir` on a real directory. -/
theorem readdir_eq {ino : ℕ} {rel : Path} {names : List Name} (h : s.RealDir os ino rel names)
    (cookie : ℕ) : s.readdir os ino cookie =
      ⟨{ s with inodes := register s.inodes rel (entriesOf os s.backing rel names) },
        .directory (page os (s.listing os ino rel names) cookie), none⟩ := by
  rw [readdir]
  simp only [if_neg h.real.1, if_neg h.real.2]
  have hpath := h.path
  rw [dirPathOf] at hpath
  simp only [hpath, h.names, listNames_eq]
  rfl

/-- What is registered does not depend on the cookie. -/
theorem readdir_st (ino cookie cookie' : ℕ) :
    (s.readdir os ino cookie).st = (s.readdir os ino cookie').st := by
  rw [readdir, readdir]
  split
  · rfl
  · split
    · rfl
    · split
      · rfl
      · split <;> rfl

/-! ### Pages -/

theorem map_name_page (es : List (ℕ × FileType × Name)) (cookie : ℕ) :
    (page os es cookie).map (·.name) = ((es.map (·.2.2)).drop cookie).take os.room := by
  rw [page, List.map_map, ← List.map_drop, ← List.map_take]
  have hname : (fun e : (ℕ × FileType × Name) × ℕ => e.1.2.2) =
      (fun e : ℕ × FileType × Name => e.2.2) ∘ Prod.fst := rfl
  change ((es.zipIdx.drop cookie).take os.room).map (fun e => e.1.2.2) = _
  rw [hname, ← List.map_map, List.map_take, List.map_drop, List.zipIdx_map_fst]

/-- A page with room for every entry has them all. -/
theorem map_page_all {es : List (ℕ × FileType × Name)} (h : es.length ≤ os.room) :
    (page os es 0).map (fun e => (e.ino, e.kind, e.name)) = es := by
  have htake : (es.zipIdx.drop 0).take os.room = es.zipIdx := by
    rw [List.drop_zero, List.take_of_length_le (by simpa using h)]
  rw [page, htake, List.map_map]
  exact List.zipIdx_map_fst 0 es

/-- The cookie of the last entry of a page is where the next page starts. -/
theorem page_cookie (es : List (ℕ × FileType × Name)) (cookie : ℕ) :
    ((page os es cookie).getLast?.map (·.cookie)).getD cookie =
      cookie + (page os es cookie).length := by
  have hget : ∀ i, i < (page os es cookie).length →
      ((page os es cookie)[i]?).map (·.cookie) = some (cookie + i + 1) := by
    intro i hi
    have hroom : i < os.room ∧ cookie + i < es.length := by
      simp only [page, List.length_map, List.length_take, List.length_drop, List.length_zipIdx] at hi
      omega
    simp [page, hroom]
  rw [List.getLast?_eq_getElem?]
  cases hlen : (page os es cookie).length with
  | zero => rw [List.eq_nil_of_length_eq_zero hlen]; rfl
  | succ n => rw [hget _ (by omega), Option.getD_some]; rfl

end DibsFs

end Dibs
