import Dibs.Lib.Edits
import Dibs.Proofs.Descriptors

/-! What becomes of the bytes of a file. Each event edits the content of an object by the edits listed
    here (`edits`), so the content at the end of a run is the content at its beginning with the journal
    of the run replayed (`content_replayed`). What an acknowledged write stored is therefore read back
    through every handle of the file until an event edits these bytes (`write_reads_back`). -/

namespace Dibs
open Edits

namespace Backing

theorem splice_eq_put (old : Bytes) (off : ℕ) (d : Bytes) : splice old off d = put 0 old off d := by
  cases d with
  | nil => rfl
  | cons x d => rfl

/-- What a `pwrite` that stores `d` does to the content of its file. -/
def written (os : Os) (flags : OpenFlags) (off : ℕ) (d : Bytes) : Edit UInt8 :=
  if hasFlag flags O_APPEND && os.appendAtEnd then .append d else .put off d

/-- SPEC: `libc::pwrite` stores the first `n` bytes, as many as it says. -/
theorem pwrite_written {b b' : Backing} {os : Os} {fd : ℤ} {off n : ℕ} {d : Bytes}
    (h : b.pwrite os fd off d = .ok (b', n)) :
    ∃ f, b.fds.get fd = some f ∧ n = (d.take n).length ∧
      b' = b.setData f.obj ((written os f.flags off (d.take n)).apply 0 (b.dataOf f.obj)) := by
  unfold pwrite at h
  split at h
  · cases h
  · split at h
    · cases h
    · rename_i f hf
      split at h
      · cases h
      · split at h
        · cases h
        · obtain ⟨rfl, rfl⟩ := Prod.mk.inj (Except.ok.inj h)
          have htake : d.take (d.take os.written).length = d.take os.written :=
            (List.prefix_iff_eq_take.mp (List.take_prefix ..)).symm
          refine ⟨f, hf, by rw [htake], ?_⟩
          rw [htake, splice_eq_put, written]
          by_cases happ : (hasFlag f.flags O_APPEND && os.appendAtEnd) = true
          · rw [if_pos happ, if_pos happ, put_length]
            rfl
          · rw [if_neg happ, if_neg happ]
            rfl

end Backing

namespace DibsFs
variable (X : Ext) (s : DibsFs)

/-! ### The edits of one event -/

/-- `libc::open` empties the file it opens if it is told to. -/
def openEdits (os : Os) (rel : Path) (flags : OpenFlags) (mode o : ℕ) : List (Edit UInt8) :=
  match s.backing.libcOpen os rel flags mode with
  | .error _ => []
  | .ok _ => if hasFlag flags O_TRUNC = true ∧ s.backing.fileAt rel = some o then [.resize 0] else []

/-- The object a `setattr` truncates. -/
def truncateObj (rel : Path) (fh : Option ℕ) : Option ℕ :=
  match fh.bind s.fileHandles.get with
  | some h => (s.backing.fds.get h.realFd).map (·.obj)
  | none => s.backing.fileAt rel

/-- `setattr` cuts or extends the file once the check and the call let it. -/
def setattrEdits (os : Os) (rel : Path) (fh : Option ℕ) (size o : ℕ) : List (Edit UInt8) :=
  match s.setattrSize X os rel fh size with
  | .error _ => []
  | .ok _ => if s.truncateObj rel fh = some o then [.resize size] else []

/-- The bytes `pwrite` stores. -/
def writeEdits (os : Os) (h : HandleState) (offset : ℕ) (data : Bytes) (o : ℕ) :
    List (Edit UInt8) :=
  match s.backing.fds.get h.realFd, s.backing.pwrite os h.realFd offset data with
  | some f, .ok (_, n) => if f.obj = o then [Backing.written os f.flags offset (data.take n)] else []
  | _, _ => []

/-- A rejected write may be saved over a file that is in the conflict directory already. -/
def saveEdits (os : Os) (rel : Path) (data : Bytes) (o : ℕ) : List (Edit UInt8) :=
  match s.conflictDir, os.saved with
  | some dir, some k =>
    if s.backing.fileAt (conflictPath X os dir rel) = some o then [.replace (data.take k)] else []
  | _, _ => []

/-- What one event does to the content of the object `o`. -/
def edits (o : ℕ) : Call → List (Edit UInt8)
  | .fuse os _ (.open_ ino flags) =>
    match s.inodes.getPath ino with
    | some rel => if isDibsIno ino ∨ hasNul rel then [] else s.openEdits os rel flags 0 o
    | none => []
  | .fuse os _ (.create parent name mode flags) =>
    let rel := s.resolvePath parent name
    if isDibsIno parent ∨ hasNul rel then [] else s.openEdits os rel (flags ||| O_CREAT) mode o
  | .fuse os _ (.setattr ino a) =>
    match s.inodes.getPath ino, a.size with
    | some rel, some size =>
      if isDibsIno ino ∨ hasNul rel then [] else s.setattrEdits X os rel a.fh size o
    | _, _ => []
  | .fuse os _ (.write ino fh offset data) =>
    match s.fileHandles.get fh with
    | some h =>
      if isDibsIno ino then []
      else
        match s.writeGuard X os fh h data with
        | .ok _ => s.writeEdits os h offset data o
        | .error _ => s.saveEdits X os h.path data o
    | none => []
  | .outside b => if b.dataOf o = s.backing.dataOf o then [] else [.replace (b.dataOf o)]
  | _ => []

/-- The edits of the object `o` in a run, in order. -/
def journal (o : ℕ) : DibsFs → List Call → List (Edit UInt8)
  | _, [] => []
  | s, c :: l => s.edits X o c ++ journal o (s.step X c) l

variable {X s} {o : ℕ}

theorem libcOpen_edits {os : Os} {rel : Path} {flags : OpenFlags} {mode : ℕ} {b : Backing} {fd : ℤ}
    (ho : o < s.backing.nextObj) (h : s.backing.libcOpen os rel flags mode = .ok (b, fd)) :
    b.dataOf o = replay 0 (s.backing.dataOf o) (s.openEdits os rel flags mode o) := by
  rw [openEdits, h]
  simp only
  by_cases hcut : hasFlag flags O_TRUNC = true ∧ s.backing.fileAt rel = some o
  · rw [if_pos hcut]
    obtain ⟨-, -, ⟨o', hfile⟩ | hdir | hnew⟩ := Backing.libcOpen_cases h
    · obtain rfl := Option.some.inj (hfile.file.symm.trans hcut.2)
      rw [hfile.data, if_pos ⟨hcut.1, rfl⟩]
      simp [replay, Edit.apply, resize]
    · rw [hdir.noFile] at hcut
      cases hcut.2
    · rw [hnew.noFile] at hcut
      cases hcut.2
  · rw [if_neg hcut]
    exact libcOpen_data h ho hcut

theorem openWrite_data (os : Os) (sid : ℕ) (rel : Path) (flags : OpenFlags) (pre : Option Bytes)
    (b : Backing) (fd : ℤ) :
    (s.openWrite os sid rel flags pre b fd).st.backing.dataOf o = b.dataOf o := by
  have hout := s.openWrite_out os sid rel flags pre b fd
  generalize s.openWrite os sid rel flags pre b fd = out at hout
  cases hout <;> rfl

theorem open_edits (ho : o < s.backing.nextObj) (os : Os) (pid ino : ℕ) (flags : OpenFlags) :
    (s.open_ X os (getSid os pid) ino flags).st.backing.dataOf o =
      replay 0 (s.backing.dataOf o) (s.edits X o (.fuse os pid (.open_ ino flags))) := by
  rw [edits, open_]
  by_cases hv : ino = DIBS_STATUS_INO ∨ ino = DIBS_LOCKS_INO
  · have hd : isDibsIno ino = true := by rcases hv with rfl | rfl <;> decide
    rw [if_pos hv]
    cases s.inodes.getPath ino <;> simp [hd, replay]
  · rw [if_neg hv]
    by_cases hd : isDibsIno ino = true
    · rw [if_pos hd]
      cases s.inodes.getPath ino <;> simp [hd, replay, fail]
    · rw [if_neg hd]
      cases hrel : s.inodes.getPath ino with
      | none => rfl
      | some rel =>
        by_cases hnul : hasNul rel = true
        · simp [hnul, replay, fail]
        · simp only [hd, hnul, Bool.false_eq_true, or_self, if_false]
          cases hopen : s.backing.libcOpen os rel flags 0 with
          | error e => simp [openEdits, hopen, replay, fail]
          | ok r =>
            obtain ⟨b, fd⟩ := r
            rw [← libcOpen_edits ho hopen]
            simp only
            split
            · rfl
            · exact openWrite_data ..

theorem create_edits (ho : o < s.backing.nextObj) (os : Os) (pid parent : ℕ) (name : Name)
    (mode : ℕ) (flags : OpenFlags) :
    (s.create X os (getSid os pid) parent name mode flags).st.backing.dataOf o =
      replay 0 (s.backing.dataOf o)
        (s.edits X o (.fuse os pid (.create parent name mode flags))) := by
  rw [edits, create]
  by_cases hd : isDibsIno parent = true
  · simp [hd, replay, fail]
  · by_cases hnul : hasNul (s.resolvePath parent name) = true
    · simp [hd, hnul, replay, fail]
    · simp only [hd, hnul, Bool.false_eq_true, or_self, if_false]
      cases hopen : s.backing.libcOpen os (s.resolvePath parent name) (flags ||| O_CREAT) mode with
      | error e => simp [openEdits, hopen, replay, fail]
      | ok r =>
        obtain ⟨b, fd⟩ := r
        rw [← libcOpen_edits ho hopen]
        simp only
        split <;> rfl

/-- The call that truncates, once the check let it through. -/
theorem truncateCall_edits {os : Os} {rel : Path} {fh : Option ℕ} {size : ℕ} {b : Backing}
    (h : s.truncateCall os rel fh size = .ok b) :
    b.dataOf o = replay 0 (s.backing.dataOf o)
      (if s.truncateObj rel fh = some o then [.resize size] else []) := by
  have hcut : ∀ o', b = s.backing.setData o' (Backing.resize (s.backing.dataOf o') size) →
      b.dataOf o = replay 0 (s.backing.dataOf o) (if some o' = some o then [.resize size] else []) := by
    rintro o' rfl
    rw [Backing.dataOf_setData]
    by_cases heq : o = o'
    · rw [if_pos heq, if_pos (by rw [heq]), heq]
      rfl
    · rw [if_neg heq, if_neg fun h => heq (Option.some.inj h).symm]
      rfl
  rw [truncateCall] at h
  rw [truncateObj]
  cases hfh : fh.bind s.fileHandles.get with
  | some hs =>
    rw [hfh] at h
    obtain ⟨f, hf, -, hb⟩ := Backing.ftruncate_cases h
    simp only [hf, Option.map_some]
    exact hcut f.obj hb
  | none =>
    rw [hfh] at h
    obtain ⟨o', ho', hb⟩ := Backing.truncate_cases h
    simp only [ho']
    exact hcut o' hb

/-- The check of `setattr` changes nothing but the CAS table. -/
theorem setattrSize_passed {os : Os} {rel : Path} {fh : Option ℕ} {size : ℕ} {s' : DibsFs}
    (h : s.setattrSize X os rel fh size = .ok s') :
    ∃ b, s.truncateCall os rel fh size = .ok b ∧ s'.backing = b := by
  have hfinish : ∀ cas, finishTruncate { s with casTable := cas } os rel fh size = .ok s' →
      ∃ b, s.truncateCall os rel fh size = .ok b ∧ s'.backing = b := by
    intro cas h
    have hcall : truncateCall { s with casTable := cas } os rel fh size =
      s.truncateCall os rel fh size := rfl
    rw [finishTruncate, hcall] at h
    cases hb : s.truncateCall os rel fh size with
    | error e => rw [hb] at h; cases h
    | ok b => rw [hb] at h; cases h; exact ⟨b, rfl, rfl⟩
  cases fh with
  | none => exact hfinish s.casTable h
  | some fh' =>
    simp only [setattrSize] at h
    split at h
    · cases h
    · rename_i cas _
      exact hfinish cas h

theorem setattrSize_refused {os : Os} {rel : Path} {fh : Option ℕ} {size : ℕ} {out : Out}
    (h : s.setattrSize X os rel fh size = .error out) : out.st.backing = s.backing := by
  have hfinish : ∀ cas, finishTruncate { s with casTable := cas } os rel fh size = .error out →
      out.st.backing = s.backing := by
    intro cas h
    rw [finishTruncate] at h
    split at h
    · cases h; rfl
    · cases h
  cases fh with
  | none => exact hfinish s.casTable h
  | some fh' =>
    simp only [setattrSize] at h
    split at h
    · cases h; rfl
    · rename_i cas _
      exact hfinish cas h

theorem finishSetattr_data (os : Os) (rel : Path) (ino : ℕ) (a : SetattrArgs) :
    (s.finishSetattr os rel ino a).st.backing.dataOf o = s.backing.dataOf o := by
  obtain ⟨b', r, hsame, heq⟩ := s.finishSetattr_out os rel ino a
  rw [heq]
  exact hsame.data o

theorem setattr_edits (os : Os) (pid ino : ℕ) (a : SetattrArgs) :
    (s.setattr X os ino a).st.backing.dataOf o =
      replay 0 (s.backing.dataOf o) (s.edits X o (.fuse os pid (.setattr ino a))) := by
  rw [edits, setattr]
  by_cases hd : isDibsIno ino = true
  · rw [if_pos hd]
    split <;> simp [hd, replay, fail]
  · rw [if_neg hd]
    cases hrel : s.inodes.getPath ino with
    | none => rfl
    | some rel =>
      by_cases hnul : hasNul rel = true
      · cases a.size <;> simp [hnul, replay, fail]
      · cases hsize : a.size with
        | none =>
          simp only [hnul, Bool.false_eq_true, if_false]
          exact finishSetattr_data os rel ino a
        | some size =>
          simp only [hd, hnul, Bool.false_eq_true, or_self, if_false, setattrEdits]
          cases hcut : s.setattrSize X os rel a.fh size with
          | error out => exact congrArg (·.dataOf o) (setattrSize_refused hcut)
          | ok s' =>
            obtain ⟨b, hb, hs'⟩ := setattrSize_passed hcut
            rw [← truncateCall_edits hb, ← hs']
            exact finishSetattr_data os rel ino a

theorem saveConflict_edits (ho : o < s.backing.nextObj) (os : Os) (rel : Path) (data : Bytes)
    (cas : CasTable) :
    (saveConflict X { s with casTable := cas } os rel data).backing.dataOf o =
      replay 0 (s.backing.dataOf o) (s.saveEdits X os rel data o) := by
  rw [saveConflict, saveEdits]
  cases hdir : s.conflictDir with
  | none => rfl
  | some dir =>
    obtain ⟨-, -, hdata⟩ := Backing.fsWrite_spec s.backing os (conflictPath X os dir rel) data
    refine (hdata o ho).trans ?_
    cases hsaved : os.saved with
    | none => simp [replay]
    | some k =>
      by_cases hfile : s.backing.fileAt (conflictPath X os dir rel) = some o
      · simp [hfile, replay, Edit.apply]
      · simp [hfile, replay]

theorem write_edits (ho : o < s.backing.nextObj) (os : Os) (pid ino fh offset : ℕ)
    (data : Bytes) :
    (s.write X os ino fh offset data).st.backing.dataOf o =
      replay 0 (s.backing.dataOf o) (s.edits X o (.fuse os pid (.write ino fh offset data))) := by
  rw [edits, write]
  by_cases hd : isDibsIno ino = true
  · rw [if_pos hd]
    cases s.fileHandles.get fh <;> simp [hd, replay, fail]
  · rw [if_neg hd]
    cases hh : s.fileHandles.get fh with
    | none => rfl
    | some h =>
      simp only [hd, Bool.false_eq_true, if_false]
      rcases s.writeGuard_cases X os fh h data with ⟨cas, heq, -⟩ | ⟨e, -, -, heq⟩
      · rw [heq]
        simp only [writeThrough, writeEdits]
        cases hw : s.backing.pwrite os h.realFd offset data with
        | error e => cases s.backing.fds.get h.realFd <;> rfl
        | ok r =>
          obtain ⟨b, n⟩ := r
          obtain ⟨f, hf, -, rfl⟩ := Backing.pwrite_written hw
          simp only [hf]
          rw [Backing.dataOf_setData]
          by_cases heq : o = f.obj
          · rw [if_pos heq, if_pos heq.symm, heq]
            rfl
          · rw [if_neg heq, if_neg (Ne.symm heq)]
            rfl
      · rw [heq]
        exact saveConflict_edits ho ..

/-- STEP: one event edits a content as listed. -/
theorem step_replayed (X : Ext) (ho : o < s.backing.nextObj) (c : Call) :
    (s.step X c).backing.dataOf o = replay 0 (s.backing.dataOf o) (s.edits X o c) := by
  cases c with
  | evict now seconds => exact step_data X _ ho id
  | outside b =>
    rw [edits]
    split
    · rename_i heq
      exact heq
    · rfl
  | fuse os pid req =>
    rw [step, out]
    cases req with
    | open_ ino flags => exact open_edits ho os pid ino flags
    | create parent name mode flags => exact create_edits ho os pid parent name mode flags
    | setattr ino a => exact setattr_edits os pid ino a
    | write ino fh offset data => exact write_edits ho os pid ino fh offset data
    | _ => exact step_data X (.fuse os pid _) ho id

/-! ### Objects keep their numbers -/

theorem replyEntry_nextObj (os : Os) (rel : Path) :
    (s.replyEntry os rel).st.backing.nextObj = s.backing.nextObj := by
  obtain ⟨t, r, heq⟩ := s.replyEntry_out os rel
  rw [heq]

/-- A passive request gives out at most one new number. -/
theorem passive_nextObj (X : Ext) (os : Os) {req : Request} (hp : passive req = true) (sid : ℕ) :
    s.backing.nextObj ≤ (s.handle X os sid req).st.backing.nextObj := by
  cases req with
  | mkdir parent name mode =>
    simp only [handle, mkdir]
    split_ifs
    · exact Nat.le_refl _
    · exact Nat.le_refl _
    · split
      · exact Nat.le_refl _
      · rename_i b hb
        obtain ⟨q, hm⟩ := Backing.mkdir_ok hb
        rw [replyEntry_nextObj, Backing.makeObject_nextObj hm]
        exact Nat.le_succ _
  | symlink parent name target =>
    simp only [handle, symlink]
    split_ifs
    · exact Nat.le_refl _
    · exact Nat.le_refl _
    · split
      · exact Nat.le_refl _
      · rename_i b hb
        obtain ⟨q, hm⟩ := Backing.symlink_ok hb
        rw [replyEntry_nextObj, Backing.makeObject_nextObj hm]
        exact Nat.le_succ _
  | rmdir parent name =>
    simp only [handle, rmdir]
    split_ifs
    · exact Nat.le_refl _
    · exact Nat.le_refl _
    · split
      · exact Nat.le_refl _
      · rename_i b hb
        exact le_of_eq (Backing.rmdir_sameData hb).nextObj.symm
  | opendir ino =>
    simp only [handle, opendir]
    split_ifs
    · exact Nat.le_refl _
    all_goals
      split
      · exact Nat.le_refl _
      · split_ifs
        · exact Nat.le_refl _
        · split
          · exact Nat.le_refl _
          · rename_i b fd hb
            exact le_of_eq (Backing.opendir_cases hb).2.2.1.symm
  | releasedir d =>
    simp only [handle, releasedir]
    split
    · simp only
      split <;> exact Nat.le_refl _
    · exact Nat.le_refl _
  | lookup parent name =>
    simp only [handle, lookup]
    split
    · exact Nat.le_refl _
    · split
      · split_ifs <;> exact Nat.le_refl _
      · exact le_of_eq (replyEntry_nextObj ..).symm
  | readdir ino offset =>
    simp only [handle, readdir]
    split
    · exact Nat.le_refl _
    · split
      · exact Nat.le_refl _
      · split
        · exact Nat.le_refl _
        · split
          · exact Nat.le_refl _
          · rename_i rel _ _ names _
            obtain ⟨t, ht⟩ := listName_fst os rel names
              (s, [(ino, .directory, [0x2E]), (s.parentIno ino rel, .directory, Backing.dotdot)] ++
                if ino = 1 then [(DIBS_DIR_INO, .directory, DIBS_DIR_NAME)] else [])
            rw [ht]
  | getattr | read | readlink | link | access => rw [(s.handle_readOnly X os rfl sid).1]
  | _ => cases hp

/-- The counter of objects never goes back. -/
theorem step_nextObj (X : Ext) (c : Call) :
    s.backing.nextObj ≤ (s.step X c).backing.nextObj := by
  have hout := s.step_out X c
  rw [step]
  generalize s.out X c = out at hout
  cases hout with
  | passive hp => exact passive_nextObj X _ hp _
  | openRead rel b fd hop _ => exact Backing.libcOpen_nextObj hop.call
  | openRejected rel b fd actual e hop _ _ _ =>
    have hle := Backing.libcOpen_nextObj hop.call
    exact hle
  | openGranted rel b fd actual cas hop _ _ _ => exact Backing.libcOpen_nextObj hop.call
  | openUnhashed rel b fd hop _ _ => exact Backing.libcOpen_nextObj hop.call
  | truncated rel size cas b b' r _ _ hcall hsame =>
    simp only [hsame.nextObj]
    rw [truncateCall] at hcall
    split at hcall
    · obtain ⟨f, -, -, rfl⟩ := Backing.ftruncate_cases hcall
      exact Nat.le_refl _
    · obtain ⟨o, -, rfl⟩ := Backing.truncate_cases hcall
      exact Nat.le_refl _
  | attributes b' r _ hsame => exact le_of_eq hsame.nextObj.symm
  | writeRejected h e _ _ _ _ =>
    rw [saveConflict]
    split
    · exact Backing.fsWrite_nextObj ..
    · exact Nat.le_refl _
  | @writeThrough os pid ino fh offset data h cas _ _ _ =>
    obtain ⟨b, hst, hb⟩ := writeThrough_st { s with casTable := cas } os fh h offset data
    rw [hst]
    rcases hb with rfl | ⟨f, d, -, -, rfl⟩ <;> exact Nat.le_refl _
  | released h _ =>
    simp only [DibsFs.released]
    split <;> exact Nat.le_refl _
  | createDropped b fd e _ hcall =>
    have hle := Backing.libcOpen_nextObj hcall
    exact hle
  | created b fd attr _ hcall => exact Backing.libcOpen_nextObj hcall
  | unlinked b _ _ hb => exact le_of_eq (Backing.unlink_sameData hb).nextObj.symm
  | renamed b _ _ _ _ hb => exact le_of_eq (Backing.rename_sameData hb).nextObj.symm
  | outside b => exact le_max_right ..
  | _ => exact Nat.le_refl _

/-! ### Whole runs -/

/-- The content of an object at the end of a run is its content at the beginning with the journal of
    the run replayed: nothing else ever changes it. -/
theorem content_replayed (X : Ext) (s : DibsFs) (o : ℕ) (ho : o < s.backing.nextObj)
    (calls : List Call) :
    (Run.exec (step X) s calls).backing.dataOf o =
      replay 0 (s.backing.dataOf o) (journal X o s calls) := by
  induction calls generalizing s with
  | nil => rfl
  | cons c l ih =>
    rw [Run.exec_cons, journal, replay_append, ← step_replayed X ho c]
    exact ih (s.step X c) (lt_of_lt_of_le ho (step_nextObj X c))

/-- `f` holds `a`. Session 7 writes `b` over it, then the file is extended; session 8, which read the
    first content, opens it with `O_TRUNC`, is refused, and has emptied it all the same. -/
theorem sample_content_replayed : (Run.exec (step sampleExt) sampleMount
    [.fuse {} 7 (.lookup 1 fName), .fuse {} 8 (.open_ 10 O_RDONLY),
      .fuse { fd := 4 } 7 (.open_ 10 O_WRONLY), .fuse {} 7 (.write 10 2 0 [0x62]),
      .fuse {} 7 (.setattr 10 { size := some 3, fh := some 2 }),
      .fuse { fd := 5 } 8 (.open_ 10 (O_WRONLY ||| O_TRUNC))]).backing.dataOf 1 =
    replay 0 [0x61] [.put 0 [0x62], .resize 3, .resize 0] :=
  content_replayed sampleExt sampleMount 1 (by decide) _

/-- What holds of the edits of every event holds of the journal. -/
theorem journal_of_along {P : Edit UInt8 → Prop} {l : List Call} {s : DibsFs}
    (h : Run.Along (step X) (fun t c => ∀ e ∈ t.edits X o c, P e) s l) :
    ∀ e ∈ journal X o s l, P e := by
  induction l generalizing s with
  | nil => simp [journal]
  | cons c l ih =>
    intro e he
    rcases List.mem_append.mp he with he | he
    · exact h.1 e he
    · exact ih h.2 e he

/-- Where the bytes of a write through the handle `fh` start in its file. -/
def landsAt (s : DibsFs) (os : Os) (fh offset : ℕ) : ℕ :=
  match (s.fileHandles.get fh).bind fun h => s.backing.fds.get h.realFd with
  | some f =>
    if hasFlag f.flags O_APPEND && os.appendAtEnd then (s.backing.dataOf f.obj).length else offset
  | none => offset

/-- An edit by `pwrite` leaves what it stored where it stored it. -/
theorem slice_written (os : Os) (flags : OpenFlags) (off : ℕ) (d old : Bytes) :
    slice (if hasFlag flags O_APPEND && os.appendAtEnd then old.length else off) d.length
        ((Backing.written os flags off d).apply 0 old) = d ∧
      (d = [] ∨ (if hasFlag flags O_APPEND && os.appendAtEnd then old.length else off) + d.length ≤
        ((Backing.written os flags off d).apply 0 old).length) := by
  rw [Backing.written]
  split
  · exact ⟨slice_append .., Or.inr (le_of_eq List.length_append.symm)⟩
  · refine ⟨slice_put .., ?_⟩
    by_cases hd : d = []
    · exact Or.inl hd
    · rw [Edit.apply, length_put 0 old off d hd]
      exact Or.inr (le_max_right ..)

/-- An acknowledged write has stored as many bytes as it says, in the file of its handle. -/
theorem write_stored {os : Os} {ino fh offset n : ℕ} {data : Bytes}
    (h : (s.write X os ino fh offset data).reply = .written n) :
    n = (data.take n).length ∧ ∃ o, s.openObj fh = some o ∧ o < s.backing.nextObj ∧
      slice (s.landsAt os fh offset) n ((s.write X os ino fh offset data).st.backing.dataOf o) =
        data.take n ∧
      (n = 0 ∨ s.landsAt os fh offset + n ≤
        ((s.write X os ino fh offset data).st.backing.dataOf o).length) := by
  rw [write] at h ⊢
  split at h
  · cases h
  · rename_i hd
    rw [if_neg hd]
    split at h
    · cases h
    · rename_i hs hh
      rcases s.writeGuard_cases X os fh hs data with ⟨cas, heq, -⟩ | ⟨e, -, -, heq⟩
      · rw [heq] at h ⊢
        simp only [writeThrough] at h ⊢
        cases hw : s.backing.pwrite os hs.realFd offset data with
        | error e => rw [hw] at h; cases h
        | ok r =>
          obtain ⟨b, n'⟩ := r
          rw [hw] at h
          obtain rfl := Reply.written.inj h
          obtain ⟨f, hf, hn, rfl⟩ := Backing.pwrite_written hw
          have hobj : s.openObj fh = some f.obj := by simp [openObj, hh, hf]
          refine ⟨hn, f.obj, hobj, s.backing.fds_lt _ f hf, ?_⟩
          obtain ⟨hslice, hlen⟩ := slice_written os f.flags offset (data.take n')
            (s.backing.dataOf f.obj)
          simp only [landsAt, hh, hf, Option.bind_some, Backing.dataOf_setData, if_true]
          rw [← hn] at hslice hlen
          refine ⟨hslice, hlen.imp_left fun hnil => ?_⟩
          rw [hn, hnil]
          rfl
      · rw [heq] at h
        cases h

/-- What a `read` of a real file returns. -/
theorem read_data {os : Os} {ino fh off size o : ℕ} {bytes : Bytes}
    (hstatus : ino ≠ DIBS_STATUS_INO) (hlocks : ino ≠ DIBS_LOCKS_INO)
    (hobj : s.openObj fh = some o) (h : (s.read X os ino fh off size).reply = .data bytes) :
    bytes = slice off size (s.backing.dataOf o) := by
  rw [read, if_neg hstatus, if_neg hlocks] at h
  rw [openObj] at hobj
  obtain ⟨hs, hh, hobj⟩ := Option.bind_eq_some_iff.mp hobj
  obtain ⟨f, hf, rfl⟩ := Option.map_eq_some_iff.mp hobj
  rw [hh] at h
  simp only [Backing.pread, hf] at h
  split at h
  · cases h
  · rename_i d hd
    obtain rfl := Reply.data.inj h
    split at hd
    · cases hd
    · split_ifs at hd
      exact (Except.ok.inj hd).symm

/-- Acknowledged bytes stay: when a write has been answered with `n`, then after every run whose events
    edit none of these `n` bytes of the file, a read through any handle that has the file open returns
    them, whichever part of them it asks for. -/
theorem write_reads_back (X : Ext) (s : DibsFs) (os : Os) (pid ino fh offset n : ℕ) (data : Bytes)
    (hw : (s.out X (.fuse os pid (.write ino fh offset data))).reply = .written n) (o : ℕ)
    (ho : s.openObj fh = some o) (calls : List Call)
    (hcalls : Run.Along (step X) (fun t c => ∀ e ∈ t.edits X o c, e.Misses (s.landsAt os fh offset) n)
      (s.step X (.fuse os pid (.write ino fh offset data))) calls)
    (os' : Os) (pid' ino' fh' off size : ℕ) (bytes : Bytes) (hstatus : ino' ≠ DIBS_STATUS_INO)
    (hlocks : ino' ≠ DIBS_LOCKS_INO)
    (hfh : (Run.exec (step X) (s.step X (.fuse os pid (.write ino fh offset data))) calls).openObj fh' =
      some o)
    (hr : ((Run.exec (step X) (s.step X (.fuse os pid (.write ino fh offset data))) calls).out X
      (.fuse os' pid' (.read ino' fh' off size))).reply = .data bytes) :
    ∀ i, i < n → off ≤ s.landsAt os fh offset + i → s.landsAt os fh offset + i < off + size →
      bytes[s.landsAt os fh offset + i - off]? = data[i]? := by
  intro i hi hfrom hto
  obtain ⟨-, o', ho', hlt, hslice, hlen⟩ := write_stored hw
  obtain rfl := Option.some.inj (ho'.symm.trans ho)
  have hborn : o' < (s.step X (.fuse os pid (.write ino fh offset data))).backing.nextObj :=
    lt_of_lt_of_le hlt (step_nextObj X _)
  have hreach : s.landsAt os fh offset + n ≤
      ((s.step X (.fuse os pid (.write ino fh offset data))).backing.dataOf o').length :=
    hlen.resolve_left (by omega)
  obtain ⟨hkept, -⟩ := slice_replay 0 _ _ hreach (journal_of_along hcalls)
  rw [← content_replayed X _ o' hborn calls] at hkept
  have hread := read_data hstatus hlocks hfh hr
  have hget := congrArg (·[i]?) (hkept.trans hslice)
  simp only [getElem?_slice, if_pos hi, List.getElem?_take] at hget
  rw [hread, getElem?_slice, if_pos (by omega), ← hget]
  congr 1
  omega

/-- Session 7 writes `b` and keeps its handle; session 8 opens the file and reads it, after an attempt
    of session 9 to write that is refused. -/
theorem written_byte_read_back :
    ([0x62] : Bytes)[(Run.exec (step sampleExt) sampleMount
      [.fuse {} 7 (.lookup 1 fName), .fuse {} 7 (.open_ 10 O_RDWR)]).landsAt {} 1 0 + 0 - 0]? =
    ([0x62] : Bytes)[0]? :=
  write_reads_back sampleExt (Run.exec (step sampleExt) sampleMount
      [.fuse {} 7 (.lookup 1 fName), .fuse {} 7 (.open_ 10 O_RDWR)]) {} 7 10 1 0 1 [0x62] rfl 1 rfl
    [.fuse { fd := 4 } 9 (.open_ 10 O_WRONLY), .fuse { fd := 4 } 8 (.open_ 10 O_RDONLY)]
    (by decide +kernel) {} 8 10 3 0 4 [0x62] (by decide) (by decide) (by decide +kernel)
    (by decide +kernel) 0 (by decide) (by decide +kernel) (by decide +kernel)

end DibsFs

end Dibs
