import Dibs.Os.Calls
import Dibs.Fs.Step

/-! Everything a handler can do, said once per handler: each request that touches the CAS table or
    the handle table gets an inductive list of its outcomes with the facts that lead there, and the
    remaining requests are shown to leave both tables alone. Every later result is a case analysis
    over these lists. -/

namespace Dibs.DibsFs
variable (X : Ext) (s : DibsFs) (os : Os)

/-! ### open -/

/-- Outcomes of `open`. -/
inductive OpenOut (sid ino : ℕ) (flags : OpenFlags) : Out → Prop where
  | failed (e : Errno) : OpenOut sid ino flags (s.fail e)
  /-- `.dibs/status` and `.dibs/locks` -/
  | virtual : ino = DIBS_STATUS_INO ∨ ino = DIBS_LOCKS_INO →
      OpenOut sid ino flags ⟨{ s with
        fileHandles := (s.fileHandles.alloc (-1) VIRTUAL_PATH flags none 0).1 },
        .opened s.fileHandles.nextFh, none⟩
  | read (rel : Path) (b : Backing) (fd : ℤ) : isDibsIno ino = false →
      s.inodes.getPath ino = some rel → s.backing.libcOpen os rel flags 0 = .ok (b, fd) →
      accessMode flags = O_RDONLY → OpenOut sid ino flags (s.openRead X os sid rel flags b fd)
  | write (rel : Path) (b : Backing) (fd : ℤ) : isDibsIno ino = false →
      s.inodes.getPath ino = some rel → s.backing.libcOpen os rel flags 0 = .ok (b, fd) →
      accessMode flags ≠ O_RDONLY →
      OpenOut sid ino flags
        (s.openWrite os sid rel flags (hashFile X s.backing os rel) b fd)

theorem open_out (sid ino : ℕ) (flags : OpenFlags) :
    OpenOut X s os sid ino flags (s.open_ X os sid ino flags) := by
  unfold open_
  split
  · rename_i h; exact .virtual h
  · split
    · exact .failed _
    · rename_i hd
      split
      · exact .failed _
      · rename_i rel hrel
        split
        · exact .failed _
        · simp only
          split
          · exact .failed _
          · rename_i b fd hopen
            split
            · rename_i hm; exact .read rel b fd (by simpa using hd) hrel hopen hm
            · rename_i hm
              exact .write rel b fd (by simpa using hd) hrel hopen hm

/-- The handle table after a write-mode open allocated its handle. -/
def opening (sid : ℕ) (rel : Path) (flags : OpenFlags) (pre : Option Bytes) (fd : ℤ) :
    HandleTable :=
  (s.fileHandles.alloc fd rel flags (if accessMode flags = O_RDWR then pre else none) sid).1

/-- Outcomes of the write-mode part of `open`. -/
inductive OpenWriteOut (sid : ℕ) (rel : Path) (flags : OpenFlags) (pre : Option Bytes)
    (b : Backing) (fd : ℤ) : Out → Prop where
  | rejected (actual : Bytes) (e : CasError) : pre = some actual →
      s.casTable.Refuses rel s.fileHandles.nextFh sid (s.opening sid rel flags pre fd) actual e →
      OpenWriteOut sid rel flags pre b fd ⟨{ s with
        backing := b.close fd
        fileHandles := (s.opening sid rel flags pre fd).remove s.fileHandles.nextFh
        casTable := s.casTable.ensureEntry os.now rel }, .error .eio, some (.open_ e)⟩
  | granted (actual : Bytes) (cas : CasTable) : pre = some actual →
      s.casTable.Grants cas rel s.fileHandles.nextFh sid (s.opening sid rel flags pre fd) actual →
      OpenWriteOut sid rel flags pre b fd ⟨{ s with
        backing := b
        fileHandles := s.opening sid rel flags pre fd
        casTable := if accessMode flags = O_RDWR then cas.recordReader os.now rel actual sid
          else cas }, .opened s.fileHandles.nextFh, none⟩
  | unhashed : pre = none →
      OpenWriteOut sid rel flags pre b fd ⟨{ s with
        backing := b
        fileHandles := s.opening sid rel flags pre fd
        casTable := s.casTable.ensureEntry os.now rel }, .opened s.fileHandles.nextFh, none⟩

theorem openWrite_out (sid : ℕ) (rel : Path) (flags : OpenFlags) (pre : Option Bytes)
    (b : Backing) (fd : ℤ) :
    OpenWriteOut s os sid rel flags pre b fd (s.openWrite os sid rel flags pre b fd) := by
  unfold openWrite
  cases pre with
  | none => exact .unhashed rfl
  | some actual =>
    rcases s.casTable.checkAndAcquireWrite_cases os.now rel s.fileHandles.nextFh sid
      (s.opening sid rel flags (some actual) fd) actual with ⟨cas, heq, hg⟩ | ⟨e, heq, hr⟩
    · have := @OpenWriteOut.granted s os sid rel flags (some actual) b fd actual cas rfl hg
      simp only [opening] at heq this ⊢
      simp only [HandleTable.alloc_snd, heq]
      exact this
    · have := @OpenWriteOut.rejected s os sid rel flags (some actual) b fd actual e rfl hr
      simp only [opening] at heq this ⊢
      simp only [HandleTable.alloc_snd, heq]
      exact this

/-! ### setattr -/

/-- The CAS table a truncation starts from: a request with a handle has passed the check. -/
def Passed (rel : Path) (fh : Option ℕ) (cas : CasTable) : Prop :=
  (fh = none ∧ cas = s.casTable) ∨
    ∃ fh', fh = some fh' ∧ s.casTable.Grants cas rel fh'
      (((s.fileHandles.get fh').map (·.sid)).getD 0) s.fileHandles
      ((hashFile X s.backing os rel).getD [])

/-- Outcomes of `setattr`. -/
inductive SetattrOut (ino : ℕ) (a : SetattrArgs) : Out → Prop where
  | failed (e : Errno) : SetattrOut ino a (s.fail e)
  | rejected (rel : Path) (fh size : ℕ) (e : CasError) : isDibsIno ino = false →
      s.inodes.getPath ino = some rel → a.size = some size → a.fh = some fh →
      s.casTable.Refuses rel fh (((s.fileHandles.get fh).map (·.sid)).getD 0) s.fileHandles
        ((hashFile X s.backing os rel).getD []) e →
      SetattrOut ino a ⟨{ s with casTable := s.casTable.ensureEntry os.now rel },
        .error .eio, some (.truncate e)⟩
  | notTruncated (rel : Path) (size : ℕ) (cas : CasTable) (e : Errno) : isDibsIno ino = false →
      s.inodes.getPath ino = some rel → a.size = some size → s.Passed X os rel a.fh cas →
      s.truncateCall os rel a.fh size = .error e →
      SetattrOut ino a (fail { s with casTable := cas } e)
  | truncated (rel : Path) (size : ℕ) (cas : CasTable) (b b' : Backing) (r : Reply) :
      isDibsIno ino = false → s.inodes.getPath ino = some rel → a.size = some size →
      s.Passed X os rel a.fh cas → s.truncateCall os rel a.fh size = .ok b →
      b.SameFiles b' →
      SetattrOut ino a ⟨{ s with casTable := cas, backing := b' }, r, none⟩
  | attributes (b' : Backing) (r : Reply) : a.size = none → s.backing.SameFiles b' →
      SetattrOut ino a ⟨{ s with backing := b' }, r, none⟩

theorem attrCall_keeps {R : Backing → Prop} {r : Backing × Option Errno} {w : Bool}
    {call : Backing → Except Errno Backing} (hr : R r.1)
    (hc : ∀ b b', R b → call b = .ok b' → R b') : R (attrCall r w call).1 := by
  unfold attrCall
  split
  · exact hr
  · split
    · split
      · rename_i b' hb'; exact hc _ _ hr hb'
      · exact hr
    · exact hr

theorem attrCall_tree {r : Backing × Option Errno} {wanted : Bool} {call : Syscall} {rel : Path}
    {f : Attr → Attr} :
    (attrCall r wanted fun b => b.changeAttr os call rel f).1.tree = r.1.tree :=
  attrCall_keeps (R := fun b => b.tree = r.1.tree) rfl
    fun _ _ htree h => (Backing.changeAttr_tree h).trans htree

theorem attrCalls_same (b : Backing) (rel : Path) (a : SetattrArgs) :
    b.SameFiles (attrCalls os b rel a).1 := by
  unfold attrCalls
  refine attrCall_keeps (attrCall_keeps (attrCall_keeps (attrCall_keeps ?_ ?_) ?_) ?_) ?_
  · exact Backing.SameFiles.rfl
  all_goals
    intro b₁ b₂ hsame h
    exact hsame.trans (Backing.changeAttr_same h fun _ => rfl)

theorem replyAttr_out (rel : Path) (ino : ℕ) : ∃ r, s.replyAttr os rel ino = ⟨s, r, none⟩ := by
  unfold replyAttr
  split <;> exact ⟨_, rfl⟩

theorem finishSetattr_out (rel : Path) (ino : ℕ) (a : SetattrArgs) :
    ∃ b' r, s.backing.SameFiles b' ∧
      s.finishSetattr os rel ino a = ⟨{ s with backing := b' }, r, none⟩ := by
  have hsame := attrCalls_same os s.backing rel a
  unfold finishSetattr
  simp only
  split
  · exact ⟨_, _, hsame, rfl⟩
  · obtain ⟨r, hr⟩ :=
      replyAttr_out { s with backing := (attrCalls os s.backing rel a).1 } os rel ino
    exact ⟨_, r, hsame, hr⟩

/-- The truncation, once the check let it through with the table `cas`: it fails, or the calls after it
    follow. -/
theorem finishTruncate_out {ino : ℕ} {a : SetattrArgs} {rel : Path} {size : ℕ} {cas : CasTable}
    (hd : isDibsIno ino = false) (hrel : s.inodes.getPath ino = some rel) (hsz : a.size = some size)
    (hp : s.Passed X os rel a.fh cas) :
    (∀ out, finishTruncate { s with casTable := cas } os rel a.fh size = .error out →
      SetattrOut X s os ino a out) ∧
    ∀ s', finishTruncate { s with casTable := cas } os rel a.fh size = .ok s' →
      SetattrOut X s os ino a (s'.finishSetattr os rel ino a) := by
  have hcall : truncateCall { s with casTable := cas } os rel a.fh size =
    s.truncateCall os rel a.fh size := rfl
  rw [finishTruncate, hcall]
  cases ht : s.truncateCall os rel a.fh size with
  | error e =>
    refine ⟨fun out hout => ?_, fun s' hs' => by cases hs'⟩
    cases hout
    exact .notTruncated rel size cas e hd hrel hsz hp ht
  | ok b =>
    refine ⟨(fun out hout => by cases hout), fun s' hs' => ?_⟩
    cases hs'
    obtain ⟨b', r, hsame, heq⟩ :=
      finishSetattr_out { s with casTable := cas, backing := b } os rel ino a
    rw [heq]
    exact .truncated rel size cas b b' r hd hrel hsz hp ht hsame

/-- The truncation part of `setattr`, with its check. -/
theorem setattrSize_out {ino : ℕ} {a : SetattrArgs} {rel : Path} {size : ℕ}
    (hd : isDibsIno ino = false) (hrel : s.inodes.getPath ino = some rel)
    (hsz : a.size = some size) :
    (∀ out, s.setattrSize X os rel a.fh size = .error out → SetattrOut X s os ino a out) ∧
    ∀ s', s.setattrSize X os rel a.fh size = .ok s' →
      SetattrOut X s os ino a (s'.finishSetattr os rel ino a) := by
  cases hfh : a.fh with
  | none =>
    have hfinish := s.finishTruncate_out X os hd hrel hsz (Or.inl ⟨hfh, rfl⟩)
    rw [hfh] at hfinish
    exact hfinish
  | some fh =>
    rw [setattrSize]
    rcases s.casTable.checkAndAcquireWrite_cases os.now rel fh
      (((s.fileHandles.get fh).map (·.sid)).getD 0) s.fileHandles
      ((hashFile X s.backing os rel).getD []) with ⟨cas, heq, hg⟩ | ⟨e, heq, hr⟩
    · rw [heq]
      have hfinish := s.finishTruncate_out X os hd hrel hsz (Or.inr ⟨fh, hfh, hg⟩)
      rw [hfh] at hfinish
      exact hfinish
    · rw [heq]
      refine ⟨fun out hout => ?_, fun s' hs' => by cases hs'⟩
      cases hout
      exact .rejected rel fh size e hd hrel hsz hfh hr

theorem setattr_out (ino : ℕ) (a : SetattrArgs) :
    SetattrOut X s os ino a (s.setattr X os ino a) := by
  unfold setattr
  split
  · exact .failed _
  · rename_i hd
    have hd' : isDibsIno ino = false := by simpa using hd
    split
    · exact .failed _
    · rename_i rel hrel
      split
      · exact .failed _
      · split
        · rename_i hsz
          obtain ⟨b', r, hsame, heq⟩ := s.finishSetattr_out os rel ino a
          rw [heq]
          exact .attributes b' r hsz hsame
        · rename_i size hsz
          obtain ⟨herror, hok⟩ := s.setattrSize_out X os hd' hrel hsz
          split
          · rename_i out hout; exact herror out hout
          · rename_i s' hs'; exact hok s' hs'

/-! ### write -/

/-- How a write gets past the guard: the path has some owner and nothing is checked, or it has none
    and the handle acquires it. -/
def Guarded (fh : ℕ) (h : HandleState) (cas : CasTable) : Prop :=
  (s.casTable.owner h.path ≠ none ∧ cas = s.casTable) ∨
    (s.casTable.owner h.path = none ∧ s.casTable.Grants cas h.path fh h.sid s.fileHandles
      ((hashFile X s.backing os h.path).getD []))

/-- Outcomes of `write`. -/
inductive WriteOut (ino fh offset : ℕ) (data : Bytes) : Out → Prop where
  | failed (e : Errno) : WriteOut ino fh offset data (s.fail e)
  | rejected (h : HandleState) (e : CasError) : isDibsIno ino = false →
      s.fileHandles.get fh = some h →
      s.casTable.owner h.path = none →
      s.casTable.casCheck h.path fh h.sid s.fileHandles
        ((hashFile X s.backing os h.path).getD []) = some e →
      WriteOut ino fh offset data
        ⟨saveConflict X { s with casTable := s.casTable.ensureEntry os.now h.path } os h.path
          data, .error .eio, some (.write e)⟩
  | through (h : HandleState) (cas : CasTable) : isDibsIno ino = false →
      s.fileHandles.get fh = some h → s.Guarded X os fh h cas →
      WriteOut ino fh offset data
        (writeThrough { s with casTable := cas } os fh h offset data)

/-- Outcomes of the check in `write`. -/
theorem writeGuard_cases (fh : ℕ) (h : HandleState) (data : Bytes) :
    (∃ cas, s.writeGuard X os fh h data = .ok { s with casTable := cas } ∧
      s.Guarded X os fh h cas) ∨
    (∃ e, s.casTable.owner h.path = none ∧
      s.casTable.casCheck h.path fh h.sid s.fileHandles
        ((hashFile X s.backing os h.path).getD []) = some e ∧
      s.writeGuard X os fh h data =
        .error ⟨saveConflict X { s with casTable := s.casTable.ensureEntry os.now h.path } os
          h.path data, .error .eio, some (.write e)⟩) := by
  unfold writeGuard
  rw [CasTable.hasActiveWriter_eq]
  cases ho : s.casTable.owner h.path with
  | some x => exact Or.inl ⟨s.casTable, rfl, Or.inl ⟨by simp [ho], rfl⟩⟩
  | none =>
    simp only [Option.isSome_none, Bool.false_eq_true, if_false]
    rcases s.casTable.checkAndAcquireWrite_cases os.now h.path fh h.sid s.fileHandles
      ((hashFile X s.backing os h.path).getD []) with ⟨cas, heq, hg⟩ | ⟨e, heq, hr⟩
    · rw [heq]
      exact Or.inl ⟨cas, rfl, Or.inr ⟨ho, hg⟩⟩
    · rw [heq]
      rcases hr with ⟨x, -, hx, -⟩ | ⟨-, hc⟩
      · rw [ho] at hx; cases hx
      · exact Or.inr ⟨e, trivial, hc, rfl⟩

theorem write_out (ino fh offset : ℕ) (data : Bytes) :
    WriteOut X s os ino fh offset data (s.write X os ino fh offset data) := by
  unfold write
  split
  · exact .failed _
  · rename_i hd
    have hd' : isDibsIno ino = false := by simpa using hd
    split
    · exact .failed _
    · rename_i h hh
      rcases s.writeGuard_cases X os fh h data with ⟨cas, heq, hg⟩ | ⟨e, ho, hc, heq⟩
      · rw [heq]; exact .through h cas hd' hh hg
      · rw [heq]; exact .rejected h e hd' hh ho hc

/-- `writeThrough` marks the handle and changes at most the content of the handle's open file. -/
theorem writeThrough_st (fh : ℕ) (h : HandleState) (offset : ℕ) (data : Bytes) :
    ∃ b, (s.writeThrough os fh h offset data).st = { s with
        fileHandles := s.fileHandles.modify fh fun h => { h with hasWritten := true }
        backing := b } ∧
      (b = s.backing ∨ ∃ f d, s.backing.fds.get h.realFd = some f ∧
        accessMode f.flags ≠ O_RDONLY ∧ b = s.backing.setData f.obj d) := by
  unfold writeThrough
  simp only
  split
  · exact ⟨s.backing, rfl, Or.inl rfl⟩
  · rename_i b n hw
    obtain ⟨f, d, hf, hm, rfl⟩ := Backing.pwrite_cases hw
    exact ⟨_, rfl, Or.inr ⟨f, d, hf, hm, rfl⟩⟩

/-! ### create, unlink, rename -/

/-- Outcomes of `create`. -/
inductive CreateOut (sid parent : ℕ) (name : Name) (mode : ℕ) (flags : OpenFlags) :
    Out → Prop where
  | failed (e : Errno) : CreateOut sid parent name mode flags (s.fail e)
  /-- the file is open, but `fstat` fails -/
  | dropped (b : Backing) (fd : ℤ) (e : Errno) : isDibsIno parent = false →
      s.backing.libcOpen os (s.resolvePath parent name) (flags ||| O_CREAT) mode = .ok (b, fd) →
      CreateOut sid parent name mode flags (fail { s with backing := b.close fd } e)
  | created (b : Backing) (fd : ℤ) (attr : FileAttr) : isDibsIno parent = false →
      s.backing.libcOpen os (s.resolvePath parent name) (flags ||| O_CREAT) mode = .ok (b, fd) →
      CreateOut sid parent name mode flags ⟨{ s with
        backing := b
        inodes := s.inodes.insert attr.ino (s.resolvePath parent name)
        casTable := (s.casTable.recordReader os.now (s.resolvePath parent name)
          ((hashFile X b os (s.resolvePath parent name)).getD []) sid).ensureEntry os.now
            (s.resolvePath parent name)
        fileHandles := (s.fileHandles.alloc fd (s.resolvePath parent name) flags
          (some ((hashFile X b os (s.resolvePath parent name)).getD [])) sid).1 },
        .created attr s.fileHandles.nextFh, none⟩

theorem create_out (sid parent : ℕ) (name : Name) (mode : ℕ) (flags : OpenFlags) :
    CreateOut X s os sid parent name mode flags
      (s.create X os sid parent name mode flags) := by
  unfold create
  split
  · exact .failed _
  · rename_i hd
    have hd' : isDibsIno parent = false := by simpa using hd
    simp only
    split
    · exact .failed _
    · split
      · exact .failed _
      · rename_i b fd hopen
        split
        · rename_i e _; exact .dropped b fd e hd' hopen
        · rename_i st _; exact .created b fd (statToFileAttr st) hd' hopen

/-- Outcomes of `unlink`. -/
inductive UnlinkOut (sid parent : ℕ) (name : Name) : Out → Prop where
  | failed (e : Errno) : UnlinkOut sid parent name (s.fail e)
  | stale : isDibsIno parent = false →
      s.staleReceipt X os sid (s.resolvePath parent name) = true →
      UnlinkOut sid parent name
        ⟨s, .error .eio, some (.unlink (s.resolvePath parent name))⟩
  | removed (b : Backing) : isDibsIno parent = false →
      s.staleReceipt X os sid (s.resolvePath parent name) = false →
      s.backing.unlink os (s.resolvePath parent name) = .ok b →
      UnlinkOut sid parent name ⟨{ s with
        backing := b
        casTable := s.casTable.remove (s.resolvePath parent name)
        inodes := s.inodes.removeByPath (s.resolvePath parent name) }, .ok, none⟩

theorem unlink_out (sid parent : ℕ) (name : Name) :
    UnlinkOut X s os sid parent name (s.unlink X os sid parent name) := by
  unfold unlink
  split
  · exact .failed _
  · rename_i hd
    have hd' : isDibsIno parent = false := by simpa using hd
    simp only
    split
    · rename_i hst; exact .stale hd' hst
    · rename_i hst
      split
      · exact .failed _
      · split
        · exact .failed _
        · rename_i b hb; exact .removed b hd' (by simpa using hst) hb

/-- Outcomes of `rename`. -/
inductive RenameOut (sid parent : ℕ) (name : Name) (newparent : ℕ) (newname : Name) :
    Out → Prop where
  | failed (e : Errno) : RenameOut sid parent name newparent newname (s.fail e)
  | staleSource : isDibsIno parent = false → isDibsIno newparent = false →
      s.staleReceipt X os sid (s.resolvePath parent name) = true →
      RenameOut sid parent name newparent newname
        ⟨s, .error .eio, some (.renameSource (s.resolvePath parent name))⟩
  | staleDest : isDibsIno parent = false → isDibsIno newparent = false →
      s.backing.pathExists (s.resolvePath newparent newname) = true →
      s.staleReceipt X os sid (s.resolvePath newparent newname) = true →
      RenameOut sid parent name newparent newname
        ⟨s, .error .eio, some (.renameDest (s.resolvePath newparent newname))⟩
  | renamed (b : Backing) : isDibsIno parent = false → isDibsIno newparent = false →
      s.staleReceipt X os sid (s.resolvePath parent name) = false →
      ¬ (s.backing.pathExists (s.resolvePath newparent newname) = true ∧
        s.staleReceipt X os sid (s.resolvePath newparent newname) = true) →
      s.backing.rename os (s.resolvePath parent name) (s.resolvePath newparent newname) = .ok b →
      RenameOut sid parent name newparent newname ⟨{ s with
        backing := b
        inodes := s.inodes.rename (s.resolvePath parent name) (s.resolvePath newparent newname)
        casTable := s.casTable.rename (s.resolvePath parent name)
          (s.resolvePath newparent newname) }, .ok, none⟩

theorem rename_out (sid parent : ℕ) (name : Name) (newparent : ℕ) (newname : Name) (fl : ℕ) :
    RenameOut X s os sid parent name newparent newname
      (s.rename X os sid parent name newparent newname fl) := by
  unfold rename
  split
  · exact .failed _
  · rename_i hd
    obtain ⟨hp, hn⟩ := not_or.mp hd
    have hp' : isDibsIno parent = false := by simpa using hp
    have hn' : isDibsIno newparent = false := by simpa using hn
    simp only
    split
    · rename_i hst; exact .staleSource hp' hn' hst
    · rename_i hst
      split
      · rename_i hst'; exact .staleDest hp' hn' hst'.1 hst'.2
      · rename_i hst'
        split
        · exact .failed _
        · split
          · exact .failed _
          · rename_i b hb; exact .renamed b hp' hn' (by simpa using hst) hst' hb

/-! ### The other requests -/

/-- Requests that change nothing. -/
def readOnly : Request → Bool
  | .getattr _ | .read .. | .readlink _ | .link .. | .access _ => true
  | _ => false

/-- SPEC: a request that only reads leaves the state as it is, and logs no warning. -/
theorem handle_readOnly {req : Request} (h : readOnly req = true) (sid : ℕ) :
    (s.handle X os sid req).st = s ∧ (s.handle X os sid req).warn = none := by
  cases req with
  | getattr ino =>
    simp only [handle, getattr]
    have hattr : ∀ rel i, (s.replyAttr os rel i).st = s ∧ (s.replyAttr os rel i).warn = none := by
      intro rel i
      obtain ⟨r, hr⟩ := s.replyAttr_out os rel i
      rw [hr]
      exact ⟨rfl, rfl⟩
    split_ifs
    · exact hattr _ _
    · exact ⟨rfl, rfl⟩
    · exact ⟨rfl, rfl⟩
    · exact ⟨rfl, rfl⟩
    · exact ⟨rfl, rfl⟩
    · split
      · exact hattr _ _
      · exact ⟨rfl, rfl⟩
  | read ino fh offset size =>
    simp only [handle, read]
    split_ifs
    · exact ⟨rfl, rfl⟩
    · exact ⟨rfl, rfl⟩
    · split
      · exact ⟨rfl, rfl⟩
      · split <;> exact ⟨rfl, rfl⟩
  | readlink ino =>
    simp only [handle, readlink]
    split
    · exact ⟨rfl, rfl⟩
    · split <;> exact ⟨rfl, rfl⟩
  | link ino newparent newname => exact ⟨rfl, rfl⟩
  | access ino =>
    simp only [handle, access]
    split
    · exact ⟨rfl, rfl⟩
    · split
      · exact ⟨rfl, rfl⟩
      · split_ifs
        · exact ⟨rfl, rfl⟩
        · split <;> exact ⟨rfl, rfl⟩
  | _ => cases h

/-- Requests that never reach the CAS table or the handle table. -/
def passive : Request → Bool
  | .lookup .. | .getattr _ | .read .. | .opendir _ | .readdir .. | .releasedir _ | .mkdir ..
  | .rmdir .. | .symlink .. | .readlink _ | .link .. | .access _ => true
  | _ => false

/-- Outcomes of a passive request. -/
inductive PassiveOut : Request → DibsFs → Prop where
  /-- at most the inode table differs -/
  | same {req : Request} (t : InodeTable) :
      (∀ d, req = .releasedir d → s.dirHandles.get d = none) → PassiveOut req { s with inodes := t }
  | dirVirtual {ino : ℕ} (rel : Path) : PassiveOut (.opendir ino)
      { s with dirHandles := (s.dirHandles.alloc (-1) rel).1 }
  | dirOpened {ino : ℕ} (rel : Path) (b : Backing) (fd : ℤ) :
      s.backing.opendir os rel = .ok (b, fd) → PassiveOut (.opendir ino)
        { s with backing := b, dirHandles := (s.dirHandles.alloc fd rel).1 }
  | dirClosed {fh : ℕ} (h : DirHandleState) : s.dirHandles.get fh = some h →
      PassiveOut (.releasedir fh) { s with
        dirHandles := s.dirHandles.remove fh
        backing := if 0 ≤ h.realFd then s.backing.close h.realFd else s.backing }
  /-- `mkdir` and `symlink` -/
  | grown {req : Request} (b : Backing) (t : InodeTable) : (∀ d, req ≠ .releasedir d) →
      s.backing.Grows b → PassiveOut req { s with backing := b, inodes := t }
  | dirRemoved {parent : ℕ} {name : Name} (b : Backing) :
      s.backing.rmdir os (s.resolvePath parent name) = .ok b → PassiveOut (.rmdir parent name)
        { s with backing := b, inodes := s.inodes.removeByPath (s.resolvePath parent name) }

theorem replyEntry_out (rel : Path) :
    ∃ t r, s.replyEntry os rel = ⟨{ s with inodes := t }, r, none⟩ := by
  unfold replyEntry lookupAndRegister
  cases s.backing.lstat os rel with
  | error e => exact ⟨s.inodes, _, rfl⟩
  | ok st =>
    by_cases hr : rel = []
    · simp only [hr, if_true]; exact ⟨_, _, rfl⟩
    · simp only [hr, if_false]; exact ⟨_, _, rfl⟩

theorem listName_fst (rel : Path) (names : List Name) (acc : DibsFs × List (ℕ × FileType × Name)) :
    ∃ t, (names.foldl (listName os rel) acc).1 = { acc.1 with inodes := t } := by
  induction names generalizing acc with
  | nil => exact ⟨acc.1.inodes, rfl⟩
  | cons n names ih =>
    rw [List.foldl_cons]
    obtain ⟨t, ht⟩ := ih (listName os rel acc n)
    have hone : ∃ t', (listName os rel acc n).1 = { acc.1 with inodes := t' } := by
      unfold listName
      simp only
      split
      · exact ⟨acc.1.inodes, rfl⟩
      · split
        · exact ⟨acc.1.inodes, rfl⟩
        · exact ⟨_, rfl⟩
    obtain ⟨t', ht'⟩ := hone
    exact ⟨t, by rw [ht, ht']⟩

/-- What follows when `mkdir` or `symlink` has made its object. -/
theorem grown_out {req : Request} {b : Backing} {rel : Path} (hreq : ∀ d, req ≠ .releasedir d)
    (hg : s.backing.Grows b) :
    PassiveOut s os req (replyEntry { s with backing := b } os rel).st ∧
      (replyEntry { s with backing := b } os rel).warn = none := by
  obtain ⟨t, r, heq⟩ := replyEntry_out { s with backing := b } os rel
  rw [heq]
  exact ⟨.grown b t hreq hg, rfl⟩

/-- SPEC: the list is complete, and a passive request logs no warning. -/
theorem passive_out {req : Request} (hp : passive req = true) (sid : ℕ) :
    PassiveOut s os req (s.handle X os sid req).st ∧ (s.handle X os sid req).warn = none := by
  have unchanged : ∀ {req}, (∀ d, req ≠ Request.releasedir d) → PassiveOut s os req s :=
    fun hne => .same s.inodes fun d heq => absurd heq (hne d)
  have reads : ∀ {req}, readOnly req = true →
      PassiveOut s os req (s.handle X os sid req).st ∧ (s.handle X os sid req).warn = none := by
    intro req h
    obtain ⟨hst, hwarn⟩ := s.handle_readOnly X os h sid
    refine ⟨?_, hwarn⟩
    rw [hst]
    exact unchanged (by rintro d rfl; cases h)
  cases req with
  | getattr ino => exact reads rfl
  | read ino fh offset size => exact reads rfl
  | readlink ino => exact reads rfl
  | link ino newparent newname => exact reads rfl
  | access ino => exact reads rfl
  | lookup parent name =>
    simp only [handle, lookup]
    split
    · exact ⟨unchanged (by simp), rfl⟩
    · split
      · split_ifs <;> exact ⟨unchanged (by simp), rfl⟩
      · obtain ⟨t, r, heq⟩ := s.replyEntry_out os (s.resolvePath parent name)
        rw [heq]; exact ⟨.same t (by simp), rfl⟩
  | opendir ino =>
    simp only [handle, opendir]
    split_ifs
    · exact ⟨.dirVirtual _, rfl⟩
    all_goals
      split
      · exact ⟨unchanged (by simp), rfl⟩
      · split_ifs
        · exact ⟨unchanged (by simp), rfl⟩
        · split
          · exact ⟨unchanged (by simp), rfl⟩
          · rename_i b fd hb
            exact ⟨.dirOpened _ b fd hb, rfl⟩
  | readdir ino offset =>
    simp only [handle, readdir]
    split
    · exact ⟨unchanged (by simp), rfl⟩
    · split
      · exact ⟨unchanged (by simp), rfl⟩
      · split
        · exact ⟨unchanged (by simp), rfl⟩
        · split
          · exact ⟨unchanged (by simp), rfl⟩
          · rename_i rel _ _ names _
            obtain ⟨t, ht⟩ := listName_fst os rel names
              (s, [(ino, .directory, [0x2E]), (s.parentIno ino rel, .directory, Backing.dotdot)] ++
                if ino = 1 then [(DIBS_DIR_INO, .directory, DIBS_DIR_NAME)] else [])
            rw [ht]
            exact ⟨.same t (by simp), rfl⟩
  | releasedir fh =>
    simp only [handle, releasedir]
    split
    · rename_i h hh; exact ⟨.dirClosed h hh, rfl⟩
    · rename_i hh
      refine ⟨.same s.inodes fun d heq => ?_, rfl⟩
      obtain rfl := Request.releasedir.inj heq
      exact hh
  | mkdir parent name mode =>
    simp only [handle, mkdir]
    split_ifs
    · exact ⟨unchanged (by simp), rfl⟩
    · exact ⟨unchanged (by simp), rfl⟩
    · split
      · exact ⟨unchanged (by simp), rfl⟩
      · rename_i b hb; exact s.grown_out os (by simp) (Backing.mkdir_grows hb)
  | rmdir parent name =>
    simp only [handle, rmdir]
    split_ifs
    · exact ⟨unchanged (by simp), rfl⟩
    · exact ⟨unchanged (by simp), rfl⟩
    · split
      · exact ⟨unchanged (by simp), rfl⟩
      · rename_i b hb; exact ⟨.dirRemoved b hb, rfl⟩
  | symlink parent name target =>
    simp only [handle, symlink]
    split_ifs
    · exact ⟨unchanged (by simp), rfl⟩
    · exact ⟨unchanged (by simp), rfl⟩
    · split
      · exact ⟨unchanged (by simp), rfl⟩
      · rename_i b hb; exact s.grown_out os (by simp) (Backing.symlink_grows hb)
  | _ => cases hp

/-- The two tables and the configuration are the same, and no old content changed. -/
structure Passive (s s' : DibsFs) : Prop where
  cas : s'.casTable = s.casTable
  handles : s'.fileHandles = s.fileHandles
  conflictDir : s'.conflictDir = s.conflictDir
  data : ∀ o, o < s.backing.nextObj → s'.backing.dataOf o = s.backing.dataOf o

/-- SPEC: a passive request leaves both tables and all contents alone. -/
theorem handle_passive {req : Request} (hp : passive req = true) (sid : ℕ) :
    Passive s (s.handle X os sid req).st := by
  have hout := (s.passive_out X os hp sid).1
  generalize (s.handle X os sid req).st = s' at hout
  cases hout with
  | same t _ => exact ⟨rfl, rfl, rfl, fun _ _ => rfl⟩
  | dirVirtual rel => exact ⟨rfl, rfl, rfl, fun _ _ => rfl⟩
  | dirOpened rel b fd hb => exact ⟨rfl, rfl, rfl, fun o _ => (Backing.opendir_cases hb).2.1 o⟩
  | dirClosed h _ =>
    refine ⟨rfl, rfl, rfl, fun o _ => ?_⟩
    simp only
    split <;> rfl
  | grown b t _ hg => exact ⟨rfl, rfl, rfl, hg.data⟩
  | dirRemoved b hb => exact ⟨rfl, rfl, rfl, fun o _ => (Backing.rmdir_sameData hb).data o⟩

end Dibs.DibsFs
