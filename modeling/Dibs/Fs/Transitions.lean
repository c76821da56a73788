import Dibs.Fs.Outcomes

/-! Everything one event can do, in one list: the outcomes of the single handlers, put together with
    the eviction thread and with changes by other programs. An invariant of the mount is proved by
    going through this list once. -/

namespace Dibs.DibsFs
variable (X : Ext) (s : DibsFs)

/-- `open` gets past `libc::open`: descriptor `fd`, tree `b`. -/
structure Opening (os : Os) (ino : ℕ) (flags : OpenFlags) (rel : Path) (b : Backing) (fd : ℤ) :
    Prop where
  real : isDibsIno ino = false
  path : s.inodes.getPath ino = some rel
  call : s.backing.libcOpen os rel flags 0 = .ok (b, fd)

/-- `setattr` with a size gets to its truncation at the path `rel`. -/
structure Truncating (ino : ℕ) (a : SetattrArgs) (rel : Path) (size : ℕ) : Prop where
  real : isDibsIno ino = false
  path : s.inodes.getPath ino = some rel
  size : a.size = some size

/-- The state after `flush` hashed the file of a written handle. -/
def stored (os : Os) (fh : ℕ) (h : HandleState) (newHash : Bytes) : DibsFs :=
  { s with
    casTable := (s.casTable.updateReader os.now h.sid h.path newHash).releaseWrite h.path fh
    fileHandles := s.fileHandles.modify fh fun h =>
      { h with hashAtOpen := some newHash, hasWritten := false } }

/-- The state after `release`. -/
def released (fh : ℕ) (h : HandleState) : DibsFs :=
  { s with
    fileHandles := s.fileHandles.remove fh
    casTable := s.casTable.releaseWrite h.path fh
    backing := if 0 ≤ h.realFd then s.backing.close h.realFd else s.backing }

/-- The state after a write-mode open was refused. -/
def refusedOpen (os : Os) (sid : ℕ) (rel : Path) (flags : OpenFlags) (pre : Option Bytes)
    (b : Backing) (fd : ℤ) : DibsFs :=
  { s with
    backing := b.close fd
    fileHandles := (s.opening sid rel flags pre fd).remove s.fileHandles.nextFh
    casTable := s.casTable.ensureEntry os.now rel }

/-- The state after a write-mode open got through with the table `cas`. -/
def grantedOpen (os : Os) (sid : ℕ) (rel : Path) (flags : OpenFlags) (actual : Bytes)
    (b : Backing) (fd : ℤ) (cas : CasTable) : DibsFs :=
  { s with
    backing := b
    fileHandles := s.opening sid rel flags (some actual) fd
    casTable := if accessMode flags = O_RDWR then cas.recordReader os.now rel actual sid else cas }

/-- The state after `create`, with the attributes `fstat` reported. -/
def createdAt (os : Os) (sid : ℕ) (rel : Path) (flags : OpenFlags) (b : Backing) (fd : ℤ)
    (attr : FileAttr) : DibsFs :=
  { s with
    backing := b
    inodes := s.inodes.insert attr.ino rel
    casTable := (s.casTable.recordReader os.now rel ((hashFile X b os rel).getD [])
      sid).ensureEntry os.now rel
    fileHandles := (s.fileHandles.alloc fd rel flags (some ((hashFile X b os rel).getD [])) sid).1 }

/-- Requests that have an error path of their own. -/
def failable : Request → Bool
  | .open_ .. | .setattr .. | .write .. | .create .. | .unlink .. | .rename .. => true
  | _ => false

/-- The paths whose receipts `unlink` and `rename` compare. -/
def checked : Request → List Path
  | .unlink parent name => [s.resolvePath parent name]
  | .rename parent name newparent newname _ =>
    [s.resolvePath parent name, s.resolvePath newparent newname]
  | _ => []

theorem failable_of_checked {s : DibsFs} {req : Request} {rel : Path} (h : rel ∈ s.checked req) :
    failable req = true := by
  cases req <;> first | rfl | cases h

theorem saveConflict_tables (X : Ext) (s : DibsFs) (os : Os) (rel : Path) (data : Bytes) :
    (s.saveConflict X os rel data).casTable = s.casTable ∧
      (s.saveConflict X os rel data).fileHandles = s.fileHandles := by
  rw [saveConflict]
  split
  · exact ⟨rfl, rfl⟩
  · exact ⟨rfl, rfl⟩

/-- Outcomes of one event. -/
inductive StepOut : Call → Out → Prop where
  | passive {os : Os} {pid : ℕ} {req : Request} : passive req = true →
      StepOut (.fuse os pid req) (s.handle X os (getSid os pid) req)
  | failed {os : Os} {pid : ℕ} {req : Request} (e : Errno) : failable req = true →
      StepOut (.fuse os pid req) (s.fail e)
  | openVirtual {os : Os} {pid ino : ℕ} {flags : OpenFlags} :
      ino = DIBS_STATUS_INO ∨ ino = DIBS_LOCKS_INO →
      StepOut (.fuse os pid (.open_ ino flags)) ⟨{ s with
        fileHandles := (s.fileHandles.alloc (-1) VIRTUAL_PATH flags none 0).1 },
        .opened s.fileHandles.nextFh, none⟩
  | openRead {os : Os} {pid ino : ℕ} {flags : OpenFlags} (rel : Path) (b : Backing) (fd : ℤ) :
      s.Opening os ino flags rel b fd → accessMode flags = O_RDONLY →
      StepOut (.fuse os pid (.open_ ino flags)) (s.openRead X os (getSid os pid) rel flags b fd)
  | openRejected {os : Os} {pid ino : ℕ} {flags : OpenFlags} (rel : Path) (b : Backing) (fd : ℤ)
      (actual : Bytes) (e : CasError) : s.Opening os ino flags rel b fd →
      accessMode flags ≠ O_RDONLY → hashFile X s.backing os rel = some actual →
      s.casTable.Refuses rel s.fileHandles.nextFh (getSid os pid)
        (s.opening (getSid os pid) rel flags (some actual) fd) actual e →
      StepOut (.fuse os pid (.open_ ino flags))
        ⟨s.refusedOpen os (getSid os pid) rel flags (some actual) b fd, .error .eio,
          some (.open_ e)⟩
  | openGranted {os : Os} {pid ino : ℕ} {flags : OpenFlags} (rel : Path) (b : Backing) (fd : ℤ)
      (actual : Bytes) (cas : CasTable) : s.Opening os ino flags rel b fd →
      accessMode flags ≠ O_RDONLY → hashFile X s.backing os rel = some actual →
      s.casTable.Grants cas rel s.fileHandles.nextFh (getSid os pid)
        (s.opening (getSid os pid) rel flags (some actual) fd) actual →
      StepOut (.fuse os pid (.open_ ino flags))
        ⟨s.grantedOpen os (getSid os pid) rel flags actual b fd cas,
          .opened s.fileHandles.nextFh, none⟩
  | openUnhashed {os : Os} {pid ino : ℕ} {flags : OpenFlags} (rel : Path) (b : Backing) (fd : ℤ) :
      s.Opening os ino flags rel b fd → accessMode flags ≠ O_RDONLY →
      hashFile X s.backing os rel = none →
      StepOut (.fuse os pid (.open_ ino flags)) ⟨{ s with
        backing := b
        fileHandles := s.opening (getSid os pid) rel flags none fd
        casTable := s.casTable.ensureEntry os.now rel }, .opened s.fileHandles.nextFh, none⟩
  | truncateRejected {os : Os} {pid ino : ℕ} {a : SetattrArgs} (rel : Path) (fh size : ℕ)
      (e : CasError) : s.Truncating ino a rel size → a.fh = some fh →
      s.casTable.Refuses rel fh (((s.fileHandles.get fh).map (·.sid)).getD 0) s.fileHandles
        ((hashFile X s.backing os rel).getD []) e →
      StepOut (.fuse os pid (.setattr ino a))
        ⟨{ s with casTable := s.casTable.ensureEntry os.now rel }, .error .eio,
          some (.truncate e)⟩
  | notTruncated {os : Os} {pid ino : ℕ} {a : SetattrArgs} (rel : Path) (size : ℕ)
      (cas : CasTable) (e : Errno) : s.Truncating ino a rel size → s.Passed X os rel a.fh cas →
      s.truncateCall os rel a.fh size = .error e →
      StepOut (.fuse os pid (.setattr ino a)) (fail { s with casTable := cas } e)
  | truncated {os : Os} {pid ino : ℕ} {a : SetattrArgs} (rel : Path) (size : ℕ) (cas : CasTable)
      (b b' : Backing) (r : Reply) : s.Truncating ino a rel size → s.Passed X os rel a.fh cas →
      s.truncateCall os rel a.fh size = .ok b → b.SameFiles b' →
      StepOut (.fuse os pid (.setattr ino a)) ⟨{ s with casTable := cas, backing := b' }, r, none⟩
  | attributes {os : Os} {pid ino : ℕ} {a : SetattrArgs} (b' : Backing) (r : Reply) :
      a.size = none → s.backing.SameFiles b' →
      StepOut (.fuse os pid (.setattr ino a)) ⟨{ s with backing := b' }, r, none⟩
  | writeRejected {os : Os} {pid ino fh offset : ℕ} {data : Bytes} (h : HandleState)
      (e : CasError) : isDibsIno ino = false → s.fileHandles.get fh = some h →
      s.casTable.owner h.path = none →
      s.casTable.casCheck h.path fh h.sid s.fileHandles
        ((hashFile X s.backing os h.path).getD []) = some e →
      StepOut (.fuse os pid (.write ino fh offset data))
        ⟨saveConflict X { s with casTable := s.casTable.ensureEntry os.now h.path } os h.path
          data, .error .eio, some (.write e)⟩
  | writeThrough {os : Os} {pid ino fh offset : ℕ} {data : Bytes} (h : HandleState)
      (cas : CasTable) : isDibsIno ino = false → s.fileHandles.get fh = some h →
      s.Guarded X os fh h cas →
      StepOut (.fuse os pid (.write ino fh offset data))
        (writeThrough { s with casTable := cas } os fh h offset data)
  /-- a flush or release that finds nothing to do -/
  | idle {os : Os} {pid ino fh : ℕ} {req : Request} :
      (req = .flush ino fh ∧
          (isDibsIno ino = true ∨ ∀ h, s.fileHandles.get fh = some h → h.hasWritten = false)) ∨
        (req = .release ino fh ∧ s.fileHandles.get fh = none) →
      StepOut (.fuse os pid req) ⟨s, .ok, none⟩
  | flushed {os : Os} {pid ino fh : ℕ} (h : HandleState) (newHash : Bytes) :
      isDibsIno ino = false → s.fileHandles.get fh = some h → h.hasWritten = true →
      hashFile X s.backing os h.path = some newHash →
      StepOut (.fuse os pid (.flush ino fh)) ⟨s.stored os fh h newHash, .ok, none⟩
  | flushedUnhashed {os : Os} {pid ino fh : ℕ} (h : HandleState) : isDibsIno ino = false →
      s.fileHandles.get fh = some h →
      h.hasWritten = true → hashFile X s.backing os h.path = none →
      StepOut (.fuse os pid (.flush ino fh))
        ⟨{ s with casTable := s.casTable.releaseWrite h.path fh }, .ok, none⟩
  | released {os : Os} {pid ino fh : ℕ} (h : HandleState) : s.fileHandles.get fh = some h →
      StepOut (.fuse os pid (.release ino fh)) ⟨s.released fh h, .ok, none⟩
  | createDropped {os : Os} {pid parent : ℕ} {name : Name} {mode : ℕ} {flags : OpenFlags}
      (b : Backing) (fd : ℤ) (e : Errno) : isDibsIno parent = false →
      s.backing.libcOpen os (s.resolvePath parent name) (flags ||| O_CREAT) mode = .ok (b, fd) →
      StepOut (.fuse os pid (.create parent name mode flags))
        (fail { s with backing := b.close fd } e)
  | created {os : Os} {pid parent : ℕ} {name : Name} {mode : ℕ} {flags : OpenFlags}
      (b : Backing) (fd : ℤ) (attr : FileAttr) : isDibsIno parent = false →
      s.backing.libcOpen os (s.resolvePath parent name) (flags ||| O_CREAT) mode = .ok (b, fd) →
      StepOut (.fuse os pid (.create parent name mode flags))
        ⟨s.createdAt X os (getSid os pid) (s.resolvePath parent name) flags b fd attr,
          .created attr s.fileHandles.nextFh, none⟩
  | nameStale {os : Os} {pid : ℕ} {req : Request} (rel : Path) (w : Warning) :
      rel ∈ s.checked req → s.staleReceipt X os (getSid os pid) rel = true →
      StepOut (.fuse os pid req) ⟨s, .error .eio, some w⟩
  | unlinked {os : Os} {pid parent : ℕ} {name : Name} (b : Backing) : isDibsIno parent = false →
      s.staleReceipt X os (getSid os pid) (s.resolvePath parent name) = false →
      s.backing.unlink os (s.resolvePath parent name) = .ok b →
      StepOut (.fuse os pid (.unlink parent name)) ⟨{ s with
        backing := b
        casTable := s.casTable.remove (s.resolvePath parent name)
        inodes := s.inodes.removeByPath (s.resolvePath parent name) }, .ok, none⟩
  | renamed {os : Os} {pid parent newparent fl : ℕ} {name newname : Name} (b : Backing) :
      isDibsIno parent = false → isDibsIno newparent = false →
      s.staleReceipt X os (getSid os pid) (s.resolvePath parent name) = false →
      ¬ (s.backing.pathExists (s.resolvePath newparent newname) = true ∧
        s.staleReceipt X os (getSid os pid) (s.resolvePath newparent newname) = true) →
      s.backing.rename os (s.resolvePath parent name) (s.resolvePath newparent newname) = .ok b →
      StepOut (.fuse os pid (.rename parent name newparent newname fl)) ⟨{ s with
        backing := b
        inodes := s.inodes.rename (s.resolvePath parent name) (s.resolvePath newparent newname)
        casTable := s.casTable.rename (s.resolvePath parent name)
          (s.resolvePath newparent newname) }, .ok, none⟩
  | evict (now : Time) (seconds : ℕ) : StepOut (.evict now seconds) ⟨{ s with
      casTable := (s.casTable.evictOlderThan now seconds).getD s.casTable }, .ok, none⟩
  | outside (b : Backing) : StepOut (.outside b)
      ⟨{ s with backing := b.withFdsOf s.backing }, .ok, none⟩

theorem flush_stepOut (os : Os) (pid ino fh : ℕ) :
    StepOut X s (.fuse os pid (.flush ino fh)) (s.flush X os ino fh) := by
  rw [flush]
  split
  · rename_i hd
    exact .idle (Or.inl ⟨rfl, Or.inl hd⟩)
  · rename_i hd
    have hd' : isDibsIno ino = false := by simpa using hd
    split
    · rename_i hh
      exact .idle (Or.inl ⟨rfl, Or.inr (by simp [hh])⟩)
    · rename_i h hh
      by_cases hw : h.hasWritten = true
      · rw [if_pos hw, flushHash]
        cases hf : hashFile X s.backing os h.path with
        | some newHash => exact .flushed h newHash hd' hh hw hf
        | none => exact .flushedUnhashed h hd' hh hw hf
      · rw [if_neg hw]
        exact .idle (Or.inl ⟨rfl, Or.inr (by simpa [hh] using hw)⟩)

theorem open_stepOut (os : Os) (pid ino : ℕ) (flags : OpenFlags) :
    StepOut X s (.fuse os pid (.open_ ino flags)) (s.open_ X os (getSid os pid) ino flags) := by
  have hout := s.open_out X os (getSid os pid) ino flags
  generalize s.open_ X os (getSid os pid) ino flags = o at hout
  cases hout with
  | failed e => exact .failed e rfl
  | virtual hv => exact .openVirtual hv
  | read rel b fd hd hrel hopen hm => exact .openRead rel b fd ⟨hd, hrel, hopen⟩ hm
  | write rel b fd hd hrel hopen hm =>
    have hout := s.openWrite_out os (getSid os pid) rel flags (hashFile X s.backing os rel) b fd
    cases hpre : hashFile X s.backing os rel with
    | none =>
      rw [hpre] at hout
      generalize s.openWrite os (getSid os pid) rel flags none b fd = o at hout
      cases hout with
      | rejected actual e hs _ => cases hs
      | granted actual cas hs _ => cases hs
      | unhashed _ => exact .openUnhashed rel b fd ⟨hd, hrel, hopen⟩ hm hpre
    | some actual =>
      rw [hpre] at hout
      generalize s.openWrite os (getSid os pid) rel flags (some actual) b fd = o at hout
      cases hout with
      | rejected actual' e hs hr =>
        cases hs
        exact .openRejected rel b fd actual e ⟨hd, hrel, hopen⟩ hm hpre hr
      | granted actual' cas hs hg =>
        cases hs
        exact .openGranted rel b fd actual cas ⟨hd, hrel, hopen⟩ hm hpre hg
      | unhashed hs => cases hs

/-- SPEC: the list is complete. -/
theorem step_out (c : Call) : StepOut X s c (s.out X c) := by
  cases c with
  | evict now seconds => exact .evict now seconds
  | outside b => exact .outside b
  | fuse os pid req =>
    by_cases hp : passive req = true
    · exact .passive hp
    · rw [out]
      cases req with
      | open_ ino flags => exact s.open_stepOut X os pid ino flags
      | flush ino fh => exact s.flush_stepOut X os pid ino fh
      | setattr ino a =>
        have hout := s.setattr_out X os ino a
        rw [handle]
        generalize s.setattr X os ino a = o at hout
        cases hout with
        | failed e => exact .failed e rfl
        | rejected rel fh size e hd hrel hsz hfh hr =>
          exact .truncateRejected rel fh size e ⟨hd, hrel, hsz⟩ hfh hr
        | notTruncated rel size cas e hd hrel hsz hpass hcall =>
          exact .notTruncated rel size cas e ⟨hd, hrel, hsz⟩ hpass hcall
        | truncated rel size cas b b' r hd hrel hsz hpass hcall hsame =>
          exact .truncated rel size cas b b' r ⟨hd, hrel, hsz⟩ hpass hcall hsame
        | attributes b' r hsz hsame => exact .attributes b' r hsz hsame
      | write ino fh offset data =>
        have hout := s.write_out X os ino fh offset data
        rw [handle]
        generalize s.write X os ino fh offset data = o at hout
        cases hout with
        | failed e => exact .failed e rfl
        | rejected h e hd hh ho hc => exact .writeRejected h e hd hh ho hc
        | through h cas hd hh hg => exact .writeThrough h cas hd hh hg
      | release ino fh =>
        rw [handle, release]
        split
        · rename_i h hh; exact .released h hh
        · rename_i hh; exact .idle (Or.inr ⟨rfl, hh⟩)
      | create parent name mode flags =>
        have hout := s.create_out X os (getSid os pid) parent name mode flags
        rw [handle]
        generalize s.create X os (getSid os pid) parent name mode flags = o at hout
        cases hout with
        | failed e => exact .failed e rfl
        | dropped b fd e hd hopen => exact .createDropped b fd e hd hopen
        | created b fd attr hd hopen => exact .created b fd attr hd hopen
      | unlink parent name =>
        have hout := s.unlink_out X os (getSid os pid) parent name
        rw [handle]
        generalize s.unlink X os (getSid os pid) parent name = o at hout
        cases hout with
        | failed e => exact .failed e rfl
        | stale hd hst => exact .nameStale _ _ (.head _) hst
        | removed b hd hst hb => exact .unlinked b hd hst hb
      | rename parent name newparent newname fl =>
        have hout := s.rename_out X os (getSid os pid) parent name newparent newname fl
        rw [handle]
        generalize s.rename X os (getSid os pid) parent name newparent newname fl = o at hout
        cases hout with
        | failed e => exact .failed e rfl
        | staleSource hd hn hst => exact .nameStale _ _ (.head _) hst
        | staleDest hd hn hex hst => exact .nameStale _ _ (.tail _ (.head _)) hst
        | renamed b hd hn hst hdst hb => exact .renamed b hd hn hst hdst hb
      | _ => simp [passive] at hp

/-! ### Handles and owners across one event -/

variable {X s}

/-- What identifies a handle never changes while it is live. -/
structure HandleState.SameId (h h' : HandleState) : Prop where
  fh : h'.fh = h.fh
  realFd : h'.realFd = h.realFd
  path : h'.path = h.path
  flags : h'.flags = h.flags
  sid : h'.sid = h.sid

theorem HandleState.SameId.rfl {h : HandleState} : SameId h h :=
  ⟨Eq.refl _, Eq.refl _, Eq.refl _, Eq.refl _, Eq.refl _⟩

theorem get_alloc_of_live {t : HandleTable} {fh : ℕ} {h : HandleState} (hh : t.get fh = some h)
    (fd : ℤ) (rel : Path) (flags : OpenFlags) (hash : Option Bytes) (sid : ℕ) :
    (t.alloc fd rel flags hash sid).1.get fh = some h := by
  have hlt : fh < t.nextFh := t.live_lt fh h hh
  rw [HandleTable.get_alloc, if_neg (Nat.ne_of_lt hlt)]
  exact hh

theorem get_modify_sameId {t : HandleTable} {fh fh' : ℕ} {h : HandleState}
    (hh : t.get fh = some h) {f : HandleState → HandleState} (hf : ∀ h, HandleState.SameId h (f h)) :
    ∃ h', (t.modify fh' f).get fh = some h' ∧ HandleState.SameId h h' := by
  rw [HandleTable.get_modify, hh]
  split
  · exact ⟨f h, Eq.refl _, hf h⟩
  · exact ⟨h, Eq.refl _, .rfl⟩

/-- FRAME: only its own `release` ends a handle, and nothing changes what identifies it. -/
theorem step_handle (X : Ext) (c : Call) {fh : ℕ} {h : HandleState} (hh : s.fileHandles.get fh = some h)
    (hc : ∀ os pid ino, c ≠ .fuse os pid (.release ino fh)) :
    ∃ h', (s.step X c).fileHandles.get fh = some h' ∧ HandleState.SameId h h' := by
  have same : ∃ h', s.fileHandles.get fh = some h' ∧ HandleState.SameId h h' := ⟨h, hh, .rfl⟩
  have hout := s.step_out X c
  rw [step]
  generalize s.out X c = o at hout
  cases hout with
  | passive hp => rw [(s.handle_passive X _ hp _).handles]; exact same
  | failed e => exact same
  | openVirtual _ => exact ⟨h, get_alloc_of_live hh .., .rfl⟩
  | openRead rel b fd _ _ => exact ⟨h, get_alloc_of_live hh .., .rfl⟩
  | openRejected rel b fd actual e _ _ _ _ =>
    exact ⟨h, (HandleTable.get_remove_alloc ..).trans hh, .rfl⟩
  | openGranted rel b fd actual cas _ _ _ _ => exact ⟨h, get_alloc_of_live hh .., .rfl⟩
  | openUnhashed rel b fd _ _ _ => exact ⟨h, get_alloc_of_live hh .., .rfl⟩
  | truncateRejected => exact same
  | notTruncated => exact same
  | truncated => exact same
  | attributes => exact same
  | writeRejected h' e _ _ _ _ =>
    rw [saveConflict]
    split <;> exact same
  | @writeThrough os pid ino fh' offset data h' cas _ _ _ =>
    obtain ⟨b, hst, -⟩ := writeThrough_st { s with casTable := cas } os fh' h' offset data
    rw [hst]
    exact get_modify_sameId hh fun _ => ⟨rfl, rfl, rfl, rfl, rfl⟩
  | idle _ => exact same
  | flushed h' newHash _ _ _ _ => exact get_modify_sameId hh fun _ => ⟨rfl, rfl, rfl, rfl, rfl⟩
  | flushedUnhashed => exact same
  | @released os pid ino fh' h' _ =>
    have hne : fh ≠ fh' := by rintro rfl; exact hc os pid ino rfl
    rw [DibsFs.released, HandleTable.get_remove, if_neg hne]
    exact same
  | createDropped => exact same
  | created b fd attr _ _ => exact ⟨h, get_alloc_of_live hh .., .rfl⟩
  | nameStale => exact same
  | unlinked => exact same
  | renamed => exact same
  | evict => exact same
  | outside => exact same

/-- The ways in which a handle is live after an event: it was before and is not marked as written
    unless it was and the event is not a flush that stores its receipt; a write went through; or the
    event gave it out, with a descriptor for its path or for a virtual file. -/
inductive Survives (X : Ext) (s : DibsFs) (fh : ℕ) : Call → DibsFs → HandleState → Prop where
  | kept {c : Call} {s' : DibsFs} {h' : HandleState} (h : HandleState) :
      s.fileHandles.get fh = some h → HandleState.SameId h h' →
      (∀ os pid ino, c ≠ .fuse os pid (.release ino fh)) →
      (h'.hasWritten = true → h.hasWritten = true ∧ ∀ os pid ino, c = .fuse os pid (.flush ino fh) →
        isDibsIno ino = false → hashFile X s.backing os h.path = none) → Survives X s fh c s' h'
  | wrote {os : Os} {pid ino offset : ℕ} {data : Bytes} {s' : DibsFs} {h' : HandleState}
      (h : HandleState) : s.fileHandles.get fh = some h → HandleState.SameId h h' →
      isDibsIno ino = false → s.Guarded X os fh h s'.casTable →
      Survives X s fh (.fuse os pid (.write ino fh offset data)) s' h'
  | opened {c : Call} {s' : DibsFs} {h' : HandleState} (os : Os) (flags : OpenFlags) (mode : ℕ) :
      fh = s.fileHandles.nextFh → (∀ os pid ino, c ≠ .fuse os pid (.release ino fh)) →
      s.backing.libcOpen os h'.path flags mode = .ok (s'.backing, h'.realFd) →
      h'.hasWritten = false → Survives X s fh c s' h'
  | virtual {c : Call} {s' : DibsFs} {h' : HandleState} : fh = s.fileHandles.nextFh →
      h'.realFd < 0 → h'.hasWritten = false → Survives X s fh c s' h'

/-- A handle that is live after one was given out for a path `libc::open` opened. -/
theorem survives_opened {s' : DibsFs} {c : Call} {os : Os} {rel : Path} {flags flags' : OpenFlags}
    {mode : ℕ} {fd : ℤ} {hash : Option Bytes} {sid fh : ℕ} {h' : HandleState}
    (hcall : s.backing.libcOpen os rel flags' mode = .ok (s'.backing, fd))
    (hfile : s'.fileHandles = (s.fileHandles.alloc fd rel flags hash sid).1)
    (hrel : ∀ os pid ino, c ≠ .fuse os pid (.release ino fh))
    (hfl : ∀ os pid ino, c ≠ .fuse os pid (.flush ino fh))
    (hh : s'.fileHandles.get fh = some h') : Survives X s fh c s' h' := by
  rw [hfile, HandleTable.get_alloc] at hh
  split at hh
  · rename_i heq
    obtain rfl := Option.some.inj hh
    exact .opened os flags' mode heq hrel hcall rfl
  · exact .kept h' hh .rfl hrel fun hw => ⟨hw, fun os pid ino hc => absurd hc (hfl os pid ino)⟩

/-- FRAME: the list is complete. -/
theorem step_live (X : Ext) (c : Call) {fh : ℕ} {h' : HandleState}
    (hh : (s.step X c).fileHandles.get fh = some h') : Survives X s fh c (s.step X c) h' := by
  have hout := s.step_out X c
  rw [step] at hh ⊢
  generalize s.out X c = o at hout hh ⊢
  -- a table that is as before, and an event that is neither a release nor a flush
  have same : ∀ {s' : DibsFs}, s.fileHandles.get fh = some h' →
      (∀ os pid ino, c ≠ .fuse os pid (.release ino fh)) →
      (∀ os pid ino, c ≠ .fuse os pid (.flush ino fh)) → Survives X s fh c s' h' :=
    fun hh hrel hfl => .kept h' hh .rfl hrel fun hw =>
      ⟨hw, fun os pid ino hc => absurd hc (hfl os pid ino)⟩
  cases hout with
  | @passive os pid req hp =>
    rw [(s.handle_passive X _ hp _).handles] at hh
    refine same hh ?_ ?_ <;> rintro os' pid' ino ⟨⟩ <;> cases hp
  | failed e hf => refine same hh ?_ ?_ <;> rintro os' pid' ino ⟨⟩ <;> cases hf
  | @openVirtual os pid ino flags _ =>
    simp only [HandleTable.get_alloc] at hh
    split at hh
    · rename_i heq
      obtain rfl := Option.some.inj hh
      exact .virtual heq (show (-1 : ℤ) < 0 by decide) rfl
    · exact same hh (by simp) (by simp)
  | openRead rel b fd hop _ => exact survives_opened hop.call rfl (by simp) (by simp) hh
  | openRejected rel b fd actual e _ _ _ _ =>
    exact same ((HandleTable.get_remove_alloc ..).symm.trans hh) (by simp) (by simp)
  | openGranted rel b fd actual cas hop _ _ _ => exact survives_opened hop.call rfl (by simp) (by simp) hh
  | openUnhashed rel b fd hop _ _ => exact survives_opened hop.call rfl (by simp) (by simp) hh
  | truncateRejected => exact same hh (by simp) (by simp)
  | notTruncated => exact same hh (by simp) (by simp)
  | truncated => exact same hh (by simp) (by simp)
  | attributes => exact same hh (by simp) (by simp)
  | writeRejected h e _ _ _ _ =>
    simp only [saveConflict] at hh
    split at hh <;> exact same hh (by simp) (by simp)
  | @writeThrough os pid ino fh₀ offset data h cas hd hget hg =>
    obtain ⟨b, hst, -⟩ := writeThrough_st { s with casTable := cas } os fh₀ h offset data
    rw [hst] at hh ⊢
    simp only [HandleTable.get_modify] at hh
    split at hh
    · rename_i heq
      subst heq
      obtain ⟨h₀, hh₀, rfl⟩ := Option.map_eq_some_iff.mp hh
      rw [hget] at hh₀
      obtain rfl := Option.some.inj hh₀
      exact .wrote h hget ⟨rfl, rfl, rfl, rfl, rfl⟩ hd hg
    · exact same hh (by simp) (by simp)
  | @idle os pid ino fh₀ req hi =>
    refine .kept h' hh .rfl ?_ fun hw => ⟨hw, ?_⟩
    · rintro os' pid' ino' ⟨⟩
      rcases hi with ⟨heq, -⟩ | ⟨heq, hn⟩
      · cases heq
      · cases heq; rw [hn] at hh; cases hh
    · rintro os' pid' ino' ⟨⟩ hd
      rcases hi with ⟨heq, hdibs | hidle⟩ | ⟨heq, -⟩
      · cases heq; rw [hdibs] at hd; cases hd
      · cases heq; rw [hidle h' hh] at hw; cases hw
      · cases heq
  | @flushed os pid ino fh₀ h newHash hd hget hw hhash =>
    simp only [stored, HandleTable.get_modify] at hh
    split at hh
    · rename_i heq
      obtain ⟨h₀, hh₀, rfl⟩ := Option.map_eq_some_iff.mp hh
      exact .kept h₀ hh₀ ⟨rfl, rfl, rfl, rfl, rfl⟩ (by simp) fun hw => by cases hw
    · rename_i hne
      refine same hh (by simp) ?_
      rintro os' pid' ino' ⟨⟩
      exact hne rfl
  | @flushedUnhashed os pid ino fh₀ h hd hget hw hhash =>
    refine .kept h' hh .rfl (by simp) fun hw => ⟨hw, ?_⟩
    rintro os' pid' ino' ⟨⟩ -
    have hget' : s.fileHandles.get fh = some h' := hh
    rw [hget] at hget'
    obtain rfl := Option.some.inj hget'
    exact hhash
  | @released os pid ino fh₀ h _ =>
    simp only [DibsFs.released, HandleTable.get_remove] at hh
    split at hh
    · cases hh
    · rename_i hne
      refine same hh ?_ (by simp)
      rintro os' pid' ino' ⟨⟩
      exact hne rfl
  | createDropped => exact same hh (by simp) (by simp)
  | created b fd attr _ hcall => exact survives_opened hcall rfl (by simp) (by simp) hh
  | nameStale rel w hf _ => refine same hh ?_ ?_ <;> rintro os' pid' ino ⟨⟩ <;> cases hf
  | unlinked => exact same hh (by simp) (by simp)
  | renamed => exact same hh (by simp) (by simp)
  | evict => exact same hh (by simp) (by simp)
  | outside => exact same hh (by simp) (by simp)

/-- Handle numbers are never given out twice. -/
theorem step_nextFh (X : Ext) (c : Call) :
    s.fileHandles.nextFh ≤ (s.step X c).fileHandles.nextFh := by
  have hout := s.step_out X c
  rw [step]
  generalize s.out X c = o at hout
  cases hout with
  | passive hp => rw [(s.handle_passive X _ hp _).handles]
  | openVirtual _ => exact Nat.le_succ _
  | openRead rel b fd _ _ => exact Nat.le_succ _
  | openRejected rel b fd actual e _ _ _ _ => exact Nat.le_succ _
  | openGranted rel b fd actual cas _ _ _ _ => exact Nat.le_succ _
  | openUnhashed rel b fd _ _ _ => exact Nat.le_succ _
  | created b fd attr _ _ => exact Nat.le_succ _
  | writeRejected h' e _ _ _ _ =>
    rw [saveConflict]
    split <;> exact Nat.le_refl _
  | @writeThrough os pid ino fh' offset data h' cas _ _ _ =>
    obtain ⟨b, hst, -⟩ := writeThrough_st { s with casTable := cas } os fh' h' offset data
    rw [hst]
    exact Nat.le_refl _
  | _ => exact Nat.le_refl _

/-- The ways in which a handle can come to own a path: `open` gave it out, its `setattr` or `write`
    passed the check, or a rename moved an owned path. -/
inductive Acquires (s : DibsFs) (p : Path) (fh : ℕ) : Call → Prop where
  | opened {os : Os} {pid ino : ℕ} {flags : OpenFlags} (h : HandleState) :
      fh = s.fileHandles.nextFh → h.path = p →
      (s.step X (.fuse os pid (.open_ ino flags))).fileHandles.get fh = some h →
      Acquires s p fh (.fuse os pid (.open_ ino flags))
  | truncating {os : Os} {pid ino size : ℕ} {a : SetattrArgs} : s.Truncating ino a p size →
      a.fh = some fh → Acquires s p fh (.fuse os pid (.setattr ino a))
  | writing {os : Os} {pid ino offset : ℕ} {data : Bytes} (h : HandleState) :
      s.fileHandles.get fh = some h → h.path = p →
      Acquires s p fh (.fuse os pid (.write ino fh offset data))
  | moved {os : Os} {pid parent newparent fl : ℕ} {name newname : Name} (b : Backing) :
      s.resolvePath newparent newname = p → s.resolvePath parent name ≠ p →
      s.casTable.owner (s.resolvePath parent name) = some fh →
      s.staleReceipt X os (getSid os pid) (s.resolvePath parent name) = false →
      ¬ (s.backing.pathExists p = true ∧ s.staleReceipt X os (getSid os pid) p = true) →
      s.backing.rename os (s.resolvePath parent name) p = .ok b →
      Acquires s p fh (.fuse os pid (.rename parent name newparent newname fl))

theorem owner_of_releaseWrite {t : CasTable} {path p : Path} {x fh : ℕ}
    (ho : (t.releaseWrite path x).owner p = some fh) : t.owner p = some fh := by
  rw [CasTable.owner_releaseWrite] at ho
  split at ho
  · cases ho
  · exact ho

/-- The owners of a table that a truncation starts from. -/
theorem owner_of_passed {os : Os} {pid ino : ℕ} {a : SetattrArgs} {rel p : Path} {size fh : ℕ}
    {cas : CasTable} (ht : s.Truncating ino a rel size) (hpass : s.Passed X os rel a.fh cas)
    (ho : cas.owner p = some fh) :
    (s.casTable.owner p = some fh ∧ ∀ os' pid' ino' h,
      Call.fuse os pid (.setattr ino a) = .fuse os' pid' (.release ino' fh) →
      s.fileHandles.get fh = some h → h.path ≠ p) ∨
      Acquires (X := X) s p fh (.fuse os pid (.setattr ino a)) := by
  rcases hpass with ⟨-, rfl⟩ | ⟨fh', hfh, hg⟩
  · exact Or.inl ⟨ho, by simp⟩
  · rw [hg.owner] at ho
    split at ho
    · rename_i hp
      obtain rfl := Option.some.inj ho
      exact Or.inr (.truncating (hp ▸ ht) hfh)
    · exact Or.inl ⟨ho, by simp⟩

/-- FRAME: an owner after an event was the owner before it, or acquired the path in it. The
    `release` of a handle leaves it owning nothing at its path. -/
theorem step_owner {c : Call} {p : Path} {fh : ℕ}
    (ho : (s.step X c).casTable.owner p = some fh) :
    (s.casTable.owner p = some fh ∧ ∀ os pid ino h, c = .fuse os pid (.release ino fh) →
      s.fileHandles.get fh = some h → h.path ≠ p) ∨ Acquires (X := X) s p fh c := by
  have hout := s.step_out X c
  have hst : s.step X c = (s.out X c).st := rfl
  rw [step] at ho
  generalize s.out X c = o at hout ho hst
  cases hout with
  | passive hp =>
    rw [(s.handle_passive X _ hp _).cas] at ho
    exact Or.inl ⟨ho, by rintro os pid ino h ⟨⟩; cases hp⟩
  | failed e hf => exact Or.inl ⟨ho, by rintro os pid ino h ⟨⟩; cases hf⟩
  | openVirtual _ => exact Or.inl ⟨ho, by simp⟩
  | openRead rel b fd _ _ =>
    refine Or.inl ⟨?_, by simp⟩
    simp only [openRead] at ho
    split at ho <;> exact ho
  | openRejected rel b fd actual e _ _ _ _ =>
    exact Or.inl ⟨(CasTable.owner_ensureEntry ..).symm.trans ho, by simp⟩
  | @openGranted os pid ino flags rel b fd actual cas _ _ _ hg =>
    have howner : (s.grantedOpen os (getSid os pid) rel flags actual b fd cas).casTable.owner p =
        cas.owner p := by
      simp only [grantedOpen]
      split <;> rfl
    rw [howner, hg.owner] at ho
    split at ho
    · rename_i hp
      obtain rfl := Option.some.inj ho
      obtain ⟨h, hget, hpath⟩ : ∃ h, (s.grantedOpen os (getSid os pid) rel flags actual b fd
          cas).fileHandles.get s.fileHandles.nextFh = some h ∧ h.path = rel :=
        ⟨_, (HandleTable.get_alloc ..).trans (if_pos rfl), rfl⟩
      refine Or.inr (.opened h rfl (hpath.trans hp.symm) ?_)
      rw [hst]
      exact hget
    · exact Or.inl ⟨ho, by simp⟩
  | openUnhashed rel b fd _ _ _ =>
    exact Or.inl ⟨(CasTable.owner_ensureEntry ..).symm.trans ho, by simp⟩
  | truncateRejected rel fh' size e _ _ _ =>
    exact Or.inl ⟨(CasTable.owner_ensureEntry ..).symm.trans ho, by simp⟩
  | notTruncated rel size cas e ht hpass _ => exact owner_of_passed ht hpass ho
  | truncated rel size cas b b' r ht hpass _ _ => exact owner_of_passed ht hpass ho
  | attributes => exact Or.inl ⟨ho, by simp⟩
  | writeRejected h' e _ _ _ _ =>
    refine Or.inl ⟨?_, by simp⟩
    rw [saveConflict] at ho
    split at ho <;> exact (CasTable.owner_ensureEntry ..).symm.trans ho
  | @writeThrough os pid ino fh' offset data h' cas _ hh' hg =>
    obtain ⟨b, hst', -⟩ := writeThrough_st { s with casTable := cas } os fh' h' offset data
    rw [hst'] at ho
    rcases hg with ⟨-, rfl⟩ | ⟨-, hg⟩
    · exact Or.inl ⟨ho, by simp⟩
    · simp only [hg.owner] at ho
      split at ho
      · rename_i hp
        obtain rfl := Option.some.inj ho
        exact Or.inr (.writing h' hh' hp.symm)
      · exact Or.inl ⟨ho, by simp⟩
  | idle hi =>
    refine Or.inl ⟨ho, ?_⟩
    rintro os pid ino h ⟨⟩ hh
    rcases hi with ⟨⟨⟩, -⟩ | ⟨⟨⟩, hn⟩
    rw [hn] at hh; cases hh
  | @flushed os pid ino fh' h' newHash _ _ _ _ =>
    have hold : (s.casTable.updateReader os.now h'.sid h'.path newHash).owner p = some fh :=
      owner_of_releaseWrite ho
    exact Or.inl ⟨hold, by simp⟩
  | flushedUnhashed h' _ _ _ _ => exact Or.inl ⟨owner_of_releaseWrite ho, by simp⟩
  | @released os pid ino fh' h' hh' =>
    refine Or.inl ⟨owner_of_releaseWrite ho, ?_⟩
    rintro os' pid' ino' h ⟨⟩ hh rfl
    rw [hh'] at hh
    obtain rfl := Option.some.inj hh
    have hold := owner_of_releaseWrite ho
    simp only [DibsFs.released, CasTable.owner_releaseWrite, hold, and_self, if_true] at ho
    cases ho
  | createDropped => exact Or.inl ⟨ho, by simp⟩
  | created b fd attr _ _ =>
    simp only [createdAt, CasTable.owner_ensureEntry, CasTable.owner_recordReader] at ho
    exact Or.inl ⟨ho, by simp⟩
  | nameStale rel w hf _ => exact Or.inl ⟨ho, by rintro os pid ino h ⟨⟩; cases hf⟩
  | unlinked b _ _ _ =>
    refine Or.inl ⟨?_, by simp⟩
    simp only [CasTable.owner_remove] at ho
    split at ho
    · cases ho
    · exact ho
  | @renamed os pid parent newparent fl name newname b _ _ hst' hdst hb =>
    simp only [CasTable.owner_rename] at ho
    split at ho
    · exact Or.inl ⟨ho, by simp⟩
    · split at ho
      · rename_i hp
        subst hp
        by_cases heq : s.resolvePath parent name = s.resolvePath newparent newname
        · rw [heq] at ho; exact Or.inl ⟨ho, by simp⟩
        · exact Or.inr (.moved b rfl heq ho hst' hdst hb)
      · split at ho
        · cases ho
        · exact Or.inl ⟨ho, by simp⟩
  | evict now seconds =>
    exact Or.inl ⟨(CasTable.owner_evictOlderThan ..).symm.trans ho, by simp⟩
  | outside => exact Or.inl ⟨ho, by simp⟩

/-- The ways in which an owner can lose its path: its own flush after a write, its release, or a
    change of names. -/
inductive Loses (s : DibsFs) (p : Path) (fh : ℕ) : Call → Prop where
  | flushed {os : Os} {pid ino : ℕ} (h : HandleState) : isDibsIno ino = false →
      s.fileHandles.get fh = some h → h.path = p → h.hasWritten = true →
      Loses s p fh (.fuse os pid (.flush ino fh))
  | released {os : Os} {pid ino : ℕ} (h : HandleState) : s.fileHandles.get fh = some h →
      h.path = p → Loses s p fh (.fuse os pid (.release ino fh))
  | unlinked {os : Os} {pid parent : ℕ} {name : Name} (b : Backing) :
      s.resolvePath parent name = p → s.backing.unlink os p = .ok b →
      Loses s p fh (.fuse os pid (.unlink parent name))
  | renamed {os : Os} {pid parent newparent fl : ℕ} {name newname : Name} (b : Backing) :
      s.resolvePath parent name ≠ s.resolvePath newparent newname →
      s.resolvePath parent name = p ∨ s.resolvePath newparent newname = p →
      s.backing.rename os (s.resolvePath parent name) (s.resolvePath newparent newname) = .ok b →
      Loses s p fh (.fuse os pid (.rename parent name newparent newname fl))

theorem owner_releaseWrite_keep {t : CasTable} {path p : Path} {x fh : ℕ}
    (ho : t.owner p = some fh) (hne : ¬ (p = path ∧ fh = x)) :
    (t.releaseWrite path x).owner p = some fh := by
  rw [CasTable.owner_releaseWrite, if_neg]
  · exact ho
  · rintro ⟨heq, hx⟩
    rw [ho] at hx
    exact hne ⟨heq, Option.some.inj hx⟩

/-- FRAME: an owner stays the owner unless it loses the path in one of these ways. -/
theorem step_owner_keep (X : Ext) (c : Call) {p : Path} {fh : ℕ}
    (ho : s.casTable.owner p = some fh) :
    (s.step X c).casTable.owner p = some fh ∨ Loses s p fh c := by
  have hout := s.step_out X c
  rw [step]
  generalize s.out X c = o at hout
  have hensure : ∀ now rel, (s.casTable.ensureEntry now rel).owner p = some fh :=
    fun now rel => (CasTable.owner_ensureEntry ..).trans ho
  have hpassed : ∀ {os rel fh' cas}, s.Passed X os rel fh' cas → cas.owner p = some fh := by
    rintro os rel fh' cas (⟨-, rfl⟩ | ⟨fh'', -, hg⟩)
    · exact ho
    · exact hg.keeps ho
  cases hout with
  | passive hp => rw [(s.handle_passive X _ hp _).cas]; exact Or.inl ho
  | openRead rel b fd _ _ =>
    simp only [openRead]
    split <;> exact Or.inl ho
  | openRejected rel b fd actual e _ _ _ _ => exact Or.inl (hensure _ _)
  | openGranted rel b fd actual cas _ _ _ hg =>
    simp only [grantedOpen]
    split <;> exact Or.inl (hg.keeps ho)
  | openUnhashed rel b fd _ _ _ => exact Or.inl (hensure _ _)
  | truncateRejected => exact Or.inl (hensure _ _)
  | notTruncated rel size cas e _ hpass _ => exact Or.inl (hpassed hpass)
  | truncated rel size cas b b' r _ hpass _ _ => exact Or.inl (hpassed hpass)
  | writeRejected h e _ _ _ _ =>
    rw [saveConflict]
    split <;> exact Or.inl (hensure _ _)
  | @writeThrough os pid ino fh' offset data h cas _ _ hg =>
    obtain ⟨b, hst, -⟩ := writeThrough_st { s with casTable := cas } os fh' h offset data
    rw [hst]
    rcases hg with ⟨-, rfl⟩ | ⟨-, hg⟩
    · exact Or.inl ho
    · exact Or.inl (hg.keeps ho)
  | @flushed os pid ino fh' h newHash hd hh hw _ =>
    by_cases hown : p = h.path ∧ fh = fh'
    · obtain ⟨hp, rfl⟩ := hown
      exact Or.inr (.flushed h hd hh hp.symm hw)
    · exact Or.inl (owner_releaseWrite_keep
        (t := s.casTable.updateReader os.now h.sid h.path newHash) ho hown)
  | @flushedUnhashed os pid ino fh' h hd hh hw _ =>
    by_cases hown : p = h.path ∧ fh = fh'
    · obtain ⟨hp, rfl⟩ := hown
      exact Or.inr (.flushed h hd hh hp.symm hw)
    · exact Or.inl (owner_releaseWrite_keep ho hown)
  | @released os pid ino fh' h hh =>
    by_cases hown : p = h.path ∧ fh = fh'
    · obtain ⟨hp, rfl⟩ := hown
      exact Or.inr (.released h hh hp.symm)
    · exact Or.inl (owner_releaseWrite_keep ho hown)
  | created b fd attr _ _ => exact Or.inl ((CasTable.owner_ensureEntry ..).trans ho)
  | @unlinked os pid parent name b _ _ hb =>
    by_cases hp : p = s.resolvePath parent name
    · subst hp; exact Or.inr (.unlinked b rfl hb)
    · exact Or.inl ((CasTable.owner_remove ..).trans ((if_neg hp).trans ho))
  | @renamed os pid parent newparent fl name newname b _ _ _ _ hb =>
    by_cases heq : s.resolvePath parent name = s.resolvePath newparent newname
    · left
      simp only [CasTable.owner_rename, heq]
      split
      · exact ho
      · split
        · rename_i hp; rw [← hp]; exact ho
        · exact ho
    · by_cases hp : s.resolvePath parent name = p ∨ s.resolvePath newparent newname = p
      · exact Or.inr (.renamed b heq hp hb)
      · obtain ⟨hold, hnew⟩ := not_or.mp hp
        left
        simp only [CasTable.owner_rename, if_neg (Ne.symm hold), if_neg (Ne.symm hnew)]
        split <;> exact ho
  | evict now seconds => exact Or.inl ((CasTable.owner_evictOlderThan ..).trans ho)
  | _ => exact Or.inl ho

/-! ### Contents across one event -/

/-- The object a handle's descriptor refers to. -/
def openObj (s : DibsFs) (fh : ℕ) : Option ℕ :=
  (s.fileHandles.get fh).bind fun h => (s.backing.fds.get h.realFd).map (·.obj)

/-- The event may overwrite the object `o`: it truncates it at `open`, `create` or `setattr`, writes
    to it, or would save a rejected write over it. -/
def Hits (X : Ext) (s : DibsFs) (o : ℕ) : Call → Prop
  | .fuse _ _ (.open_ ino flags) => hasFlag flags O_TRUNC = true ∧ ∃ rel,
      s.inodes.getPath ino = some rel ∧ s.backing.fileAt rel = some o
  | .fuse _ _ (.create parent name _ flags) => hasFlag flags O_TRUNC = true ∧
      s.backing.fileAt (s.resolvePath parent name) = some o
  | .fuse _ _ (.setattr ino a) => a.size ≠ none ∧ ∃ rel, s.inodes.getPath ino = some rel ∧
      match a.fh.bind s.fileHandles.get with
      | some h => ∃ f, s.backing.fds.get h.realFd = some f ∧ f.obj = o
      | none => s.backing.fileAt rel = some o
  | .fuse os _ (.write _ fh _ _) => ∃ h, s.fileHandles.get fh = some h ∧
      ((∃ f, s.backing.fds.get h.realFd = some f ∧ f.obj = o) ∨
        (s.casTable.owner h.path = none ∧ ∃ dir, s.conflictDir = some dir ∧
          s.backing.fileAt (conflictPath X os dir h.path) = some o))
  | .outside b => b.dataOf o ≠ s.backing.dataOf o
  | _ => False

/-- `libc::open` changes no old content but that of a file it truncates. -/
theorem libcOpen_data {os : Os} {p : Path} {flags : OpenFlags} {mode : ℕ} {b : Backing} {fd : ℤ}
    (h : s.backing.libcOpen os p flags mode = .ok (b, fd)) {o : ℕ} (ho : o < s.backing.nextObj)
    (hno : ¬ (hasFlag flags O_TRUNC = true ∧ s.backing.fileAt p = some o)) :
    b.dataOf o = s.backing.dataOf o := by
  obtain ⟨-, -, ⟨o', hfile⟩ | hdir | hnew⟩ := Backing.libcOpen_cases h
  · rw [hfile.data, if_neg]
    rintro ⟨htr, rfl⟩
    exact hno ⟨htr, hfile.file⟩
  · exact hdir.data o
  · rw [hnew.data, if_neg (Nat.ne_of_lt ho)]

/-- FRAME: an old object keeps its content in every event that does not hit it. -/
theorem step_data (X : Ext) (c : Call) {o : ℕ} (ho : o < s.backing.nextObj)
    (hno : ¬ Hits X s o c) : (s.step X c).backing.dataOf o = s.backing.dataOf o := by
  have hout := s.step_out X c
  rw [step]
  generalize s.out X c = out at hout
  cases hout with
  | passive hp => exact (s.handle_passive X _ hp _).data o ho
  | openRead rel b fd hop _ => exact libcOpen_data hop.call ho fun h => hno ⟨h.1, rel, hop.path, h.2⟩
  | openRejected rel b fd actual e hop _ _ _ =>
    exact libcOpen_data hop.call ho fun h => hno ⟨h.1, rel, hop.path, h.2⟩
  | openGranted rel b fd actual cas hop _ _ _ =>
    exact libcOpen_data hop.call ho fun h => hno ⟨h.1, rel, hop.path, h.2⟩
  | openUnhashed rel b fd hop _ _ =>
    exact libcOpen_data hop.call ho fun h => hno ⟨h.1, rel, hop.path, h.2⟩
  | @truncated os pid ino a rel size cas b b' r ht _ hcall hsame =>
    simp only [hsame.data]
    rw [truncateCall] at hcall
    have hkeep : ∀ o', o ≠ o' → ∀ d, (s.backing.setData o' d).dataOf o = s.backing.dataOf o :=
      fun o' hne d => (Backing.dataOf_setData ..).trans (if_neg hne)
    have hsize : a.size ≠ none := by rw [ht.size]; simp
    cases hfh : a.fh.bind s.fileHandles.get with
    | some h =>
      rw [hfh] at hcall
      obtain ⟨f, hf, -, rfl⟩ := Backing.ftruncate_cases hcall
      refine hkeep f.obj ?_ _
      rintro rfl
      exact hno ⟨hsize, rel, ht.path, by rw [hfh]; exact ⟨f, hf, rfl⟩⟩
    | none =>
      rw [hfh] at hcall
      obtain ⟨o', ho', rfl⟩ := Backing.truncate_cases hcall
      refine hkeep o' ?_ _
      rintro rfl
      exact hno ⟨hsize, rel, ht.path, by rw [hfh]; exact ho'⟩
  | attributes b' r _ hsame => exact hsame.data o
  | @writeRejected os pid ino fh offset data h e _ hh hnone _ =>
    rw [saveConflict]
    split
    · rename_i dir hdir
      obtain ⟨-, -, hdata⟩ := Backing.fsWrite_spec s.backing os (conflictPath X os dir h.path) data
      refine (hdata o ho).trans (if_neg fun hfile => ?_)
      exact hno ⟨h, hh, Or.inr ⟨hnone, dir, hdir, hfile.1⟩⟩
    · rfl
  | @writeThrough os pid ino fh offset data h cas _ hh _ =>
    obtain ⟨b, hst, hb⟩ := writeThrough_st { s with casTable := cas } os fh h offset data
    rw [hst]
    rcases hb with rfl | ⟨f, d, hf, -, rfl⟩
    · rfl
    · refine (Backing.dataOf_setData ..).trans (if_neg ?_)
      rintro rfl
      exact hno ⟨h, hh, Or.inl ⟨f, hf, rfl⟩⟩
  | @released os pid ino fh h _ =>
    simp only [DibsFs.released]
    split <;> rfl
  | createDropped b fd e _ hcall =>
    refine libcOpen_data hcall ho fun h => hno ⟨?_, h.2⟩
    simpa [hasFlag_or, show hasFlag O_CREAT O_TRUNC = false by decide] using h.1
  | created b fd attr _ hcall =>
    refine libcOpen_data hcall ho fun h => hno ⟨?_, h.2⟩
    simpa [hasFlag_or, show hasFlag O_CREAT O_TRUNC = false by decide] using h.1
  | unlinked b _ _ hb => exact (Backing.unlink_sameData hb).data o
  | renamed b _ _ _ _ hb => exact (Backing.rename_sameData hb).data o
  | outside b => exact not_not.mp hno
  | _ => rfl

end Dibs.DibsFs
