import Dibs.Proofs.FlushTruth
import Dibs.Proofs.StaleView

/-! The read/write cycle. An observer (`View`) notes which content each session last saw of a path, at a
    read-only open and at a flush after a write, and how far each handle is in its cycle. Every event
    of such cycles keeps the observer and the daemon in agreement (`Cycling`): a receipt is the hash
    of what the session last saw, and the owners are exactly the write handles that were not flushed
    after a write. -/

namespace Dibs.DibsFs

/-- How far a handle is: nothing written, written and not flushed since, flushed after a write. -/
inductive Phase where
  | clean
  | written
  | flushed
  deriving DecidableEq

/-- What an observer of the requests notes. -/
structure View where
  /-- the content of a path at the last recording event of a session -/
  seen : ℕ → Path → Option Bytes := fun _ _ => none
  phase : ℕ → Phase := fun _ => .clean

namespace View

def record (v : View) (sid : ℕ) (p : Path) (x : Option Bytes) : View :=
  { v with seen := fun S q => if S = sid ∧ q = p then x else v.seen S q }

def setPhase (v : View) (fh : ℕ) (ph : Phase) : View :=
  { v with phase := fun k => if k = fh then ph else v.phase k }

/-- The recording events of a session are its successful read-only opens and the flushes of its
    handles after a write. -/
def watch (X : Ext) (s : DibsFs) (v : View) (c : Call) : View :=
  match c with
  | .fuse os pid (.open_ ino flags) =>
    match (s.out X c).reply, s.inodes.getPath ino with
    | .opened _, some p =>
      if accessMode flags = O_RDONLY then
        v.record (getSid os pid) p ((s.step X c).backing.content p)
      else v
    | _, _ => v
  | .fuse _ _ (.write _ fh _ _) => v.setPhase fh .written
  | .fuse _ _ (.flush _ fh) =>
    match s.fileHandles.get fh with
    | some h =>
      if v.phase fh = .written then
        (v.record h.sid h.path (s.backing.content h.path)).setPhase fh .flushed
      else v
    | none => v
  | _ => v

end View

/-- One event of an observed mount. -/
def observe (X : Ext) (w : DibsFs × View) (c : Call) : DibsFs × View :=
  (w.1.step X c, w.2.watch X w.1 c)

/-- A lookup of `rel` gives no inode a new path and no path a new inode. -/
def StaysPut (s : DibsFs) (os : Os) (rel : Path) : Prop :=
  ∀ st, s.backing.lstat os rel = .ok st →
    (∀ q, s.inodes.getPath st.attr.ino = some q → q = rel) ∧
      ∀ i, s.inodes.getIno rel = some i → i = st.attr.ino

/-- The requests of the cycle: read-only and write-only opens without `O_TRUNC` of an inode that is an
    existing, readable file; reads; truncations and writes through a write handle that was not
    flushed after a write; flushes; releases; and lookups. -/
def Cycle (s : DibsFs) (v : View) : Call → Prop
  | .fuse os _ (.lookup parent name) => s.StaysPut os (s.resolvePath parent name)
  | .fuse _ _ (.read _ _ _ _) => True
  | .fuse os _ (.open_ ino flags) => isDibsIno ino = false ∧
      (accessMode flags = O_RDONLY ∨ accessMode flags = O_WRONLY) ∧
      hasFlag flags O_TRUNC = false ∧
      ∃ p o, s.inodes.getPath ino = some p ∧ s.backing.fileAt p = some o ∧
        (s.backing.attrOf o).ino = ino ∧ os.unreadable p = false
  | .fuse _ _ (.setattr ino a) => ∃ fh h, a.fh = some fh ∧ a.size ≠ none ∧
      s.fileHandles.get fh = some h ∧ accessMode h.flags = O_WRONLY ∧ v.phase fh ≠ .flushed ∧
      s.inodes.getPath ino = some h.path
  | .fuse _ _ (.write ino fh _ _) => isDibsIno ino = false ∧ ∃ h, s.fileHandles.get fh = some h ∧
      accessMode h.flags = O_WRONLY ∧ v.phase fh ≠ .flushed
  | .fuse os _ (.flush ino fh) => isDibsIno ino = false ∧
      ∀ h, s.fileHandles.get fh = some h → os.unreadable h.path = false
  | .fuse _ _ (.release _ _) => True
  | _ => False

/-- All contents of files are in `C`. -/
def ContentsIn (C : Bytes → Prop) (s : DibsFs) : Prop := ∀ p x, s.backing.content p = some x → C x

/-- A handle in the cycle: its descriptor is open on a regular file whose inode has the handle's path,
    it is marked as written just when it is, and a write handle owns its path until it is flushed
    after a write. -/
structure HandleOk (s : DibsFs) (v : View) (fh : ℕ) (h : HandleState) : Prop where
  real : 0 ≤ h.realFd
  file : ∃ f, s.backing.fds.get h.realFd = some f ∧ f.kind = .file ∧
    s.inodes.getPath (s.backing.attrOf f.obj).ino = some h.path
  written : h.hasWritten = true ↔ v.phase fh = .written
  owns : accessMode h.flags = O_WRONLY → v.phase fh ≠ .flushed →
    s.casTable.owner h.path = some fh
  reader : accessMode h.flags ≠ O_WRONLY → v.phase fh = .clean

/-- The invariant of the cycle. -/
structure Cycling (X : Ext) (C : Bytes → Prop) (s : DibsFs) (v : View) : Prop where
  truthful : Truthful s
  handles : ∀ fh h, s.fileHandles.get fh = some h → HandleOk s v fh h
  owned : ∀ p fh, s.casTable.owner p = some fh → ∃ h, s.fileHandles.get fh = some h ∧ h.path = p ∧
    accessMode h.flags = O_WRONLY ∧ v.phase fh ≠ .flushed
  fresh : ∀ fh, s.fileHandles.nextFh ≤ fh → v.phase fh = .clean
  receipts : ∀ S p, s.casTable.getReaderHash S p = (v.seen S p).map (hashContent X)
  seen : ∀ S p x, v.seen S p = some x → C x

variable {X : Ext} {C : Bytes → Prop} {s : DibsFs} {v : View} {c : Call}

theorem cycling_mount (b : Backing) (os : Os) (sc : Bool) (sid : Bytes) :
    Cycling X C (mount b os sc sid) {} where
  truthful := truthful_mount b os sc sid
  handles := fun fh h hh => by cases hh
  owned := fun p fh ho => by simp [mount] at ho
  fresh := fun _ _ => rfl
  receipts := fun _ _ => rfl
  seen := fun _ _ _ h => by cases h

/-! ### What the invariant says about one event -/

theorem Cycling.ownersIssued (hs : Cycling X C s v) : OwnersIssued s := by
  intro p fh ho
  obtain ⟨h, hh, -⟩ := hs.owned p fh ho
  exact s.fileHandles.live_lt fh h hh

/-- The path of a handle leads to the file the handle has open. -/
theorem Cycling.fileAt (hs : Cycling X C s v) {fh : ℕ} {h : HandleState}
    (hh : s.fileHandles.get fh = some h) :
    ∃ f, s.backing.fds.get h.realFd = some f ∧ s.backing.fileAt h.path = some f.obj ∧
      s.openObj fh = some f.obj := by
  obtain ⟨f, hf, hkind, -⟩ := (hs.handles fh h hh).file
  obtain ⟨f', hf', htarget⟩ := hs.truthful.opens fh h hh (hs.handles fh h hh).real
  rw [hf] at hf'
  obtain rfl := Option.some.inj hf'
  refine ⟨f, hf, ?_, ?_⟩
  · rw [hkind] at htarget
    exact Backing.fileAt_iff_target.mpr htarget
  · simp only [openObj, hh, Option.bind_some, hf, Option.map_some]

/-- Two handles with the same open file have the same path. -/
theorem Cycling.same_path (hs : Cycling X C s v) {fh fh' : ℕ} {h h' : HandleState}
    (hh : s.fileHandles.get fh = some h) (hh' : s.fileHandles.get fh' = some h')
    {f f' : OpenFile} (hf : s.backing.fds.get h.realFd = some f)
    (hf' : s.backing.fds.get h'.realFd = some f') (hobj : f.obj = f'.obj) : h.path = h'.path := by
  obtain ⟨g, hg, -, hpath⟩ := (hs.handles fh h hh).file
  obtain ⟨g', hg', -, hpath'⟩ := (hs.handles fh' h' hh').file
  rw [hf] at hg
  rw [hf'] at hg'
  obtain rfl := Option.some.inj hg
  obtain rfl := Option.some.inj hg'
  rw [hobj, hpath'] at hpath
  exact (Option.some.inj hpath).symm

/-- A write handle in the cycle is the only one that can own a path of its file. -/
theorem Cycling.owner_of_hit (hs : Cycling X C s v) {fh fh' o : ℕ} {h h' : HandleState}
    (hh : s.fileHandles.get fh = some h) (howner : s.casTable.owner h.path = some fh)
    (hobj : s.openObj fh = some o) (hh' : s.fileHandles.get fh' = some h')
    (hmode : accessMode h'.flags = O_WRONLY) (hphase : v.phase fh' ≠ .flushed)
    (hhit : ∃ f, s.backing.fds.get h'.realFd = some f ∧ f.obj = o) : fh = fh' := by
  obtain ⟨f', hf', hobj'⟩ := hhit
  obtain ⟨f, hf, -, hf_obj⟩ := hs.fileAt hh
  have heq : f.obj = f'.obj := by
    rw [hf_obj] at hobj
    rw [hobj', Option.some.inj hobj]
  have hpath := hs.same_path hh hh' hf hf' heq
  have howner' := (hs.handles fh' h' hh').owns hmode hphase
  rw [← hpath, howner] at howner'
  exact Option.some.inj howner'

/-- In the cycle an event hits the open file of an owner only if it carries the owner. -/
theorem Cycling.carried_of_hits (hs : Cycling X C s v) (hc : Cycle s v c) {fh o : ℕ}
    {h : HandleState} (hh : s.fileHandles.get fh = some h)
    (howner : s.casTable.owner h.path = some fh) (hobj : s.openObj fh = some o)
    (hhit : Hits X s o c) : carried c = some fh := by
  cases c with
  | fuse os pid req =>
    cases req with
    | open_ ino flags =>
      obtain ⟨htrunc, -⟩ := hhit
      rw [hc.2.2.1] at htrunc
      cases htrunc
    | setattr ino a =>
      obtain ⟨fh', h', hfh, -, hh', hmode, hphase, -⟩ := hc
      obtain ⟨-, rel, -, hobj'⟩ := hhit
      simp only [hfh, Option.bind_some, hh'] at hobj'
      rw [hs.owner_of_hit hh howner hobj hh' hmode hphase hobj']
      exact hfh
    | write ino fh' offset data =>
      obtain ⟨-, h', hh', hmode, hphase⟩ := hc
      obtain ⟨h₀, hh₀, hobj' | ⟨hnone, -⟩⟩ := hhit
      · obtain rfl := Option.some.inj (hh'.symm.trans hh₀)
        rw [hs.owner_of_hit hh howner hobj hh' hmode hphase hobj']
        rfl
      · obtain rfl := Option.some.inj (hh'.symm.trans hh₀)
        rw [(hs.handles fh' h' hh').owns hmode hphase] at hnone
        cases hnone
    | create => exact absurd hc id
    | _ => exact absurd hhit id
  | evict => exact absurd hc id
  | outside => exact absurd hc id

/-- No request of the cycle changes a name. -/
theorem Cycle.keepsName (hc : Cycle s v c) (p : Path) : s.KeepsName p c := by
  cases c with
  | fuse os pid req =>
    cases req with
    | unlink => exact absurd hc id
    | rmdir => exact absurd hc id
    | rename => exact absurd hc id
    | _ => trivial
  | evict => exact absurd hc id
  | outside => exact absurd hc id

/-- The file of a handle can be hashed when the handle is flushed. -/
theorem Cycling.hashFile_flush (hs : Cycling X C s v) {os : Os} {pid ino fh : ℕ} {h : HandleState}
    (hc : Cycle s v (.fuse os pid (.flush ino fh))) (hh : s.fileHandles.get fh = some h) :
    ∃ x, s.backing.content h.path = some x ∧
      hashFile X s.backing os h.path = some (hashContent X x) := by
  obtain ⟨f, -, hfile, -⟩ := hs.fileAt hh
  refine ⟨s.backing.dataOf f.obj, ?_, hashFile_eq_some.mpr ⟨hc.2 h hh, f.obj, hfile, rfl⟩⟩
  rw [Backing.content, hfile, Option.map_some]

/-- Requests of the cycle keep receipts true. -/
theorem Cycling.truthKept (hs : Cycling X C s v) (hc : Cycle s v c) : TruthKept X s c where
  hits := fun _ _ _ hh howner hobj hhit => hs.carried_of_hits hc hh howner hobj hhit
  names := fun _ h _ _ => hc.keepsName h.path
  writes := by
    rintro os pid ino fh offset data h rfl - hh
    obtain ⟨-, h', hh', hmode, hphase⟩ := hc
    obtain rfl := Option.some.inj (hh.symm.trans hh')
    have hok := hs.handles fh h hh
    refine ⟨hok.real, fun x hx => ?_⟩
    rw [hok.owns hmode hphase] at hx
    exact (Option.some.inj hx).symm
  flushes := by
    rintro os pid ino fh h rfl - hh -
    obtain ⟨x, -, hhash⟩ := hs.hashFile_flush hc hh
    rw [hhash]
    simp

/-! ### The step -/

/-- `read` changes nothing. -/
theorem read_st (X : Ext) (s : DibsFs) (os : Os) (ino fh offset size : ℕ) :
    (s.read X os ino fh offset size).st = s :=
  (s.handle_readOnly X os (show readOnly (.read ino fh offset size) = true from rfl) 0).1

/-- A lookup that stays put at most registers the inode it found. -/
theorem lookup_st (X : Ext) (s : DibsFs) (os : Os) (parent : ℕ) (name : Name)
    (hc : s.StaysPut os (s.resolvePath parent name)) :
    ∃ t, (s.lookup X os parent name).st = { s with inodes := t } ∧
      ∀ i q, s.inodes.getPath i = some q → t.getPath i = some q := by
  have hsame : ∃ t, s = { s with inodes := t } ∧
      ∀ i q, s.inodes.getPath i = some q → t.getPath i = some q := ⟨s.inodes, rfl, fun _ _ h => h⟩
  rw [lookup]
  split
  · exact hsame
  · split
    · repeat' split
      all_goals exact hsame
    · have hne : s.resolvePath parent name ≠ [] := by simp [resolvePath]
      rw [replyEntry, lookupAndRegister]
      cases hst : s.backing.lstat os (s.resolvePath parent name) with
      | error e => exact hsame
      | ok st =>
        simp only [hne, if_false]
        refine ⟨_, rfl, fun i q hi => ?_⟩
        obtain ⟨hpath, hino⟩ := hc st hst
        refine (s.inodes.getPath_insert_eq _ _ i).trans ?_
        split
        · rename_i heq
          rw [heq] at hi
          rw [hpath q hi]
        · rename_i hne'
          rw [if_neg fun h => hne' (hino i h.1)]
          exact hi

/-- The file of an open request in the cycle exists, so `libc::open` opens it. -/
theorem Cycle.opensFile {os : Os} {pid ino : ℕ} {flags : OpenFlags} {rel : Path} {b : Backing}
    {fd : ℤ} (hc : Cycle s v (.fuse os pid (.open_ ino flags)))
    (hop : s.Opening os ino flags rel b fd) :
    ∃ o, s.backing.OpensFile b rel flags fd o ∧ (s.backing.attrOf o).ino = ino ∧
      os.unreadable rel = false ∧ ∀ o', b.dataOf o' = s.backing.dataOf o' := by
  obtain ⟨-, -, htrunc, p, o, hp, hfile, hino, hread⟩ := hc
  obtain rfl := Option.some.inj (hop.path.symm.trans hp)
  obtain ⟨-, -, ⟨o₁, hf⟩ | hdir | hnew⟩ := Backing.libcOpen_cases hop.call
  · obtain rfl := Option.some.inj (hf.file.symm.trans hfile)
    refine ⟨o₁, hf, hino, hread, fun o' => ?_⟩
    rw [hf.data, if_neg]
    rintro ⟨htr, -⟩
    rw [htrunc] at htr
    cases htr
  · rw [hdir.noFile] at hfile; cases hfile
  · rw [hnew.noFile] at hfile; cases hfile

/-- A write in the cycle finds its handle as the owner. -/
theorem Cycling.write_owned (hs : Cycling X C s v) {os : Os} {pid ino fh offset : ℕ} {data : Bytes}
    {h : HandleState} (hc : Cycle s v (.fuse os pid (.write ino fh offset data)))
    (hh : s.fileHandles.get fh = some h) : s.casTable.owner h.path ≠ none := by
  obtain ⟨-, h', hh', hmode, hphase⟩ := hc
  obtain rfl := Option.some.inj (hh.symm.trans hh')
  rw [(hs.handles fh h hh).owns hmode hphase]
  simp

/-- FRAME: in the cycle objects keep their inode numbers and inodes keep their paths. -/
theorem Cycling.step_inodes (hs : Cycling X C s v) (hc : Cycle s v c) :
    (∀ o, ((s.step X c).backing.attrOf o).ino = (s.backing.attrOf o).ino) ∧
      ∀ i q, s.inodes.getPath i = some q → (s.step X c).inodes.getPath i = some q := by
  have hout := s.step_out X c
  rw [step]
  generalize s.out X c = out at hout
  have hopen : ∀ {os pid ino flags rel b fd}, Cycle s v (.fuse os pid (.open_ ino flags)) →
      s.Opening os ino flags rel b fd → ∀ o, (b.attrOf o).ino = (s.backing.attrOf o).ino := by
    intro os pid ino flags rel b fd hc hop o
    obtain ⟨o₁, hf, -⟩ := hc.opensFile hop
    rw [Backing.attrOf, hf.attrs, Backing.attrOf]
  cases hout with
  | @passive os pid req hp =>
    cases req with
    | lookup parent name =>
      obtain ⟨t, hst, hmono⟩ := lookup_st X s os parent name hc
      rw [handle, hst]
      exact ⟨fun _ => rfl, hmono⟩
    | read ino fh offset size =>
      rw [handle, read_st]
      exact ⟨fun _ => rfl, fun _ _ h => h⟩
    | setattr => cases hp
    | open_ => cases hp
    | write => cases hp
    | flush => cases hp
    | release => cases hp
    | _ => exact absurd hc id
  | openRead rel b fd hop _ => exact ⟨hopen hc hop, fun _ _ h => h⟩
  | openRejected rel b fd actual e hop _ _ _ => exact ⟨fun o => hopen hc hop o, fun _ _ h => h⟩
  | openGranted rel b fd actual cas hop _ _ _ => exact ⟨hopen hc hop, fun _ _ h => h⟩
  | openUnhashed rel b fd hop _ _ => exact ⟨hopen hc hop, fun _ _ h => h⟩
  | truncated rel size cas b b' r _ _ hcall hsame =>
    refine ⟨fun o => (hsame.ino o).trans ?_, fun _ _ h => h⟩
    rw [truncateCall] at hcall
    split at hcall
    · obtain ⟨f, -, -, rfl⟩ := Backing.ftruncate_cases hcall
      rfl
    · obtain ⟨o', -, rfl⟩ := Backing.truncate_cases hcall
      rfl
  | attributes b' r _ hsame => exact ⟨hsame.ino, fun _ _ h => h⟩
  | writeRejected h e _ hh hnone _ => exact absurd hnone (hs.write_owned hc hh)
  | @writeThrough os pid ino fh offset data h cas _ _ _ =>
    obtain ⟨b, hst, hb⟩ := writeThrough_st { s with casTable := cas } os fh h offset data
    rw [hst]
    refine ⟨fun o => ?_, fun _ _ h => h⟩
    rcases hb with rfl | ⟨f, d, -, -, rfl⟩ <;> rfl
  | @released os pid ino fh h _ =>
    refine ⟨fun o => ?_, fun _ _ h => h⟩
    simp only [DibsFs.released]
    split <;> rfl
  | createDropped => exact absurd hc id
  | created => exact absurd hc id
  | unlinked => exact absurd hc id
  | renamed => exact absurd hc id
  | outside => exact absurd hc id
  | _ => exact ⟨fun _ => rfl, fun _ _ h => h⟩

/-- FRAME: a handle that is not released keeps its file and the path of its inode. -/
theorem Cycling.step_file (hs : Cycling X C s v) (hc : Cycle s v c) {fh : ℕ} {h : HandleState}
    (hh : s.fileHandles.get fh = some h) (hrel : ∀ os pid ino, c ≠ .fuse os pid (.release ino fh)) :
    ∃ f, (s.step X c).backing.fds.get h.realFd = some f ∧ f.kind = .file ∧
      (s.step X c).inodes.getPath ((s.step X c).backing.attrOf f.obj).ino = some h.path := by
  have hok := hs.handles fh h hh
  obtain ⟨f, hf, hkind, hpath⟩ := hok.file
  obtain ⟨hino, hmono⟩ := hs.step_inodes hc
  refine ⟨f, ?_, hkind, ?_⟩
  · rw [step_openFile hs.truthful.held hh hok.real hrel]
    exact hf
  · rw [hino]
    exact hmono _ _ hpath

/-- An event that leaves the handles, the owners and the receipts as they are, and that the observer
    does not note, keeps the invariant. -/
theorem Cycling.same (hs : Cycling X C s v) (hc : Cycle s v c)
    (hrel : ∀ fh h, s.fileHandles.get fh = some h → ∀ os pid ino, c ≠ .fuse os pid (.release ino fh))
    (hnext : s.fileHandles.nextFh ≤ (s.step X c).fileHandles.nextFh)
    (hhandles : ∀ fh, (s.step X c).fileHandles.get fh = s.fileHandles.get fh)
    (howner : ∀ p, (s.step X c).casTable.owner p = s.casTable.owner p)
    (hreceipts : ∀ S p, (s.step X c).casTable.getReaderHash S p = s.casTable.getReaderHash S p) :
    Cycling X C (s.step X c) v where
  truthful := truthful_step hs.truthful (hs.truthKept hc)
  handles := by
    intro fh h hh
    rw [hhandles] at hh
    have hok := hs.handles fh h hh
    refine ⟨hok.real, hs.step_file hc hh (hrel fh h hh), hok.written, ?_, hok.reader⟩
    intro hmode hphase
    rw [howner]
    exact hok.owns hmode hphase
  owned := by
    intro p fh ho
    rw [howner] at ho
    obtain ⟨h, hh, hrest⟩ := hs.owned p fh ho
    exact ⟨h, (hhandles fh).trans hh, hrest⟩
  fresh := fun fh hfh => hs.fresh fh (hnext.trans hfh)
  receipts := fun S p => (hreceipts S p).trans (hs.receipts S p)
  seen := hs.seen

/-- An open that gives out a handle: an owner if it is a write handle, whose path was free then. -/
theorem Cycling.opened (hs : Cycling X C s v) {v' : View} {os : Os} {pid ino : ℕ}
    {flags : OpenFlags} {rel : Path} {b : Backing} {fd : ℤ} {hash : Option Bytes} {sid : ℕ}
    (hc : Cycle s v (.fuse os pid (.open_ ino flags))) (hop : s.Opening os ino flags rel b fd)
    (hbacking : (s.step X (.fuse os pid (.open_ ino flags))).backing = b)
    (hinodes : (s.step X (.fuse os pid (.open_ ino flags))).inodes = s.inodes)
    (hhandles : (s.step X (.fuse os pid (.open_ ino flags))).fileHandles =
      (s.fileHandles.alloc fd rel flags hash sid).1)
    (howner : ∀ p, (s.step X (.fuse os pid (.open_ ino flags))).casTable.owner p =
      if accessMode flags = O_WRONLY ∧ p = rel then some s.fileHandles.nextFh
      else s.casTable.owner p)
    (hfree : accessMode flags = O_WRONLY → s.casTable.owner rel = none)
    (hphase : v'.phase = v.phase)
    (hreceipts : ∀ S p, (s.step X (.fuse os pid (.open_ ino flags))).casTable.getReaderHash S p =
      (v'.seen S p).map (hashContent X))
    (hseen : ∀ S p x, v'.seen S p = some x → C x) :
    Cycling X C (s.step X (.fuse os pid (.open_ ino flags))) v' where
  truthful := truthful_step hs.truthful (hs.truthKept hc)
  handles := by
    intro fh h hh
    rw [hhandles, HandleTable.get_alloc] at hh
    split at hh
    · rename_i hnew
      subst hnew
      obtain rfl := Option.some.inj hh
      obtain ⟨o, hfile, hino, -, -⟩ := hc.opensFile hop
      obtain ⟨hfd, -⟩ := Backing.libcOpen_cases hop.call
      have hclean : v'.phase s.fileHandles.nextFh = .clean := by
        rw [hphase]
        exact hs.fresh _ (Nat.le_refl _)
      refine ⟨by rw [hfd]; exact Int.natCast_nonneg _, ⟨⟨o, .file, flags⟩, ?_, rfl, ?_⟩, ?_, ?_,
        fun _ => hclean⟩
      · rw [hbacking, hfile.fds, if_pos rfl]
      · rw [hbacking, hinodes, Backing.attrOf, hfile.attrs, ← Backing.attrOf, hino]
        exact hop.path
      · simp [hclean]
      · intro hmode _
        rw [howner, if_pos ⟨hmode, rfl⟩]
    · have hok := hs.handles fh h hh
      refine ⟨hok.real, hs.step_file hc hh (by simp), by rw [hphase]; exact hok.written, ?_,
        by rw [hphase]; exact hok.reader⟩
      intro hmode hph
      rw [hphase] at hph
      have hold := hok.owns hmode hph
      rw [howner, if_neg]
      · exact hold
      · rintro ⟨hm, heq⟩
        rw [heq, hfree hm] at hold
        cases hold
  owned := by
    intro p fh ho
    rw [howner] at ho
    rw [hphase, hhandles]
    split at ho
    · rename_i hnew
      obtain rfl := Option.some.inj ho
      refine ⟨_, (HandleTable.get_alloc ..).trans (if_pos rfl), hnew.2.symm, hnew.1, ?_⟩
      rw [hs.fresh _ (Nat.le_refl _)]
      simp
    · obtain ⟨h, hh, hrest⟩ := hs.owned p fh ho
      exact ⟨h, get_alloc_of_live hh .., hrest⟩
  fresh := by
    intro fh hfh
    rw [hphase]
    rw [hhandles] at hfh
    exact hs.fresh fh (Nat.le_of_succ_le hfh)
  receipts := hreceipts
  seen := hseen

/-- What the observer has seen stays in `C` when it notes a content in `C`. -/
theorem Cycling.seen_record (hs : Cycling X C s v) {sid : ℕ} {rel : Path} {x : Bytes} (hx : C x)
    (S : ℕ) (p : Path) (y : Bytes) (hy : (v.record sid rel (some x)).seen S p = some y) : C y := by
  simp only [View.record] at hy
  split at hy
  · rw [← Option.some.inj hy]; exact hx
  · exact hs.seen S p y hy

theorem cycling_open {os : Os} {pid ino : ℕ} {flags : OpenFlags} (hs : Cycling X C s v)
    (hC : ContentsIn C s) (hc : Cycle s v (.fuse os pid (.open_ ino flags))) :
    Cycling X C (s.step X (.fuse os pid (.open_ ino flags)))
      (v.watch X s (.fuse os pid (.open_ ino flags))) := by
  have hout := s.step_out X (.fuse os pid (.open_ ino flags))
  generalize ho : s.out X (.fuse os pid (.open_ ino flags)) = out at hout
  cases hout with
  | passive hp => cases hp
  | failed e _ =>
    have hst : s.step X (.fuse os pid (.open_ ino flags)) = s := by rw [step, ho]; rfl
    have hv : v.watch X s (.fuse os pid (.open_ ino flags)) = v := by
      simp only [View.watch, ho, fail]
    rw [hv]
    refine hs.same hc (by simp) ?_ ?_ ?_ ?_ <;> simp [hst]
  | openVirtual hv =>
    have hreal := hc.1
    rcases hv with rfl | rfl <;> exact absurd hreal (by decide)
  | openRead rel b fd hop hm =>
    obtain ⟨o, hfile, -, hread, hdata⟩ := hc.opensFile hop
    -- the open leaves the content alone, so what is hashed after it is what was there before
    have hcontent : b.content rel = some (s.backing.dataOf o) := by
      rw [Backing.content, Backing.fileAt_congr hfile.tree, hfile.file, Option.map_some, hdata]
    have hhash : hashFile X b os rel = some (hashContent X (s.backing.dataOf o)) := by
      simp [hashFile, hread, hcontent]
    have hC' : C (s.backing.dataOf o) :=
      hC rel _ (by rw [Backing.content, hfile.file, Option.map_some])
    have hst : s.step X (.fuse os pid (.open_ ino flags)) =
        (s.openRead X os (getSid os pid) rel flags b fd).st := by rw [step, ho]
    have hv : v.watch X s (.fuse os pid (.open_ ino flags)) =
        v.record (getSid os pid) rel (some (s.backing.dataOf o)) := by
      simp only [View.watch, ho, openRead, hop.path, hm, if_true, hst, hcontent]
    have hmode : accessMode flags ≠ O_WRONLY := by rw [hm]; decide
    simp only [openRead, hhash] at hst
    rw [hv]
    refine hs.opened hc hop (by rw [hst]) (by rw [hst]) (by rw [hst]) ?_
      (fun h => absurd h hmode) rfl ?_ (hs.seen_record hC')
    · intro p
      rw [hst, if_neg fun h => hmode h.1]
      rfl
    · intro S p
      rw [hst]
      simp only [CasTable.getReaderHash_recordReader, View.record]
      split
      · rfl
      · exact hs.receipts S p
  | openRejected rel b fd actual e hop hm hhash hr =>
    have hst : s.step X (.fuse os pid (.open_ ino flags)) =
        s.refusedOpen os (getSid os pid) rel flags (some actual) b fd := by rw [step, ho]
    have hv : v.watch X s (.fuse os pid (.open_ ino flags)) = v := by simp only [View.watch, ho]
    rw [hv]
    refine hs.same hc (by simp) (s.step_nextFh X _) ?_ ?_ ?_
    · intro fh
      rw [hst]
      exact HandleTable.get_remove_alloc ..
    · simp [hst, refusedOpen]
    · simp [hst, refusedOpen]
  | openGranted rel b fd actual cas hop hm hhash hg =>
    have hmode : accessMode flags = O_WRONLY := hc.2.1.resolve_left hm
    have hrdwr : accessMode flags ≠ O_RDWR := by rw [hmode]; decide
    have hst : s.step X (.fuse os pid (.open_ ino flags)) =
        s.grantedOpen os (getSid os pid) rel flags actual b fd cas := by rw [step, ho]
    have hv : v.watch X s (.fuse os pid (.open_ ino flags)) = v := by
      simp only [View.watch, ho, hop.path, if_neg hm]
    simp only [grantedOpen, if_neg hrdwr] at hst
    rw [hv]
    refine hs.opened hc hop (by rw [hst]) (by rw [hst]) (by rw [hst]; rfl) ?_ ?_ rfl ?_ hs.seen
    · intro p
      rw [hst]
      simp only [hmode, true_and]
      exact hg.owner p
    · intro _
      rcases hg.why with hown | ⟨hnone, -⟩
      · exact absurd (hs.ownersIssued rel _ hown) (Nat.lt_irrefl _)
      · exact hnone
    · intro S p
      rw [hst, ← hs.receipts]
      exact CasTable.getReaderHash_congr hg.receipts S p
  | openUnhashed rel b fd hop hm hhash =>
    obtain ⟨o, hfile, -, hread, -⟩ := hc.opensFile hop
    rw [hashFile_eq_some.mpr ⟨hread, o, hfile.file, rfl⟩] at hhash
    cases hhash
  | nameStale rel w hf _ => cases hf
  | idle hi => simp at hi

theorem cycling_setattr {os : Os} {pid ino : ℕ} {a : SetattrArgs} (hs : Cycling X C s v)
    (hc : Cycle s v (.fuse os pid (.setattr ino a))) :
    Cycling X C (s.step X (.fuse os pid (.setattr ino a))) v := by
  have hout := s.step_out X (.fuse os pid (.setattr ino a))
  obtain ⟨fh, h, hfh, -, hh, hmode, hphase, hpath⟩ := id hc
  have howns := (hs.handles fh h hh).owns hmode hphase
  -- the handle owns the path already, so the check changes no owner
  have hpassed : ∀ {rel size cas}, s.Truncating ino a rel size → s.Passed X os rel a.fh cas →
      (∀ p, cas.owner p = s.casTable.owner p) ∧
        ∀ S p, cas.getReaderHash S p = s.casTable.getReaderHash S p := by
    rintro rel size cas ht (⟨hnone, -⟩ | ⟨fh', hfh', hg⟩)
    · rw [hfh] at hnone; cases hnone
    · obtain rfl := Option.some.inj (hfh.symm.trans hfh')
      obtain rfl := Option.some.inj (hpath.symm.trans ht.path)
      refine ⟨fun p => ?_, fun S p => CasTable.getReaderHash_congr hg.receipts S p⟩
      rw [hg.owner]
      split
      · rename_i heq; rw [heq, howns]
      · rfl
  have hsame : (s.step X (.fuse os pid (.setattr ino a))).fileHandles = s.fileHandles ∧
      (∀ p, (s.step X (.fuse os pid (.setattr ino a))).casTable.owner p = s.casTable.owner p) ∧
      ∀ S p, (s.step X (.fuse os pid (.setattr ino a))).casTable.getReaderHash S p =
        s.casTable.getReaderHash S p := by
    rw [step]
    generalize s.out X (.fuse os pid (.setattr ino a)) = out at hout
    cases hout with
    | passive hp => cases hp
    | failed e _ => exact ⟨rfl, fun _ => rfl, fun _ _ => rfl⟩
    | truncateRejected rel fh' size e ht hfh' hr => exact ⟨rfl, by simp, by simp⟩
    | notTruncated rel size cas e ht hpass _ => exact ⟨rfl, hpassed ht hpass⟩
    | truncated rel size cas b b' r ht hpass _ _ => exact ⟨rfl, hpassed ht hpass⟩
    | attributes b' r _ _ => exact ⟨rfl, fun _ => rfl, fun _ _ => rfl⟩
    | nameStale rel w hf _ => cases hf
    | idle hi => simp at hi
  exact hs.same hc (by simp) (by rw [hsame.1]) (by simp [hsame.1]) hsame.2.1 hsame.2.2

/-- A change of one handle and of what it owns. -/
theorem Cycling.change (hs : Cycling X C s v) (hc : Cycle s v c) {v' : View} {fh : ℕ}
    {h : HandleState} (hh : s.fileHandles.get fh = some h)
    (hrel : ∀ k os pid ino, k ≠ fh → c ≠ .fuse os pid (.release ino k))
    (hphase : ∀ k, k ≠ fh → v'.phase k = v.phase k)
    (hhandles : ∀ k, k ≠ fh → (s.step X c).fileHandles.get k = s.fileHandles.get k)
    (howner : ∀ p k, k ≠ fh →
      ((s.step X c).casTable.owner p = some k ↔ s.casTable.owner p = some k))
    (hself : ∀ h', (s.step X c).fileHandles.get fh = some h' → HandleOk (s.step X c) v' fh h')
    (hown : ∀ p, (s.step X c).casTable.owner p = some fh →
      ∃ h', (s.step X c).fileHandles.get fh = some h' ∧ h'.path = p ∧
        accessMode h'.flags = O_WRONLY ∧ v'.phase fh ≠ .flushed)
    (hreceipts : ∀ S p, (s.step X c).casTable.getReaderHash S p =
      (v'.seen S p).map (hashContent X))
    (hseen : ∀ S p x, v'.seen S p = some x → C x) : Cycling X C (s.step X c) v' where
  truthful := truthful_step hs.truthful (hs.truthKept hc)
  handles := by
    intro k h' hh'
    by_cases hk : k = fh
    · subst hk
      exact hself h' hh'
    · rw [hhandles k hk] at hh'
      have hok := hs.handles k h' hh'
      refine ⟨hok.real, hs.step_file hc hh' fun os pid ino => hrel k os pid ino hk, ?_, ?_, ?_⟩ <;>
        rw [hphase k hk]
      · exact hok.written
      · exact fun hm hph => (howner h'.path k hk).mpr (hok.owns hm hph)
      · exact hok.reader
  owned := by
    intro p k ho
    by_cases hk : k = fh
    · subst hk
      exact hown p ho
    · obtain ⟨h', hh', hrest⟩ := hs.owned p k ((howner p k hk).mp ho)
      rw [hphase k hk, hhandles k hk]
      exact ⟨h', hh', hrest⟩
  fresh := by
    intro k hk
    have hlt := s.fileHandles.live_lt fh h hh
    have hk' : s.fileHandles.nextFh ≤ k := (s.step_nextFh X c).trans hk
    rw [hphase k (by omega)]
    exact hs.fresh k hk'
  receipts := hreceipts
  seen := hseen

theorem cycling_write {os : Os} {pid ino fh offset : ℕ} {data : Bytes} (hs : Cycling X C s v)
    (hc : Cycle s v (.fuse os pid (.write ino fh offset data))) :
    Cycling X C (s.step X (.fuse os pid (.write ino fh offset data))) (v.setPhase fh .written) := by
  obtain ⟨hreal, h, hh, hmode, hphase⟩ := id hc
  have hok := hs.handles fh h hh
  obtain ⟨hhandles, hcas⟩ : (s.step X (.fuse os pid (.write ino fh offset data))).fileHandles =
      (s.fileHandles.modify fh fun h => { h with hasWritten := true }) ∧
      (s.step X (.fuse os pid (.write ino fh offset data))).casTable = s.casTable := by
    have hguard : s.writeGuard X os fh h data = .ok s := by
      rw [writeGuard, CasTable.hasActiveWriter_eq, hok.owns hmode hphase]
      rfl
    obtain ⟨b, hst, -⟩ := s.writeThrough_st os fh h offset data
    simp only [step, out, handle, write, hreal, Bool.false_eq_true, if_false, hh, hguard, hst,
      and_self]
  have hself : (v.setPhase fh .written).phase fh = .written := if_pos rfl
  have hget : (s.step X (.fuse os pid (.write ino fh offset data))).fileHandles.get fh =
      some { h with hasWritten := true } := by
    rw [hhandles, HandleTable.get_modify, if_pos rfl, hh, Option.map_some]
  refine hs.change hc hh (by simp) (fun k hk => if_neg hk) ?_ ?_ ?_ ?_ ?_ hs.seen
  · intro k hk
    rw [hhandles, HandleTable.get_modify, if_neg hk]
  · intro p k _
    rw [hcas]
  · intro h' hh'
    obtain rfl := Option.some.inj (hget.symm.trans hh')
    have hfile := hs.step_file hc hh (by simp)
    refine ⟨hok.real, hfile, by simp [hself], fun _ _ => ?_, fun hm => absurd hmode hm⟩
    rw [hcas]
    exact hok.owns hmode hphase
  · intro p ho
    rw [hcas] at ho
    obtain ⟨h', hh', hp, hm, -⟩ := hs.owned p fh ho
    obtain rfl := Option.some.inj (hh.symm.trans hh')
    exact ⟨_, hget, hp, hm, by simp [hself]⟩
  · rw [hcas]
    exact hs.receipts

/-- Ownership of other handles is not touched when one gives up a path. -/
theorem owner_releaseWrite_other {t : CasTable} {path p : Path} {fh k : ℕ} (hk : k ≠ fh) :
    (t.releaseWrite path fh).owner p = some k ↔ t.owner p = some k :=
  ⟨owner_of_releaseWrite, fun ho => owner_releaseWrite_keep ho fun h => hk h.2⟩

/-- A handle that gives up its path owns nothing. -/
theorem Cycling.not_owner_released (hs : Cycling X C s v) {t : CasTable}
    (ht : ∀ p, t.owner p = s.casTable.owner p) {fh : ℕ} {h : HandleState}
    (hh : s.fileHandles.get fh = some h) (p : Path) :
    (t.releaseWrite h.path fh).owner p ≠ some fh := by
  intro ho
  obtain ⟨h', hh', hp, -⟩ := hs.owned p fh ((ht p).symm.trans (owner_of_releaseWrite ho))
  obtain rfl := Option.some.inj (hh.symm.trans hh')
  have hold := owner_of_releaseWrite ho
  rw [CasTable.owner_releaseWrite, if_pos ⟨hp.symm, hold⟩] at ho
  cases ho

theorem cycling_flush {os : Os} {pid ino fh : ℕ} (hs : Cycling X C s v) (hC : ContentsIn C s)
    (hc : Cycle s v (.fuse os pid (.flush ino fh))) :
    Cycling X C (s.step X (.fuse os pid (.flush ino fh)))
      (v.watch X s (.fuse os pid (.flush ino fh))) := by
  have hout := s.step_out X (.fuse os pid (.flush ino fh))
  generalize ho : s.out X (.fuse os pid (.flush ino fh)) = out at hout
  have hreal := hc.1
  cases hout with
  | passive hp => cases hp
  | failed e hf => cases hf
  | nameStale rel w hf _ => cases hf
  | idle hi =>
    have hst : s.step X (.fuse os pid (.flush ino fh)) = s := by rw [step, ho]
    have hv : v.watch X s (.fuse os pid (.flush ino fh)) = v := by
      simp only [View.watch]
      cases hh : s.fileHandles.get fh with
      | none => rfl
      | some h =>
        refine if_neg fun hph => ?_
        have hw := (hs.handles fh h hh).written.mpr hph
        rcases hi with ⟨heq, hd | hidle⟩ | ⟨heq, -⟩
        · cases heq; rw [hd] at hreal; cases hreal
        · cases heq; rw [hidle h hh] at hw; cases hw
        · cases heq
    rw [hv]
    refine hs.same hc (by simp) ?_ ?_ ?_ ?_ <;> simp [hst]
  | flushedUnhashed h _ hh _ hhash =>
    obtain ⟨x, -, hx⟩ := hs.hashFile_flush hc hh
    rw [hx] at hhash
    cases hhash
  | flushed h newHash _ hh hw hhash =>
    have hok := hs.handles fh h hh
    have hph := hok.written.mp hw
    obtain ⟨x, hcontent, hx⟩ := hs.hashFile_flush hc hh
    obtain rfl := Option.some.inj (hx.symm.trans hhash)
    have hmode : accessMode h.flags = O_WRONLY := by
      by_contra hne
      rw [hok.reader hne] at hph
      cases hph
    have hst : s.step X (.fuse os pid (.flush ino fh)) = s.stored os fh h (hashContent X x) := by
      rw [step, ho]
    have hv : v.watch X s (.fuse os pid (.flush ino fh)) =
        (v.record h.sid h.path (some x)).setPhase fh .flushed := by
      simp only [View.watch, hh, hph, if_true, hcontent]
    have hself : ((v.record h.sid h.path (some x)).setPhase fh .flushed).phase fh = .flushed :=
      if_pos rfl
    rw [hv]
    refine hs.change hc hh (by simp) (fun k hk => if_neg hk) ?_ ?_ ?_ ?_ ?_ ?_
    · intro k hk
      rw [hst, stored, HandleTable.get_modify, if_neg hk]
    · intro p k hk
      rw [hst]
      exact owner_releaseWrite_other hk
    · intro h' hh'
      rw [hst, stored, HandleTable.get_modify, if_pos rfl, hh, Option.map_some] at hh'
      obtain rfl := Option.some.inj hh'
      have hfile := hs.step_file hc hh (by simp)
      exact ⟨hok.real, hfile, by simp [hself], fun _ hne => absurd hself hne,
        fun hm => absurd hmode hm⟩
    · intro p hown
      have hold : ∀ q, (s.casTable.updateReader os.now h.sid h.path (hashContent X x)).owner q =
          s.casTable.owner q := fun _ => rfl
      rw [hst] at hown
      exact absurd hown (hs.not_owner_released hold hh p)
    · intro S p
      rw [hst, stored, CasTable.getReaderHash_releaseWrite, CasTable.getReaderHash_updateReader]
      simp only [View.setPhase, View.record]
      split
      · rfl
      · exact hs.receipts S p
    · intro S p y hy
      exact hs.seen_record (hC h.path x hcontent) S p y hy

theorem cycling_release {os : Os} {pid ino fh : ℕ} (hs : Cycling X C s v)
    (hc : Cycle s v (.fuse os pid (.release ino fh))) :
    Cycling X C (s.step X (.fuse os pid (.release ino fh))) v := by
  cases hh : s.fileHandles.get fh with
  | none =>
    have hst : s.step X (.fuse os pid (.release ino fh)) = s := by
      simp [step, out, handle, release, hh]
    refine hs.same hc ?_ ?_ ?_ ?_ ?_
    · rintro k h hk os' pid' ino' ⟨⟩
      rw [hh] at hk
      cases hk
    all_goals simp [hst]
  | some h =>
    have hst : s.step X (.fuse os pid (.release ino fh)) = s.released fh h := by
      simp [step, out, handle, release, hh, released]
    refine hs.change hc hh ?_ (fun _ _ => rfl) ?_ ?_ ?_ ?_ ?_ hs.seen
    · rintro k os' pid' ino' hk ⟨⟩
      exact hk rfl
    · intro k hk
      rw [hst, released, HandleTable.get_remove, if_neg hk]
    · intro p k hk
      rw [hst]
      exact owner_releaseWrite_other hk
    · intro h' hh'
      rw [hst, released, HandleTable.get_remove, if_pos rfl] at hh'
      cases hh'
    · intro p hown
      rw [hst] at hown
      exact absurd hown (hs.not_owner_released (fun _ => rfl) hh p)
    · intro S p
      rw [hst, released, CasTable.getReaderHash_releaseWrite]
      exact hs.receipts S p

/-- STEP: the observer and the daemon stay in agreement. -/
theorem cycling_step (hs : Cycling X C s v) (hc : Cycle s v c) (hC : ContentsIn C s) :
    Cycling X C (s.step X c) (v.watch X s c) := by
  cases c with
  | fuse os pid req =>
    cases req with
    | lookup parent name =>
      obtain ⟨t, hst, -⟩ := lookup_st X s os parent name hc
      refine hs.same hc (by simp) ?_ ?_ ?_ ?_ <;> simp [step, out, handle, hst]
    | read ino fh offset size =>
      refine hs.same hc (by simp) ?_ ?_ ?_ ?_ <;> simp [step, out, handle, read_st]
    | open_ ino flags => exact cycling_open hs hC hc
    | setattr ino a => exact cycling_setattr hs hc
    | write ino fh offset data => exact cycling_write hs hc
    | flush ino fh => exact cycling_flush hs hC hc
    | release ino fh => exact cycling_release hs hc
    | _ => exact absurd hc id
  | evict => exact absurd hc id
  | outside => exact absurd hc id

end Dibs.DibsFs
