import Dibs.Proofs.Descriptors

/-! The receipt a flush stores. `flush` hashes the file at the *path* of the handle, while the handle
    wrote to the file behind its *descriptor*, and other requests change names and contents without
    looking at the owner. Within `TruthKept` the two stay the same file: what a flush stores is the
    hash of the file its handle has open, the handle owns the path, and for as long as it does, only
    requests that carry it change that file. -/

namespace Dibs.DibsFs

/-- Whatever names the event removes or moves, `p` is not named by it and leads to the same object
    afterwards. -/
def KeepsName (s : DibsFs) (p : Path) : Call → Prop
  | .fuse os _ (.unlink parent name) =>
      ∀ b, s.backing.unlink os (s.resolvePath parent name) = .ok b →
        s.resolvePath parent name ≠ p ∧ b.target p = s.backing.target p
  | .fuse os _ (.rmdir parent name) =>
      ∀ b, s.backing.rmdir os (s.resolvePath parent name) = .ok b →
        b.target p = s.backing.target p
  | .fuse os _ (.rename parent name newparent newname _) =>
      ∀ b, s.backing.rename os (s.resolvePath parent name) (s.resolvePath newparent newname) =
          .ok b →
        (s.resolvePath parent name ≠ s.resolvePath newparent newname →
          s.resolvePath parent name ≠ p ∧ s.resolvePath newparent newname ≠ p) ∧
        b.target p = s.backing.target p
  | .outside b => b.target p = s.backing.target p
  | _ => True

/-- The handle a call carries. -/
def carried : Call → Option ℕ
  | .fuse _ _ req => carries req
  | _ => none

/-- The condition: an event hits the open file of a handle that owns its path only if it carries this
    handle; the path of an open handle keeps its name and its file; a write carries a handle of a
    real file whose path no other handle owns; and the file of a written handle can be hashed when
    the handle is flushed. -/
structure TruthKept (X : Ext) (s : DibsFs) (c : Call) : Prop where
  hits : ∀ fh h o, s.fileHandles.get fh = some h → s.casTable.owner h.path = some fh →
    s.openObj fh = some o → Hits X s o c → carried c = some fh
  names : ∀ fh h, s.fileHandles.get fh = some h → 0 ≤ h.realFd → KeepsName s h.path c
  writes : ∀ os pid ino fh offset data h, c = .fuse os pid (.write ino fh offset data) →
    isDibsIno ino = false → s.fileHandles.get fh = some h →
    0 ≤ h.realFd ∧ ∀ x, s.casTable.owner h.path = some x → x = fh
  flushes : ∀ os pid ino fh h, c = .fuse os pid (.flush ino fh) → isDibsIno ino = false →
    s.fileHandles.get fh = some h → h.hasWritten = true →
    hashFile X s.backing os h.path ≠ none

/-- Receipt truth at one event: a flush that stores a receipt stores the hash of the file its
    handle has open, and the handle owns its path; the open file of an owner changes only in events
    that carry the owner; and an owner gives up its path only in such events. -/
structure TruthAt (X : Ext) (s : DibsFs) (c : Call) : Prop where
  stored : ∀ os pid ino fh h newHash, c = .fuse os pid (.flush ino fh) → isDibsIno ino = false →
    s.fileHandles.get fh = some h → h.hasWritten = true →
    hashFile X s.backing os h.path = some newHash →
    (s.step X c).casTable.getReaderHash h.sid h.path = some newHash ∧
      s.casTable.owner h.path = some fh ∧
      ∃ o, s.openObj fh = some o ∧ newHash = hashContent X (s.backing.dataOf o)
  changed : ∀ fh h o, s.fileHandles.get fh = some h → s.casTable.owner h.path = some fh →
    s.openObj fh = some o → (s.step X c).backing.dataOf o ≠ s.backing.dataOf o →
    carried c = some fh
  lost : ∀ fh h, s.fileHandles.get fh = some h → 0 ≤ h.realFd →
    s.casTable.owner h.path = some fh → (s.step X c).casTable.owner h.path ≠ some fh →
    carried c = some fh

/-- The path of an open handle leads to the file the handle has open, and a handle with unflushed
    writes owns its path. -/
structure Truthful (s : DibsFs) : Prop where
  held : FdsHeld s
  opens : ∀ fh h, s.fileHandles.get fh = some h → 0 ≤ h.realFd →
    ∃ f, s.backing.fds.get h.realFd = some f ∧ s.backing.target h.path = some ⟨f.obj, f.kind⟩
  written : ∀ fh h, s.fileHandles.get fh = some h → h.hasWritten = true →
    0 ≤ h.realFd ∧ s.casTable.owner h.path = some fh

variable {X : Ext} {s : DibsFs} {c : Call}

/-! ### Names across one event -/

/-- FRAME: a path that keeps its name keeps the object it leads to. -/
theorem step_target {p : Path} {e : Entry} (hk : s.KeepsName p c)
    (he : s.backing.target p = some e) : (s.step X c).backing.target p = some e := by
  have hout := s.step_out X c
  rw [step]
  generalize s.out X c = o at hout
  have hopen : ∀ {os rel flags mode b fd}, s.backing.libcOpen os rel flags mode = .ok (b, fd) →
      b.target p = some e := fun h => Backing.target_mono (Backing.libcOpen_target h).1 he
  cases hout with
  | @passive os pid req hp =>
    have hout := (s.passive_out X os hp (getSid os pid)).1
    generalize (s.handle X os (getSid os pid) req).st = s' at hout
    cases hout with
    | same t _ => exact he
    | dirVirtual rel => exact he
    | dirOpened rel b fd hb => exact (Backing.target_congr (Backing.opendir_cases hb).1 p).trans he
    | dirClosed h _ =>
      simp only
      split
      · exact (Backing.target_congr (Backing.tree_close ..) p).trans he
      · exact he
    | grown b t _ hg => exact Backing.target_mono hg.tree he
    | dirRemoved b hb => exact (hk b hb).trans he
  | openRead rel b fd ho _ => exact hopen ho.call
  | openRejected rel b fd actual e' ho _ _ _ =>
    exact (Backing.target_congr (Backing.tree_close ..) p).trans (hopen ho.call)
  | openGranted rel b fd actual cas ho _ _ _ => exact hopen ho.call
  | openUnhashed rel b fd ho _ _ => exact hopen ho.call
  | truncated rel size cas b b' r _ _ hcall hsame =>
    refine (Backing.target_congr hsame.tree p).trans ?_
    rw [truncateCall] at hcall
    split at hcall
    · obtain ⟨f, -, -, rfl⟩ := Backing.ftruncate_cases hcall
      exact (Backing.target_congr rfl p).trans he
    · obtain ⟨o', -, rfl⟩ := Backing.truncate_cases hcall
      exact (Backing.target_congr rfl p).trans he
  | attributes b' r _ hsame => exact (Backing.target_congr hsame.tree p).trans he
  | writeRejected h e' _ _ _ _ =>
    rw [saveConflict]
    split
    · exact Backing.target_mono (Backing.fsWrite_spec ..).1 he
    · exact he
  | @writeThrough os pid ino fh offset data h cas _ _ _ =>
    obtain ⟨b, hst, hb⟩ := writeThrough_st { s with casTable := cas } os fh h offset data
    rw [hst]
    rcases hb with rfl | ⟨f, d, -, -, rfl⟩
    · exact he
    · exact (Backing.target_congr rfl p).trans he
  | @released os pid ino fh h _ =>
    simp only [DibsFs.released]
    split
    · exact (Backing.target_congr (Backing.tree_close ..) p).trans he
    · exact he
  | createDropped b fd e' _ hcall =>
    exact (Backing.target_congr (Backing.tree_close ..) p).trans (hopen hcall)
  | created b fd attr _ hcall => exact hopen hcall
  | unlinked b _ _ hb => exact (hk b hb).2.trans he
  | renamed b _ _ _ _ hb => exact (hk b hb).2.trans he
  | outside b => exact (Backing.target_congr rfl p).trans (hk.trans he)
  | _ => exact he

/-- Within the condition only its own flush or release takes a path from an open handle. -/
theorem carried_of_loses {fh : ℕ} {h : HandleState} (hc : TruthKept X s c)
    (hh : s.fileHandles.get fh = some h) (hpos : 0 ≤ h.realFd) (hl : Loses s h.path fh c) :
    carried c = some fh := by
  have hname := hc.names fh h hh hpos
  cases hl with
  | flushed h' _ _ _ _ => rfl
  | released h' _ _ => rfl
  | unlinked b hp hb =>
    obtain ⟨hne, -⟩ := hname b (by rw [hp]; exact hb)
    exact absurd hp hne
  | renamed b hne hp hb =>
    obtain ⟨hold, hnew⟩ := (hname b hb).1 hne
    rcases hp with hp | hp
    · exact absurd hp hold
    · exact absurd hp hnew

/-! ### One event -/

/-- The hash of the path is the hash of the open file. -/
theorem truthAt_of_truthful (hs : Truthful s) (hc : TruthKept X s c) : TruthAt X s c where
  stored := by
    rintro os pid ino fh h newHash rfl hd hh hw hhash
    obtain ⟨hpos, howner⟩ := hs.written fh h hh hw
    obtain ⟨f, hf, htarget⟩ := hs.opens fh h hh hpos
    obtain ⟨-, o, hfile, heq⟩ := hashFile_eq_some.mp hhash
    have hobj : f.obj = o := by
      have := Backing.fileAt_iff_target.mp hfile
      rw [htarget] at this
      exact (Entry.mk.inj (Option.some.inj this)).1
    refine ⟨?_, howner, o, ?_, heq.symm⟩
    · simp only [step, out, handle, flush, hd, Bool.false_eq_true, if_false, hh, hw, if_true,
        flushHash, hhash]
      rw [CasTable.getReaderHash_releaseWrite, CasTable.getReaderHash_updateReader,
        if_pos ⟨rfl, rfl⟩]
    · simp only [openObj, hh, Option.bind_some, hf, Option.map_some, hobj]
  changed := by
    intro fh h o hh howner hobj hne
    by_contra hcarry
    have hlt : o < s.backing.nextObj := by
      simp only [openObj, hh, Option.bind_some] at hobj
      obtain ⟨f, hf, rfl⟩ := Option.map_eq_some_iff.mp hobj
      exact s.backing.fds_lt _ f hf
    exact hne (step_data X c hlt fun hhit => hcarry (hc.hits fh h o hh howner hobj hhit))
  lost := by
    intro fh h hh hpos howner hne
    rcases step_owner_keep X c howner with hkeep | hl
    · exact absurd hkeep hne
    · exact carried_of_loses hc hh hpos hl

/-- STEP: within the condition, paths of open handles keep leading to the open files, and handles with
    unflushed writes stay owners. -/
theorem truthful_step (hs : Truthful s) (hc : TruthKept X s c) : Truthful (s.step X c) where
  held := fdsHeld_step X c hs.held
  opens := by
    intro fh h' hh' hpos
    have hold : ∀ h, s.fileHandles.get fh = some h → HandleState.SameId h h' →
        (∀ os pid ino, c ≠ .fuse os pid (.release ino fh)) →
        ∃ f, (s.step X c).backing.fds.get h'.realFd = some f ∧
          (s.step X c).backing.target h'.path = some ⟨f.obj, f.kind⟩ := by
      intro h hh hid hrel
      rw [hid.realFd] at hpos
      obtain ⟨f, hf, ht⟩ := hs.opens fh h hh hpos
      refine ⟨f, ?_, ?_⟩
      · rw [hid.realFd, step_openFile hs.held hh hpos hrel]; exact hf
      · rw [hid.path]; exact step_target (hc.names fh h hh hpos) ht
    cases step_live X c hh' with
    | kept h hh hid hrel _ => exact hold h hh hid hrel
    | wrote h hh hid _ _ => exact hold h hh hid (by simp)
    | opened os flags mode _ _ hcall _ =>
      obtain ⟨-, o, k, htarget, hfds⟩ := Backing.libcOpen_target hcall
      exact ⟨⟨o, k, flags⟩, (hfds _).trans (if_pos rfl), htarget⟩
    | virtual _ hneg _ => omega
  written := by
    intro fh h' hh' hw'
    cases step_live X c hh' with
    | kept h hh hid hrel hwritten =>
      obtain ⟨hw, hflush⟩ := hwritten hw'
      obtain ⟨hpos, howner⟩ := hs.written fh h hh hw
      rw [hid.realFd, hid.path]
      refine ⟨hpos, ?_⟩
      rcases step_owner_keep X c howner with hkeep | hl
      · exact hkeep
      · -- the flush of a written handle would have stored a receipt
        exfalso
        cases hl with
        | @flushed os pid ino h₀ hd hh₀ _ _ =>
          have hnone := hflush os pid ino rfl hd
          exact hc.flushes os pid ino fh h rfl hd hh hw hnone
        | @released os pid ino h₀ _ _ => exact hrel os pid ino rfl
        | unlinked b hp hb =>
          have hcarry := carried_of_loses hc hh hpos (.unlinked b hp hb)
          simp [carried, carries] at hcarry
        | renamed b hne hp hb =>
          have hcarry := carried_of_loses hc hh hpos (.renamed b hne hp hb)
          simp [carried, carries] at hcarry
    | @wrote os pid ino offset data _ _ h hh hid hd hg =>
      obtain ⟨hpos, hown⟩ := hc.writes os pid ino fh offset data h rfl hd hh
      rw [hid.realFd, hid.path]
      refine ⟨hpos, ?_⟩
      rcases hg with ⟨hsome, heq⟩ | ⟨-, hg⟩
      · obtain ⟨x, hx⟩ := Option.ne_none_iff_exists'.mp hsome
        rw [heq, hx, hown x hx]
      · exact (hg.owner h.path).trans (if_pos rfl)
    | opened os flags mode _ _ _ hnot => rw [hnot] at hw'; cases hw'
    | virtual _ _ hnot => rw [hnot] at hw'; cases hw'

theorem truthful_mount (b : Backing) (os : Os) (sc : Bool) (sid : Bytes) :
    Truthful (mount b os sc sid) where
  held := fdsHeld_mount b os sc sid
  opens := fun fh h hh => by cases hh
  written := fun fh h hh => by cases hh

/-- RECEIPT TRUTH: in every run of a mount within the condition, every receipt a flush stores is the
    hash of the very file its handle has open, and since the handle acquired its path every change of
    that file was made by a request on the handle. -/
theorem flush_receipts_true (X : Ext) (backing : Backing) (os : Os) (saveConflicts : Bool)
    (sessionId : Bytes) (calls : List Call)
    (hrun : Run.Along (step X) (TruthKept X) (mount backing os saveConflicts sessionId) calls) :
    Run.Along (step X) (TruthAt X) (mount backing os saveConflicts sessionId) calls :=
  Run.along_of_inv (fun _ _ hs hc => truthful_step hs hc)
    (fun _ _ hs hc => truthAt_of_truthful hs hc) calls _
    (truthful_mount backing os saveConflicts sessionId) hrun

/-- Session 7 opens `f` for writing. -/
def openedForWriting : DibsFs := Run.exec (step sampleExt) sampleMount
  [.fuse {} 7 (.lookup 1 fName), .fuse {} 7 (.open_ 10 O_WRONLY)]

/-- Session 7 opens `f` for writing, writes `b` and flushes. -/
def flushedWrite : List Call :=
  [.fuse {} 7 (.lookup 1 fName), .fuse {} 7 (.open_ 10 O_WRONLY), .fuse {} 7 (.write 10 1 0 [0x62]),
    .fuse {} 7 (.flush 10 1)]

/-- A state whose only file handle is handle 1. -/
theorem handle_eq_one {s : DibsFs} {h₁ : HandleState} (hiter : s.fileHandles.handles.iter = [(1, h₁)])
    {fh : ℕ} {h : HandleState} (hh : s.fileHandles.get fh = some h) : fh = 1 ∧ h = h₁ := by
  have hmem := FinMap.mem_iter.mpr hh
  rw [hiter] at hmem
  exact Prod.mk.inj (List.mem_singleton.mp hmem)

/-- The flush stores the hash of the file that handle 1 has open. -/
theorem flushedWrite_true :
    Run.Along (step sampleExt) (TruthKept sampleExt) sampleMount flushedWrite ∧
      Run.Along (step sampleExt) (TruthAt sampleExt) sampleMount flushedWrite := by
  have hrun : Run.Along (step sampleExt) (TruthKept sampleExt) sampleMount flushedWrite := by
    refine ⟨⟨?_, fun _ _ _ _ => trivial, by simp, by simp⟩,
      ⟨?_, fun _ _ _ _ => trivial, by simp, by simp⟩,
      ⟨?_, fun _ _ _ _ => trivial, ?_, by simp⟩, ⟨?_, fun _ _ _ _ => trivial, by simp, ?_⟩, trivial⟩
    · intro fh h o _ _ _ hhit; exact absurd hhit id
    · intro fh h o _ _ _ hhit; exact absurd hhit.1 (by decide)
    · intro fh h o hh _ _ _
      have hiter : openedForWriting.fileHandles.handles.iter =
          [(1, ⟨1, 3, [fName], none, O_WRONLY, false, 7⟩)] := by decide +kernel
      rw [(handle_eq_one hiter hh).1]
      rfl
    · rintro os pid ino fh offset data h ⟨⟩ - hh
      have hget : openedForWriting.fileHandles.get 1 =
          some ⟨1, 3, [fName], none, O_WRONLY, false, 7⟩ := by decide +kernel
      have howner : openedForWriting.casTable.owner [fName] = some 1 := by decide +kernel
      have heq := hget.symm.trans hh
      obtain rfl := Option.some.inj heq
      exact ⟨by decide, fun x hx => (Option.some.inj (howner.symm.trans hx)).symm⟩
    · intro fh h o _ _ _ hhit; exact absurd hhit id
    · rintro os pid ino fh h ⟨⟩ - hh -
      have hget : (openedForWriting.step sampleExt (.fuse {} 7 (.write 10 1 0 [0x62]))).fileHandles.get
          1 = some ⟨1, 3, [fName], none, O_WRONLY, true, 7⟩ := by decide +kernel
      obtain rfl := Option.some.inj (hget.symm.trans hh)
      have hhash : hashFile sampleExt (openedForWriting.step sampleExt
          (.fuse {} 7 (.write 10 1 0 [0x62]))).backing {} [fName] = some (sampleSha256 [0x62]) := by
        decide +kernel
      exact fun hnone => by cases hhash.symm.trans hnone
  exact ⟨hrun, flush_receipts_true sampleExt sampleBacking {} false [] flushedWrite hrun⟩

/-- Session 7 writes `b` to `f` through handle 1; before it flushes, session 8 unlinks `f` and makes a
    new `f` with content `c`. -/
def replacedBeforeFlush : List Call :=
  [.fuse {} 7 (.lookup 1 fName), .fuse {} 7 (.open_ 10 O_WRONLY), .fuse {} 7 (.write 10 1 0 [0x62]),
    .fuse {} 8 (.unlink 1 fName), .fuse { fd := 4, ino := 11 } 8 (.create 1 fName 0o644 O_WRONLY),
    .fuse {} 8 (.write 11 2 0 [0x63]), .fuse {} 8 (.flush 11 2), .fuse {} 8 (.release 11 2)]

/-- The flush of handle 1 stores the hash of `c` for session 7, which never saw it: handle 1 has the
    unlinked file with content `b` open. -/
theorem flush_forges_receipt :
    Reachable sampleExt (Run.exec (step sampleExt) sampleMount replacedBeforeFlush) ∧
      (Run.exec (step sampleExt) sampleMount replacedBeforeFlush).openObj 1 = some 1 ∧
      (Run.exec (step sampleExt) sampleMount replacedBeforeFlush).backing.dataOf 1 = [0x62] ∧
      ((Run.exec (step sampleExt) sampleMount replacedBeforeFlush).step sampleExt
        (.fuse {} 7 (.flush 10 1))).casTable.getReaderHash 7 [fName] =
          some (sampleSha256 [0x63]) ∧
      ¬ TruthAt sampleExt (Run.exec (step sampleExt) sampleMount replacedBeforeFlush)
        (.fuse {} 7 (.flush 10 1)) := by
  have hobj : (Run.exec (step sampleExt) sampleMount replacedBeforeFlush).openObj 1 = some 1 := by
    decide +kernel
  have hdata : (Run.exec (step sampleExt) sampleMount replacedBeforeFlush).backing.dataOf 1 =
      [0x62] := by decide +kernel
  refine ⟨sampleMount_reachable.exec (by decide +kernel), hobj, hdata, by decide +kernel, ?_⟩
  intro htruth
  obtain ⟨-, -, o, ho, hhash⟩ := htruth.stored {} 7 10 1 ⟨1, 3, [fName], none, O_WRONLY, true, 7⟩
    (sampleSha256 [0x63]) rfl (by decide) (by decide +kernel) rfl (by decide +kernel)
  obtain rfl := Option.some.inj (hobj.symm.trans ho)
  rw [hdata] at hhash
  exact absurd hhash (by decide +kernel)

end Dibs.DibsFs
