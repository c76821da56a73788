import Dibs.Fs.Transitions

/-! What `list_open` shows when a shutdown finds the mount busy. An observer who sees the requests, the
    replies and which path the mount takes an inode number for keeps a row for every `open` and
    `create` of a file that was answered with a handle, until the handle is released. In every run the
    list is these rows, but for files under `.dibs`: refused opens leave none, a renamed or unlinked
    file keeps its row, and the row keeps the path under which the file was opened
    (`list_open_exact`). -/

namespace Dibs.DibsFs

/-- The rows of the files that are open. -/
abbrev Rows := FinMap ℕ OpenFileInfo

/-- What an event adds to the rows, or takes from them; the path of an inode is the one in the mount's
    table. -/
def noteRow (X : Ext) (s : DibsFs) (g : Rows) (c : Call) : Rows :=
  match c, (s.out X c).reply with
  | .fuse os pid (.open_ ino flags), .opened fh =>
    if isDibsIno ino then g
    else g.insert fh ⟨(s.inodes.getPath ino).getD [], getSid os pid, flags⟩
  | .fuse os pid (.create parent name _ flags), .created _ fh =>
    g.insert fh ⟨s.resolvePath parent name, getSid os pid, flags⟩
  | .fuse _ _ (.release _ fh), _ => g.remove fh
  | _, _ => g

/-- One event of an observed mount. -/
def withRows (X : Ext) (w : DibsFs × Rows) (c : Call) : DibsFs × Rows :=
  (w.1.step X c, noteRow X w.1 w.2 c)

/-- The row of a handle; virtual handles have none. -/
def rowOf (h : HandleState) : Option OpenFileInfo :=
  if 0 ≤ h.realFd then some ⟨h.path, h.sid, h.flags⟩ else none

/-- The rows are those of the live handles. -/
def Tracks (s : DibsFs) (g : Rows) : Prop := ∀ fh, g.get fh = (s.fileHandles.get fh).bind rowOf

variable {X : Ext} {s : DibsFs} {g : Rows}

theorem libcOpen_fd {os : Os} {p : Path} {flags : OpenFlags} {mode : ℕ} {b : Backing} {fd : ℤ}
    (h : s.backing.libcOpen os p flags mode = .ok (b, fd)) : 0 ≤ fd := by
  rw [(Backing.libcOpen_cases h).1]
  exact Int.natCast_nonneg _

/-- An event that leaves the handle table alone, and is not noted. -/
theorem Tracks.quiet (hs : Tracks s g) {c : Call} (hnote : noteRow X s g c = g)
    (hh : ∀ fh, ((s.step X c).fileHandles.get fh).bind rowOf = (s.fileHandles.get fh).bind rowOf) :
    Tracks (s.step X c) (noteRow X s g c) := by
  rw [hnote]
  exact fun fh => (hs fh).trans (hh fh).symm

/-- A handle of a file is given out, and noted. -/
theorem Tracks.opened (hs : Tracks s g) {c : Call} {fd : ℤ} {rel : Path} {flags : OpenFlags}
    {sid : ℕ} (hash : Option Bytes) (hfd : 0 ≤ fd)
    (hnote : noteRow X s g c = g.insert s.fileHandles.nextFh ⟨rel, sid, flags⟩)
    (hh : (s.step X c).fileHandles = (s.fileHandles.alloc fd rel flags hash sid).1) :
    Tracks (s.step X c) (noteRow X s g c) := by
  intro fh
  rw [hnote, hh, FinMap.get_insert, HandleTable.get_alloc]
  split
  · exact (if_pos hfd).symm
  · exact hs fh

theorem rowOf_modify {fh k : ℕ} {f : HandleState → HandleState} (hf : ∀ h, rowOf (f h) = rowOf h) :
    ((s.fileHandles.modify fh f).get k).bind rowOf = (s.fileHandles.get k).bind rowOf := by
  rw [HandleTable.get_modify]
  split
  · cases s.fileHandles.get k with
    | none => rfl
    | some h => exact hf h
  · rfl

theorem noteRow_failed {os : Os} {pid : ℕ} {req : Request} {o : Out} {e : Errno}
    (ho : s.out X (.fuse os pid req) = o) (hreply : o.reply = .error e) (hf : failable req = true) :
    noteRow X s g (.fuse os pid req) = g := by
  cases req with
  | open_ ino flags => simp only [noteRow, ho, hreply]
  | create parent name mode flags => simp only [noteRow, ho, hreply]
  | rename parent name newparent newname fl => rfl
  | setattr ino a => rfl
  | write ino fh offset data => rfl
  | unlink parent name => rfl
  | _ => cases hf

theorem noteRow_passive {os : Os} {pid : ℕ} {req : Request} (hp : passive req = true) :
    noteRow X s g (.fuse os pid req) = g := by
  cases req <;> first | rfl | cases hp

theorem noteRow_open {os : Os} {pid ino : ℕ} {flags : OpenFlags} {rel : Path} {b : Backing} {fd : ℤ}
    (hop : s.Opening os ino flags rel b fd) {o : Out} {fh : ℕ}
    (ho : s.out X (.fuse os pid (.open_ ino flags)) = o) (hreply : o.reply = .opened fh) :
    noteRow X s g (.fuse os pid (.open_ ino flags)) = g.insert fh ⟨rel, getSid os pid, flags⟩ := by
  simp only [noteRow, ho, hreply, hop.path, hop.real, Bool.false_eq_true, if_false, Option.getD_some]

/-- STEP: the rows stay those of the live handles. -/
theorem tracks_step (hs : Tracks s g) (c : Call) : Tracks (s.step X c) (noteRow X s g c) := by
  have hout := s.step_out X c
  have hstep : s.step X c = (s.out X c).st := rfl
  generalize ho : s.out X c = o at hout hstep
  cases hout with
  | @passive os pid req hp =>
    refine hs.quiet (noteRow_passive hp) fun fh => ?_
    rw [hstep, (s.handle_passive X os hp (getSid os pid)).handles]
  | failed e hf => exact hs.quiet (noteRow_failed ho rfl hf) fun fh => by rw [hstep]; rfl
  | @openVirtual os pid ino flags hv =>
    have hnote : noteRow X s g (.fuse os pid (.open_ ino flags)) = g := by
      have hd : isDibsIno ino = true := by
        rcases hv with rfl | rfl
        · decide
        · decide
      simp only [noteRow, ho, hd, if_true]
    refine hs.quiet hnote fun fh => ?_
    rw [hstep, HandleTable.get_alloc]
    split
    · rename_i heq; rw [heq, HandleTable.get_nextFh]; rfl
    · rfl
  | @openRead os pid ino flags rel b fd hop hm =>
    exact hs.opened (hashFile X b os rel) (libcOpen_fd hop.call) (noteRow_open hop ho rfl)
      (by rw [hstep]; rfl)
  | openRejected rel b fd actual e hop hm hpre hr =>
    refine hs.quiet (noteRow_failed ho rfl rfl) fun fh => ?_
    rw [hstep, refusedOpen, opening, HandleTable.get_remove_alloc]
  | openGranted rel b fd actual cas hop hm hpre hg =>
    exact hs.opened _ (libcOpen_fd hop.call) (noteRow_open hop ho rfl) (by rw [hstep]; rfl)
  | openUnhashed rel b fd hop hm hpre =>
    exact hs.opened _ (libcOpen_fd hop.call) (noteRow_open hop ho rfl) (by rw [hstep]; rfl)
  | truncateRejected rel fh size e _ _ _ => exact hs.quiet rfl fun _ => by rw [hstep]
  | notTruncated rel size cas e _ _ _ => exact hs.quiet rfl fun _ => by rw [hstep]; rfl
  | truncated rel size cas b b' r _ _ _ _ => exact hs.quiet rfl fun _ => by rw [hstep]
  | attributes b' r _ _ => exact hs.quiet rfl fun _ => by rw [hstep]
  | @writeRejected os pid ino fh offset data h e _ _ _ _ =>
    obtain ⟨-, hhandles⟩ :=
      saveConflict_tables X { s with casTable := s.casTable.ensureEntry os.now h.path } os h.path data
    exact hs.quiet rfl fun k => by rw [hstep, hhandles]
  | @writeThrough os pid ino fh offset data h cas _ _ _ =>
    obtain ⟨b, hst, -⟩ := writeThrough_st { s with casTable := cas } os fh h offset data
    rw [hst] at hstep
    refine hs.quiet rfl fun k => ?_
    rw [hstep]
    exact rowOf_modify (f := fun h => { h with hasWritten := true }) fun _ => rfl
  | @idle os pid ino fh req hidle =>
    rcases hidle with ⟨rfl, -⟩ | ⟨rfl, hnone⟩
    · exact hs.quiet rfl fun _ => by rw [hstep]
    · intro k
      rw [hstep, show noteRow X s g _ = g.remove fh from rfl, FinMap.get_remove]
      split
      · rename_i heq; rw [heq, hnone]; rfl
      · exact hs k
  | @flushed os pid ino fh h newHash _ _ _ _ =>
    refine hs.quiet rfl fun k => ?_
    rw [hstep, stored]
    exact rowOf_modify (f := fun h => { h with hashAtOpen := some newHash, hasWritten := false })
      fun _ => rfl
  | flushedUnhashed h _ _ _ _ => exact hs.quiet rfl fun _ => by rw [hstep]
  | @released os pid ino fh h hh =>
    intro k
    rw [hstep, show noteRow X s g _ = g.remove fh from rfl, DibsFs.released, FinMap.get_remove,
      HandleTable.get_remove]
    split
    · rfl
    · exact hs k
  | createDropped b fd e _ _ => exact hs.quiet (noteRow_failed ho rfl rfl) fun _ => by rw [hstep]; rfl
  | @created os pid parent name mode flags b fd attr _ hopen =>
    refine hs.opened _ (libcOpen_fd hopen) ?_ (by rw [hstep]; rfl)
    simp only [noteRow, ho]
  | nameStale rel w hrel _ =>
    have hf : failable _ = true := failable_of_checked hrel
    exact hs.quiet (noteRow_failed ho rfl hf) fun _ => by rw [hstep]
  | unlinked b _ _ _ => exact hs.quiet rfl fun _ => by rw [hstep]
  | renamed b _ _ _ _ _ => exact hs.quiet rfl fun _ => by rw [hstep]
  | evict now seconds => exact hs.quiet rfl fun _ => by rw [hstep]
  | outside b => exact hs.quiet rfl fun _ => by rw [hstep]

/-- The list shows the rows that are not hidden. -/
theorem Tracks.listOpen (hs : Tracks s g) :
    s.fileHandles.listOpen.Perm ((g.iter.map (·.2)).filter fun r => !HandleTable.hidden r.path) := by
  have hrows := (FinMap.filterMap_iter_perm (m := s.fileHandles.handles) hs).filter
    fun r => !HandleTable.hidden r.path
  have hlist : s.fileHandles.listOpen =
      (s.fileHandles.handles.iter.filterMap fun e => rowOf e.2).filter
        fun r => !HandleTable.hidden r.path := by
    rw [HandleTable.listOpen, ← List.filterMap_eq_map, ← List.filterMap_eq_filter,
      ← List.filterMap_eq_filter, List.filterMap_filterMap, List.filterMap_filterMap]
    refine List.filterMap_congr fun e _ => ?_
    by_cases hfd : 0 ≤ e.2.realFd
    · cases hh : HandleTable.hidden e.2.path <;> simp [rowOf, Option.guard, hfd, hh]
    · simp [rowOf, Option.guard, hfd]
  rw [hlist]
  exact hrows

/-- RUN: from a mount on, whatever the events, `list_open` shows each file that is open, once for each
    time it was opened. -/
theorem list_open_exact (X : Ext) (backing : Backing) (os : Os) (saveConflicts : Bool)
    (sessionId : Bytes) (calls : List Call) :
    let w := Run.exec (withRows X) (mount backing os saveConflicts sessionId, .empty) calls
    w.1.fileHandles.listOpen.Perm
      ((w.2.iter.map (·.2)).filter fun r => !HandleTable.hidden r.path) := by
  have htracks : Tracks (mount backing os saveConflicts sessionId) .empty := fun _ => rfl
  exact Tracks.listOpen (Run.exec_of_inv (I := fun w : DibsFs × Rows => Tracks w.1 w.2)
    (P := fun _ _ => True) (fun _ c hs _ => tracks_step hs c) calls _ htracks
    (Run.along_of_forall calls _ fun _ _ => trivial))

end Dibs.DibsFs
