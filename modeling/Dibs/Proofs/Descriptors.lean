import Dibs.Lib.Lease
import Dibs.Fs.Transitions

/-! The descriptors the daemon holds. File handles and directory handles keep numbers of system
    descriptors; the two tables are separate from the system's own table, so that a descriptor stays
    open as long as a handle refers to it, and that no two handles share one, is an invariant of all
    reachable states. From it: what a handle has open never changes while the handle is live. -/

namespace Dibs.DibsFs

/-- A handle (left: of a file, right: of a directory) refers to the descriptor `fd`. -/
def holds (s : DibsFs) (k : ℕ ⊕ ℕ) (fd : ℤ) : Prop :=
  0 ≤ fd ∧
    match k with
    | .inl fh => ∃ h, s.fileHandles.get fh = some h ∧ h.realFd = fd
    | .inr d => ∃ h, s.dirHandles.get d = some h ∧ h.realFd = fd

/-- The event ends the handle. -/
def Ends (c : Call) (k : ℕ ⊕ ℕ) : Prop :=
  (∃ os pid ino fh, c = .fuse os pid (.release ino fh) ∧ k = .inl fh) ∨
    ∃ os pid d, c = .fuse os pid (.releasedir d) ∧ k = .inr d

/-- The handle an event would give out. -/
def newKey (s : DibsFs) : Call → ℕ ⊕ ℕ
  | .fuse _ _ (.opendir _) => .inr s.dirHandles.nextFh
  | _ => .inl s.fileHandles.nextFh

/-- The descriptor is open in the system's table. -/
def FdOpen (s : DibsFs) (fd : ℤ) : Prop := s.backing.fds.get fd ≠ none

variable {X : Ext} {s s' : DibsFs}

/-! ### Descriptors across one event -/

/-- A descriptor that was just opened and closed again leaves the others alone. -/
theorem fds_close_libcOpen {os : Os} {p : Path} {flags : OpenFlags} {mode : ℕ} {b : Backing}
    {fd : ℤ} (h : s.backing.libcOpen os p flags mode = .ok (b, fd)) (fd' : ℤ) :
    (b.close fd).fds.get fd' = s.backing.fds.get fd' := by
  obtain ⟨-, hfree, -⟩ := Backing.libcOpen_cases h
  obtain ⟨-, o, k, -, hfds⟩ := Backing.libcOpen_target h
  rw [Backing.fds_close, hfds]
  split
  · rename_i heq; rw [heq, hfree]
  · rfl

/-- An open descriptor keeps its number when another one is opened. -/
theorem fds_libcOpen {os : Os} {p : Path} {flags : OpenFlags} {mode : ℕ} {b : Backing} {fd fd' : ℤ}
    (h : s.backing.libcOpen os p flags mode = .ok (b, fd)) (hopen : s.FdOpen fd') :
    b.fds.get fd' = s.backing.fds.get fd' := by
  obtain ⟨-, hfree, -⟩ := Backing.libcOpen_cases h
  obtain ⟨-, o, k, -, hfds⟩ := Backing.libcOpen_target h
  have hne : fd' ≠ fd := by rintro rfl; exact hopen hfree
  rw [hfds, if_neg hne]

theorem fds_saveConflict {os : Os} {rel : Path} {data : Bytes} :
    (s.saveConflict X os rel data).backing.fds = s.backing.fds := by
  rw [saveConflict]
  split
  · exact (Backing.fsWrite_spec ..).2.1
  · rfl

theorem fds_truncateCall {os : Os} {rel : Path} {fh : Option ℕ} {size : ℕ} {b : Backing}
    (h : s.truncateCall os rel fh size = .ok b) : b.fds = s.backing.fds := by
  rw [truncateCall] at h
  split at h
  · obtain ⟨f, -, -, rfl⟩ := Backing.ftruncate_cases h; rfl
  · obtain ⟨o, -, rfl⟩ := Backing.truncate_cases h; rfl

theorem fds_writeThrough {os : Os} {fh : ℕ} {h : HandleState} {offset : ℕ} {data : Bytes} :
    (s.writeThrough os fh h offset data).st.backing.fds = s.backing.fds := by
  obtain ⟨b, hst, hb⟩ := s.writeThrough_st os fh h offset data
  rw [hst]
  rcases hb with rfl | ⟨f, d, -, -, rfl⟩ <;> rfl

/-- FRAME: an open descriptor refers to the same file after an event, unless the event ends a handle
    that held it. -/
theorem step_fds (X : Ext) (c : Call) {fd : ℤ} (hopen : s.FdOpen fd) :
    (s.step X c).backing.fds.get fd = s.backing.fds.get fd ∨ ∃ k, s.holds k fd ∧ Ends c k := by
  have hout := s.step_out X c
  rw [step]
  generalize s.out X c = o at hout
  cases hout with
  | @passive os pid req hp =>
    have hout := (s.passive_out X os hp (getSid os pid)).1
    generalize (s.handle X os (getSid os pid) req).st = s' at hout
    cases hout with
    | same t _ => exact Or.inl rfl
    | dirVirtual rel => exact Or.inl rfl
    | dirOpened rel b fd' hb =>
      obtain ⟨-, -, -, ⟨-, hfds⟩ | ⟨-, hfree, f, hfds⟩⟩ := Backing.opendir_cases hb
      · exact Or.inl (by rw [hfds])
      · have hne : fd ≠ fd' := by rintro rfl; exact hopen hfree
        exact Or.inl ((hfds fd).trans (if_neg hne))
    | @dirClosed d h hh =>
      simp only
      split
      · rename_i hpos
        by_cases heq : fd = h.realFd
        · exact Or.inr ⟨.inr d, ⟨by omega, h, hh, heq.symm⟩, Or.inr ⟨os, pid, d, rfl, rfl⟩⟩
        · exact Or.inl ((Backing.fds_close ..).trans (if_neg heq))
      · exact Or.inl rfl
    | grown b t _ hg => exact Or.inl (by rw [hg.fds])
    | dirRemoved b hb => exact Or.inl (by rw [(Backing.rmdir_sameData hb).fds])
  | openRead rel b fd' ho _ => exact Or.inl (fds_libcOpen ho.call hopen)
  | openRejected rel b fd' actual e ho _ _ _ => exact Or.inl (fds_close_libcOpen ho.call fd)
  | openGranted rel b fd' actual cas ho _ _ _ => exact Or.inl (fds_libcOpen ho.call hopen)
  | openUnhashed rel b fd' ho _ _ => exact Or.inl (fds_libcOpen ho.call hopen)
  | truncated rel size cas b b' r _ _ hcall hsame =>
    exact Or.inl (by rw [hsame.fds, fds_truncateCall hcall])
  | attributes b' r _ hsame => exact Or.inl (by rw [hsame.fds])
  | writeRejected h e _ _ _ _ => exact Or.inl (by rw [fds_saveConflict])
  | writeThrough h cas _ _ _ => exact Or.inl (by rw [fds_writeThrough])
  | @released os pid ino fh h hh =>
    simp only [DibsFs.released]
    split
    · rename_i hpos
      by_cases heq : fd = h.realFd
      · exact Or.inr ⟨.inl fh, ⟨by omega, h, hh, heq.symm⟩, Or.inl ⟨os, pid, ino, fh, rfl, rfl⟩⟩
      · exact Or.inl ((Backing.fds_close ..).trans (if_neg heq))
    · exact Or.inl rfl
  | createDropped b fd' e _ hcall => exact Or.inl (fds_close_libcOpen hcall fd)
  | created b fd' attr _ hcall => exact Or.inl (fds_libcOpen hcall hopen)
  | unlinked b _ _ hb => exact Or.inl (by rw [(Backing.unlink_sameData hb).fds])
  | renamed b _ _ _ _ hb => exact Or.inl (by rw [(Backing.rename_sameData hb).fds])
  | _ => exact Or.inl rfl

/-- Handles that refer to the same descriptors as before hold the same. -/
theorem holds_of_same {k : ℕ ⊕ ℕ} {fd : ℤ} (h : s'.holds k fd)
    (hfile : ∀ fh h', s'.fileHandles.get fh = some h' →
      ∃ h, s.fileHandles.get fh = some h ∧ h.realFd = h'.realFd)
    (hdir : s'.dirHandles = s.dirHandles) : s.holds k fd := by
  obtain ⟨hpos, hk⟩ := h
  cases k with
  | inl fh =>
    obtain ⟨h', hh', rfl⟩ := hk
    obtain ⟨h, hh, heq⟩ := hfile fh h' hh'
    exact ⟨hpos, h, hh, heq⟩
  | inr d =>
    obtain ⟨h', hh', rfl⟩ := hk
    rw [hdir] at hh'
    exact ⟨hpos, h', hh', rfl⟩

/-- A newly allocated handle, or an old one. -/
theorem holds_alloc {rel : Path} {flags : OpenFlags} {hash : Option Bytes} {sid : ℕ} {fd₀ : ℤ}
    {k : ℕ ⊕ ℕ} {fd : ℤ} (h : s'.holds k fd)
    (hfile : s'.fileHandles = (s.fileHandles.alloc fd₀ rel flags hash sid).1)
    (hdir : s'.dirHandles = s.dirHandles) :
    s.holds k fd ∨ (fd = fd₀ ∧ k = .inl s.fileHandles.nextFh) := by
  obtain ⟨hpos, hk⟩ := h
  cases k with
  | inl fh =>
    obtain ⟨h', hh', rfl⟩ := hk
    rw [hfile, HandleTable.get_alloc] at hh'
    split at hh'
    · rename_i heq
      obtain rfl := Option.some.inj hh'
      exact Or.inr ⟨rfl, by rw [heq]⟩
    · exact Or.inl ⟨hpos, h', hh', rfl⟩
  | inr d =>
    obtain ⟨h', hh', rfl⟩ := hk
    rw [hdir] at hh'
    exact Or.inl ⟨hpos, h', hh', rfl⟩

theorem holds_dirAlloc {rel : Path} {fd₀ : ℤ} {k : ℕ ⊕ ℕ} {fd : ℤ} (h : s'.holds k fd)
    (hfile : s'.fileHandles = s.fileHandles)
    (hdir : s'.dirHandles = (s.dirHandles.alloc fd₀ rel).1) :
    s.holds k fd ∨ (fd = fd₀ ∧ k = .inr s.dirHandles.nextFh) := by
  obtain ⟨hpos, hk⟩ := h
  cases k with
  | inl fh =>
    rw [hfile] at hk
    exact Or.inl ⟨hpos, hk⟩
  | inr d =>
    obtain ⟨h', hh', rfl⟩ := hk
    rw [hdir, DirHandleTable.get_alloc] at hh'
    split at hh'
    · rename_i heq
      obtain rfl := Option.some.inj hh'
      exact Or.inr ⟨rfl, by rw [heq]⟩
    · exact Or.inl ⟨hpos, h', hh', rfl⟩

/-- The opened descriptor of a new file handle was closed before. -/
theorem holds_opened {os : Os} {p rel : Path} {flags flags' : OpenFlags} {mode : ℕ} {b : Backing}
    {fd₀ : ℤ} {hash : Option Bytes} {sid : ℕ} {c : Call} {k : ℕ ⊕ ℕ} {fd : ℤ} (h : s'.holds k fd)
    (hc : s.newKey c = .inl s.fileHandles.nextFh) (hends : ∀ k, ¬ Ends c k)
    (hcall : s.backing.libcOpen os p flags' mode = .ok (b, fd₀)) (hb : s'.backing = b)
    (hfile : s'.fileHandles = (s.fileHandles.alloc fd₀ rel flags hash sid).1)
    (hdir : s'.dirHandles = s.dirHandles) :
    (s.holds k fd ∧ ¬ Ends c k) ∨ (¬ s.FdOpen fd ∧ s'.FdOpen fd ∧ k = s.newKey c) := by
  rcases holds_alloc h hfile hdir with hold | ⟨rfl, rfl⟩
  · exact Or.inl ⟨hold, hends k⟩
  · refine Or.inr ⟨?_, ?_, hc.symm⟩
    · exact fun hopen => hopen (Backing.libcOpen_cases hcall).2.1
    · rw [FdOpen, hb]; exact Backing.libcOpen_fd hcall

theorem passive_holds {os : Os} {pid : ℕ} {req : Request} {k : ℕ ⊕ ℕ} {fd : ℤ}
    (hp : passive req = true) (hout : PassiveOut s os req s') (hk : s'.holds k fd) :
    (s.holds k fd ∧ ¬ Ends (.fuse os pid req) k) ∨
      (¬ s.FdOpen fd ∧ s'.FdOpen fd ∧ k = s.newKey (.fuse os pid req)) := by
  have same : ∀ fh h', s.fileHandles.get fh = some h' →
      ∃ h, s.fileHandles.get fh = some h ∧ h.realFd = h'.realFd := fun fh h' hh => ⟨h', hh, rfl⟩
  cases hout with
  | same t hd =>
    have hold : s.holds k fd := holds_of_same hk same rfl
    refine Or.inl ⟨hold, ?_⟩
    rintro (⟨os', pid', ino, fh, heq, -⟩ | ⟨os', pid', d, heq, rfl⟩)
    · cases heq; cases hp
    · obtain ⟨-, h, hh, -⟩ := hold
      cases heq
      rw [hd d rfl] at hh
      cases hh
  | dirVirtual rel =>
    rcases holds_dirAlloc (s := s) hk rfl rfl with hold | ⟨rfl, -⟩
    · exact Or.inl ⟨hold, by simp [Ends]⟩
    · exact absurd hk.1 (by decide)
  | dirOpened rel b fd' hb =>
    rcases holds_dirAlloc (s := s) hk rfl rfl with hold | ⟨rfl, rfl⟩
    · exact Or.inl ⟨hold, by simp [Ends]⟩
    · obtain ⟨-, -, -, ⟨rfl, -⟩ | ⟨-, hfree, f, hfds⟩⟩ := Backing.opendir_cases hb
      · exact absurd hk.1 (by decide)
      · refine Or.inr ⟨fun hopen => hopen hfree, ?_, rfl⟩
        rw [FdOpen, hfds, if_pos rfl]
        simp
  | @dirClosed d h hh =>
    obtain ⟨hpos, hk⟩ := hk
    cases k with
    | inl fh => exact Or.inl ⟨⟨hpos, hk⟩, by simp [Ends]⟩
    | inr d' =>
      obtain ⟨h', hh', hfd⟩ := hk
      rw [DirHandleTable.get_remove] at hh'
      split at hh'
      · cases hh'
      · rename_i hne
        refine Or.inl ⟨⟨hpos, h', hh', hfd⟩, ?_⟩
        rintro (⟨os', pid', ino, fh, heq, -⟩ | ⟨os', pid', d'', heq, hd⟩)
        · cases heq
        · cases heq; exact hne (Sum.inr.inj hd)
  | grown b t hne hg =>
    refine Or.inl ⟨holds_of_same hk same rfl, ?_⟩
    rintro (⟨os', pid', ino, fh, heq, -⟩ | ⟨os', pid', d, heq, -⟩)
    · cases heq; cases hp
    · cases heq; exact hne d rfl
  | dirRemoved b hb => exact Or.inl ⟨holds_of_same hk same rfl, by simp [Ends]⟩

/-- FRAME: a handle that holds a descriptor after an event held it before and is not ended by the
    event, or is new and its descriptor was opened in the event. -/
theorem step_holds (X : Ext) (c : Call) {k : ℕ ⊕ ℕ} {fd : ℤ} (hk : (s.step X c).holds k fd) :
    (s.holds k fd ∧ ¬ Ends c k) ∨ (¬ s.FdOpen fd ∧ (s.step X c).FdOpen fd ∧ k = s.newKey c) := by
  have hout := s.step_out X c
  rw [step] at hk ⊢
  generalize s.out X c = o at hout hk ⊢
  have hsame : ∀ fh h', s.fileHandles.get fh = some h' →
      ∃ h, s.fileHandles.get fh = some h ∧ h.realFd = h'.realFd := fun fh h' hh => ⟨h', hh, rfl⟩
  have hmodify : ∀ {fh₀ : ℕ} {f : HandleState → HandleState}, (∀ h, (f h).realFd = h.realFd) →
      ∀ fh h', (s.fileHandles.modify fh₀ f).get fh = some h' →
        ∃ h, s.fileHandles.get fh = some h ∧ h.realFd = h'.realFd := by
    intro fh₀ f hf fh h' hh
    rw [HandleTable.get_modify] at hh
    split at hh
    · obtain ⟨h, hget, rfl⟩ := Option.map_eq_some_iff.mp hh
      exact ⟨h, hget, (hf h).symm⟩
    · exact ⟨h', hh, rfl⟩
  cases hout with
  | passive hp => exact passive_holds hp (s.passive_out X _ hp _).1 hk
  | failed e hf =>
    refine Or.inl ⟨hk, ?_⟩
    rintro (⟨os', pid', ino, fh, heq, -⟩ | ⟨os', pid', d, heq, -⟩) <;> cases heq <;> cases hf
  | openVirtual _ =>
    rcases holds_alloc (s := s) hk rfl rfl with hold | ⟨rfl, -⟩
    · exact Or.inl ⟨hold, by simp [Ends]⟩
    · exact absurd hk.1 (by decide)
  | openRead rel b fd' ho _ => exact holds_opened hk rfl (by simp [Ends]) ho.call rfl rfl rfl
  | openRejected rel b fd' actual e ho _ _ _ =>
    refine Or.inl ⟨holds_of_same hk ?_ rfl, by simp [Ends]⟩
    intro fh h' hh
    exact ⟨h', (HandleTable.get_remove_alloc ..).symm.trans hh, rfl⟩
  | openGranted rel b fd' actual cas ho _ _ _ =>
    exact holds_opened hk rfl (by simp [Ends]) ho.call rfl rfl rfl
  | openUnhashed rel b fd' ho _ _ => exact holds_opened hk rfl (by simp [Ends]) ho.call rfl rfl rfl
  | truncateRejected => exact Or.inl ⟨holds_of_same hk hsame rfl, by simp [Ends]⟩
  | notTruncated => exact Or.inl ⟨holds_of_same hk hsame rfl, by simp [Ends]⟩
  | truncated => exact Or.inl ⟨holds_of_same hk hsame rfl, by simp [Ends]⟩
  | attributes => exact Or.inl ⟨holds_of_same hk hsame rfl, by simp [Ends]⟩
  | writeRejected h e _ _ _ _ =>
    refine Or.inl ⟨?_, by simp [Ends]⟩
    simp only [saveConflict] at hk
    split at hk <;> exact holds_of_same hk hsame rfl
  | @writeThrough os pid ino fh offset data h cas _ _ _ =>
    obtain ⟨b, hst, -⟩ := writeThrough_st { s with casTable := cas } os fh h offset data
    rw [hst] at hk
    exact Or.inl ⟨holds_of_same hk (hmodify fun _ => rfl) rfl, by simp [Ends]⟩
  | idle hi =>
    refine Or.inl ⟨hk, ?_⟩
    rintro (⟨os', pid', ino, fh, heq, rfl⟩ | ⟨os', pid', d, heq, -⟩)
    · obtain ⟨-, h, hh, -⟩ := hk
      cases heq
      rcases hi with ⟨⟨⟩, -⟩ | ⟨⟨⟩, hn⟩
      rw [hn] at hh; cases hh
    · cases heq
      simp at hi
  | flushed h newHash _ _ _ _ =>
    exact Or.inl ⟨holds_of_same hk (hmodify fun _ => rfl) rfl, by simp [Ends]⟩
  | flushedUnhashed => exact Or.inl ⟨holds_of_same hk hsame rfl, by simp [Ends]⟩
  | @released os pid ino fh h hh =>
    have hremove : ∀ fh' h', (s.fileHandles.remove fh).get fh' = some h' →
        s.fileHandles.get fh' = some h' ∧ fh' ≠ fh := by
      intro fh' h' hget
      rw [HandleTable.get_remove] at hget
      split at hget
      · cases hget
      · rename_i hne; exact ⟨hget, hne⟩
    refine Or.inl ⟨holds_of_same hk (fun fh' h' hget => ⟨h', (hremove fh' h' hget).1, rfl⟩) rfl, ?_⟩
    rintro (⟨os', pid', ino', fh', heq, rfl⟩ | ⟨os', pid', d, heq, -⟩)
    · cases heq
      obtain ⟨-, h', hh', -⟩ := hk
      exact (hremove fh h' hh').2 rfl
    · cases heq
  | createDropped => exact Or.inl ⟨holds_of_same hk hsame rfl, by simp [Ends]⟩
  | created b fd' attr _ hcall => exact holds_opened hk rfl (by simp [Ends]) hcall rfl rfl rfl
  | nameStale rel w hf _ =>
    refine Or.inl ⟨hk, ?_⟩
    rintro (⟨os', pid', ino, fh, heq, -⟩ | ⟨os', pid', d, heq, -⟩) <;> cases heq <;> cases hf
  | unlinked => exact Or.inl ⟨holds_of_same hk hsame rfl, by simp [Ends]⟩
  | renamed => exact Or.inl ⟨holds_of_same hk hsame rfl, by simp [Ends]⟩
  | evict => exact Or.inl ⟨holds_of_same hk hsame rfl, by simp [Ends]⟩
  | outside => exact Or.inl ⟨holds_of_same hk hsame rfl, by simp [Ends]⟩

/-! ### The invariant -/

/-- Every descriptor a handle refers to is open, and only that handle refers to it. -/
def FdsHeld (s : DibsFs) : Prop := Lease.Held s.holds s.FdOpen

theorem fdsHeld_mount (b : Backing) (os : Os) (sc : Bool) (sid : Bytes) :
    FdsHeld (mount b os sc sid) := by
  have hnone : ∀ k fd, ¬ (mount b os sc sid).holds k fd := by
    rintro (fh | d) fd ⟨-, h, hh, -⟩ <;> cases hh
  exact ⟨fun k fd hk => absurd hk (hnone k fd), fun k k' fd hk => absurd hk (hnone k fd)⟩

/-- STEP: every event keeps the descriptors held. -/
theorem fdsHeld_step (X : Ext) (c : Call) (hs : FdsHeld s) : FdsHeld (s.step X c) := by
  refine @Lease.Held.step _ _ _ _ _ _ (Ends c) (s.newKey c) hs (fun k fd hk => step_holds X c hk) ?_
  intro fd hopen
  rcases step_fds X c hopen with heq | hends
  · exact Or.inl (by rw [FdOpen, heq]; exact hopen)
  · exact Or.inr hends

/-- A live handle keeps the file it has open. -/
theorem step_openFile (hs : FdsHeld s) {c : Call} {fh : ℕ} {h : HandleState}
    (hh : s.fileHandles.get fh = some h) (hpos : 0 ≤ h.realFd)
    (hc : ∀ os pid ino, c ≠ .fuse os pid (.release ino fh)) :
    (s.step X c).backing.fds.get h.realFd = s.backing.fds.get h.realFd := by
  have hheld : s.holds (.inl fh) h.realFd := ⟨hpos, h, hh, rfl⟩
  rcases step_fds X c (hs.isOpen _ _ hheld) with heq | ⟨k, hk, hends⟩
  · exact heq
  · obtain rfl := hs.unique _ _ _ hheld hk
    rcases hends with ⟨os, pid, ino, fh', heq, hkey⟩ | ⟨os, pid, d, -, hkey⟩
    · obtain rfl := Sum.inl.inj hkey
      exact absurd heq (hc os pid ino)
    · cases hkey

end Dibs.DibsFs
