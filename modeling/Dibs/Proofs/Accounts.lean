import Dibs.Proofs.Descriptors

/-! Descriptor accounting. That every descriptor a handle refers to is open and has no other holder is
    `FdsHeld`; here is the other half: a descriptor the daemon has open is always held by a handle, so
    none is leaked. Directory handles need their own argument that a new number is not in use. -/

namespace Dibs.DibsFs
variable {X : Ext} {s s' : DibsFs}

/-- The numbers of the directory handles in use are below the counter. -/
def DirsIssued (s : DibsFs) : Prop := ∀ d h, s.dirHandles.get d = some h → d < s.dirHandles.nextFh

/-- The descriptors the daemon has open and those its live handles refer to are the same, one to
    one. -/
structure Accounted (s : DibsFs) : Prop where
  held : FdsHeld s
  covered : ∀ fd, s.FdOpen fd → ∃ k, s.holds k fd
  dirs : DirsIssued s

theorem holds_keep {k : ℕ ⊕ ℕ} {fd : ℤ} (h : s.holds k fd)
    (hfile : ∀ fh h, s.fileHandles.get fh = some h →
      ∃ h', s'.fileHandles.get fh = some h' ∧ h'.realFd = h.realFd)
    (hdir : ∀ d h, s.dirHandles.get d = some h → s'.dirHandles.get d = some h) : s'.holds k fd := by
  obtain ⟨hpos, hk⟩ := h
  cases k with
  | inl fh =>
    obtain ⟨h, hh, rfl⟩ := hk
    obtain ⟨h', hh', heq⟩ := hfile fh h hh
    exact ⟨hpos, h', hh', heq⟩
  | inr d =>
    obtain ⟨h, hh, rfl⟩ := hk
    exact ⟨hpos, h, hdir d h hh, rfl⟩

/-- Handles of files stay live when a number is allocated. -/
theorem get_alloc_keep {fd : ℤ} {rel : Path} {flags : OpenFlags} {hash : Option Bytes} {sid : ℕ}
    (fh : ℕ) (h : HandleState) (hh : s.fileHandles.get fh = some h) :
    ∃ h', (s.fileHandles.alloc fd rel flags hash sid).1.get fh = some h' ∧ h'.realFd = h.realFd :=
  ⟨h, get_alloc_of_live hh fd rel flags hash sid, rfl⟩

theorem get_modify_keep {fh₀ : ℕ} {f : HandleState → HandleState} (hf : ∀ h, (f h).realFd = h.realFd)
    (fh : ℕ) (h : HandleState) (hh : s.fileHandles.get fh = some h) :
    ∃ h', (s.fileHandles.modify fh₀ f).get fh = some h' ∧ h'.realFd = h.realFd := by
  rw [HandleTable.get_modify, hh]
  split
  · exact ⟨f h, rfl, hf h⟩
  · exact ⟨h, rfl, rfl⟩

theorem get_dirAlloc_keep (hd : DirsIssued s) {fd : ℤ} {rel : Path} (d : ℕ) (h : DirHandleState)
    (hh : s.dirHandles.get d = some h) : (s.dirHandles.alloc fd rel).1.get d = some h := by
  rw [DirHandleTable.get_alloc, if_neg (Nat.ne_of_lt (hd d h hh)), hh]

/-- A descriptor that `libc::open` just returned is held by the handle made for it; the others are
    held as before. -/
theorem accounted_opened {os : Os} {p rel : Path} {flags flags' : OpenFlags} {mode : ℕ} {b : Backing}
    {fd₀ : ℤ} {hash : Option Bytes} {sid : ℕ} {fd : ℤ} (hopen : s'.FdOpen fd)
    (hcall : s.backing.libcOpen os p flags' mode = .ok (b, fd₀)) (hb : s'.backing = b)
    (hfile : s'.fileHandles = (s.fileHandles.alloc fd₀ rel flags hash sid).1)
    (hdir : s'.dirHandles = s.dirHandles) :
    (s.FdOpen fd ∧ ∀ k, s.holds k fd → s'.holds k fd) ∨ ∃ k, s'.holds k fd := by
  obtain ⟨hfd, -, -⟩ := Backing.libcOpen_cases hcall
  obtain ⟨-, o, k, -, hfds⟩ := Backing.libcOpen_target hcall
  by_cases heq : fd = fd₀
  · right
    refine ⟨.inl s.fileHandles.nextFh, ?_,
      ⟨s.fileHandles.nextFh, fd₀, rel, hash, flags, false, sid⟩, ?_, heq.symm⟩
    · rw [heq, hfd]; exact Int.natCast_nonneg _
    · rw [hfile, HandleTable.get_alloc, if_pos rfl]
  · left
    constructor
    · rw [FdOpen, hb, hfds, if_neg heq] at hopen
      exact hopen
    · exact fun k hk => holds_keep hk (by rw [hfile]; exact get_alloc_keep)
        (by rw [hdir]; exact fun _ _ hh => hh)

/-- Closing the descriptor of a handle that ends leaves the others with their holders. -/
theorem accounted_closed {realFd fd : ℤ} (k₀ : ℕ ⊕ ℕ) (hopen : s'.FdOpen fd)
    (hb : s'.backing = if 0 ≤ realFd then s.backing.close realFd else s.backing)
    (hk₀ : ∀ fd, s.holds k₀ fd → fd = realFd)
    (hkeep : ∀ k fd, k ≠ k₀ → s.holds k fd → s'.holds k fd) :
    s.FdOpen fd ∧ ∀ k, s.holds k fd → s'.holds k fd := by
  rw [FdOpen, hb] at hopen
  have hne : 0 ≤ realFd → fd ≠ realFd := by
    rintro hpos rfl
    rw [if_pos hpos, Backing.fds_close, if_pos rfl] at hopen
    exact hopen rfl
  constructor
  · split at hopen
    · rename_i hpos
      rwa [Backing.fds_close, if_neg (hne hpos)] at hopen
    · exact hopen
  · intro k hk
    refine hkeep k fd ?_ hk
    rintro rfl
    have heq := hk₀ fd hk
    exact hne (heq ▸ hk.1) heq

theorem passive_accounted {os : Os} {req : Request} {fd : ℤ} (hd : DirsIssued s)
    (hout : PassiveOut s os req s') (hopen : s'.FdOpen fd) :
    (s.FdOpen fd ∧ ∀ k, s.holds k fd → s'.holds k fd) ∨ ∃ k, s'.holds k fd := by
  have hfile : ∀ fh h, s.fileHandles.get fh = some h →
      ∃ h', s.fileHandles.get fh = some h' ∧ h'.realFd = h.realFd := fun fh h hh => ⟨h, hh, rfl⟩
  have hdirs : ∀ d h, s.dirHandles.get d = some h → s.dirHandles.get d = some h := fun _ _ hh => hh
  cases hout with
  | same t _ => exact Or.inl ⟨hopen, fun k hk => holds_keep hk hfile hdirs⟩
  | dirVirtual rel => exact Or.inl ⟨hopen, fun k hk => holds_keep hk hfile (get_dirAlloc_keep hd)⟩
  | dirOpened rel b fd₀ hb =>
    obtain ⟨-, -, -, ⟨-, hfds⟩ | ⟨hfd, -, f, hfds⟩⟩ := Backing.opendir_cases hb
    · left
      rw [FdOpen, hfds] at hopen
      exact ⟨hopen, fun k hk => holds_keep hk hfile (get_dirAlloc_keep hd)⟩
    · by_cases heq : fd = fd₀
      · right
        refine ⟨.inr s.dirHandles.nextFh, ?_, ⟨s.dirHandles.nextFh, fd₀, rel⟩, ?_, heq.symm⟩
        · rw [heq, hfd]; exact Int.natCast_nonneg _
        · exact (DirHandleTable.get_alloc ..).trans (if_pos rfl)
      · left
        rw [FdOpen, hfds, if_neg heq] at hopen
        exact ⟨hopen, fun k hk => holds_keep hk hfile (get_dirAlloc_keep hd)⟩
  | @dirClosed d h hh =>
    refine Or.inl (accounted_closed (.inr d) hopen rfl ?_ ?_)
    · rintro fd ⟨-, h', hh', rfl⟩
      rw [hh] at hh'
      rw [Option.some.inj hh']
    · rintro k fd hne ⟨hpos, hk⟩
      refine ⟨hpos, ?_⟩
      cases k with
      | inl fh => exact hk
      | inr d' =>
        obtain ⟨h', hh', heq⟩ := hk
        refine ⟨h', ?_, heq⟩
        rw [DirHandleTable.get_remove, if_neg, hh']
        rintro rfl
        exact hne rfl
  | grown b t _ hg =>
    rw [FdOpen, hg.fds] at hopen
    exact Or.inl ⟨hopen, fun k hk => holds_keep hk hfile hdirs⟩
  | dirRemoved b hb =>
    rw [FdOpen, (Backing.rmdir_sameData hb).fds] at hopen
    exact Or.inl ⟨hopen, fun k hk => holds_keep hk hfile hdirs⟩

/-- FRAME: a descriptor that is open after an event was open before and keeps its holders, or is held
    by a handle the event made. -/
theorem step_accounted (X : Ext) (c : Call) (hd : DirsIssued s) {fd : ℤ}
    (hopen : (s.step X c).FdOpen fd) :
    (s.FdOpen fd ∧ ∀ k, s.holds k fd → (s.step X c).holds k fd) ∨ ∃ k, (s.step X c).holds k fd := by
  have hout := s.step_out X c
  rw [step] at hopen ⊢
  generalize s.out X c = o at hout hopen ⊢
  have hfile : ∀ fh h, s.fileHandles.get fh = some h →
      ∃ h', s.fileHandles.get fh = some h' ∧ h'.realFd = h.realFd := fun fh h hh => ⟨h, hh, rfl⟩
  have hdirs : ∀ d h, s.dirHandles.get d = some h → s.dirHandles.get d = some h := fun _ _ hh => hh
  cases hout with
  | passive hp => exact passive_accounted hd (s.passive_out X _ hp _).1 hopen
  | openVirtual _ => exact Or.inl ⟨hopen, fun k hk => holds_keep hk get_alloc_keep hdirs⟩
  | openRead rel b fd₀ ho _ => exact accounted_opened hopen ho.call rfl rfl rfl
  | openRejected rel b fd₀ actual e ho _ _ _ =>
    left
    rw [FdOpen, refusedOpen, fds_close_libcOpen ho.call] at hopen
    refine ⟨hopen, fun k hk => holds_keep hk (fun fh h hh => ⟨h, ?_, rfl⟩) hdirs⟩
    exact (HandleTable.get_remove_alloc ..).trans hh
  | openGranted rel b fd₀ actual cas ho _ _ _ => exact accounted_opened hopen ho.call rfl rfl rfl
  | openUnhashed rel b fd₀ ho _ _ => exact accounted_opened hopen ho.call rfl rfl rfl
  | truncated rel size cas b b' r _ _ hcall hsame =>
    rw [FdOpen, hsame.fds, fds_truncateCall hcall] at hopen
    exact Or.inl ⟨hopen, fun k hk => holds_keep hk hfile hdirs⟩
  | attributes b' r _ hsame =>
    rw [FdOpen, hsame.fds] at hopen
    exact Or.inl ⟨hopen, fun k hk => holds_keep hk hfile hdirs⟩
  | writeRejected h e _ _ _ _ =>
    rw [FdOpen, fds_saveConflict] at hopen
    refine Or.inl ⟨hopen, fun k hk => ?_⟩
    simp only [saveConflict]
    split <;> exact holds_keep hk hfile hdirs
  | @writeThrough os pid ino fh offset data h cas _ _ _ =>
    rw [FdOpen, fds_writeThrough] at hopen
    obtain ⟨b, hst, -⟩ := writeThrough_st { s with casTable := cas } os fh h offset data
    rw [hst]
    exact Or.inl ⟨hopen, fun k hk => holds_keep hk (get_modify_keep fun _ => rfl) hdirs⟩
  | flushed h newHash _ _ _ _ =>
    exact Or.inl ⟨hopen, fun k hk => holds_keep hk (get_modify_keep fun _ => rfl) hdirs⟩
  | @released os pid ino fh h hh =>
    refine Or.inl (accounted_closed (.inl fh) hopen rfl ?_ ?_)
    · rintro fd ⟨-, h', hh', rfl⟩
      rw [hh] at hh'
      rw [Option.some.inj hh']
    · rintro k fd hne ⟨hpos, hk⟩
      refine ⟨hpos, ?_⟩
      cases k with
      | inr d => exact hk
      | inl fh' =>
        obtain ⟨h', hh', heq⟩ := hk
        refine ⟨h', ?_, heq⟩
        rw [released, HandleTable.get_remove, if_neg, hh']
        rintro rfl
        exact hne rfl
  | createDropped b fd₀ e _ hcall =>
    rw [FdOpen, fail, fds_close_libcOpen hcall] at hopen
    exact Or.inl ⟨hopen, fun k hk => holds_keep hk hfile hdirs⟩
  | created b fd₀ attr _ hcall => exact accounted_opened hopen hcall rfl rfl rfl
  | unlinked b _ _ hb =>
    rw [FdOpen, (Backing.unlink_sameData hb).fds] at hopen
    exact Or.inl ⟨hopen, fun k hk => holds_keep hk hfile hdirs⟩
  | renamed b _ _ _ _ hb =>
    rw [FdOpen, (Backing.rename_sameData hb).fds] at hopen
    exact Or.inl ⟨hopen, fun k hk => holds_keep hk hfile hdirs⟩
  | _ => exact Or.inl ⟨hopen, fun k hk => holds_keep hk hfile hdirs⟩

/-- STEP: a new directory handle gets the number of the counter. -/
theorem dirsIssued_step (X : Ext) (c : Call) (hd : DirsIssued s) : DirsIssued (s.step X c) := by
  have halloc : ∀ (fd : ℤ) (rel : Path) (d : ℕ) (h : DirHandleState),
      (s.dirHandles.alloc fd rel).1.get d = some h → d < s.dirHandles.nextFh + 1 := by
    intro fd rel d h hh
    rw [DirHandleTable.get_alloc] at hh
    split at hh
    · rename_i heq; omega
    · have hlt := hd d h hh; omega
  have hout := s.step_out X c
  rw [step]
  generalize s.out X c = o at hout ⊢
  cases hout with
  | @passive os pid req hp =>
    have hout := (s.passive_out X os hp (getSid os pid)).1
    generalize (s.handle X os (getSid os pid) req).st = s' at hout ⊢
    cases hout with
    | dirVirtual rel => exact halloc (-1) rel
    | dirOpened rel b fd hb => exact halloc fd rel
    | @dirClosed d h hh =>
      intro d' h' hh'
      rw [DirHandleTable.get_remove] at hh'
      split at hh'
      · cases hh'
      · exact hd d' h' hh'
    | _ => exact hd
  | writeRejected h e _ _ _ _ =>
    simp only [saveConflict]
    split <;> exact hd
  | @writeThrough os pid ino fh offset data h cas _ _ _ =>
    obtain ⟨b, hst, -⟩ := writeThrough_st { s with casTable := cas } os fh h offset data
    rw [hst]
    exact hd
  | _ => exact hd

theorem accounted_mount {b : Backing} (hb : ∀ fd, b.fds.get fd = none) (os : Os) (sc : Bool)
    (sid : Bytes) : Accounted (mount b os sc sid) := by
  refine ⟨fdsHeld_mount b os sc sid, fun fd hopen => absurd ?_ hopen, fun d h hh => by cases hh⟩
  rw [mount]
  simp only
  split
  · split
    · rename_i b' hmk; rw [(Backing.mkdir_grows hmk).fds]; exact hb fd
    · exact hb fd
  · exact hb fd

/-- STEP: every event keeps the accounts. -/
theorem accounted_step (X : Ext) (c : Call) (hs : Accounted s) : Accounted (s.step X c) := by
  refine ⟨fdsHeld_step X c hs.held, fun fd hopen => ?_, dirsIssued_step X c hs.dirs⟩
  rcases step_accounted X c hs.dirs hopen with ⟨hold, hkeep⟩ | hnew
  · obtain ⟨k, hk⟩ := hs.covered fd hold
    exact ⟨k, hkeep k hk⟩
  · exact hnew

/-- ACCOUNTS: in every run of a mount that starts without descriptors, the descriptors that are open
    are the non-negative ones of the live handles, one to one; and a release of a handle that is not
    live closes nothing. -/
theorem descriptors_accounted (X : Ext) (backing : Backing) (os : Os) (saveConflicts : Bool)
    (sessionId : Bytes) (calls : List Call) (hfds : ∀ fd, backing.fds.get fd = none) :
    let s := Run.exec (step X) (mount backing os saveConflicts sessionId) calls
    (∀ fd, s.FdOpen fd ↔ ∃ k, s.holds k fd) ∧
      (∀ k k' fd, s.holds k fd → s.holds k' fd → k = k') ∧
      (∀ os pid ino fh, s.fileHandles.get fh = none →
        s.step X (.fuse os pid (.release ino fh)) = s) ∧
      ∀ os pid d, s.dirHandles.get d = none → s.step X (.fuse os pid (.releasedir d)) = s := by
  intro s
  have hs : Accounted s := Run.exec_of_inv (fun _ c h _ => accounted_step X c h) calls _
    (accounted_mount hfds os saveConflicts sessionId)
    (Run.along_of_forall (P := fun _ => True) calls _ fun _ _ => trivial)
  refine ⟨fun fd => ⟨hs.covered fd, fun ⟨k, hk⟩ => hs.held.isOpen k fd hk⟩, hs.held.unique, ?_, ?_⟩
  · intro os pid ino fh hnone
    rw [step, out, handle, release, hnone]
  · intro os pid d hnone
    rw [step, out, handle, releasedir, hnone]

/-- Two opens of `f`, one of them refused, a directory handle, and a release made twice. -/
theorem released_twice_accounted :
    let s := Run.exec (step sampleExt) sampleMount
      [.fuse {} 7 (.lookup 1 fName), .fuse {} 7 (.open_ 10 O_WRONLY),
        .fuse { fd := 4 } 8 (.open_ 10 O_WRONLY), .fuse { fd := 5 } 8 (.opendir 1),
        .fuse {} 7 (.release 10 1), .fuse {} 7 (.release 10 1)]
    ∀ fd, s.FdOpen fd ↔ ∃ k, s.holds k fd :=
  (descriptors_accounted sampleExt sampleBacking {} false [] _ fun _ => rfl).1

end Dibs.DibsFs
