import Dibs.Fs.Transitions

/-! Owner liveness: no lock outlives its handle. `release` gives back the path stored in the handle,
    so a lock is stuck as soon as an entry names a handle whose stored path is another one. Two
    requests can bring that about: a rename of an owned path (the entry moves, the handle's path does
    not) and a truncation through a handle of an inode that has another path by now. In every run
    without them, each owner is a live handle on the path it owns. -/

namespace Dibs.DibsFs

/-- Every recorded owner is a live handle on that very path. -/
def OwnerLive (s : DibsFs) : Prop :=
  ∀ p fh, s.casTable.owner p = some fh → ∃ h, s.fileHandles.get fh = some h ∧ h.path = p

/-- No live handle is on the path. -/
def Unused (s : DibsFs) (p : Path) : Prop := ∀ fh h, s.fileHandles.get fh = some h → h.path ≠ p

/-- A rename that is carried out does not move an owned path to another one, and a truncation that
    carries a handle carries a live one, opened at the path the inode has now. -/
def KeepsOwners (X : Ext) (s : DibsFs) : Call → Prop
  | .fuse os pid (.rename parent name newparent newname _) =>
      let old := s.resolvePath parent name
      let new := s.resolvePath newparent newname
      old ≠ new → s.staleReceipt X os (getSid os pid) old = false →
      ¬ (s.backing.pathExists new = true ∧ s.staleReceipt X os (getSid os pid) new = true) →
      ∀ b, s.backing.rename os old new = .ok b → s.casTable.owner old = none
  | .fuse _ _ (.setattr ino a) => ∀ rel fh, s.inodes.getPath ino = some rel → a.fh = some fh →
      a.size ≠ none → ∃ h, s.fileHandles.get fh = some h ∧ h.path = rel
  | _ => True

variable {X : Ext} {s : DibsFs}

theorem ownerLive_mount (b : Backing) (os : Os) (sc : Bool) (sid : Bytes) :
    OwnerLive (mount b os sc sid) := by
  intro p fh ho
  simp [mount] at ho

/-- A handle that acquires a path within the condition is live on it. -/
theorem live_of_acquires {c : Call} {p : Path} {fh : ℕ} (ha : Acquires (X := X) s p fh c)
    (hc : KeepsOwners X s c) :
    ∃ h, (s.step X c).fileHandles.get fh = some h ∧ h.path = p := by
  cases ha with
  | opened h _ hp hh => exact ⟨h, hh, hp⟩
  | @truncating os pid ino size a ht hfh =>
    obtain ⟨h, hh, hp⟩ := hc p fh ht.path hfh (by rw [ht.size]; simp)
    obtain ⟨h', hh', hid⟩ := step_handle X (.fuse os pid (.setattr ino a)) hh (by simp)
    exact ⟨h', hh', hid.path.trans hp⟩
  | @writing os pid ino offset data h hh hp =>
    obtain ⟨h', hh', hid⟩ := step_handle X (.fuse os pid (.write ino fh offset data)) hh (by simp)
    exact ⟨h', hh', hid.path.trans hp⟩
  | moved b hnew hne ho hst hdst hb =>
    subst hnew
    have hnone := hc hne hst hdst b hb
    rw [hnone] at ho
    cases ho

/-- STEP: owner liveness is kept by every event within the condition. -/
theorem ownerLive_step {c : Call} (hs : OwnerLive s) (hc : KeepsOwners X s c) :
    OwnerLive (s.step X c) := by
  intro p fh ho
  rcases step_owner ho with ⟨hold, hrel⟩ | ha
  · obtain ⟨h, hh, hp⟩ := hs p fh hold
    have hnot : ∀ os pid ino, c ≠ .fuse os pid (.release ino fh) :=
      fun os pid ino heq => hrel os pid ino h heq hh hp
    obtain ⟨h', hh', hid⟩ := step_handle X c hh hnot
    exact ⟨h', hh', hid.path.trans hp⟩
  · exact live_of_acquires ha hc

/-- RUN: from owner liveness, through every run within the condition. -/
theorem ownerLive_exec {calls : List Call} (hs : OwnerLive s)
    (hrun : Run.Along (step X) (KeepsOwners X) s calls) :
    OwnerLive (Run.exec (step X) s calls) :=
  Run.exec_of_inv (fun _ _ hs hc => ownerLive_step hs hc) calls s hs hrun

theorem owner_of_unused (hs : OwnerLive s) {p : Path} (hp : s.Unused p) :
    s.casTable.owner p = none := by
  cases ho : s.casTable.owner p with
  | none => rfl
  | some fh =>
    obtain ⟨h, hh, hpath⟩ := hs p fh ho
    exact absurd hpath (hp fh h hh)

/-- An open is only refused for an owner if the path has one. -/
theorem open_not_owned {os : Os} {sid ino : ℕ} {flags : OpenFlags} {p : Path}
    (hino : s.inodes.getPath ino = some p) (ho : s.casTable.owner p = none) (q : Path) (x : ℕ) :
    (s.open_ X os sid ino flags).warn ≠ some (.open_ (.owned q x)) := by
  have hout := s.open_out X os sid ino flags
  generalize s.open_ X os sid ino flags = o at hout
  intro hw
  cases hout with
  | failed e => simp [fail] at hw
  | virtual _ => simp at hw
  | read rel b fd _ _ _ _ => simp [openRead] at hw
  | write rel b fd _ hrel _ _ =>
    rw [hino] at hrel
    obtain rfl := Option.some.inj hrel
    have hout := s.openWrite_out os sid p flags (hashFile X s.backing os p) b fd
    generalize s.openWrite os sid p flags (hashFile X s.backing os p) b fd = o at hw hout
    cases hout with
    | granted actual cas _ _ => simp at hw
    | unhashed _ => simp at hw
    | rejected actual e _ hr =>
      obtain rfl : e = .owned q x := by simpa using hw
      rcases hr with ⟨y, -, hy, -⟩ | ⟨-, hc⟩
      · rw [ho] at hy; cases hy
      · -- the comparison of hashes has its own two errors
        rw [CasTable.casCheck] at hc
        split at hc
        · cases hc
        · split at hc
          · split at hc <;> cases hc
          · split at hc
            · split at hc <;> cases hc
            · cases hc

/-- NO STUCK LOCK: in every run of a mount within the condition, every owner is a live handle on its
    path; so a path without live handles has no owner, and no open of it is refused for one. -/
theorem owners_live (X : Ext) (backing : Backing) (os : Os) (saveConflicts : Bool)
    (sessionId : Bytes) (calls : List Call)
    (hrun : Run.Along (step X) (KeepsOwners X) (mount backing os saveConflicts sessionId) calls) :
    OwnerLive (Run.exec (step X) (mount backing os saveConflicts sessionId) calls) ∧
      ∀ p, Unused (Run.exec (step X) (mount backing os saveConflicts sessionId) calls) p →
        (Run.exec (step X) (mount backing os saveConflicts sessionId) calls).casTable.owner p =
          none ∧
        ∀ os' sid ino flags,
          (Run.exec (step X) (mount backing os saveConflicts sessionId) calls).inodes.getPath ino =
            some p →
          ∀ q x, ((Run.exec (step X) (mount backing os saveConflicts sessionId) calls).open_ X os'
            sid ino flags).warn ≠ some (.open_ (.owned q x)) := by
  have hlive := ownerLive_exec (ownerLive_mount backing os saveConflicts sessionId) hrun
  refine ⟨hlive, fun p hp => ?_⟩
  have hnone := owner_of_unused hlive hp
  exact ⟨hnone, fun os' sid ino flags hino q x => open_not_owned hino hnone q x⟩

/-- Session 8 opens `f`, truncates and writes through the handle, then flushes and releases. -/
def writeCycle : List Call :=
  [.fuse {} 8 (.lookup 1 fName), .fuse {} 8 (.open_ 10 O_WRONLY),
    .fuse {} 8 (.setattr 10 { size := some 0, fh := some 1 }),
    .fuse {} 8 (.write 10 1 0 [0x62]), .fuse {} 8 (.flush 10 1), .fuse {} 8 (.release 10 1)]

/-- The cycle leaves no owner behind. -/
theorem writeCycle_owners_live :
    Run.Along (step sampleExt) (KeepsOwners sampleExt) sampleMount writeCycle ∧
      OwnerLive (Run.exec (step sampleExt) sampleMount writeCycle) := by
  have hrun : Run.Along (step sampleExt) (KeepsOwners sampleExt) sampleMount writeCycle := by
    refine ⟨trivial, trivial, ?_, trivial, trivial, trivial, trivial⟩
    rintro rel fh hrel hfh -
    obtain rfl : 1 = fh := Option.some.inj hfh
    have hpath : (step sampleExt (step sampleExt sampleMount (.fuse {} 8 (.lookup 1 fName)))
        (.fuse {} 8 (.open_ 10 O_WRONLY))).inodes.getPath 10 = some [fName] := by decide +kernel
    rw [hpath] at hrel
    obtain rfl := Option.some.inj hrel
    exact ⟨⟨1, 3, [fName], none, O_WRONLY, false, 8⟩, by decide +kernel, rfl⟩
  exact ⟨hrun, (owners_live sampleExt sampleBacking {} false [] writeCycle hrun).1⟩

/-- Session 8 opens `f` for writing, `f` is renamed to `g`, and the handle is released. -/
def renamedWhileOpen : List Call :=
  [.fuse {} 8 (.lookup 1 fName), .fuse {} 8 (.open_ 10 O_WRONLY),
    .fuse {} 8 (.rename 1 fName 1 [0x67] 0), .fuse {} 8 (.release 10 1)]

/-- No handle is left, yet `g` is owned by the released handle and an open of `g` gets `EIO`. -/
theorem renamed_file_stays_locked :
    Reachable sampleExt (Run.exec (step sampleExt) sampleMount renamedWhileOpen) ∧
      ¬ OwnerLive (Run.exec (step sampleExt) sampleMount renamedWhileOpen) ∧
      (Run.exec (step sampleExt) sampleMount renamedWhileOpen).fileHandles.handles.iter = [] ∧
      (Run.exec (step sampleExt) sampleMount renamedWhileOpen).casTable.owner [[0x67]] = some 1 ∧
      ((Run.exec (step sampleExt) sampleMount renamedWhileOpen).open_ sampleExt {} 7 10
        O_WRONLY).reply = .error .eio ∧
      ((Run.exec (step sampleExt) sampleMount renamedWhileOpen).open_ sampleExt {} 7 10
        O_WRONLY).warn = some (.open_ (.owned [[0x67]] 1)) := by
  have howner : (Run.exec (step sampleExt) sampleMount renamedWhileOpen).casTable.owner [[0x67]] =
      some 1 := by decide +kernel
  refine ⟨sampleMount_reachable.exec (by decide +kernel), ?_, by decide +kernel, howner,
    by decide +kernel, by decide +kernel⟩
  intro hlive
  obtain ⟨h, hh, -⟩ := hlive _ _ howner
  have hnone : (Run.exec (step sampleExt) sampleMount renamedWhileOpen).fileHandles.get 1 = none := by
    decide +kernel
  rw [hnone] at hh
  cases hh

end Dibs.DibsFs
