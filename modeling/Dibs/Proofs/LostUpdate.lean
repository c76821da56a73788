import Dibs.Proofs.Cycling

/-! No lost update in the read/write cycle. In every interleaving of such cycles the observer and the
    daemon agree (`Cycling`), so an `O_WRONLY` open of a session with a receipt succeeds just when the
    path is free and holds what the session last saw. -/

namespace Dibs.DibsFs

/-- No update is lost in one event: if a session with a receipt opens a path `O_WRONLY`, then it has
    seen some content of it before, gets a handle only if the path still has this content, and is
    refused exactly if the path has an owner or another content; while a handle owns a path, only
    requests that carry it change the path; and it stops owning the path only when it is released or
    flushed after a write. -/
structure NoLostUpdate (X : Ext) (s : DibsFs) (v : View) (c : Call) : Prop where
  opens : ∀ os pid ino flags p x r, c = .fuse os pid (.open_ ino flags) →
    accessMode flags = O_WRONLY → s.inodes.getPath ino = some p → s.backing.content p = some x →
    s.casTable.getReaderHash (getSid os pid) p = some r →
    ∃ y, v.seen (getSid os pid) p = some y ∧
      (∀ fh, (s.out X c).reply = .opened fh →
        x = y ∧ (s.step X c).casTable.owner p = some fh) ∧
      (hasNul p = false → ∀ b fd, s.backing.libcOpen os p flags 0 = .ok (b, fd) →
        ((s.out X c).reply = .error .eio ↔ s.casTable.owner p ≠ none ∨ x ≠ y))
  changes : ∀ p fh, s.casTable.owner p = some fh →
    (s.step X c).backing.content p ≠ s.backing.content p → carried c = some fh
  keeps : ∀ p fh, s.casTable.owner p = some fh → (s.step X c).casTable.owner p ≠ some fh →
    (∃ os pid ino, c = .fuse os pid (.release ino fh)) ∨
      ∃ os pid ino, c = .fuse os pid (.flush ino fh) ∧ v.phase fh = .written

variable {X : Ext} {C : Bytes → Prop} {s : DibsFs} {v : View} {c : Call}

/-! ### What the invariant gives -/

/-- The content of an owned path changes only in requests on the owner. -/
theorem Cycling.carried_of_changes (hs : Cycling X C s v) (hc : Cycle s v c) {p : Path} {fh : ℕ}
    (ho : s.casTable.owner p = some fh)
    (hne : (s.step X c).backing.content p ≠ s.backing.content p) : carried c = some fh := by
  obtain ⟨h, hh, rfl, -⟩ := hs.owned p fh ho
  obtain ⟨f, -, hfile, hobj⟩ := hs.fileAt hh
  have htruth := truthAt_of_truthful hs.truthful (hs.truthKept hc)
  refine htruth.changed fh h f.obj hh ho hobj fun hdata => hne ?_
  have htarget := step_target (X := X) (hc.keepsName h.path) (Backing.fileAt_iff_target.mp hfile)
  rw [Backing.content, Backing.fileAt_iff_target.mpr htarget, Backing.content, hfile,
    Option.map_some, Option.map_some, hdata]

/-- An owner gives up its path only by a release or a flush after a write. -/
theorem Cycling.keeps_owner (hs : Cycling X C s v) (hc : Cycle s v c) {p : Path} {fh : ℕ}
    (ho : s.casTable.owner p = some fh) (hne : (s.step X c).casTable.owner p ≠ some fh) :
    (∃ os pid ino, c = .fuse os pid (.release ino fh)) ∨
      ∃ os pid ino, c = .fuse os pid (.flush ino fh) ∧ v.phase fh = .written := by
  rcases step_owner_keep X c ho with hkeep | hl
  · exact absurd hkeep hne
  · cases hl with
    | @flushed os pid ino h _ hh _ hw =>
      exact Or.inr ⟨os, pid, ino, rfl, (hs.handles fh h hh).written.mp hw⟩
    | @released os pid ino h _ _ => exact Or.inl ⟨os, pid, ino, rfl⟩
    | unlinked => exact absurd hc id
    | renamed => exact absurd hc id

/-- What a receipt says: the session has seen a content with this hash. -/
theorem Cycling.seen_of_receipt (hs : Cycling X C s v) {S : ℕ} {p : Path} {r : Bytes}
    (hr : s.casTable.getReaderHash S p = some r) :
    ∃ y, v.seen S p = some y ∧ hashContent X y = r := by
  rw [hs.receipts] at hr
  exact Option.map_eq_some_iff.mp hr

/-- Among contents without collisions, a receipt is outdated just when the content is another one. -/
theorem Cycling.stale_iff (hs : Cycling X C s v) (hC : ContentsIn C s)
    (hinj : ∀ x y, C x → C y → hashContent X x = hashContent X y → x = y) {S : ℕ} {p : Path}
    {x y : Bytes} (hx : s.backing.content p = some x) (hy : v.seen S p = some y) :
    s.HasStaleReceipt S p (hashContent X x) ↔ x ≠ y := by
  have hr : s.casTable.getReaderHash S p = some (hashContent X y) := by
    rw [hs.receipts, hy, Option.map_some]
  constructor
  · rintro ⟨r, hr', hne⟩ rfl
    exact hne (Option.some.inj (hr'.symm.trans hr))
  · intro hne
    refine ⟨_, hr, fun heq => hne ?_⟩
    exact hinj x y (hC p x hx) (hs.seen S p y hy) heq.symm

/-- The reply of an `O_WRONLY` open in the cycle. -/
theorem Cycling.open_reply (hs : Cycling X C s v) (hC : ContentsIn C s)
    (hinj : ∀ x y, C x → C y → hashContent X x = hashContent X y → x = y) {os : Os}
    {pid ino : ℕ} {flags : OpenFlags} {p : Path} {x y : Bytes}
    (hc : Cycle s v (.fuse os pid (.open_ ino flags))) (hmode : accessMode flags = O_WRONLY)
    (hp : s.inodes.getPath ino = some p) (hx : s.backing.content p = some x)
    (hy : v.seen (getSid os pid) p = some y) :
    (s.out X (.fuse os pid (.open_ ino flags))).reply =
      if hasNul p then .error .einval
      else
        match s.backing.libcOpen os p flags 0 with
        | .error e => .error e
        | .ok _ =>
          if s.casTable.owner p ≠ none ∨ x ≠ y then .error .eio
          else .opened s.fileHandles.nextFh := by
  obtain ⟨hreal, -, -, p', o, hp', hfile, -, hread⟩ := hc
  obtain rfl := Option.some.inj (hp'.symm.trans hp)
  have hhash : hashFile X s.backing os p' = some (hashContent X x) := by
    simp [hashFile, hread, hx]
  have hwronly : accessMode flags ≠ O_RDONLY ∧ accessMode flags ≠ O_RDWR := by
    rw [hmode]; decide
  rw [out, handle, open_write_eq hreal hp hwronly.1, hhash]
  by_cases hnul : hasNul p' = true
  · simp [hnul, fail]
  · simp only [hnul]
    cases s.backing.libcOpen os p' flags 0 with
    | error e => simp [fail]
    | ok r =>
      obtain ⟨b, fd⟩ := r
      have hreply := (openWrite_decision hs.ownersIssued os (getSid os pid) p' flags
        (hashContent X x) b fd).1
      simp only [hwronly.2, ne_eq, not_false_eq_true, true_and, hs.stale_iff hC hinj hx hy] at hreply
      exact hreply

/-- A write-mode open that gives out a handle makes it the owner. -/
theorem Cycle.owner_of_opened {os : Os} {pid ino fh : ℕ} {flags : OpenFlags} {p : Path}
    (hc : Cycle s v (.fuse os pid (.open_ ino flags))) (hmode : accessMode flags = O_WRONLY)
    (hp : s.inodes.getPath ino = some p)
    (hop : (s.out X (.fuse os pid (.open_ ino flags))).reply = .opened fh) :
    (s.step X (.fuse os pid (.open_ ino flags))).casTable.owner p = some fh := by
  have hout := s.step_out X (.fuse os pid (.open_ ino flags))
  rw [step]
  generalize s.out X (.fuse os pid (.open_ ino flags)) = out at hout hop
  cases hout with
  | passive hq => cases hq
  | failed e _ => cases hop
  | openVirtual hv =>
    have hreal := hc.1
    rcases hv with rfl | rfl <;> exact absurd hreal (by decide)
  | openRead rel b fd hopen hm => rw [hmode] at hm; exact absurd hm (by decide)
  | openRejected => cases hop
  | openGranted rel b fd actual cas hopen _ _ hg =>
    obtain rfl := Reply.opened.inj hop
    obtain rfl := Option.some.inj (hp.symm.trans hopen.path)
    have hrdwr : accessMode flags ≠ O_RDWR := by rw [hmode]; decide
    simp only [grantedOpen, if_neg hrdwr]
    exact (hg.owner p).trans (if_pos rfl)
  | openUnhashed rel b fd hopen hm hhash =>
    obtain ⟨o, hfile, -, hread, -⟩ := hc.opensFile hopen
    rw [hashFile_eq_some.mpr ⟨hread, o, hfile.file, rfl⟩] at hhash
    cases hhash
  | nameStale rel w hf _ => cases hf
  | idle hi => simp at hi

theorem noLostUpdate_of_cycling (hs : Cycling X C s v) (hc : Cycle s v c) (hC : ContentsIn C s)
    (hinj : ∀ x y, C x → C y → hashContent X x = hashContent X y → x = y) :
    NoLostUpdate X s v c where
  opens := by
    rintro os pid ino flags p x r rfl hmode hp hx hr
    obtain ⟨y, hy, -⟩ := hs.seen_of_receipt hr
    have hreply := hs.open_reply hC hinj hc hmode hp hx hy
    refine ⟨y, hy, fun fh hop => ⟨?_, hc.owner_of_opened hmode hp hop⟩, ?_⟩
    · rw [hreply] at hop
      split at hop
      · cases hop
      · split at hop
        · cases hop
        · split at hop
          · cases hop
          · rename_i hcond
            exact not_not.mp (not_or.mp hcond).2
    · intro hnul b fd hcall
      rw [hreply, hnul, if_neg Bool.false_ne_true]
      simp only [hcall]
      split
      · rename_i hcond; exact iff_of_true rfl hcond
      · rename_i hcond; exact iff_of_false (by simp) hcond
  changes := fun _ _ ho hne => hs.carried_of_changes hc ho hne
  keeps := fun _ _ ho hne => hs.keeps_owner hc ho hne

/-- NO LOST UPDATE: in every interleaving of read and write cycles from a fresh mount, over contents
    without hash collisions, no event loses an update. -/
theorem cycles_lose_no_update (X : Ext) (C : Bytes → Prop) (backing : Backing) (os : Os)
    (saveConflicts : Bool) (sessionId : Bytes) (calls : List Call)
    (hinj : ∀ x y, C x → C y → hashContent X x = hashContent X y → x = y)
    (hrun : Run.Along (observe X) (fun w c => Cycle w.1 w.2 c ∧ ContentsIn C w.1)
      (mount backing os saveConflicts sessionId, {}) calls) :
    Run.Along (observe X) (fun w c => NoLostUpdate X w.1 w.2 c)
      (mount backing os saveConflicts sessionId, {}) calls :=
  Run.along_of_inv (I := fun w => Cycling X C w.1 w.2)
    (fun _ _ hs hc => cycling_step hs hc.1 hc.2)
    (fun _ _ hs hc => noLostUpdate_of_cycling hs hc.1 hc.2 hinj) calls _
    (cycling_mount backing os saveConflicts sessionId) hrun

theorem contentsIn_of_objects {C : Bytes → Prop} {s : DibsFs}
    (h : ∀ o, o < s.backing.nextObj → C (s.backing.dataOf o)) : ContentsIn C s := by
  intro p x hx
  obtain ⟨o, ho, rfl⟩ := Option.map_eq_some_iff.mp hx
  exact h o (Backing.fileAt_lt ho)

/-- Session 7 reads `f`, session 8 writes `b` to it and flushes, and session 7 opens `f` to write. -/
def overtaken : List Call :=
  [.fuse {} 7 (.lookup 1 fName), .fuse {} 7 (.open_ 10 O_RDONLY),
    .fuse { fd := 4 } 8 (.open_ 10 O_WRONLY), .fuse {} 8 (.write 10 2 0 [0x62]),
    .fuse {} 8 (.flush 10 2), .fuse { fd := 5 } 7 (.open_ 10 O_WRONLY)]

/-- The contents of that run. -/
def sampleContent (x : Bytes) : Prop := x = [] ∨ x = [0x61] ∨ x = [0x62]

instance (x : Bytes) : Decidable (sampleContent x) :=
  inferInstanceAs (Decidable (x = [] ∨ x = [0x61] ∨ x = [0x62]))

theorem sampleContent_inj (x y : Bytes) (hx : sampleContent x) (hy : sampleContent y)
    (h : hashContent sampleExt x = hashContent sampleExt y) : x = y := by
  rcases hx with rfl | rfl | rfl <;> rcases hy with rfl | rfl | rfl <;>
    first | rfl | exact absurd h (by decide +kernel)

theorem overtaken_loses_no_update :
    Run.Along (observe sampleExt) (fun w c => NoLostUpdate sampleExt w.1 w.2 c) (sampleMount, {})
      overtaken := by
  refine cycles_lose_no_update sampleExt sampleContent sampleBacking {} false [] overtaken
    sampleContent_inj ⟨⟨?_, ?_⟩, ⟨?_, ?_⟩, ⟨?_, ?_⟩, ⟨?_, ?_⟩, ⟨?_, ?_⟩, ⟨?_, ?_⟩, trivial⟩
  · intro st hst
    have hst' : sampleMount.backing.lstat {} [fName] = .ok ⟨.file, 1, { ino := 10 }⟩ := rfl
    cases hst'.symm.trans hst
    decide +kernel
  · exact contentsIn_of_objects (by decide +kernel)
  · exact ⟨by decide, Or.inl (by decide), by decide, [fName], 1, by decide +kernel,
      by decide +kernel, by decide +kernel, rfl⟩
  · exact contentsIn_of_objects (by decide +kernel)
  · exact ⟨by decide, Or.inr (by decide), by decide, [fName], 1, by decide +kernel,
      by decide +kernel, by decide +kernel, rfl⟩
  · exact contentsIn_of_objects (by decide +kernel)
  · exact ⟨by decide, ⟨2, 4, [fName], none, O_WRONLY, false, 8⟩, by decide +kernel, by decide,
      by decide +kernel⟩
  · exact contentsIn_of_objects (by decide +kernel)
  · exact ⟨by decide, fun _ _ => rfl⟩
  · exact contentsIn_of_objects (by decide +kernel)
  · exact ⟨by decide, Or.inr (by decide), by decide, [fName], 1, by decide +kernel,
      by decide +kernel, by decide +kernel, rfl⟩
  · exact contentsIn_of_objects (by decide +kernel)

end Dibs.DibsFs
