import Dibs.Proofs.StaleView

/-! The other routes to an empty file. `setattr` makes the content check only if the request carries a
    file handle, and then with the session and the hash of that handle; `create` makes no check at
    all. So a session whose view is outdated, or that does not own the path, is stopped only by the
    handle's own check or by the system (`TruncationStopped`). -/

namespace Dibs.DibsFs

/-- The request truncates the file at `p`: a `setattr` with a size, or a `create` with `O_TRUNC`
    that names `p`. -/
def TruncatesAt (s : DibsFs) (p : Path) : Request → Prop
  | .setattr ino a => isDibsIno ino = false ∧ s.inodes.getPath ino = some p ∧ a.size ≠ none
  | .create parent name _ flags => isDibsIno parent = false ∧ s.resolvePath parent name = p ∧
      hasFlag flags O_TRUNC = true
  | _ => False

/-- A writer in this position would be turned away at `open`: `p` has an owner that the request does
    not carry, or no owner, and the session's receipt is outdated. -/
def Blocked (s : DibsFs) (sid : ℕ) (p : Path) (actual : Bytes) (fh : Option ℕ) : Prop :=
  (∃ x, s.casTable.owner p = some x ∧ fh ≠ some x) ∨
    (s.casTable.owner p = none ∧ s.HasStaleReceipt sid p actual)

/-- The check of the handle a blocked `setattr` carries: `p` is owned, or the handle is live with a
    reference hash (its own, else the receipt of the session that opened it) that differs. -/
def HandleRefused (s : DibsFs) (p : Path) (actual : Bytes) (fh : ℕ) : Prop :=
  s.casTable.owner p ≠ none ∨ ∃ h r, s.fileHandles.get fh = some h ∧
    h.hashAtOpen.or (s.casTable.getReaderHash h.sid p) = some r ∧ r ≠ actual

/-- One of the attribute calls that the request asks for fails. -/
def AttrFault (os : Os) (a : SetattrArgs) : Prop :=
  (a.mode.isSome = true ∧ os.fault .chmod ≠ none) ∨
    ((a.uid.isSome || a.gid.isSome) = true ∧ os.fault .chown ≠ none) ∨
    ((a.atime.isSome || a.mtime.isSome) = true ∧ os.fault .utimensat ≠ none) ∨
    (a.flags.isSome = true ∧ os.fault .chflags ≠ none)

/-- What stops the truncation: the check of the handle that a `setattr` carries, the system's refusal
    of the call itself, or that the call leaves the content as it is and a later one fails. -/
def TruncationStopped (s : DibsFs) (os : Os) (p : Path) (actual : Bytes) : Request → Prop
  | .setattr _ a => hasNul p = true ∨ (∃ fh, a.fh = some fh ∧ s.HandleRefused p actual fh) ∨
      ∃ size, a.size = some size ∧
        ((∃ e, s.truncateCall os p a.fh size = .error e) ∨
          ∃ b, s.truncateCall os p a.fh size = .ok b ∧ b.content p = s.backing.content p ∧
            (AttrFault os a ∨ ∃ e, s.backing.lstat os p = .error e))
  | .create _ _ mode flags => hasNul p = true ∨
      (∃ e, s.backing.libcOpen os p (flags ||| O_CREAT) mode = .error e) ∨
      (os.fault .fstat ≠ none ∧ s.backing.content p = some [])
  | _ => True

variable {X : Ext} {s : DibsFs} {os : Os} {sid : ℕ} {p : Path}

/-! ### The calls after the truncation -/

theorem attrCall_none_iff {r : Backing × Option Errno} {w : Bool}
    {call : Backing → Except Errno Backing} :
    (attrCall r w call).2 = none ↔ r.2 = none ∧ (w = true → ∃ b, call r.1 = .ok b) := by
  obtain ⟨b, e⟩ := r
  rw [attrCall]
  cases e with
  | some e => simp
  | none =>
    cases w with
    | false => simp
    | true =>
      cases hc : call b with
      | ok b' => simp
      | error e => simp

/-- On an existing file a change of attributes only fails on the system's own account. -/
theorem changeAttr_ok_iff {b : Backing} {o : ℕ} (hfile : b.fileAt p = some o) (call : Syscall)
    (f : Attr → Attr) : (∃ b', b.changeAttr os call p f = .ok b') ↔ os.fault call = none := by
  obtain ⟨q, hres, hent⟩ := Backing.fileAt_eq_some.mp hfile
  have hfind := Backing.find_ok_iff.mpr ⟨hres, hent⟩
  rw [Backing.changeAttr, hfind]
  cases os.fault call <;> simp

theorem attrCalls_none_iff (os : Os) {b : Backing} {o : ℕ} (hfile : b.fileAt p = some o) (a : SetattrArgs) :
    (attrCalls os b p a).2 = none ↔ ¬ AttrFault os a := by
  -- every call starts from a tree with the same names
  have hok : ∀ (b' : Backing) (call : Syscall) (f : Attr → Attr), b'.tree = b.tree →
      ((∃ b'', b'.changeAttr os call p f = .ok b'') ↔ os.fault call = none) := by
    intro b' call f htree
    exact changeAttr_ok_iff ((Backing.fileAt_congr htree p).trans hfile) call f
  rw [attrCalls, attrCall_none_iff, hok _ _ _ (by simp only [attrCall_tree]), attrCall_none_iff,
    hok _ _ _ (by simp only [attrCall_tree]), attrCall_none_iff,
    hok _ _ _ (by simp only [attrCall_tree]), attrCall_none_iff, hok _ _ _ rfl, AttrFault]
  simp only [true_and, not_or, not_and, not_not, and_assoc]

theorem lstat_error_congr (os : Os) (p : Path) {b b' : Backing} (h : b'.tree = b.tree) :
    (∃ e, b'.lstat os p = .error e) ↔ ∃ e, b.lstat os p = .error e := by
  rw [Backing.lstat, Backing.lstat, Backing.find_congr h]
  split
  · simp
  · split
    · simp
    · cases b.find false p <;> simp

/-- The reply after the truncation. -/
theorem finishSetattr_error_iff {o ino : ℕ} {a : SetattrArgs}
    (hfile : s.backing.fileAt p = some o) :
    (∃ e, (s.finishSetattr os p ino a).reply = .error e) ↔
      AttrFault os a ∨ ∃ e, s.backing.lstat os p = .error e := by
  have hnone := attrCalls_none_iff os hfile a
  have hlstat := lstat_error_congr os p (attrCalls_same os s.backing p a).tree
  rw [finishSetattr]
  cases hr : (attrCalls os s.backing p a).2 with
  | some e =>
    have hfault : AttrFault os a := by
      by_contra hno
      rw [hnone.mpr hno] at hr
      cases hr
    simp [hfault, fail]
  | none =>
    have hfault := hnone.mp hr
    simp only [hfault, false_or, ← hlstat, replyAttr]
    cases (attrCalls os s.backing p a).1.lstat os p <;> simp [fail]

/-! ### setattr -/

/-- A truncation changes the content of one file. -/
theorem truncateCall_cases {fh : Option ℕ} {size : ℕ} {b : Backing}
    (h : s.truncateCall os p fh size = .ok b) : ∃ o d, b = s.backing.setData o d := by
  rw [truncateCall] at h
  split at h
  · obtain ⟨f, -, -, rfl⟩ := Backing.ftruncate_cases h
    exact ⟨_, _, rfl⟩
  · obtain ⟨o, -, rfl⟩ := Backing.truncate_cases h
    exact ⟨_, _, rfl⟩

/-- The part of `setattr` behind the check, on any CAS table. -/
theorem finishTruncate_stopped_iff (os : Os) {o : ℕ} (hfile : s.backing.fileAt p = some o) (cas : CasTable)
    (ino size : ℕ) (a : SetattrArgs) (out : Out)
    (hout : out = match finishTruncate { s with casTable := cas } os p a.fh size with
      | .error out => out
      | .ok s' => s'.finishSetattr os p ino a) :
    ((∃ e, out.reply = .error e) ∧ out.st.backing.content p = s.backing.content p) ↔
      (∃ e, s.truncateCall os p a.fh size = .error e) ∨
        ∃ b, s.truncateCall os p a.fh size = .ok b ∧ b.content p = s.backing.content p ∧
          (AttrFault os a ∨ ∃ e, s.backing.lstat os p = .error e) := by
  have hcall : truncateCall { s with casTable := cas } os p a.fh size =
    s.truncateCall os p a.fh size := rfl
  rw [finishTruncate, hcall] at hout
  cases ht : s.truncateCall os p a.fh size with
  | error e =>
    rw [ht] at hout
    subst hout
    exact ⟨fun _ => Or.inl ⟨e, rfl⟩, fun _ => ⟨⟨e, rfl⟩, rfl⟩⟩
  | ok b =>
    rw [ht] at hout
    obtain ⟨o', d, hb⟩ := truncateCall_cases ht
    have htree : b.tree = s.backing.tree := by rw [hb]; rfl
    have hfile' : b.fileAt p = some o := (Backing.fileAt_congr htree p).trans hfile
    have herr := @finishSetattr_error_iff { s with casTable := cas, backing := b } os p o ino a
      hfile'
    obtain ⟨b', r, hsame, heq⟩ :=
      finishSetattr_out { s with casTable := cas, backing := b } os p ino a
    have hcontent : b'.content p = b.content p :=
      Backing.content_congr (Backing.fileAt_congr hsame.tree p) fun o _ => hsame.data o
    rw [lstat_error_congr os p htree] at herr
    simp only at hout
    rw [← hout] at herr
    rw [herr, hout, heq]
    simp only [hcontent, reduceCtorEq, exists_false, false_or]
    constructor
    · rintro ⟨hstop, hc⟩; exact ⟨b, rfl, hc, hstop⟩
    · rintro ⟨b'', hb'', hc, hstop⟩
      obtain rfl := Except.ok.inj hb''
      exact ⟨hstop, hc⟩

/-- A carried handle of a blocked request is turned away exactly as `HandleRefused` says. -/
theorem refuses_iff_handleRefused {actual : Bytes} {fh : ℕ}
    (hb : s.Blocked sid p actual (some fh)) :
    (∃ e, s.casTable.Refuses p fh (((s.fileHandles.get fh).map (·.sid)).getD 0) s.fileHandles actual
        e) ↔ s.HandleRefused p actual fh := by
  have hcheck : (∃ e, s.casTable.casCheck p fh (((s.fileHandles.get fh).map (·.sid)).getD 0)
      s.fileHandles actual = some e) ↔ ∃ h r, s.fileHandles.get fh = some h ∧
        h.hashAtOpen.or (s.casTable.getReaderHash h.sid p) = some r ∧ r ≠ actual := by
    rw [← Option.ne_none_iff_exists', ne_eq, CasTable.casCheck_eq_none, CasTable.referenceHash]
    cases s.fileHandles.get fh with
    | none => simp
    | some h => simp
  rcases hb with ⟨x, hx, hne⟩ | ⟨hnone, -⟩
  · constructor
    · intro _; exact Or.inl (by rw [hx]; simp)
    · intro _; exact ⟨_, Or.inl ⟨x, fun heq => hne (by rw [heq]), hx, rfl⟩⟩
  · constructor
    · rintro ⟨e, ⟨x, -, hx, -⟩ | ⟨-, hc⟩⟩
      · rw [hnone] at hx; cases hx
      · exact Or.inr (hcheck.mp ⟨e, hc⟩)
    · rintro (hown | hr)
      · exact absurd hnone hown
      · obtain ⟨e, he⟩ := hcheck.mpr hr
        exact ⟨e, Or.inr ⟨hnone, he⟩⟩

theorem setattr_stopped_iff {ino : ℕ} {a : SetattrArgs} {actual : Bytes}
    (hreq : s.TruncatesAt p (.setattr ino a)) (hhash : hashFile X s.backing os p = some actual)
    (hb : s.Blocked sid p actual a.fh) :
    ((∃ e, (s.setattr X os ino a).reply = .error e) ∧
      (s.setattr X os ino a).st.backing.content p = s.backing.content p) ↔
      s.TruncationStopped os p actual (.setattr ino a) := by
  obtain ⟨hreal, hino, hsize⟩ := hreq
  obtain ⟨size, hsz⟩ := Option.ne_none_iff_exists'.mp hsize
  obtain ⟨-, o, hfile, -⟩ := hashFile_eq_some.mp hhash
  have hsizes : ∀ P : ℕ → Prop, (∃ n, a.size = some n ∧ P n) ↔ P size := by
    intro P
    constructor
    · rintro ⟨n, hn, hP⟩
      rw [hsz] at hn
      obtain rfl := Option.some.inj hn
      exact hP
    · intro hP; exact ⟨size, hsz, hP⟩
  rw [setattr, hreal, if_neg Bool.false_ne_true, hino, TruncationStopped, hsizes]
  by_cases hnul : hasNul p = true
  · simp only [hnul, if_true, true_or, iff_true]
    exact ⟨⟨.einval, rfl⟩, rfl⟩
  · simp only [hnul, hsz, Bool.false_eq_true, if_false, false_or, setattrSize]
    cases hfh : a.fh with
    | none =>
      simp only [reduceCtorEq, false_and, exists_false, false_or]
      have := finishTruncate_stopped_iff os hfile s.casTable ino size a _ rfl
      rw [hfh] at this
      exact this
    | some fh =>
      rw [hfh] at hb
      have hrefuse := refuses_iff_handleRefused hb
      have hfhs : (∃ fh', some fh = some fh' ∧ s.HandleRefused p actual fh') ↔
          s.HandleRefused p actual fh := by simp
      simp only [hfhs, ← hrefuse, hhash, Option.getD_some]
      rcases s.casTable.checkAndAcquireWrite_cases os.now p fh
        (((s.fileHandles.get fh).map (·.sid)).getD 0) s.fileHandles actual with
        ⟨cas, heq, hg⟩ | ⟨e, heq, hr⟩
      · rw [heq]
        have hno : ¬ ∃ e, s.casTable.Refuses p fh (((s.fileHandles.get fh).map (·.sid)).getD 0)
            s.fileHandles actual e := by
          rintro ⟨e, he⟩
          exact hg.not_refuses e he
        simp only [hno, false_or]
        have := finishTruncate_stopped_iff os hfile cas ino size a _ rfl
        rw [hfh] at this
        exact this
      · rw [heq]
        exact ⟨fun _ => Or.inl ⟨e, hr⟩, fun _ => ⟨⟨.eio, rfl⟩, rfl⟩⟩

/-! ### create -/

theorem create_stopped_iff {parent : ℕ} {name : Name} {mode : ℕ} {flags : OpenFlags}
    {actual : Bytes} (hreq : s.TruncatesAt p (.create parent name mode flags))
    (hhash : hashFile X s.backing os p = some actual) :
    ((∃ e, (s.create X os sid parent name mode flags).reply = .error e) ∧
      (s.create X os sid parent name mode flags).st.backing.content p = s.backing.content p) ↔
      s.TruncationStopped os p actual (.create parent name mode flags) := by
  obtain ⟨hreal, hp, htrunc⟩ := hreq
  obtain ⟨-, o, hfile, -⟩ := hashFile_eq_some.mp hhash
  rw [create, hreal, if_neg Bool.false_ne_true, hp, TruncationStopped]
  by_cases hnul : hasNul p = true
  · simp only [hnul, if_true, true_or, iff_true]
    exact ⟨⟨.einval, rfl⟩, rfl⟩
  · simp only [hnul, Bool.false_eq_true, if_false, false_or]
    cases hopen : s.backing.libcOpen os p (flags ||| O_CREAT) mode with
    | error e => simp [fail]
    | ok r =>
      obtain ⟨b, fd⟩ := r
      -- the file exists, so it is opened and emptied
      have hempty : b.content p = some [] := by
        obtain ⟨-, -, ⟨o', hf⟩ | hdir | hnew⟩ := Backing.libcOpen_cases hopen
        · have ho : b.fileAt p = some o' := (Backing.fileAt_congr hf.tree p).trans hf.file
          rw [Backing.content, ho, Option.map_some, hf.data,
            if_pos ⟨by rw [hasFlag_or, htrunc, Bool.true_or], rfl⟩]
        · rw [hdir.noFile] at hfile; cases hfile
        · rw [hnew.noFile] at hfile; cases hfile
      simp only [Backing.fstat]
      cases hf : os.fault .fstat with
      | some e =>
        have hclosed : (b.close fd).content p = some [] := hempty
        simp only [fail, hclosed, reduceCtorEq, exists_false, ne_eq, not_false_eq_true, true_and,
          false_or, Reply.error.injEq, exists_eq']
        exact eq_comm
      | none =>
        obtain ⟨f, hfd⟩ := Option.ne_none_iff_exists'.mp (Backing.libcOpen_fd hopen)
        simp only [hfd, reduceCtorEq, exists_false, ne_eq, not_true_eq_false, false_and, or_self]

/-- GUARDED TRUNCATION: a blocked truncation of a readable file gets an error and leaves the file as
    it is if and only if the check of the handle it carries, or the system, stops it. -/
theorem blocked_truncation_iff (X : Ext) (s : DibsFs) (os : Os) (sid : ℕ) (p : Path)
    (actual : Bytes) (req : Request) (hhash : hashFile X s.backing os p = some actual)
    (hreq : s.TruncatesAt p req) (hb : s.Blocked sid p actual (carries req)) :
    ((∃ e, (s.handle X os sid req).reply = .error e) ∧
      (s.handle X os sid req).st.backing.content p = s.backing.content p) ↔
      s.TruncationStopped os p actual req := by
  cases req with
  | setattr ino a => exact setattr_stopped_iff hreq hhash hb
  | create parent name mode flags => exact create_stopped_iff hreq hhash
  | _ => exact absurd hreq id

/-- Session 7 reads `f` and opens it for reading and writing; session 8 may not truncate it through a
    handle of its own while handle 2 owns it. -/
def ownedMount : DibsFs := Run.exec (step sampleExt) sampleMount
  [.fuse {} 8 (.lookup 1 fName), .fuse {} 8 (.open_ 10 O_RDONLY),
    .fuse { fd := 4 } 7 (.open_ 10 O_RDWR)]

/-- The truncation through handle 1 is answered with an error and `f` keeps its content. -/
theorem owned_truncation_stopped :
    (∃ e, (ownedMount.handle sampleExt {} 8
        (.setattr 10 { size := some 0, fh := some 1 })).reply = .error e) ∧
      (ownedMount.handle sampleExt {} 8
        (.setattr 10 { size := some 0, fh := some 1 })).st.backing.content [fName] =
          ownedMount.backing.content [fName] := by
  have howner : ownedMount.casTable.owner [fName] = some 2 := by decide +kernel
  refine (blocked_truncation_iff sampleExt ownedMount {} 8 [fName] (sampleSha256 [0x61])
    (.setattr 10 { size := some 0, fh := some 1 }) (by decide +kernel) ⟨by decide, by decide +kernel, by simp⟩
    (Or.inl ⟨2, howner, by simp [carries]⟩)).mpr ?_
  exact Or.inr (Or.inl ⟨1, rfl, Or.inl (by rw [howner]; simp)⟩)

/-- The attributes of an empty file in worked examples. -/
def emptied (ino : ℕ) : FileAttr := ⟨ino, 0, .regularFile, 0, 0, 0, 0, 0, 0⟩

/-- Session 7 has an outdated receipt for `f` and nobody owns it; its `setattr` without a handle and
    its `create` with `O_TRUNC` both succeed and empty the file session 8 wrote. -/
theorem stale_truncations_succeed :
    Reachable sampleExt staleMount ∧
      staleMount.Blocked 7 [fName] (sampleSha256 [0x62]) none ∧
      hashFile sampleExt staleMount.backing {} [fName] = some (sampleSha256 [0x62]) ∧
      staleMount.backing.content [fName] = some [0x62] ∧
      (let o := staleMount.handle sampleExt {} 7 (.setattr 10 { size := some 0 });
        o.reply = .attr (emptied 10) ∧ o.st.backing.content [fName] = some []) ∧
      (let o := staleMount.handle sampleExt { fd := 5 } 7
          (.create 1 fName 0o644 (O_WRONLY ||| O_TRUNC));
        o.reply = .created (emptied 10) 3 ∧ o.st.backing.content [fName] = some []) := by
  refine ⟨staleMount_reachable, Or.inr ⟨by decide +kernel, sampleSha256 [0x61], by decide +kernel,
    by decide +kernel⟩, by decide +kernel, by decide +kernel,
    ⟨by decide +kernel, by decide +kernel⟩, by decide +kernel, by decide +kernel⟩

end Dibs.DibsFs
