import Dibs.Fs.Transitions

/-! The decision of a write-mode `open`. An `O_WRONLY` open compares the session's receipt with the
    content before the open. An `O_RDWR` open is given the current hash as its own reference and as
    the session's new receipt, so the comparison cannot fail and only an owner stops it. -/

namespace Dibs.DibsFs
variable {X : Ext} {s : DibsFs}

/-- Every recorded owner is a number that was given out. -/
def OwnersIssued (s : DibsFs) : Prop :=
  ∀ p fh, s.casTable.owner p = some fh → fh < s.fileHandles.nextFh

theorem ownersIssued_step {c : Call} (hs : OwnersIssued s) (hc : s.Issued c) :
    OwnersIssued (s.step X c) := by
  intro p fh ho
  have hmono := s.step_nextFh X c
  rcases step_owner ho with ⟨hold, -⟩ | ha
  · have := hs p fh hold
    omega
  · cases ha with
    | opened h _ _ hh => exact HandleTable.live_lt _ fh h hh
    | truncating _ hfh =>
      have : fh < s.fileHandles.nextFh := hc fh hfh
      omega
    | writing h hh _ =>
      have : fh < s.fileHandles.nextFh := s.fileHandles.live_lt fh h hh
      omega
    | moved b _ _ hold _ _ _ =>
      have := hs _ fh hold
      omega

theorem ownersIssued_of_reachable (hs : Reachable X s) : OwnersIssued s := by
  refine hs.inv (I := OwnersIssued) ?_ fun _ _ h hc => ownersIssued_step h hc
  intro b os sc sid _ p fh ho
  simp [mount] at ho

/-- The session holds a receipt for the path that differs from `actual`. -/
def HasStaleReceipt (s : DibsFs) (sid : ℕ) (p : Path) (actual : Bytes) : Prop :=
  ∃ r, s.casTable.getReaderHash sid p = some r ∧ r ≠ actual

instance (sid : ℕ) (p : Path) (actual : Bytes) : Decidable (s.HasStaleReceipt sid p actual) :=
  match h : s.casTable.getReaderHash sid p with
  | none => isFalse (by rintro ⟨r, hr, -⟩; rw [h] at hr; cases hr)
  | some r =>
    if hr : r = actual then
      isFalse (by rintro ⟨r', hr', hne⟩; rw [h] at hr'; cases hr'; exact hne hr)
    else isTrue ⟨r, h, hr⟩

/-- The hash a fresh write-mode handle is compared by. -/
theorem referenceHash_opening {sid : ℕ} {p : Path} {flags : OpenFlags} {actual : Bytes} {fd : ℤ} :
    s.casTable.referenceHash p s.fileHandles.nextFh sid
        (s.opening sid p flags (some actual) fd) =
      if accessMode flags = O_RDWR then some actual else s.casTable.getReaderHash sid p := by
  rw [CasTable.referenceHash, opening, HandleTable.get_alloc, if_pos rfl, Option.bind_some]
  split <;> rfl

/-- A fresh handle is never the owner, so the check is about the owner and the receipt alone. -/
theorem refuses_opening_iff (hs : OwnersIssued s) {sid : ℕ} {p : Path} {flags : OpenFlags}
    {actual : Bytes} {fd : ℤ} :
    (∃ e, s.casTable.Refuses p s.fileHandles.nextFh sid
        (s.opening sid p flags (some actual) fd) actual e) ↔
      s.casTable.owner p ≠ none ∨ (accessMode flags ≠ O_RDWR ∧ s.HasStaleReceipt sid p actual) := by
  have hcheck : (∃ e, s.casTable.casCheck p s.fileHandles.nextFh sid
      (s.opening sid p flags (some actual) fd) actual = some e) ↔
        accessMode flags ≠ O_RDWR ∧ s.HasStaleReceipt sid p actual := by
    rw [← Option.ne_none_iff_exists', ne_eq, CasTable.casCheck_eq_none, referenceHash_opening]
    by_cases hm : accessMode flags = O_RDWR
    · simp [hm]
    · simp [hm, HasStaleReceipt]
  constructor
  · rintro ⟨e, ⟨x, -, hx, -⟩ | ⟨-, hc⟩⟩
    · exact Or.inl (by rw [hx]; simp)
    · exact Or.inr (hcheck.mp ⟨e, hc⟩)
  · intro h
    cases ho : s.casTable.owner p with
    | some x =>
      have hne : x ≠ s.fileHandles.nextFh := Nat.ne_of_lt (hs p x ho)
      exact ⟨_, Or.inl ⟨x, hne, ho, rfl⟩⟩
    | none =>
      rcases h with hown | hst
      · exact absurd ho hown
      · obtain ⟨e, he⟩ := hcheck.mpr hst
        exact ⟨e, Or.inr ⟨ho, he⟩⟩

/-- What a write-mode open does once `libc::open` succeeded on a file that can be hashed. -/
theorem openWrite_decision (hs : OwnersIssued s) (os : Os) (sid : ℕ) (p : Path)
    (flags : OpenFlags) (actual : Bytes) (b : Backing) (fd : ℤ) :
    (s.openWrite os sid p flags (some actual) b fd).reply =
        (if s.casTable.owner p ≠ none ∨
          (accessMode flags ≠ O_RDWR ∧ s.HasStaleReceipt sid p actual) then .error .eio
        else .opened s.fileHandles.nextFh) ∧
      (accessMode flags = O_RDWR → s.casTable.owner p = none →
        (s.openWrite os sid p flags (some actual) b fd).st.casTable.getReaderHash sid p =
          some actual) := by
  have hiff := @refuses_opening_iff s hs sid p flags actual fd
  have hout := s.openWrite_out os sid p flags (some actual) b fd
  generalize s.openWrite os sid p flags (some actual) b fd = o at hout
  cases hout with
  | rejected actual' e heq hr =>
    obtain rfl := Option.some.inj heq
    have hcond := hiff.mp ⟨e, hr⟩
    refine ⟨(if_pos hcond).symm, fun hm ho => ?_⟩
    rcases hcond with hown | ⟨hm', -⟩
    · exact absurd ho hown
    · exact absurd hm hm'
  | granted actual' cas heq hg =>
    obtain rfl := Option.some.inj heq
    have hcond := fun h => (hiff.mpr h).elim fun e hr => hg.not_refuses e hr
    refine ⟨(if_neg hcond).symm, fun hm _ => ?_⟩
    rw [if_pos hm, CasTable.getReaderHash_recordReader, if_pos ⟨rfl, rfl⟩]
  | unhashed heq => cases heq

/-- A write-mode open of a real file, step by step. -/
theorem open_write_eq {os : Os} {sid ino : ℕ} {p : Path} {flags : OpenFlags}
    (hreal : isDibsIno ino = false) (hino : s.inodes.getPath ino = some p)
    (hmode : accessMode flags ≠ O_RDONLY) :
    s.open_ X os sid ino flags =
      if hasNul p then s.fail .einval
      else
        match s.backing.libcOpen os p flags 0 with
        | .error e => s.fail e
        | .ok (b, fd) => s.openWrite os sid p flags (hashFile X s.backing os p) b fd := by
  have hvirtual : ¬ (ino = DIBS_STATUS_INO ∨ ino = DIBS_LOCKS_INO) := by
    rintro (rfl | rfl) <;> exact absurd hreal (by decide)
  rw [open_, if_neg hvirtual, hreal, if_neg Bool.false_ne_true, hino]
  cases hcall : s.backing.libcOpen os p flags 0 <;>
    simp only [ne_eq, hmode, not_false_eq_true, if_true, if_false, hcall]

/-- DECISION: in every reachable state, a write-mode open of a readable file either fails with the
    error of `libc::open`, or is decided by the owner, the access mode and the receipt: `O_WRONLY`
    is refused for an owner or an outdated receipt, `O_RDWR` for an owner only. An `O_RDWR` open that
    gets through leaves the current hash as the session's receipt. -/
theorem open_write_decision (X : Ext) (s : DibsFs) (hs : Reachable X s) (os : Os) (sid ino : ℕ)
    (p : Path) (flags : OpenFlags) (actual : Bytes) (hreal : isDibsIno ino = false)
    (hino : s.inodes.getPath ino = some p) (hhash : hashFile X s.backing os p = some actual)
    (hmode : accessMode flags = O_WRONLY ∨ accessMode flags = O_RDWR) :
    (s.open_ X os sid ino flags).reply =
        (if hasNul p then .error .einval
        else
          match s.backing.libcOpen os p flags 0 with
          | .error e => .error e
          | .ok _ =>
            if s.casTable.owner p ≠ none ∨
              (accessMode flags = O_WRONLY ∧ s.HasStaleReceipt sid p actual) then .error .eio
            else .opened s.fileHandles.nextFh) ∧
      ∀ fh, accessMode flags = O_RDWR → (s.open_ X os sid ino flags).reply = .opened fh →
        (s.open_ X os sid ino flags).st.casTable.getReaderHash sid p = some actual := by
  have hwrite : accessMode flags ≠ O_RDONLY := by
    rcases hmode with h | h <;> rw [h] <;> decide
  have hwronly : accessMode flags ≠ O_RDWR ↔ accessMode flags = O_WRONLY := by
    rcases hmode with h | h <;> rw [h] <;> decide
  rw [open_write_eq hreal hino hwrite, hhash]
  by_cases hnul : hasNul p = true
  · simp [hnul, fail]
  · simp only [hnul]
    cases s.backing.libcOpen os p flags 0 with
    | error e => simp [fail]
    | ok r =>
      obtain ⟨b, fd⟩ := r
      obtain ⟨hreply, hreceipt⟩ := openWrite_decision (ownersIssued_of_reachable hs) os sid p flags
        actual b fd
      simp only [hwronly] at hreply
      refine ⟨hreply, fun fh hm hop => hreceipt hm ?_⟩
      by_contra hown
      have hrej := hreply.trans (if_pos (Or.inl hown))
      cases hop.symm.trans hrej

/-- Session 7 of `staleMount` holds an outdated receipt for `f`; `O_WRONLY` is refused. -/
theorem stale_wronly_refused :
    hashFile sampleExt staleMount.backing { fd := 5 } [fName] = some (sampleSha256 [0x62]) ∧
      (staleMount.open_ sampleExt { fd := 5 } 7 10 O_WRONLY).reply = .error .eio := by
  have hhash : hashFile sampleExt staleMount.backing { fd := 5 } [fName] =
      some (sampleSha256 [0x62]) := by decide +kernel
  refine ⟨hhash, ?_⟩
  rw [(open_write_decision sampleExt staleMount staleMount_reachable { fd := 5 } 7 10 [fName] O_WRONLY
    _ (by decide) (by decide +kernel) hhash (Or.inl (by decide))).1]
  decide +kernel

/-- The same session opens the same file `O_RDWR` and gets a handle, with and without `O_TRUNC`. -/
theorem stale_rdwr_opens :
    Reachable sampleExt staleMount ∧
      staleMount.casTable.getReaderHash 7 [fName] = some (sampleSha256 [0x61]) ∧
      hashFile sampleExt staleMount.backing { fd := 5 } [fName] = some (sampleSha256 [0x62]) ∧
      sampleSha256 [0x61] ≠ sampleSha256 [0x62] ∧
      (staleMount.open_ sampleExt { fd := 5 } 7 10 O_WRONLY).reply = .error .eio ∧
      (staleMount.open_ sampleExt { fd := 5 } 7 10 O_RDWR).reply = .opened 3 ∧
      (staleMount.open_ sampleExt { fd := 5 } 7 10 (O_RDWR ||| O_TRUNC)).reply = .opened 3 :=
  ⟨staleMount_reachable, by decide +kernel, by decide +kernel, by decide +kernel,
    by decide +kernel, by decide +kernel, by decide +kernel⟩

end Dibs.DibsFs
