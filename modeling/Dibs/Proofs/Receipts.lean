import Dibs.Proofs.StaleView

/-! Receipts and other sessions. A receipt belongs to a session and a path, but `remove` and `rename`
    on the CAS table act on the receipts of all sessions at once: an unlinked path loses every
    receipt, and a renamed one takes them along. `LeavesReceipt` names the requests that keep away
    from one receipt; as long as only such requests are served, the receipt stays and an outdated
    view is refused. -/

namespace Dibs.DibsFs

/-- The event cannot touch the receipt of session `S` for `p`: it is neither a pass of the eviction
    thread nor a request of `S`, not the flush of a handle that `S` opened on `p`, no unlink of `p`,
    no rename of `p` to another name, and no rename onto `p` of a file `S` has a receipt for. -/
def LeavesReceipt (X : Ext) (S : ℕ) (p : Path) (s : DibsFs) : Call → Prop
  | .fuse os pid req => getSid os pid ≠ S ∧
      match req with
      | .flush _ fh => ∀ h, s.fileHandles.get fh = some h → ¬ (h.sid = S ∧ h.path = p)
      | .unlink parent name =>
          (s.handle X os (getSid os pid) (.unlink parent name)).reply = .ok →
          s.resolvePath parent name ≠ p
      | .rename parent name newparent newname flags =>
          (s.handle X os (getSid os pid) (.rename parent name newparent newname flags)).reply =
            .ok →
          s.resolvePath parent name ≠ s.resolvePath newparent newname →
          s.resolvePath parent name ≠ p ∧
            (s.resolvePath newparent newname = p →
              s.casTable.getReaderHash S (s.resolvePath parent name) = none)
      | _ => True
  | .evict _ _ => False
  | .outside _ => True

variable {X : Ext} {s : DibsFs} {S : ℕ} {p : Path}

theorem receipt_of_passed {os : Os} {rel : Path} {fh : Option ℕ} {cas : CasTable}
    (hpass : s.Passed X os rel fh cas) : cas.getReaderHash S p = s.casTable.getReaderHash S p := by
  rcases hpass with ⟨-, rfl⟩ | ⟨fh', -, hg⟩
  · rfl
  · exact CasTable.getReaderHash_congr hg.receipts S p

/-- STEP: such an event keeps the receipt. -/
theorem receipt_step {c : Call} (hc : LeavesReceipt X S p s c) :
    (s.step X c).casTable.getReaderHash S p = s.casTable.getReaderHash S p := by
  have hout := s.step_out X c
  have ho : s.step X c = (s.out X c).st := rfl
  have hreply : ∀ os pid req, c = .fuse os pid req →
      (s.handle X os (getSid os pid) req).reply = (s.out X c).reply := by
    rintro os pid req rfl; rfl
  generalize s.out X c = o at hout ho hreply
  rw [ho]
  cases hout with
  | passive hp => rw [(s.handle_passive X _ hp _).cas]
  | openRead rel b fd _ _ =>
    simp only [openRead]
    split
    · rw [CasTable.getReaderHash_recordReader, if_neg fun h => hc.1 h.1.symm]
    · rfl
  | openRejected rel b fd actual e _ _ _ _ => exact CasTable.getReaderHash_ensureEntry ..
  | openGranted rel b fd actual cas _ _ _ hg =>
    simp only [grantedOpen]
    split
    · rw [CasTable.getReaderHash_recordReader, if_neg fun h => hc.1 h.1.symm]
      exact CasTable.getReaderHash_congr hg.receipts S p
    · exact CasTable.getReaderHash_congr hg.receipts S p
  | openUnhashed rel b fd _ _ _ => exact CasTable.getReaderHash_ensureEntry ..
  | truncateRejected rel fh size e _ _ _ => exact CasTable.getReaderHash_ensureEntry ..
  | notTruncated rel size cas e _ hpass _ => exact receipt_of_passed hpass
  | truncated rel size cas b b' r _ hpass _ _ => exact receipt_of_passed hpass
  | writeRejected h e _ _ _ _ =>
    rw [saveConflict]
    split <;> exact CasTable.getReaderHash_ensureEntry ..
  | @writeThrough os pid ino fh offset data h cas _ _ hg =>
    obtain ⟨b, hst, -⟩ := writeThrough_st { s with casTable := cas } os fh h offset data
    rw [hst]
    rcases hg with ⟨-, rfl⟩ | ⟨-, hg⟩
    · rfl
    · exact CasTable.getReaderHash_congr hg.receipts S p
  | flushed h newHash _ hh _ _ =>
    have hne : ¬ (S = h.sid ∧ p = h.path) := fun heq => hc.2 h hh ⟨heq.1.symm, heq.2.symm⟩
    rw [stored, CasTable.getReaderHash_releaseWrite, CasTable.getReaderHash_updateReader,
      if_neg hne]
  | flushedUnhashed h _ _ _ _ => exact CasTable.getReaderHash_releaseWrite ..
  | released h _ => exact CasTable.getReaderHash_releaseWrite ..
  | created b fd attr _ _ =>
    rw [createdAt, CasTable.getReaderHash_ensureEntry, CasTable.getReaderHash_recordReader,
      if_neg fun h => hc.1 h.1.symm]
  | unlinked b _ _ _ =>
    have hne := hc.2 (hreply _ _ _ rfl)
    rw [CasTable.getReaderHash_remove, if_neg hne.symm]
  | @renamed os pid parent newparent fl name newname b _ _ _ _ _ =>
    have hrule := hc.2 (hreply _ _ _ rfl)
    rw [CasTable.getReaderHash_rename]
    by_cases heq : s.resolvePath parent name = s.resolvePath newparent newname
    · rw [heq]
      by_cases hp : p = s.resolvePath newparent newname
      · rw [if_pos hp, Option.or_self, hp]
      · rw [if_neg hp, if_neg hp]
    · obtain ⟨hold, hnew⟩ := hrule heq
      by_cases hp : p = s.resolvePath newparent newname
      · rw [if_pos hp, hnew hp.symm, Option.none_or, hp]
      · rw [if_neg hp, if_neg hold.symm]
  | evict now seconds => exact absurd hc id
  | _ => rfl

/-- RUN: the receipt is still there after any number of such events. -/
theorem receipt_exec {calls : List Call} {h : Bytes}
    (hrec : s.casTable.getReaderHash S p = some h)
    (hrun : Run.Along (step X) (LeavesReceipt X S p) s calls) :
    (Run.exec (step X) s calls).casTable.getReaderHash S p = some h :=
  Run.exec_of_inv (I := fun s => s.casTable.getReaderHash S p = some h)
    (fun _ _ hs hc => (receipt_step hc).trans hs) calls s hrec hrun

/-- An `O_WRONLY` open with an outdated receipt is answered with an error, and with `EIO` unless the
    system itself fails the open. -/
theorem stale_open_refused (hs : OwnersIssued s) {os : Os} {ino : ℕ} {flags : OpenFlags}
    {h actual : Bytes} (hrec : s.casTable.getReaderHash S p = some h)
    (hreal : isDibsIno ino = false) (hino : s.inodes.getPath ino = some p)
    (hmode : accessMode flags = O_WRONLY) (hhash : hashFile X s.backing os p = some actual)
    (hne : actual ≠ h) :
    ∃ e, (s.open_ X os S ino flags).reply = .error e ∧
      (hasNul p = false → ∀ r, s.backing.libcOpen os p flags 0 = .ok r → e = .eio) := by
  have hstale : s.HasStaleReceipt S p actual := ⟨h, hrec, fun heq => hne heq.symm⟩
  rw [open_write_eq hreal hino (by rw [hmode]; decide), hhash]
  by_cases hnul : hasNul p = true
  · rw [if_pos hnul]
    exact ⟨.einval, rfl, by simp [hnul]⟩
  · rw [if_neg hnul]
    cases hcall : s.backing.libcOpen os p flags 0 with
    | error e => exact ⟨e, rfl, by simp⟩
    | ok r =>
      obtain ⟨b, fd⟩ := r
      have hreply := (openWrite_decision hs os S p flags actual b fd).1
      rw [if_pos (Or.inr ⟨by rw [hmode]; decide, hstale⟩)] at hreply
      exact ⟨.eio, hreply, fun _ _ _ => rfl⟩

/-- RECEIPTS: from a state in which session `S` has the receipt `h` for `p`, after any events that
    leave this receipt alone, the receipt is still `h`; and if `p` now has another hash, an
    `O_WRONLY` open by `S` gets no handle. -/
theorem receipts_survive (X : Ext) (s : DibsFs) (hs : Reachable X s) (S : ℕ) (p : Path) (h : Bytes)
    (hrec : s.casTable.getReaderHash S p = some h) (calls : List Call)
    (hissued : Run.Along (step X) Issued s calls)
    (hrun : Run.Along (step X) (LeavesReceipt X S p) s calls) :
    (Run.exec (step X) s calls).casTable.getReaderHash S p = some h ∧
      ∀ os ino flags actual, isDibsIno ino = false →
        (Run.exec (step X) s calls).inodes.getPath ino = some p →
        accessMode flags = O_WRONLY →
        hashFile X (Run.exec (step X) s calls).backing os p = some actual → actual ≠ h →
        ∃ e, ((Run.exec (step X) s calls).open_ X os S ino flags).reply = .error e ∧
          (hasNul p = false →
            ∀ r, (Run.exec (step X) s calls).backing.libcOpen os p flags 0 = .ok r → e = .eio) := by
  have hkeep := receipt_exec hrec hrun
  refine ⟨hkeep, fun os ino flags actual hreal hino hmode hhash hne => ?_⟩
  exact stale_open_refused (ownersIssued_of_reachable (hs.exec hissued)) hkeep hreal hino hmode
    hhash hne

/-- Session 7 has read `f` (content `a`). -/
def readerMount : DibsFs := Run.exec (step sampleExt) sampleMount
  [.fuse {} 7 (.lookup 1 fName), .fuse {} 7 (.open_ 10 O_RDONLY)]

theorem readerMount_reachable : Reachable sampleExt readerMount :=
  sampleMount_reachable.exec (by decide +kernel)

/-- Session 8 writes `b` into `f`. -/
def foreignWrite : List Call :=
  [.fuse { fd := 4 } 8 (.open_ 10 O_WRONLY), .fuse {} 8 (.write 10 2 0 [0x62]),
    .fuse {} 8 (.flush 10 2), .fuse {} 8 (.release 10 2)]

theorem foreignWrite_leaves_receipt :
    Run.Along (step sampleExt) (LeavesReceipt sampleExt 7 [fName]) readerMount foreignWrite := by
  refine ⟨⟨by decide, trivial⟩, ⟨by decide, trivial⟩, ⟨by decide, ?_⟩, ⟨by decide, trivial⟩,
    trivial⟩
  rintro h hh ⟨hsid, -⟩
  have hget : (step sampleExt (step sampleExt readerMount (.fuse { fd := 4 } 8 (.open_ 10 O_WRONLY)))
      (.fuse {} 8 (.write 10 2 0 [0x62]))).fileHandles.get 2 =
        some ⟨2, 4, [fName], none, O_WRONLY, true, 8⟩ := by decide +kernel
  rw [hget] at hh
  obtain rfl := Option.some.inj hh
  exact absurd hsid (by decide)

/-- Session 7 keeps its receipt for `a` while session 8 writes, and its open is refused. -/
theorem receipt_survives_foreign_write :
    (Run.exec (step sampleExt) readerMount foreignWrite).casTable.getReaderHash 7 [fName] =
        some (sampleSha256 [0x61]) ∧
      ∃ e, ((Run.exec (step sampleExt) readerMount foreignWrite).open_ sampleExt { fd := 5 } 7 10
        O_WRONLY).reply = .error e := by
  obtain ⟨hkeep, hopen⟩ := receipts_survive sampleExt readerMount readerMount_reachable 7 [fName]
    (sampleSha256 [0x61]) (by decide +kernel) foreignWrite (by decide +kernel)
    foreignWrite_leaves_receipt
  obtain ⟨e, he, -⟩ := hopen { fd := 5 } 10 O_WRONLY (sampleSha256 [0x62]) (by decide)
    (by decide +kernel) (by decide) (by decide +kernel) (by decide +kernel)
  exact ⟨hkeep, e, he⟩

/-- Session 8 unlinks `f` and creates it anew with content `b`. -/
def recreated : List Call :=
  [.fuse {} 8 (.unlink 1 fName), .fuse { fd := 4, ino := 11 } 8 (.create 1 fName 0o644 O_WRONLY),
    .fuse {} 8 (.write 11 2 0 [0x62]), .fuse {} 8 (.flush 11 2), .fuse {} 8 (.release 11 2)]

/-- Session 8 moves `f` away to `g` and creates `f` anew with content `b`. -/
def movedAway : List Call :=
  [.fuse {} 8 (.rename 1 fName 1 [0x67] 0),
    .fuse { fd := 4, ino := 11 } 8 (.create 1 fName 0o644 O_WRONLY),
    .fuse {} 8 (.write 11 2 0 [0x62]), .fuse {} 8 (.flush 11 2), .fuse {} 8 (.release 11 2)]

/-- Session 8 creates `g` with content `b`; session 7 reads `g` too. -/
def otherFile : List Call :=
  [.fuse { fd := 4, ino := 11 } 8 (.create 1 [0x67] 0o644 O_WRONLY),
    .fuse {} 8 (.write 11 2 0 [0x62]), .fuse {} 8 (.flush 11 2), .fuse {} 8 (.release 11 2),
    .fuse { fd := 4 } 7 (.open_ 11 O_RDONLY)]

/-- Session 8 renames `g` onto `f`. -/
def movedOnto : List Call := [.fuse {} 8 (.rename 1 [0x67] 1 fName 0)]

/-- Session 7 opens `f` for writing and writes `b`. -/
def pendingWrite : List Call :=
  [.fuse { fd := 4 } 7 (.open_ 10 O_WRONLY), .fuse {} 7 (.write 10 2 0 [0x62])]

/-- A process of session 8 that holds a copy of that handle closes it. -/
def foreignFlush : List Call := [.fuse {} 8 (.flush 10 2)]

/-- Requests of session 8 alone take the receipt of session 7 for `f`: it is gone after an unlink or
    a rename of `f`, and replaced after a rename onto `f`; each time `f` holds `b` and session 7,
    whose last read of `f` saw `a`, opens it for writing. A flush by session 8 of a handle that
    session 7 opened replaces the receipt as well. -/
theorem foreign_requests_take_receipts :
    (Reachable sampleExt readerMount ∧
      readerMount.casTable.getReaderHash 7 [fName] = some (sampleSha256 [0x61])) ∧
    (let s := Run.exec (step sampleExt) readerMount recreated;
      s.casTable.getReaderHash 7 [fName] = none ∧ s.backing.content [fName] = some [0x62] ∧
        (s.open_ sampleExt { fd := 5 } 7 11 O_WRONLY).reply = .opened 3) ∧
    (let s := Run.exec (step sampleExt) readerMount movedAway;
      s.casTable.getReaderHash 7 [fName] = none ∧ s.backing.content [fName] = some [0x62] ∧
        (s.open_ sampleExt { fd := 5 } 7 11 O_WRONLY).reply = .opened 3) ∧
    (let s := Run.exec (step sampleExt) readerMount (otherFile ++ movedOnto);
      s.casTable.getReaderHash 7 [fName] = some (sampleSha256 [0x62]) ∧
        s.backing.content [fName] = some [0x62] ∧
        (s.open_ sampleExt { fd := 5 } 7 11 O_WRONLY).reply = .opened 4) ∧
    (Run.exec (step sampleExt) readerMount pendingWrite).casTable.getReaderHash 7 [fName] =
      some (sampleSha256 [0x61]) ∧
    (Run.exec (step sampleExt) readerMount (pendingWrite ++ foreignFlush)).casTable.getReaderHash 7
      [fName] = some (sampleSha256 [0x62]) :=
  ⟨⟨readerMount_reachable, by decide +kernel⟩,
    ⟨by decide +kernel, by decide +kernel, by decide +kernel⟩,
    ⟨by decide +kernel, by decide +kernel, by decide +kernel⟩,
    ⟨by decide +kernel, by decide +kernel, by decide +kernel⟩, by decide +kernel,
    by decide +kernel⟩

end Dibs.DibsFs
