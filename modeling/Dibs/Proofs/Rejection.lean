import Dibs.Fs.Outcomes

/-! A request that `check_and_acquire_write` refuses is answered `EIO`, and the advice to agents is
    "your write was NOT applied". The check comes after `libc::open` in `open`, and a rejected write
    may leave a copy of its data behind, so the promise has exactly two exceptions (`Overwrites`):
    an `O_TRUNC` open has already emptied the file it is refused for, and a conflict copy replaces
    an older file of the same name. -/

namespace Dibs.DibsFs

/-- The reply was sent because `check_and_acquire_write` returned an error. -/
def CheckRefused (o : Out) : Prop :=
  ∃ e, o.warn = some (.open_ e) ∨ o.warn = some (.write e) ∨ o.warn = some (.truncate e)

/-- Every backing file, receipt, write owner and live handle is what it was. A saved conflict copy
    may be a new file; without conflict saving there is no new name either. -/
structure Untouched (s s' : DibsFs) : Prop where
  names : Backing.Extends s.backing.tree s'.backing.tree
  newNames : s.conflictDir = none → s'.backing.tree = s.backing.tree
  content : ∀ o, o < s.backing.nextObj → s'.backing.dataOf o = s.backing.dataOf o
  receipts : ∀ sid p, s'.casTable.getReaderHash sid p = s.casTable.getReaderHash sid p
  owners : ∀ p, s'.casTable.owner p = s.casTable.owner p
  handles : ∀ fh, s'.fileHandles.get fh = s.fileHandles.get fh

/-- What a request overwrites even if it is refused: an `O_TRUNC` open empties a file that is not
    empty, a conflict copy lands on a file with another content. -/
def Overwrites (X : Ext) (s : DibsFs) (os : Os) : Request → Prop
  | .open_ ino flags => hasFlag flags O_TRUNC = true ∧ ∃ rel o,
      s.inodes.getPath ino = some rel ∧ s.backing.fileAt rel = some o ∧ s.backing.dataOf o ≠ []
  | .write _ fh _ data => os.saved ≠ none ∧ ∃ h dir o, s.fileHandles.get fh = some h ∧
      s.conflictDir = some dir ∧ s.backing.fileAt (conflictPath X os dir h.path) = some o ∧
      s.backing.dataOf o ≠ data.take (os.saved.getD 0)
  | _ => False

variable {X : Ext} {s : DibsFs} {os : Os}

/-- A refused open has opened an existing file and closed it again. -/
theorem rejected_open_content {rel : Path} {flags : OpenFlags} {b : Backing} {fd : ℤ}
    {actual : Bytes} (hopen : s.backing.libcOpen os rel flags 0 = .ok (b, fd))
    (hpre : hashFile X s.backing os rel = some actual) :
    ∃ o, s.backing.fileAt rel = some o ∧ b.tree = s.backing.tree ∧
      ∀ o', b.dataOf o' =
        if hasFlag flags O_TRUNC = true ∧ o' = o then [] else s.backing.dataOf o' := by
  obtain ⟨-, o, ho, -⟩ := hashFile_eq_some.mp hpre
  obtain ⟨-, -, ⟨o', hfile⟩ | hdir | hnew⟩ := Backing.libcOpen_cases hopen
  · exact ⟨o', hfile.file, hfile.tree, hfile.data⟩
  · rw [hdir.noFile] at ho; cases ho
  · rw [hnew.noFile] at ho; cases ho

theorem rejected_open_untouched_iff {sid ino : ℕ} {flags : OpenFlags}
    (h : CheckRefused (s.open_ X os sid ino flags)) :
    Untouched s (s.open_ X os sid ino flags).st ↔ ¬ Overwrites X s os (.open_ ino flags) := by
  have hout := s.open_out X os sid ino flags
  generalize s.open_ X os sid ino flags = out at h hout
  obtain ⟨e, hw⟩ := h
  cases hout with
  | failed e => simp [fail] at hw
  | virtual _ => simp at hw
  | read rel b fd _ _ _ _ => simp [openRead] at hw
  | write rel b fd hd hrel hopen hm =>
    have hout := s.openWrite_out os sid rel flags (hashFile X s.backing os rel) b fd
    generalize s.openWrite os sid rel flags (hashFile X s.backing os rel) b fd = out at hw hout
    cases hout with
    | granted actual cas _ _ => simp at hw
    | unhashed _ => simp at hw
    | rejected actual e' hpre hr =>
      obtain ⟨o, ho, htree, hdata⟩ := rejected_open_content hopen hpre
      constructor
      · rintro hun ⟨htr, rel', o', hrel', ho', hne⟩
        rw [hrel] at hrel'; cases hrel'
        rw [ho] at ho'; cases ho'
        have hc := hun.content o (Backing.fileAt_lt ho)
        simp only [Backing.dataOf_close, hdata, htr, and_self, if_true] at hc
        exact hne hc.symm
      · intro hno
        refine ⟨?_, fun _ => htree, ?_, ?_, ?_, ?_⟩
        · intro p e he
          simp only [Backing.tree_close, htree]
          exact he
        · intro o' _
          simp only [Backing.dataOf_close, hdata]
          split
          · rename_i htr
            rw [htr.2]
            by_contra hne
            exact hno ⟨htr.1, rel, o, hrel, ho, fun h => hne h.symm⟩
          · rfl
        · intro sid' p; exact CasTable.getReaderHash_ensureEntry ..
        · intro p; exact CasTable.owner_ensureEntry ..
        · intro fh; exact HandleTable.get_remove_alloc ..

theorem rejected_write_untouched_iff {ino fh offset : ℕ} {data : Bytes}
    (h : CheckRefused (s.write X os ino fh offset data)) :
    Untouched s (s.write X os ino fh offset data).st ↔
      ¬ Overwrites X s os (.write ino fh offset data) := by
  have hout := s.write_out X os ino fh offset data
  generalize s.write X os ino fh offset data = out at h hout
  obtain ⟨e, hw⟩ := h
  cases hout with
  | failed e => simp [fail] at hw
  | through hh cas _ _ _ =>
    unfold writeThrough at hw
    simp only at hw
    split at hw <;> simp [fail] at hw
  | rejected hh e' _ hget ho hc =>
    unfold saveConflict
    cases hdir : s.conflictDir with
    | none =>
      constructor
      · rintro - ⟨-, _, dir, _, -, hdir', -⟩
        rw [hdir] at hdir'; cases hdir'
      · intro _
        exact ⟨fun _ _ hp => hp, fun _ => rfl, fun _ _ => rfl,
          fun _ _ => CasTable.getReaderHash_ensureEntry .., fun _ => CasTable.owner_ensureEntry ..,
          fun _ => rfl⟩
    | some dir =>
      obtain ⟨hext, -, hdata⟩ :=
        Backing.fsWrite_spec s.backing os (conflictPath X os dir hh.path) data
      constructor
      · rintro hun ⟨hsv, h', dir', o, hget', hdir', ho', hne⟩
        rw [hget] at hget'; cases hget'
        rw [hdir] at hdir'; cases hdir'
        have hlt := Backing.fileAt_lt ho'
        have hcont := hun.content o hlt
        rw [hdata o hlt, if_pos ⟨ho', hsv⟩] at hcont
        exact hne hcont.symm
      · intro hno
        refine ⟨hext, fun hn => (by rw [hdir] at hn; cases hn), ?_,
          fun _ _ => CasTable.getReaderHash_ensureEntry .., fun _ => CasTable.owner_ensureEntry ..,
          fun _ => rfl⟩
        intro o hlt
        rw [hdata o hlt]
        split
        · rename_i hhit
          by_contra hne
          exact hno ⟨hhit.2, hh, dir, o, hget, hdir, hhit.1, fun h => hne h.symm⟩
        · rfl

theorem rejected_setattr_untouched {ino : ℕ} {a : SetattrArgs}
    (h : CheckRefused (s.setattr X os ino a)) : Untouched s (s.setattr X os ino a).st := by
  have hout := s.setattr_out X os ino a
  generalize s.setattr X os ino a = out at h hout
  obtain ⟨e, hw⟩ := h
  cases hout with
  | failed e => simp [fail] at hw
  | notTruncated rel size cas e _ _ _ _ _ => simp [fail] at hw
  | truncated rel size cas b b' r _ _ _ _ _ _ => simp at hw
  | attributes b' r _ _ => simp at hw
  | rejected rel fh size e' _ _ _ _ _ =>
    exact ⟨fun _ _ hp => hp, fun _ => rfl, fun _ _ => rfl,
      fun _ _ => CasTable.getReaderHash_ensureEntry .., fun _ => CasTable.owner_ensureEntry ..,
      fun _ => rfl⟩

/-- REJECTED MEANS NOT APPLIED, exactly: a request refused by `check_and_acquire_write` leaves files,
    receipts, owners and handles alone if and only if it is not one of the two that overwrite. -/
theorem rejected_untouched_iff (X : Ext) (s : DibsFs) (os : Os) (sid : ℕ) (req : Request)
    (h : CheckRefused (s.handle X os sid req)) :
    Untouched s (s.handle X os sid req).st ↔ ¬ Overwrites X s os req := by
  by_cases hp : passive req = true
  · obtain ⟨e, hw⟩ := h
    rw [(s.passive_out X os hp sid).2] at hw
    simp at hw
  · cases req with
    | open_ ino flags => exact rejected_open_untouched_iff h
    | write ino fh offset data => exact rejected_write_untouched_iff h
    | setattr ino a => exact ⟨fun _ hf => hf, fun _ => rejected_setattr_untouched h⟩
    | flush ino fh =>
      obtain ⟨e, hw⟩ := h
      simp only [handle, flush] at hw
      split at hw
      · simp at hw
      · split at hw
        · simp at hw
        · split at hw <;> simp at hw
    | release ino fh =>
      obtain ⟨e, hw⟩ := h
      simp only [handle, release] at hw
      split at hw <;> simp at hw
    | create parent name mode flags =>
      obtain ⟨e, hw⟩ := h
      have hout := s.create_out X os sid parent name mode flags
      simp only [handle] at hw
      generalize s.create X os sid parent name mode flags = out at hw hout
      cases hout <;> simp [fail] at hw
    | unlink parent name =>
      obtain ⟨e, hw⟩ := h
      have hout := s.unlink_out X os sid parent name
      simp only [handle] at hw
      generalize s.unlink X os sid parent name = out at hw hout
      cases hout <;> simp [fail] at hw
    | rename parent name newparent newname flags =>
      obtain ⟨e, hw⟩ := h
      have hout := s.rename_out X os sid parent name newparent newname flags
      simp only [handle] at hw
      generalize s.rename X os sid parent name newparent newname flags = out at hw hout
      cases hout <;> simp [fail] at hw
    | _ => simp [passive] at hp

/-- Session 7 has an outdated receipt for `f`; its open without `O_TRUNC` is refused and `f` is
    untouched. -/
theorem rejected_untouched_at_stale_open :
    CheckRefused (staleMount.handle sampleExt { fd := 5 } 7 (.open_ 10 O_WRONLY)) ∧
      Untouched staleMount (staleMount.handle sampleExt { fd := 5 } 7 (.open_ 10 O_WRONLY)).st := by
  have href : CheckRefused (staleMount.handle sampleExt { fd := 5 } 7 (.open_ 10 O_WRONLY)) :=
    ⟨.readerHash [fName] (sampleSha256 [0x61]) (sampleSha256 [0x62]), Or.inl (by decide +kernel)⟩
  refine ⟨href, (rejected_untouched_iff _ _ _ _ _ href).mpr ?_⟩
  rintro ⟨htr, -⟩
  exact absurd htr (by decide)

/-- The same open with `O_TRUNC` is refused as well, but the content another session wrote is gone. -/
theorem rejected_open_truncates :
    Reachable sampleExt staleMount ∧
      (staleMount.handle sampleExt { fd := 5 } 7 (.open_ 10 (O_WRONLY ||| O_TRUNC))).reply =
        .error .eio ∧
      CheckRefused (staleMount.handle sampleExt { fd := 5 } 7 (.open_ 10 (O_WRONLY ||| O_TRUNC))) ∧
      staleMount.backing.content [fName] = some [0x62] ∧
      (staleMount.handle sampleExt { fd := 5 } 7
        (.open_ 10 (O_WRONLY ||| O_TRUNC))).st.backing.content [fName] = some [] ∧
      ¬ Untouched staleMount
        (staleMount.handle sampleExt { fd := 5 } 7 (.open_ 10 (O_WRONLY ||| O_TRUNC))).st := by
  refine ⟨staleMount_reachable, by decide +kernel,
    ⟨.readerHash [fName] (sampleSha256 [0x61]) (sampleSha256 [0x62]), Or.inl (by decide +kernel)⟩,
    by decide +kernel, by decide +kernel, ?_⟩
  intro hun
  exact absurd (hun.content 1 (by decide +kernel)) (by decide +kernel)

end Dibs.DibsFs
