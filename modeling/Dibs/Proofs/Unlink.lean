import Dibs.Fs.Outcomes
import Dibs.Os.Tree

/-! How `unlink` and `rename` decide, and what they leave behind. Both compare the session's receipt
    with the file before anything is changed, and every change comes after the one system call that
    can fail; so a request below a real directory is refused for its content exactly when the session
    saw another content, and an error of any kind leaves the whole state as it was. -/

namespace Dibs.DibsFs

/-- The session holds a receipt for `p`, and the daemon reads another content there. -/
def SawOther (X : Ext) (s : DibsFs) (os : Os) (sid : ℕ) (p : Path) : Prop :=
  ∃ r c, s.casTable.getReaderHash sid p = some r ∧ os.unreadable p = false ∧
    s.backing.content p = some c ∧ hashContent X c ≠ r

/-- An `EIO` that a content check of `unlink` or `rename` sends; each of them logs its warning. -/
def CasEio (o : Out) : Prop :=
  o.reply = .error .eio ∧
    ∃ p, o.warn = some (.unlink p) ∨ o.warn = some (.renameSource p) ∨ o.warn = some (.renameDest p)

/-- The name `p` is gone, with what the tables record about it, and nothing else. Where no link stands
    in the way, the name that is removed is `p` itself. -/
structure Removed (s s' : DibsFs) (p : Path) : Prop where
  name : ∃ q e, s.backing.find false p = .ok (q, e) ∧
    (∀ d n, p = d ++ [n] → n ≠ Backing.dotdot → s.backing.Direct d → q = p) ∧
    ∀ k, s'.backing.tree.get k = if k = q then none else s.backing.tree.get k
  files : s'.backing.data = s.backing.data ∧ s'.backing.attrs = s.backing.attrs ∧
    s'.backing.fds = s.backing.fds ∧ s'.backing.nextObj = s.backing.nextObj
  getIno : ∀ k, s'.inodes.getIno k = if k = p then none else s.inodes.getIno k
  getPath : ∀ j, s'.inodes.getPath j =
    if s.inodes.getIno p = some j then none else s.inodes.getPath j
  entries : ∀ k, s'.casTable.entries.get k = if k = p then none else s.casTable.entries.get k
  receipts : ∀ sid k, s'.casTable.readerHashes.get (sid, k) =
    if k = p then none else s.casTable.readerHashes.get (sid, k)
  handles : s'.fileHandles = s.fileHandles ∧ s'.dirHandles = s.dirHandles
  config : s'.sessionId = s.sessionId ∧ s'.startTime = s.startTime ∧ s'.conflictDir = s.conflictDir

/-- The requests that take a name away. -/
def takesName : Request → Bool
  | .unlink .. | .rename .. | .rmdir .. => true
  | _ => false

/-- How the session `sid` is answered in the state `s`. -/
structure DecidesExactly (X : Ext) (s : DibsFs) (os : Os) (sid : ℕ) : Prop where
  unlink : ∀ parent name, CasEio (s.unlink X os sid parent name) ↔
    isDibsIno parent = false ∧ SawOther X s os sid (s.resolvePath parent name)
  rename : ∀ parent name newparent newname flags,
    CasEio (s.rename X os sid parent name newparent newname flags) ↔
      isDibsIno parent = false ∧ isDibsIno newparent = false ∧
        (SawOther X s os sid (s.resolvePath parent name) ∨
          s.backing.pathExists (s.resolvePath newparent newname) = true ∧
            SawOther X s os sid (s.resolvePath newparent newname))
  failed : ∀ req e, takesName req = true → (s.handle X os sid req).reply = .error e →
    (s.handle X os sid req).st = s
  removed : ∀ parent name, (s.unlink X os sid parent name).reply = .ok →
    Removed s (s.unlink X os sid parent name).st (s.resolvePath parent name)

variable {X : Ext} {s : DibsFs} {os : Os} {sid : ℕ}

theorem staleReceipt_iff {p : Path} :
    s.staleReceipt X os sid p = true ↔ SawOther X s os sid p := by
  rw [staleReceipt, SawOther]
  cases hr : s.casTable.getReaderHash sid p with
  | none => simp
  | some r =>
    rw [hashFile]
    cases os.unreadable p with
    | true => simp
    | false =>
      cases s.backing.content p with
      | none => simp
      | some c =>
        simp only [Bool.false_eq_true, if_false, Option.map_some, ne_eq, decide_not, Bool.not_eq_true',
          decide_eq_false_iff_not]
        constructor
        · intro hne; exact ⟨r, c, rfl, trivial, rfl, fun heq => hne heq.symm⟩
        · rintro ⟨r', c', hr', -, hc', hne⟩
          cases hr'
          cases hc'
          exact fun heq => hne heq.symm

/-- A request the check does not come to is not refused by it. -/
theorem not_casEio_fail (e : Errno) : ¬ CasEio (s.fail e) := by
  rintro ⟨-, p, h | h | h⟩ <;> cases h

theorem not_casEio_ok {s' : DibsFs} : ¬ CasEio ⟨s', .ok, none⟩ := by
  rintro ⟨h, -⟩
  cases h

theorem unlink_casEio_iff (parent : ℕ) (name : Name) :
    CasEio (s.unlink X os sid parent name) ↔
      isDibsIno parent = false ∧ SawOther X s os sid (s.resolvePath parent name) := by
  rw [← staleReceipt_iff, unlink]
  cases hd : isDibsIno parent with
  | true => simp only [if_true]; exact iff_of_false (not_casEio_fail _) (by simp)
  | false =>
    simp only [Bool.false_eq_true, if_false, true_and]
    cases hst : s.staleReceipt X os sid (s.resolvePath parent name) with
    | true => simp only [if_true]; exact iff_of_true ⟨rfl, _, Or.inl rfl⟩ trivial
    | false =>
      simp only [Bool.false_eq_true, if_false, iff_false]
      split
      · exact not_casEio_fail _
      · split
        · exact not_casEio_fail _
        · exact not_casEio_ok

theorem rename_casEio_iff (parent : ℕ) (name : Name) (newparent : ℕ) (newname : Name) (flags : ℕ) :
    CasEio (s.rename X os sid parent name newparent newname flags) ↔
      isDibsIno parent = false ∧ isDibsIno newparent = false ∧
        (SawOther X s os sid (s.resolvePath parent name) ∨
          s.backing.pathExists (s.resolvePath newparent newname) = true ∧
            SawOther X s os sid (s.resolvePath newparent newname)) := by
  rw [← staleReceipt_iff, ← staleReceipt_iff, rename]
  by_cases hd : isDibsIno parent = true ∨ isDibsIno newparent = true
  · rw [if_pos hd]
    refine iff_of_false (not_casEio_fail _) ?_
    rintro ⟨hp, hn, -⟩
    rw [hp, hn] at hd
    simp at hd
  · rw [if_neg hd]
    obtain ⟨hp, hn⟩ := not_or.mp hd
    have hreal : isDibsIno parent = false ∧ isDibsIno newparent = false := by simpa using And.intro hp hn
    simp only [hreal, true_and]
    split
    · rename_i hst
      exact iff_of_true ⟨rfl, _, Or.inr (Or.inl rfl)⟩ (Or.inl hst)
    · rename_i hst
      split
      · rename_i hdst
        exact iff_of_true ⟨rfl, _, Or.inr (Or.inr rfl)⟩ (Or.inr hdst)
      · rename_i hdst
        refine iff_of_false ?_ (not_or.mpr ⟨hst, hdst⟩)
        split
        · exact not_casEio_fail _
        · split
          · exact not_casEio_fail _
          · exact not_casEio_ok

/-- FRAME: whatever error a request that takes a name away is answered with, nothing has changed. -/
theorem failed_unchanged {req : Request} {e : Errno} (ht : takesName req = true)
    (herr : (s.handle X os sid req).reply = .error e) : (s.handle X os sid req).st = s := by
  cases req with
  | unlink parent name =>
    have hout := s.unlink_out X os sid parent name
    simp only [handle] at herr ⊢
    generalize s.unlink X os sid parent name = o at hout herr
    cases hout with
    | failed e => rfl
    | stale _ _ => rfl
    | removed b _ _ _ => cases herr
  | rename parent name newparent newname flags =>
    have hout := s.rename_out X os sid parent name newparent newname flags
    simp only [handle] at herr ⊢
    generalize s.rename X os sid parent name newparent newname flags = o at hout herr
    cases hout with
    | failed e => rfl
    | staleSource _ _ _ => rfl
    | staleDest _ _ _ _ => rfl
    | renamed b _ _ _ _ _ => cases herr
  | rmdir parent name =>
    simp only [handle, rmdir] at herr ⊢
    split at herr
    · rename_i hd; rw [if_pos hd]; rfl
    · rename_i hd
      rw [if_neg hd]
      split at herr
      · rename_i hn; rw [if_pos hn]; rfl
      · rename_i hn
        rw [if_neg hn]
        cases hb : s.backing.rmdir os (s.resolvePath parent name) with
        | error e => rfl
        | ok b => rw [hb] at herr; cases herr
  | _ => cases ht

theorem unlink_removed {parent : ℕ} {name : Name}
    (hok : (s.unlink X os sid parent name).reply = .ok) :
    Removed s (s.unlink X os sid parent name).st (s.resolvePath parent name) := by
  have hout := s.unlink_out X os sid parent name
  generalize s.unlink X os sid parent name = o at hout hok
  cases hout with
  | failed e => cases hok
  | stale _ _ => cases hok
  | removed b _ _ hb =>
    obtain ⟨q, e, hfind, -, rfl⟩ := Backing.unlink_cases hb
    refine ⟨⟨q, e, hfind, ?_, fun k => FinMap.get_remove ..⟩, ⟨rfl, rfl, rfl, rfl⟩,
      fun k => InodeTable.getIno_removeByPath .., fun j => InodeTable.getPath_removeByPath ..,
      fun k => FinMap.get_remove .., s.casTable.get_readerHashes_remove _, ⟨rfl, rfl⟩, rfl, rfl, rfl⟩
    -- below a directory without links the resolution stays on the path
    intro d n heq hn hdir
    obtain ⟨hres, -⟩ := Backing.find_ok_iff.mp hfind
    have hon := Backing.resolve_below hdir hn
    rw [← heq, hres] at hon
    cases hon
    exact heq ▸ rfl

/-- CORRECT: in every state, the requests that take a name away decide exactly and fail cleanly. -/
theorem decides_exactly (X : Ext) (s : DibsFs) (os : Os) (sid : ℕ) : DecidesExactly X s os sid where
  unlink := unlink_casEio_iff
  rename := rename_casEio_iff
  failed := fun _ _ => failed_unchanged
  removed := fun _ _ => unlink_removed

end Dibs.DibsFs
