import Dibs.Fs.Outcomes
import Dibs.Os.Tree

/-! What a rename moves. `CasTable::rename` takes the entry of the old path along only if there is one:
    onto a path that some handle owns, an untracked file arrives with the replaced file's owner still
    recorded, while a tracked file without an owner clears it. Receipts move in either case. The
    handler passes its flags to nobody, so a request that asks not to replace, or to exchange, is
    carried out as a plain rename. -/

namespace Dibs

namespace CasTable

/-- The state of the file at `old`, and nothing else, is now at `new`. -/
structure MovesFile (t t' : CasTable) (old new : Path) : Prop where
  owner : t'.owner new = t.owner old
  entry : t'.entries.get old = none
  noReceipt : ∀ sid, t'.readerHashes.get (sid, old) = none
  receipt : ∀ sid, t'.readerHashes.get (sid, new) =
    (t.readerHashes.get (sid, old)).or (t.readerHashes.get (sid, new))
  otherEntries : ∀ p, p ≠ old → p ≠ new → t'.entries.get p = t.entries.get p
  otherReceipts : ∀ sid p, p ≠ old → p ≠ new →
    t'.readerHashes.get (sid, p) = t.readerHashes.get (sid, p)

/-- Owners and receipts are what they were. -/
structure SameState (t t' : CasTable) : Prop where
  owner : ∀ p, t'.owner p = t.owner p
  receipt : ∀ k, t'.readerHashes.get k = t.readerHashes.get k

/-- What a rename is for. -/
def RenamesTo (t t' : CasTable) (old new : Path) : Prop :=
  if old = new then SameState t t' else MovesFile t t' old new

variable (t : CasTable)

theorem rename_self (p : Path) : SameState t (t.rename p p) := by
  constructor
  · intro q
    rw [owner_rename]
    split
    · rfl
    · split
      · rename_i hq; rw [hq]
      · rfl
  · rintro ⟨sid, q⟩
    rw [get_readerHashes_rename]
    split
    · rename_i hq
      rw [hq]
      cases t.readerHashes.get (sid, p) <;> rfl
    · rfl

/-- Everything but the owner at `new` is moved in every case. -/
theorem rename_movesFile_iff {old new : Path} (hne : old ≠ new) :
    MovesFile t (t.rename old new) old new ↔ (t.rename old new).owner new = t.owner old := by
  refine ⟨fun h => h.owner, fun hown => ⟨hown, ?_, ?_, ?_, ?_, ?_⟩⟩
  · rw [get_entries_rename, if_neg hne, if_pos rfl]
    split
    · assumption
    · rfl
  · intro sid
    rw [get_readerHashes_rename, if_neg hne, if_pos rfl]
  · intro sid
    rw [get_readerHashes_rename, if_pos rfl]
  · intro p hold hnew
    rw [get_entries_rename, if_neg hnew, if_neg hold, ite_self]
  · intro sid p hold hnew
    rw [get_readerHashes_rename, if_neg hnew, if_neg hold]

/-- CORRECT (exact): the call moves the file's state unless the old path is untracked and the new one
    is owned. -/
theorem rename_renamesTo_iff (old new : Path) :
    t.RenamesTo (t.rename old new) old new ↔
      old = new ∨ t.entries.get old ≠ none ∨ t.owner new = none := by
  rw [RenamesTo]
  by_cases heq : old = new
  · subst heq
    rw [if_pos rfl]
    exact ⟨fun _ => Or.inl rfl, fun _ => t.rename_self old⟩
  · rw [if_neg heq, rename_movesFile_iff t heq, owner_rename]
    cases he : t.entries.get old with
    | some e => simp
    | none =>
      have hold : t.owner old = none := by rw [owner, he]; rfl
      rw [if_pos rfl, hold]
      simp [heq]

/-- Handle 5 is writing `[1]`; the untracked file `[0]` is renamed onto it, and handle 5 still owns
    the path, though its file is gone. -/
theorem rename_untracked_keeps_owner :
    ¬ RenamesTo ⟨FinMap.empty.insert [[1]] ⟨some 5, 0⟩, .empty⟩
      (rename ⟨FinMap.empty.insert [[1]] ⟨some 5, 0⟩, .empty⟩ [[0]] [[1]]) [[0]] [[1]] := by
  rw [RenamesTo, if_neg (by decide)]
  intro h
  exact absurd h.owner (by decide)

end CasTable

/-- SPEC: what a successful `libc::rename` does to the names. -/
inductive Backing.Renames (b b' : Backing) (old new : Path) : Prop where
  /-- two names of one object: nothing to do -/
  | sameObject (p q : Path) (e e' : Entry) : b.find false old = .ok (p, e) →
      b.find false new = .ok (q, e') → e'.obj = e.obj → b' = b → Renames b b' old new
  /-- what `p` named has the name `q` now, and what `q` named before has lost it -/
  | replaced (p q : Path) (e : Entry) : b.find false old = .ok (p, e) → b.ends new q →
      (∀ k, b'.tree.get k = if q <+: k then b.tree.get (p ++ k.drop q.length)
        else if p <+: k then none else b.tree.get k) → Renames b b' old new

theorem Backing.rename_renames {b b' : Backing} {os : Os} {old new : Path}
    (h : b.rename os old new = .ok b') : b.Renames b' old new := by
  cases rename_out h with
  | same p q e e' hfind hfind' hobj => exact .sameObject p q e e' hfind hfind' hobj rfl
  | moved p q e hfind hends _ _ _ => exact .replaced p q e hfind hends (get_moveNames b.tree p q)

namespace DibsFs

/-! ### The flags of a rename request -/

/-- Exchange the two names (`RenameFlags`, with the numbers of macOS). -/
def RENAME_SWAP : ℕ := 0x2
/-- Fail if the destination exists. -/
def RENAME_EXCL : ℕ := 0x4

/-- Both files, and everything recorded about them, have changed places. -/
structure Swapped (s s' : DibsFs) (old new : Path) : Prop where
  content : s'.backing.content old = s.backing.content new ∧
    s'.backing.content new = s.backing.content old
  inodes : s'.inodes.getIno old = s.inodes.getIno new ∧ s'.inodes.getIno new = s.inodes.getIno old
  owners : s'.casTable.owner old = s.casTable.owner new ∧
    s'.casTable.owner new = s.casTable.owner old
  receipts : ∀ sid, s'.casTable.getReaderHash sid old = s.casTable.getReaderHash sid new ∧
    s'.casTable.getReaderHash sid new = s.casTable.getReaderHash sid old

/-- The outcome `o` of a rename is one its flags allow. -/
structure Respects (s : DibsFs) (old new : Path) (flags : ℕ) (o : Out) : Prop where
  excl : flags &&& RENAME_EXCL ≠ 0 → (∃ x, s.backing.find false new = .ok x) →
    (∃ e, o.reply = .error e) ∧ o.st.backing.content old = s.backing.content old ∧
      o.st.backing.content new = s.backing.content new
  swap : flags &&& RENAME_SWAP ≠ 0 →
    ((∃ e, o.reply = .error e) ∧ o.st = s) ∨ Swapped s o.st old new
  kept : flags &&& (RENAME_EXCL ||| RENAME_SWAP) ≠ 0 → ∀ c, s.backing.content new = some c →
    o.st.backing.content old = some c ∨ o.st.backing.content new = some c

/-- A rename as it is carried out without flags. -/
structure CarriedOut (s s' : DibsFs) (old new : Path) : Prop where
  names : s.backing.Renames s'.backing old new
  data : ∀ o, s'.backing.dataOf o = s.backing.dataOf o
  inodes : s'.inodes = s.inodes.rename old new
  cas : s'.casTable = s.casTable.rename old new
  handles : s'.fileHandles = s.fileHandles ∧ s'.dirHandles = s.dirHandles

variable (X : Ext) (s : DibsFs) (os : Os) (sid parent : ℕ) (name : Name) (newparent : ℕ)
  (newname : Name)

/-- CORRECT: whatever its flags are, a rename is answered like one without flags: an error leaves
    everything as it was, a success replaces the destination. -/
theorem rename_any_flags (flags : ℕ) :
    s.rename X os sid parent name newparent newname flags =
        s.rename X os sid parent name newparent newname 0 ∧
      (((∃ e, (s.rename X os sid parent name newparent newname flags).reply = .error e) ∧
          (s.rename X os sid parent name newparent newname flags).st = s) ∨
        ((s.rename X os sid parent name newparent newname flags).reply = .ok ∧
          CarriedOut s (s.rename X os sid parent name newparent newname flags).st
            (s.resolvePath parent name) (s.resolvePath newparent newname))) := by
  refine ⟨rfl, ?_⟩
  have hout := s.rename_out X os sid parent name newparent newname flags
  generalize s.rename X os sid parent name newparent newname flags = o at hout
  cases hout with
  | failed e => exact Or.inl ⟨⟨e, rfl⟩, rfl⟩
  | staleSource _ _ _ => exact Or.inl ⟨⟨.eio, rfl⟩, rfl⟩
  | staleDest _ _ _ _ => exact Or.inl ⟨⟨.eio, rfl⟩, rfl⟩
  | renamed b _ _ _ _ hb =>
    exact Or.inr ⟨rfl, Backing.rename_renames hb, (Backing.rename_sameData hb).data, rfl, rfl, rfl, rfl⟩

/-- A mount over two files: `f` holds `a`, `g` holds `b`. -/
def twoFiles : DibsFs :=
  mount ((sampleBacking.newObject [[0x67]] .file { ino := 11 }).setData 2 [0x62]) {} false []

/-- `mv -n f g`, and an exchange of `f` and `g`, both leave `a` under `g` and `b` nowhere. -/
theorem rename_ignores_flags :
    ¬ Respects twoFiles [fName] [[0x67]] RENAME_EXCL
        (twoFiles.rename sampleExt {} 7 1 fName 1 [0x67] RENAME_EXCL) ∧
      ¬ Respects twoFiles [fName] [[0x67]] RENAME_SWAP
        (twoFiles.rename sampleExt {} 7 1 fName 1 [0x67] RENAME_SWAP) := by
  have hnot : ∀ flags, flags &&& (RENAME_EXCL ||| RENAME_SWAP) ≠ 0 →
      ¬ Respects twoFiles [fName] [[0x67]] flags
        (twoFiles.rename sampleExt {} 7 1 fName 1 [0x67] flags) := by
    intro flags hbit h
    have hflags : twoFiles.rename sampleExt {} 7 1 fName 1 [0x67] flags =
        twoFiles.rename sampleExt {} 7 1 fName 1 [0x67] 0 := rfl
    have hkept := h.kept hbit [0x62] (by decide +kernel)
    rw [hflags] at hkept
    exact absurd hkept (by decide +kernel)
  exact ⟨hnot _ (by decide), hnot _ (by decide)⟩

end DibsFs

end Dibs
