import Dibs.Fs.Cas
import Dibs.Fs.Handles

/-! The CAS table (`src/state/hash_table.rs`): `entries` says which handle may write a path,
    `readerHashes` what each session last saw of it. Two projections carry all later reasoning:
    `owner` (the write owner recorded for a path) and `getReaderHash` (a session's receipt). Each
    operation gets one equation for each of them. -/

namespace Dibs

structure FileState where
  writeOwner : Option ℕ
  lastAccess : Time
  deriving DecidableEq, Repr

structure ReaderEntry where
  hash : Bytes
  lastAccess : Time
  deriving DecidableEq, Repr

/-- Why `check_and_acquire_write` refuses: the data of its three messages. -/
inductive CasError where
  /-- "Write ownership conflict on {path}: owned by handle {owner}" -/
  | owned (path : Path) (owner : ℕ)
  /-- "CAS conflict on {path}: expected {expected}, found {found}" -/
  | handleHash (path : Path) (expected found : Bytes)
  /-- "CAS conflict on {path}: reader hash {reader}, current {current}" -/
  | readerHash (path : Path) (reader current : Bytes)
  deriving DecidableEq, Repr

structure CasTable where
  entries : FinMap Path FileState := .empty
  readerHashes : FinMap (ℕ × Path) ReaderEntry := .empty

namespace CasTable

def new : CasTable := {}

/-- Record a reader's hash for a (SID, path) pair. -/
def recordReader (t : CasTable) (now : Time) (path : Path) (hash : Bytes) (sid : ℕ) : CasTable :=
  { t with readerHashes := t.readerHashes.insert (sid, path) ⟨hash, now⟩ }

/-- Ensure a write-ownership entry exists for a path. -/
def ensureEntry (t : CasTable) (now : Time) (path : Path) : CasTable :=
  match t.entries.get path with
  | some _ => t
  | none => { t with entries := t.entries.insert path ⟨none, now⟩ }

/-- The entry `ensure_entry` leaves at a path. -/
def entryOr (t : CasTable) (now : Time) (path : Path) : FileState :=
  (t.entries.get path).getD ⟨none, now⟩

/-- Get the reader hash for a (SID, path) pair, if it exists. -/
def getReaderHash (t : CasTable) (sid : ℕ) (path : Path) : Option Bytes :=
  (t.readerHashes.get (sid, path)).map (·.hash)

/-- The comparison `check_and_acquire_write` makes once no other handle owns the path: the hash of a
    live handle if it has one, else the session's receipt if there is one. -/
def casCheck (t : CasTable) (path : Path) (fh sid : ℕ) (handles : HandleTable) (actual : Bytes) :
    Option CasError :=
  match handles.get fh with
  | none => none
  | some handle =>
    match handle.hashAtOpen with
    | some handleHash =>
      if handleHash ≠ actual then some (.handleHash path handleHash actual) else none
    | none =>
      match t.readerHashes.get (sid, path) with
      | some reader =>
        if reader.hash ≠ actual then some (.readerHash path reader.hash actual) else none
      -- blind write: no prior read to conflict with
      | none => none

/-- Check CAS and acquire write ownership for a handle. -/
def checkAndAcquireWrite (t : CasTable) (now : Time) (path : Path) (fh sid : ℕ)
    (handles : HandleTable) (actual : Bytes) : CasTable × Except CasError Unit :=
  let t := t.ensureEntry now path
  match (t.entryOr now path).writeOwner with
  | some owner =>
    if owner = fh then ({ t with entries := t.entries.insert path ⟨some fh, now⟩ }, .ok ())
    else (t, .error (.owned path owner))
  | none =>
    match t.casCheck path fh sid handles actual with
    | some e => (t, .error e)
    | none => ({ t with entries := t.entries.insert path ⟨some fh, now⟩ }, .ok ())

/-- Release write ownership for a handle. -/
def releaseWrite (t : CasTable) (path : Path) (fh : ℕ) : CasTable :=
  match t.entries.get path with
  | some state =>
    if state.writeOwner = some fh then
      { t with entries := t.entries.insert path { state with writeOwner := none } }
    else t
  | none => t

/-- Update the reader hash for a SID after a successful write + flush. -/
def updateReader (t : CasTable) (now : Time) (sid : ℕ) (path : Path) (hash : Bytes) : CasTable :=
  { t with readerHashes := t.readerHashes.insert (sid, path) ⟨hash, now⟩ }

/-- Check if a file has an active writer. -/
def hasActiveWriter (t : CasTable) (path : Path) : Bool :=
  match t.entries.get path with
  | some state => state.writeOwner.isSome
  | none => false

/-- Remove a file from tracking, with the receipts of all sessions. -/
def remove (t : CasTable) (path : Path) : CasTable :=
  ⟨t.entries.remove path, t.readerHashes.retain fun k _ => k.2 ≠ path⟩

/-- Rename a tracked file: the entry moves, then each collected receipt in turn. -/
def rename (t : CasTable) (old new : Path) : CasTable :=
  let entries :=
    match t.entries.get old with
    | some state => (t.entries.remove old).insert new state
    | none => t.entries
  let toMove := (t.readerHashes.iter.filter fun e => e.1.2 = old).map fun e => (e.1.1, e.2)
  ⟨entries,
    toMove.foldl (fun m e => (m.remove (e.1, old)).insert (e.1, new) e.2) t.readerHashes⟩

/-- Number of tracked files. -/
def len (t : CasTable) : ℕ := t.entries.len

/-- Number of active writers. -/
def activeWriters (t : CasTable) : ℕ :=
  (t.entries.iter.filter fun e => e.2.writeOwner.isSome).length

/-- Get all entries for status reporting. -/
def allEntries (t : CasTable) : List FileStateInfo :=
  t.entries.iter.map fun e => ⟨e.1, e.2.writeOwner, e.2.lastAccess⟩

/-- `chrono::Duration::from_std(..).unwrap_or_default()` on whole seconds, in nanoseconds. -/
def chronoFromStd (seconds : ℕ) : ℤ :=
  if seconds * 1000 ≤ 2 ^ 63 - 1 then (seconds : ℤ) * 10 ^ 9 else 0

/-- The first representable `DateTime<Utc>`. -/
def dateMin : ℤ := -8334601228800 * 10 ^ 9

/-- Evict entries that haven't been accessed in the given duration; `none` if the subtraction of
    the duration panics. -/
def evictOlderThan (t : CasTable) (now : Time) (seconds : ℕ) : Option CasTable :=
  let cutoff := now - chronoFromStd seconds
  if cutoff < dateMin then none
  else
    let toRemove := (t.entries.iter.filter
      fun e => e.2.writeOwner.isNone && e.2.lastAccess < cutoff).map (·.1)
    some ⟨toRemove.foldl (fun m path => m.remove path) t.entries,
      t.readerHashes.retain fun _ v => cutoff ≤ v.lastAccess⟩

/-! ### Owners and receipts -/

/-- The write owner recorded for a path. -/
def owner (t : CasTable) (path : Path) : Option ℕ := (t.entries.get path).bind (·.writeOwner)

/-- The hash the comparison would use: a live handle's own, else the session's receipt. -/
def referenceHash (t : CasTable) (path : Path) (fh sid : ℕ) (handles : HandleTable) :
    Option Bytes :=
  (handles.get fh).bind fun h => h.hashAtOpen.or (t.getReaderHash sid path)

@[simp] theorem owner_new (p : Path) : new.owner p = none := rfl

@[simp] theorem getReaderHash_new (sid : ℕ) (p : Path) : new.getReaderHash sid p = none := rfl

variable (t : CasTable) (now : Time)

theorem getReaderHash_recordReader (path : Path) (hash : Bytes) (sid sid' : ℕ) (p : Path) :
    (t.recordReader now path hash sid).getReaderHash sid' p =
      if sid' = sid ∧ p = path then some hash else t.getReaderHash sid' p := by
  simp only [getReaderHash, recordReader, FinMap.get_insert, Prod.mk.injEq]
  split <;> rfl

theorem getReaderHash_updateReader (path : Path) (hash : Bytes) (sid sid' : ℕ) (p : Path) :
    (t.updateReader now sid path hash).getReaderHash sid' p =
      if sid' = sid ∧ p = path then some hash else t.getReaderHash sid' p :=
  t.getReaderHash_recordReader now path hash sid sid' p

@[simp] theorem owner_recordReader (path : Path) (hash : Bytes) (sid : ℕ) (p : Path) :
    (t.recordReader now path hash sid).owner p = t.owner p := rfl

@[simp] theorem owner_updateReader (path : Path) (hash : Bytes) (sid : ℕ) (p : Path) :
    (t.updateReader now sid path hash).owner p = t.owner p := rfl

@[simp] theorem readerHashes_ensureEntry (path : Path) :
    (t.ensureEntry now path).readerHashes = t.readerHashes := by
  unfold ensureEntry; split <;> rfl

@[simp] theorem getReaderHash_ensureEntry (path : Path) (sid : ℕ) (p : Path) :
    (t.ensureEntry now path).getReaderHash sid p = t.getReaderHash sid p := by
  rw [getReaderHash, readerHashes_ensureEntry, getReaderHash]

@[simp] theorem owner_ensureEntry (path p : Path) :
    (t.ensureEntry now path).owner p = t.owner p := by
  unfold ensureEntry
  split
  · rfl
  · rename_i hnone
    simp only [owner, FinMap.get_insert]
    split
    · rename_i h; rw [h, hnone]; rfl
    · rfl

theorem writeOwner_entryOr (path : Path) : (t.entryOr now path).writeOwner = t.owner path := by
  unfold entryOr owner
  cases t.entries.get path <;> rfl

theorem casCheck_eq_none (path : Path) (fh sid : ℕ) (handles : HandleTable) (actual : Bytes) :
    t.casCheck path fh sid handles actual = none ↔
      ∀ r, t.referenceHash path fh sid handles = some r → r = actual := by
  unfold casCheck referenceHash getReaderHash
  cases handles.get fh with
  | none => simp
  | some h =>
    cases hh : h.hashAtOpen with
    | some x => by_cases hx : x = actual <;> simp [hh, hx]
    | none =>
      cases t.readerHashes.get (sid, path) with
      | none => simp [hh]
      | some r => by_cases hr : r.hash = actual <;> simp [hh, hr]

/-- Of the receipts the comparison reads one, the session's own for the path. -/
theorem casCheck_congr {s t : CasTable} {path : Path} {fh sid : ℕ} {handles : HandleTable}
    {actual : Bytes} (h : s.getReaderHash sid path = t.getReaderHash sid path) :
    s.casCheck path fh sid handles actual = t.casCheck path fh sid handles actual := by
  unfold getReaderHash at h
  unfold casCheck
  cases hs : s.readerHashes.get (sid, path) with
  | none =>
    cases ht : t.readerHashes.get (sid, path) with
    | none => rfl
    | some r => rw [hs, ht] at h; cases h
  | some r =>
    cases ht : t.readerHashes.get (sid, path) with
    | none => rw [hs, ht] at h; cases h
    | some r' =>
      rw [hs, ht] at h
      have hr : r.hash = r'.hash := Option.some.inj h
      simp only [hr]

@[simp] theorem casCheck_ensureEntry (p path : Path) (fh sid : ℕ) (handles : HandleTable)
    (actual : Bytes) : (t.ensureEntry now p).casCheck path fh sid handles actual =
      t.casCheck path fh sid handles actual := by
  simp only [casCheck, readerHashes_ensureEntry]

theorem owner_insert (e : FinMap Path FileState) (path : Path) (s : FileState)
    (r : FinMap (ℕ × Path) ReaderEntry) (p : Path) :
    (CasTable.mk (e.insert path s) r).owner p =
      if p = path then s.writeOwner else (CasTable.mk e r).owner p := by
  simp only [owner, FinMap.get_insert]
  split <;> rfl

/-- The call lets the handle through: it already owns the path, or nobody does and the reference hash
    does not object. Afterwards it is the owner, and `t'` differs in nothing else. -/
structure Grants (t t' : CasTable) (path : Path) (fh sid : ℕ) (handles : HandleTable)
    (actual : Bytes) : Prop where
  why : t.owner path = some fh ∨
    t.owner path = none ∧ t.casCheck path fh sid handles actual = none
  owner : ∀ p, t'.owner p = if p = path then some fh else t.owner p
  receipts : t'.readerHashes = t.readerHashes

/-- The call refuses: another handle owns the path, or nobody does and the reference hash differs. -/
def Refuses (t : CasTable) (path : Path) (fh sid : ℕ) (handles : HandleTable) (actual : Bytes)
    (e : CasError) : Prop :=
  (∃ x, x ≠ fh ∧ t.owner path = some x ∧ e = .owned path x) ∨
    t.owner path = none ∧ t.casCheck path fh sid handles actual = some e

theorem Grants.not_refuses {t t' : CasTable} {path : Path} {fh sid : ℕ} {handles : HandleTable}
    {actual : Bytes} (hg : Grants t t' path fh sid handles actual) (e : CasError) :
    ¬ t.Refuses path fh sid handles actual e := by
  rintro (⟨x, hne, hx, -⟩ | ⟨ho, hc⟩)
  · rcases hg.why with hown | ⟨hown, -⟩
    · rw [hown] at hx; exact hne (Option.some.inj hx).symm
    · rw [hown] at hx; cases hx
  · rcases hg.why with hown | ⟨-, hnone⟩
    · rw [hown] at ho; cases ho
    · rw [hnone] at hc; cases hc

/-- Nobody loses a path to a call that is let through. -/
theorem Grants.keeps {t t' : CasTable} {path : Path} {fh sid : ℕ} {handles : HandleTable}
    {actual : Bytes} (hg : Grants t t' path fh sid handles actual) {p : Path} {x : ℕ}
    (ho : t.owner p = some x) : t'.owner p = some x := by
  rw [hg.owner]
  split
  · rename_i heq
    subst heq
    rcases hg.why with hown | ⟨hnone, -⟩
    · rw [← hown, ho]
    · rw [hnone] at ho; cases ho
  · exact ho

/-- SPEC: every outcome of `check_and_acquire_write`; a refusal leaves at most an ownerless entry. -/
theorem checkAndAcquireWrite_cases (path : Path) (fh sid : ℕ) (handles : HandleTable)
    (actual : Bytes) :
    (∃ t', t.checkAndAcquireWrite now path fh sid handles actual = (t', .ok ()) ∧
      Grants t t' path fh sid handles actual) ∨
    (∃ e, t.checkAndAcquireWrite now path fh sid handles actual =
        (t.ensureEntry now path, .error e) ∧ t.Refuses path fh sid handles actual e) := by
  unfold checkAndAcquireWrite
  simp only [writeOwner_entryOr, owner_ensureEntry, casCheck_ensureEntry]
  have hacq : ∀ p, (CasTable.mk ((t.ensureEntry now path).entries.insert path ⟨some fh, now⟩)
      (t.ensureEntry now path).readerHashes).owner p =
        if p = path then some fh else t.owner p := by
    intro p
    rw [owner_insert]
    split
    · rfl
    · exact t.owner_ensureEntry now path p
  cases ho : t.owner path with
  | some x =>
    by_cases hx : x = fh
    · left
      exact ⟨_, if_pos hx, Or.inl (by rw [ho, hx]), hacq, readerHashes_ensureEntry ..⟩
    · right
      exact ⟨_, if_neg hx, Or.inl ⟨x, hx, ho, rfl⟩⟩
  | none =>
    cases hc : t.casCheck path fh sid handles actual with
    | some e => right; exact ⟨e, rfl, Or.inr ⟨ho, hc⟩⟩
    | none => left; exact ⟨_, rfl, Or.inr ⟨ho, hc⟩, hacq, readerHashes_ensureEntry ..⟩

theorem get_entries_ensureEntry (path p : Path) :
    (t.ensureEntry now path).entries.get p =
      if p = path then some (t.entryOr now path) else t.entries.get p := by
  unfold ensureEntry entryOr
  cases hp : t.entries.get path with
  | some e =>
    by_cases h : p = path
    · rw [if_pos h, h, hp]; rfl
    · rw [if_neg h]
  | none => exact FinMap.get_insert ..

/-- The decision depends on the owner of the path and on the comparison only. -/
theorem checkAndAcquireWrite_snd (path : Path) (fh sid : ℕ) (handles : HandleTable)
    (actual : Bytes) :
    (t.checkAndAcquireWrite now path fh sid handles actual).2 =
      match t.owner path with
      | some x => if x = fh then .ok () else .error (.owned path x)
      | none =>
        match t.casCheck path fh sid handles actual with
        | some e => .error e
        | none => .ok () := by
  unfold checkAndAcquireWrite
  simp only [writeOwner_entryOr, owner_ensureEntry, casCheck_ensureEntry]
  cases t.owner path with
  | some x => by_cases h : x = fh <;> simp [h]
  | none => cases t.casCheck path fh sid handles actual <;> rfl

/-- The entry of the path is the handle's after a grant, and is just made sure of by a refusal; other
    entries stay. -/
theorem get_entries_check (path : Path) (fh sid : ℕ) (handles : HandleTable) (actual : Bytes)
    (p : Path) :
    (t.checkAndAcquireWrite now path fh sid handles actual).1.entries.get p =
      if p = path then
        some (match (t.checkAndAcquireWrite now path fh sid handles actual).2 with
          | .ok _ => ⟨some fh, now⟩
          | .error _ => t.entryOr now path)
      else t.entries.get p := by
  have hgrant : ((t.ensureEntry now path).entries.insert path ⟨some fh, now⟩).get p =
      if p = path then some ⟨some fh, now⟩ else t.entries.get p := by
    rw [FinMap.get_insert, get_entries_ensureEntry]
    split <;> rfl
  unfold checkAndAcquireWrite
  simp only [writeOwner_entryOr, owner_ensureEntry, casCheck_ensureEntry]
  cases t.owner path with
  | some x =>
    by_cases h : x = fh
    · simp only [h, if_true]; exact hgrant
    · simp only [h, if_false]; exact get_entries_ensureEntry ..
  | none =>
    cases t.casCheck path fh sid handles actual with
    | some e => exact get_entries_ensureEntry ..
    | none => exact hgrant

theorem readerHashes_check (path : Path) (fh sid : ℕ) (handles : HandleTable) (actual : Bytes) :
    (t.checkAndAcquireWrite now path fh sid handles actual).1.readerHashes = t.readerHashes := by
  rcases t.checkAndAcquireWrite_cases now path fh sid handles actual with
    ⟨t', heq, hg⟩ | ⟨e, heq, -⟩
  · rw [heq]; exact hg.receipts
  · rw [heq]; exact readerHashes_ensureEntry ..

theorem getReaderHash_congr {t t' : CasTable} (h : t'.readerHashes = t.readerHashes) (sid : ℕ)
    (p : Path) : t'.getReaderHash sid p = t.getReaderHash sid p := by
  rw [getReaderHash, h, getReaderHash]

@[simp] theorem getReaderHash_releaseWrite (path : Path) (fh sid : ℕ) (p : Path) :
    (t.releaseWrite path fh).getReaderHash sid p = t.getReaderHash sid p := by
  unfold releaseWrite
  split
  · split <;> rfl
  · rfl

theorem readerHashes_releaseWrite (path : Path) (fh : ℕ) :
    (t.releaseWrite path fh).readerHashes = t.readerHashes := by
  unfold releaseWrite
  split
  · split <;> rfl
  · rfl

theorem get_entries_releaseWrite (path : Path) (fh : ℕ) (q : Path) :
    (t.releaseWrite path fh).entries.get q =
      if q = path then (t.entries.get q).map fun e =>
        if e.writeOwner = some fh then { e with writeOwner := none } else e
      else t.entries.get q := by
  unfold releaseWrite
  by_cases hq : q = path
  · subst hq
    cases he : t.entries.get q with
    | none => simp [he]
    | some e => by_cases hw : e.writeOwner = some fh <;> simp [hw, he]
  · cases he : t.entries.get path with
    | none => simp [hq]
    | some e => by_cases hw : e.writeOwner = some fh <;> simp [hw, hq, FinMap.get_insert]

theorem owner_releaseWrite (path : Path) (fh : ℕ) (p : Path) :
    (t.releaseWrite path fh).owner p =
      if p = path ∧ t.owner p = some fh then none else t.owner p := by
  unfold releaseWrite
  cases he : t.entries.get path with
  | none =>
    have hn : t.owner path = none := by rw [owner, he]; rfl
    by_cases hp : p = path
    · subst hp; simp [hn]
    · simp [hp]
  | some s =>
    have hs : t.owner path = s.writeOwner := by rw [owner, he]; rfl
    by_cases hp : p = path
    · subst hp
      by_cases hw : s.writeOwner = some fh
      · simp [hw, hs, owner_insert]
      · simp [hw, hs]
    · by_cases hw : s.writeOwner = some fh
      · simp only [hw, if_true, owner_insert, hp, if_false, false_and]
      · simp [hw, hp]

theorem hasActiveWriter_eq (path : Path) : t.hasActiveWriter path = (t.owner path).isSome := by
  unfold hasActiveWriter owner
  cases t.entries.get path <;> rfl

theorem owner_remove (path p : Path) :
    (t.remove path).owner p = if p = path then none else t.owner p := by
  simp only [owner, remove, FinMap.get_remove]
  split <;> rfl

theorem get_readerHashes_remove (path : Path) (sid : ℕ) (p : Path) :
    (t.remove path).readerHashes.get (sid, p) =
      if p = path then none else t.readerHashes.get (sid, p) := by
  rw [remove, FinMap.get_retain]
  cases t.readerHashes.get (sid, p) <;> by_cases h : p = path <;> simp [h]

theorem getReaderHash_remove (path : Path) (sid : ℕ) (p : Path) :
    (t.remove path).getReaderHash sid p = if p = path then none else t.getReaderHash sid p := by
  rw [getReaderHash, get_readerHashes_remove]
  split <;> rfl

theorem owner_rename (old new p : Path) :
    (t.rename old new).owner p =
      if t.entries.get old = none then t.owner p
      else if p = new then t.owner old
      else if p = old then none
      else t.owner p := by
  unfold rename
  cases he : t.entries.get old with
  | none => simp [owner]
  | some s =>
    have hs : t.owner old = s.writeOwner := by rw [owner, he]; rfl
    simp only [reduceCtorEq, if_false, hs]
    simp only [owner, FinMap.get_insert, FinMap.get_remove]
    split
    · rfl
    · split <;> rfl

/-- The loop of `rename` over the collected receipts: each one listed leaves `old` for `new`. -/
theorem get_moveReceipts (old new : Path) (l : List (ℕ × ReaderEntry))
    (m : FinMap (ℕ × Path) ReaderEntry) (v : ℕ → Option ReaderEntry)
    (hl : ∀ e ∈ l, v e.1 = some e.2) (sid : ℕ) (p : Path) :
    (l.foldl (fun m e => (m.remove (e.1, old)).insert (e.1, new) e.2) m).get (sid, p) =
      if sid ∈ l.map (·.1) ∧ p = new then v sid
      else if sid ∈ l.map (·.1) ∧ p = old then none
      else m.get (sid, p) := by
  induction l generalizing m with
  | nil => simp
  | cons e l ih =>
    have hv : v e.1 = some e.2 := hl e (List.mem_cons_self ..)
    have hmem : sid ∈ (e :: l).map (·.1) ↔ sid = e.1 ∨ sid ∈ l.map (·.1) := List.mem_cons
    rw [List.foldl_cons, ih _ fun x hx => hl x (List.mem_cons_of_mem _ hx), FinMap.get_insert,
      FinMap.get_remove]
    simp only [hmem, Prod.mk.injEq]
    by_cases hin : sid ∈ l.map (·.1)
    · simp only [hin, or_true, true_and]
      split
      · rfl
      · rename_i hn
        split
        · rfl
        · rename_i ho; rw [if_neg fun h => hn h.2, if_neg fun h => ho h.2]
    · simp only [hin, false_and, if_false, or_false]
      by_cases hs : sid = e.1
      · subst hs; simp only [true_and, hv]
      · simp only [hs, false_and, if_false]

theorem get_entries_rename (old new p : Path) :
    (t.rename old new).entries.get p =
      if t.entries.get old = none then t.entries.get p
      else if p = new then t.entries.get old
      else if p = old then none
      else t.entries.get p := by
  unfold rename
  cases he : t.entries.get old with
  | none => simp
  | some s =>
    simp only [reduceCtorEq, if_false, FinMap.get_insert, FinMap.get_remove]

theorem get_readerHashes_rename (old new : Path) (sid : ℕ) (p : Path) :
    (t.rename old new).readerHashes.get (sid, p) =
      if p = new then (t.readerHashes.get (sid, old)).or (t.readerHashes.get (sid, new))
      else if p = old then none
      else t.readerHashes.get (sid, p) := by
  have hmem : ∀ (sid : ℕ) (e : ReaderEntry),
      (sid, e) ∈ (t.readerHashes.iter.filter fun e => e.1.2 = old).map (fun e => (e.1.1, e.2)) ↔
        t.readerHashes.get (sid, old) = some e := by
    intro sid e
    rw [← FinMap.mem_iter, List.mem_map]
    constructor
    · rintro ⟨⟨⟨sid', p'⟩, e'⟩, hx, heq⟩
      obtain ⟨hx, hp⟩ := List.mem_filter.mp hx
      obtain ⟨rfl, rfl⟩ := Prod.mk.inj heq
      have hp : p' = old := of_decide_eq_true hp
      rw [hp] at hx
      exact hx
    · intro hx
      exact ⟨((sid, old), e), List.mem_filter.mpr ⟨hx, decide_eq_true rfl⟩, rfl⟩
  have hsid : sid ∈ ((t.readerHashes.iter.filter fun e => e.1.2 = old).map
      (fun e => (e.1.1, e.2))).map (·.1) ↔ t.readerHashes.get (sid, old) ≠ none := by
    rw [List.mem_map, Option.ne_none_iff_exists']
    constructor
    · rintro ⟨⟨sid', e⟩, he, rfl⟩
      exact ⟨e, (hmem _ e).mp he⟩
    · rintro ⟨e, he⟩
      exact ⟨(sid, e), (hmem sid e).mpr he, rfl⟩
  have hget := get_moveReceipts old new _ t.readerHashes (fun sid => t.readerHashes.get (sid, old))
    (fun e he => (hmem e.1 e.2).mp he) sid p
  simp only [rename, hget, hsid]
  by_cases hn : p = new
  · subst hn
    cases hg : t.readerHashes.get (sid, old) <;> simp
  · by_cases ho : p = old
    · subst ho
      cases hg : t.readerHashes.get (sid, p) <;> simp [hn]
    · simp [hn, ho]

/-- Every session's receipt for `old` replaces its receipt for `new`; nothing stays at `old`. -/
theorem getReaderHash_rename (old new : Path) (sid : ℕ) (p : Path) :
    (t.rename old new).getReaderHash sid p =
      if p = new then (t.getReaderHash sid old).or (t.getReaderHash sid new)
      else if p = old then none
      else t.getReaderHash sid p := by
  simp only [getReaderHash, get_readerHashes_rename]
  split
  · cases t.readerHashes.get (sid, old) <;> rfl
  · split <;> rfl

/-! ### Eviction -/

/-- What a pass keeps of the entries: those with an owner and those accessed since the cutoff. -/
theorem get_entries_evict {u : CasTable} {seconds : ℕ}
    (h : t.evictOlderThan now seconds = some u) (p : Path) :
    u.entries.get p = (t.entries.get p).filter fun e =>
      !(e.writeOwner.isNone && e.lastAccess < now - chronoFromStd seconds) := by
  rw [evictOlderThan] at h
  split at h
  · cases h
  · obtain rfl := Option.some.inj h
    rw [FinMap.get_foldl_remove]
    cases he : t.entries.get p with
    | none => rw [ite_self]; rfl
    | some e =>
      rw [Option.filter_some]
      -- the entry is on the list just when the condition holds of it
      have hmem : p ∈ (t.entries.iter.filter fun e => e.2.writeOwner.isNone &&
          e.2.lastAccess < now - chronoFromStd seconds).map (·.1) ↔
          (e.writeOwner.isNone && e.lastAccess < now - chronoFromStd seconds) = true := by
        rw [List.mem_map]
        constructor
        · rintro ⟨⟨p', e'⟩, hx, rfl⟩
          obtain ⟨hx, hst⟩ := List.mem_filter.mp hx
          have heq := (FinMap.mem_iter.mp hx).symm.trans he
          rwa [Option.some.inj heq] at hst
        · intro hst
          exact ⟨(p, e), List.mem_filter.mpr ⟨FinMap.mem_iter.mpr he, hst⟩, rfl⟩
      by_cases hst : (e.writeOwner.isNone && e.lastAccess < now - chronoFromStd seconds) = true
      · rw [if_pos (hmem.mpr hst), hst]; rfl
      · rw [if_neg (mt hmem.mp hst), Bool.eq_false_iff.mpr hst]; rfl

/-- What a pass keeps of the receipts: those recorded since the cutoff. -/
theorem get_readerHashes_evict {u : CasTable} {seconds : ℕ}
    (h : t.evictOlderThan now seconds = some u) (k : ℕ × Path) :
    u.readerHashes.get k = (t.readerHashes.get k).filter fun v =>
      now - chronoFromStd seconds ≤ v.lastAccess := by
  rw [evictOlderThan] at h
  split at h
  · cases h
  · obtain rfl := Option.some.inj h
    exact FinMap.get_retain ..

/-- Eviction drops no entry that has an owner. -/
theorem owner_evictOlderThan (seconds : ℕ) (p : Path) :
    ((t.evictOlderThan now seconds).getD t).owner p = t.owner p := by
  cases hu : t.evictOlderThan now seconds with
  | none => rfl
  | some u =>
    rw [Option.getD_some, owner, get_entries_evict t now hu, owner]
    cases he : t.entries.get p with
    | none => rfl
    | some e =>
      rw [Option.filter_some]
      cases ho : e.writeOwner with
      | none => split <;> simp [ho]
      | some x => simp [ho]

/-- Eviction adds no receipt. -/
theorem getReaderHash_evictOlderThan {seconds sid : ℕ} {p : Path} {r : Bytes}
    (h : ((t.evictOlderThan now seconds).getD t).getReaderHash sid p = some r) :
    t.getReaderHash sid p = some r := by
  cases hu : t.evictOlderThan now seconds with
  | none => rw [hu] at h; exact h
  | some u =>
    rw [hu, Option.getD_some, getReaderHash, get_readerHashes_evict t now hu] at h
    obtain ⟨v, hv, rfl⟩ := Option.map_eq_some_iff.mp h
    obtain ⟨hv, -⟩ := Option.filter_eq_some_iff.mp hv
    rw [getReaderHash, hv, Option.map_some]

end CasTable

end Dibs
