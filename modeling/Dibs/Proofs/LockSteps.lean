import Dibs.State.Locks

/-! What the locks guarantee while threads are in their calls: the entries of a shard to which a guard is
    held stay in the map, one thread at a time holds a mutex, and while a check holds it nobody becomes
    the owner. -/

namespace Dibs

/-- The entry whose mutex the thread is waiting for. -/
def LockPc.wants : LockPc → Option Path
  | .lock k => some k.path
  | .releaseLock path _ | .activeLock path => some path
  | .look _ _ (path :: _) => some path
  | _ => none

/-- The scan a thread is in, if it is about to go to another shard, and which one that is. -/
def LockPc.next : LockPc → Option (Scan × ℕ)
  | .scan j => some (j, 0)
  | .look j shard [] => some (j, shard + 1)
  | _ => none

/-- Where the thread stands after a step. -/
def Next.after (pc : LockPc) : Next → Option LockPc
  | .waits => some pc
  | .goesOn pc' => some pc'
  | .panics | .returns _ | .scanned _ => none

namespace Locked

/-- What holds of the tables and the threads whatever the threads do. -/
structure Steady (S : Shards) (c : Locked) : Prop where
  entry : ∀ tid pc p, c.pcs.get tid = some pc → p ∈ pc.pins →
    pc.guard S = some (S.entries p) ∧ ∃ state, c.table.entries.get p = some state
  alone : ∀ i j pc pc' p, c.pcs.get i = some pc → c.pcs.get j = some pc' → pc.mutex = some p →
    pc'.mutex = some p → i = j
  free : ∀ tid pc p, c.pcs.get tid = some pc → pc.mutex = some p → c.table.owner p = none
  hashless : ∀ tid k, c.pcs.get tid = some (.receipt k) →
    ∃ h, c.handles.get k.fh = some h ∧ h.hashAtOpen = none

/-- A check is about to compare hashes: it has read the handle's, or the handle has none. -/
inductive Comparing (c : Locked) : LockPc → CheckArgs → Prop where
  | handle (k : CheckArgs) :
      (∀ h, c.handles.get k.fh = some h → h.hashAtOpen ≠ none) → Comparing c (.handle k) k
  | receipt (k : CheckArgs) : Comparing c (.receipt k) k

/-- What the comparison says. -/
def compares (c : Locked) (k : CheckArgs) : Option CasError :=
  c.table.casCheck k.path k.fh k.sid c.handles k.actual

/-- The table after the handle has become the owner, or has shown to be it. -/
def acquired (c : Locked) (now : Time) (k : CheckArgs) : CasTable :=
  { c.table with entries := c.table.entries.insert k.path ⟨some k.fh, now⟩ }

/-- Outcomes of a step of a call. -/
inductive Advance (S : Shards) (c : Locked) (now : Time) : LockPc → CasTable × Next → Prop where
  | ensureWaits (k : CheckArgs) : c.guarded S k.path = true →
      Advance S c now (.ensure k) (c.table, .waits)
  | lockWaits (pc : LockPc) (p : Path) : pc.wants = some p → c.locked p = true →
      Advance S c now pc (c.table, .waits)
  | ensured (k : CheckArgs) : c.guarded S k.path = false →
      Advance S c now (.ensure k) (c.table.ensureEntry now k.path, .goesOn (.find k))
  | missing (k : CheckArgs) : c.table.entries.get k.path = none →
      Advance S c now (.find k) (c.table, .panics)
  | found (k : CheckArgs) (state : FileState) : c.table.entries.get k.path = some state →
      Advance S c now (.find k) (c.table, .goesOn (.lock k))
  | own (k : CheckArgs) : c.locked k.path = false → c.table.owner k.path = some k.fh →
      Advance S c now (.lock k) (c.acquired now k, .returns (.decision (.ok ())))
  | refused (k : CheckArgs) (x : ℕ) : c.locked k.path = false → c.table.owner k.path = some x →
      x ≠ k.fh →
      Advance S c now (.lock k) (c.table, .returns (.decision (.error (.owned k.path x))))
  | locks (k : CheckArgs) : c.locked k.path = false → c.table.owner k.path = none →
      Advance S c now (.lock k) (c.table, .goesOn (.handle k))
  | hashless (k : CheckArgs) (h : HandleState) : c.handles.get k.fh = some h →
      h.hashAtOpen = none → Advance S c now (.handle k) (c.table, .goesOn (.receipt k))
  | passes (pc : LockPc) (k : CheckArgs) : c.Comparing pc k → c.compares k = none →
      Advance S c now pc (c.table, .goesOn (.acquire k))
  | fails (pc : LockPc) (k : CheckArgs) (e : CasError) : c.Comparing pc k → c.compares k = some e →
      Advance S c now pc (c.table, .returns (.decision (.error e)))
  | acquires (k : CheckArgs) :
      Advance S c now (.acquire k) (c.acquired now k, .returns (.decision (.ok ())))
  | untracked (path : Path) (fh : ℕ) : c.table.entries.get path = none →
      Advance S c now (.releaseFind path fh) (c.table, .returns .done)
  | releasing (path : Path) (fh : ℕ) (state : FileState) : c.table.entries.get path = some state →
      Advance S c now (.releaseFind path fh) (c.table, .goesOn (.releaseLock path fh))
  | releases (path : Path) (fh : ℕ) : c.locked path = false →
      Advance S c now (.releaseLock path fh) (c.table.releaseWrite path fh, .returns .done)
  | inactive (path : Path) : c.table.entries.get path = none →
      Advance S c now (.activeFind path) (c.table, .returns (.writer false))
  | looking (path : Path) (state : FileState) : c.table.entries.get path = some state →
      Advance S c now (.activeFind path) (c.table, .goesOn (.activeLock path))
  | looks (path : Path) : c.locked path = false →
      Advance S c now (.activeLock path) (c.table, .returns (.writer (c.table.owner path).isSome))
  | scans (pc : LockPc) (j : Scan) (shard : ℕ) : pc.next = some (j, shard) → shard < S.count →
      Advance S c now pc (c.table, .goesOn (.look j shard (inShard S c.table shard)))
  | collected (pc : LockPc) (cutoff : Time) (toRemove : List Path) (shard : ℕ) :
      pc.next = some (.evict cutoff toRemove, shard) →
      Advance S c now pc (c.table, .goesOn (.evict cutoff toRemove))
  | scanned (pc : LockPc) (j : Scan) (shard : ℕ) : pc.next = some (j, shard) →
      Advance S c now pc (c.table, .scanned j)
  | looksAt (j : Scan) (shard : ℕ) (path : Path) (todo : List Path) (state : FileState) :
      c.locked path = false → c.table.entries.get path = some state →
      Advance S c now (.look j shard (path :: todo))
        (c.table, .goesOn (.look (j.look path state) shard todo))
  | underflows (seconds : ℕ) : Advance S c now (.cutoff seconds) (c.table, .panics)
  | subtracts (seconds : ℕ) : Advance S c now (.cutoff seconds)
      (c.table, .goesOn (.scan (.evict (now - CasTable.chronoFromStd seconds) [])))
  | evictWaits (cutoff : Time) (path : Path) (toRemove : List Path) : c.guarded S path = true →
      Advance S c now (.evict cutoff (path :: toRemove)) (c.table, .waits)
  | evicts (cutoff : Time) (path : Path) (toRemove : List Path) : c.guarded S path = false →
      Advance S c now (.evict cutoff (path :: toRemove))
        ({ c.table with entries := c.table.entries.remove path }, .goesOn (.evict cutoff toRemove))
  | evicted (cutoff : Time) :
      Advance S c now (.evict cutoff []) (c.table, .goesOn (.expire cutoff 0))
  | expires (cutoff : Time) (shard : ℕ) : shard < S.count →
      Advance S c now (.expire cutoff shard)
        (Run.exec Change.apply c.table
            ((expired S c.table cutoff shard).map fun k => .removeReceipt k.1 k.2),
          .goesOn (.expire cutoff (shard + 1)))
  | passed (cutoff : Time) (shard : ℕ) :
      Advance S c now (.expire cutoff shard) (c.table, .scanned (.evict cutoff []))

variable {S : Shards} {c : Locked} {now : Time}

/-- A handle with a hash of its own is compared with that. -/
theorem compares_of_hash {k : CheckArgs} {h : HandleState} {r : Bytes}
    (hh : c.handles.get k.fh = some h) (hr : h.hashAtOpen = some r) :
    c.compares k = if r ≠ k.actual then some (.handleHash k.path r k.actual) else none := by
  rw [compares, CasTable.casCheck]
  simp only [hh, hr]

theorem compares_of_hashless {k : CheckArgs} {h : HandleState}
    (hh : c.handles.get k.fh = some h) (hr : h.hashAtOpen = none) :
    c.compares k =
      match c.table.readerHashes.get (k.sid, k.path) with
      | some reader =>
        if reader.hash ≠ k.actual then some (.readerHash k.path reader.hash k.actual) else none
      | none => none := by
  rw [compares, CasTable.casCheck]
  cases c.table.readerHashes.get (k.sid, k.path) with
  | none => simp only [hh, hr]
  | some reader => simp only [hh, hr]

theorem compares_of_gone {k : CheckArgs} (hh : c.handles.get k.fh = none) : c.compares k = none := by
  rw [compares, CasTable.casCheck]
  simp only [hh]

theorem advance_next {pc : LockPc} {j : Scan} {shard : ℕ} (h : pc.next = some (j, shard)) :
    Advance S c now pc (c.table, nextShard S c.table j shard) := by
  unfold nextShard
  split
  · rename_i hlt; exact .scans pc j shard h hlt
  · cases j with
    | activeWriters n => exact .scanned pc _ shard h
    | allEntries rows => exact .scanned pc _ shard h
    | evict cutoff toRemove => exact .collected pc cutoff toRemove shard h

/-- SPEC: the list is complete. -/
theorem advance_out (now : Time) (hs : Steady S c) {tid : ℕ} {pc : LockPc} (hpc : c.pcs.get tid = some pc) :
    Advance S c now pc (c.advance S now pc) := by
  cases pc with
  | ensure k =>
    rw [advance]
    cases hg : c.guarded S k.path with
    | true => exact .ensureWaits k hg
    | false => exact .ensured k hg
  | find k =>
    rw [advance]
    cases he : c.table.entries.get k.path with
    | none => exact .missing k he
    | some state => exact .found k state he
  | lock k =>
    rw [advance]
    cases hl : c.locked k.path with
    | true => exact .lockWaits _ k.path rfl hl
    | false =>
      rw [if_neg Bool.false_ne_true]
      cases ho : c.table.owner k.path with
      | none => exact .locks k hl ho
      | some x =>
        simp only
        split
        · rename_i hx; exact .own k hl (by rw [ho, hx])
        · rename_i hx; exact .refused k x hl ho hx
  | handle k =>
    rw [advance]
    cases hh : c.handles.get k.fh with
    | none => exact .passes _ k (.handle k fun h heq => by rw [hh] at heq; cases heq) (compares_of_gone hh)
    | some h =>
      cases hr : h.hashAtOpen with
      | none =>
        simp only [hr]
        exact .hashless k h hh hr
      | some r =>
        have hcmp : c.Comparing (.handle k) k := .handle k fun h' heq => by
          rw [hh] at heq
          rw [← Option.some.inj heq, hr]
          exact Option.some_ne_none r
        simp only [hr]
        split
        · rename_i hne
          exact .fails _ k _ hcmp (by rw [compares_of_hash hh hr, if_pos hne])
        · rename_i heq
          exact .passes _ k hcmp (by rw [compares_of_hash hh hr, if_neg heq])
  | receipt k =>
    obtain ⟨h, hh, hr⟩ := hs.hashless tid k hpc
    have hcmp := compares_of_hashless hh hr
    rw [advance]
    cases hrec : c.table.readerHashes.get (k.sid, k.path) with
    | none => exact .passes _ k (.receipt k) (by rw [hcmp, hrec])
    | some reader =>
      simp only
      split
      · rename_i hne
        exact .fails _ k _ (.receipt k) (by rw [hcmp, hrec]; exact if_pos hne)
      · rename_i heq
        exact .passes _ k (.receipt k) (by rw [hcmp, hrec]; exact if_neg heq)
  | acquire k => exact .acquires k
  | releaseFind path fh =>
    rw [advance]
    cases he : c.table.entries.get path with
    | none => exact .untracked path fh he
    | some state => exact .releasing path fh state he
  | releaseLock path fh =>
    rw [advance]
    cases hl : c.locked path with
    | true => exact .lockWaits _ path rfl hl
    | false => exact .releases path fh hl
  | activeFind path =>
    rw [advance]
    cases he : c.table.entries.get path with
    | none => exact .inactive path he
    | some state => exact .looking path state he
  | activeLock path =>
    rw [advance]
    cases hl : c.locked path with
    | true => exact .lockWaits _ path rfl hl
    | false => exact .looks path hl
  | scan j => exact advance_next rfl
  | look j shard todo =>
    cases todo with
    | nil => exact advance_next rfl
    | cons path todo =>
      obtain ⟨-, state, hstate⟩ := hs.entry tid _ path hpc (List.mem_cons_self ..)
      rw [advance]
      cases hl : c.locked path with
      | true => exact .lockWaits _ path rfl hl
      | false =>
        simp only [hstate]
        exact .looksAt j shard path todo state hl hstate
  | cutoff seconds =>
    rw [advance]
    split
    · exact .underflows seconds
    · exact .subtracts seconds
  | evict cutoff toRemove =>
    cases toRemove with
    | nil => exact .evicted cutoff
    | cons path toRemove =>
      rw [advance]
      cases hg : c.guarded S path with
      | true => exact .evictWaits cutoff path toRemove hg
      | false => exact .evicts cutoff path toRemove hg
  | expire cutoff shard =>
    rw [advance]
    split
    · rename_i hlt; exact .expires cutoff shard hlt
    · exact .passed cutoff shard

/-! ### The invariant -/

theorem get_goOn_of {tid : ℕ} {pc : LockPc} (hpc : c.pcs.get tid = some pc) (r : CasTable × Next)
    (j : ℕ) : (c.goOn tid r).pcs.get j = if j = tid then r.2.after pc else c.pcs.get j := by
  rw [get_goOn]
  cases r.2 with
  | waits =>
    simp only [Next.after]
    split
    · rename_i h; rw [h, hpc]
    · rfl
  | goesOn pc' => rfl
  | panics => rfl
  | returns a => rfl
  | scanned j => rfl

/-- A thread moves: what has to be seen to is the entry it works on, and the mutex it gets. -/
theorem Steady.moved (hs : Steady S c) {tid : ℕ} {pc : LockPc} (hpc : c.pcs.get tid = some pc)
    {r : CasTable × Next}
    (hkeep : ∀ j pcj p, c.pcs.get j = some pcj → p ∈ pcj.pins →
      ∃ state', r.1.entries.get p = some state')
    (howner : ∀ j pcj p, c.pcs.get j = some pcj → pcj.mutex = some p → j ≠ tid →
      r.1.owner p = none)
    (hguard : ∀ pc' p, r.2.after pc = some pc' → p ∈ pc'.pins →
      pc'.guard S = some (S.entries p) ∧ ∃ state, r.1.entries.get p = some state)
    (hmutex : ∀ pc' p, r.2.after pc = some pc' → pc'.mutex = some p →
      r.1.owner p = none ∧ (pc.mutex = some p ∨ c.locked p = false))
    (hhandle : ∀ k, r.2.after pc = some (.receipt k) →
      ∃ h, c.handles.get k.fh = some h ∧ h.hashAtOpen = none) : Steady S (c.goOn tid r) where
  entry := by
    intro j pcj p hj hp
    rw [get_goOn_of hpc] at hj
    split at hj
    · exact hguard pcj p hj hp
    · exact ⟨(hs.entry j pcj p hj hp).1, hkeep j pcj p hj hp⟩
  alone := by
    have hnew : ∀ j pcj pc' p, c.pcs.get j = some pcj → j ≠ tid → pcj.mutex = some p →
        r.2.after pc = some pc' → pc'.mutex = some p → False := by
      intro j pcj pc' p hj hne hp hafter hp'
      rcases (hmutex pc' p hafter hp').2 with hold | hfree
      · exact hne (hs.alone j tid pcj pc p hj hpc hp hold)
      · exact locked_eq_false.mp hfree j pcj hj hp
    intro i j pci pcj p hi hj hpi hpj
    rw [get_goOn_of hpc] at hi hj
    split at hi
    · rename_i heqi
      split at hj
      · rename_i heqj; rw [heqi, heqj]
      · rename_i hne; exact (hnew j pcj pci p hj hne hpj hi hpi).elim
    · rename_i hne
      split at hj
      · exact (hnew i pci pcj p hi hne hpi hj hpj).elim
      · exact hs.alone i j pci pcj p hi hj hpi hpj
  free := by
    intro j pcj p hj hp
    rw [get_goOn_of hpc] at hj
    split at hj
    · exact (hmutex pcj p hj hp).1
    · rename_i hne; exact howner j pcj p hj hp hne
  hashless := by
    intro j k hj
    rw [get_goOn_of hpc] at hj
    split at hj
    · exact hhandle k hj
    · exact hs.hashless j k hj

/-- A thread moves and leaves the table alone. -/
theorem Steady.quiet (hs : Steady S c) {tid : ℕ} {pc : LockPc} (hpc : c.pcs.get tid = some pc) {n : Next}
    (hguard : ∀ pc' p, n.after pc = some pc' → p ∈ pc'.pins →
      pc'.guard S = some (S.entries p) ∧ ∃ state, c.table.entries.get p = some state)
    (hmutex : ∀ pc' p, n.after pc = some pc' → pc'.mutex = some p →
      c.table.owner p = none ∧ (pc.mutex = some p ∨ c.locked p = false))
    (hhandle : ∀ k, n.after pc = some (.receipt k) →
      ∃ h, c.handles.get k.fh = some h ∧ h.hashAtOpen = none) : Steady S (c.goOn tid (c.table, n)) :=
  hs.moved hpc (fun j pcj p hj hp => (hs.entry j pcj p hj hp).2)
    (fun j pcj p hj hp _ => hs.free j pcj p hj hp) hguard hmutex hhandle

/-- A thread goes on without any guard. -/
theorem Steady.unpinned (hs : Steady S c) {tid : ℕ} {pc : LockPc} (hpc : c.pcs.get tid = some pc)
    {t : CasTable} {pc' : LockPc} (hpins : pc'.pins = []) (hmutex : pc'.mutex = none)
    (hkeep : ∀ j pcj p, c.pcs.get j = some pcj → p ∈ pcj.pins → ∃ state', t.entries.get p = some state')
    (howner : ∀ p, c.table.owner p = none → t.owner p = none) :
    Steady S (c.goOn tid (t, .goesOn pc')) := by
  refine hs.moved hpc hkeep (fun j pcj p hj hp _ => howner p (hs.free j pcj p hj hp))
    (fun pc'' p h hp => ?_) (fun pc'' p h hp => ?_) (fun k h => ?_)
  · cases h; rw [hpins] at hp; cases hp
  · cases h; rw [hmutex] at hp; cases hp
  · cases h; cases hmutex

/-- A thread gets a guard to an entry that is there. -/
theorem Steady.finds (hs : Steady S c) {tid : ℕ} {pc : LockPc} (hpc : c.pcs.get tid = some pc)
    {pc' : LockPc} {path : Path} {state : FileState} (hpins : pc'.pins = [path])
    (hguard : pc'.guard S = some (S.entries path)) (hmutex : pc'.mutex = none)
    (he : c.table.entries.get path = some state) :
    Steady S (c.goOn tid (c.table, .goesOn pc')) := by
  refine hs.quiet hpc (fun pc'' p h hp => ?_) (fun pc'' p h hp => ?_) (fun k h => ?_)
  · cases h
    rw [hpins] at hp
    obtain rfl := List.mem_singleton.mp hp
    exact ⟨hguard, state, he⟩
  · cases h; rw [hmutex] at hp; cases hp
  · cases h; cases hmutex

/-- A thread returns, or ends. -/
theorem Steady.leaves (hs : Steady S c) {tid : ℕ} {pc : LockPc} (hpc : c.pcs.get tid = some pc)
    {t : CasTable} {n : Next} (hn : n.after pc = none)
    (hkeep : ∀ j pcj p, c.pcs.get j = some pcj → p ∈ pcj.pins → ∃ state', t.entries.get p = some state')
    (howner : ∀ j pcj p, c.pcs.get j = some pcj → pcj.mutex = some p → j ≠ tid →
      t.owner p = none) : Steady S (c.goOn tid (t, n)) :=
  hs.moved hpc hkeep howner (fun pc' p h _ => by rw [hn] at h; cases h)
    (fun pc' p h _ => by rw [hn] at h; cases h) (fun k h => by rw [hn] at h; cases h)

theorem comparing_cases {pc : LockPc} {k : CheckArgs} (h : c.Comparing pc k) :
    pc.pins = [k.path] ∧ pc.mutex = some k.path := by
  cases h with
  | handle k _ => exact ⟨rfl, rfl⟩
  | receipt k => exact ⟨rfl, rfl⟩

/-- Who holds a mutex holds a guard into its shard as well. -/
theorem pins_of_mutex {pc : LockPc} {p : Path} (h : pc.mutex = some p) : pc.pins = [p] := by
  cases pc with
  | handle k => exact congrArg (fun q => [q]) (Option.some.inj h)
  | receipt k => exact congrArg (fun q => [q]) (Option.some.inj h)
  | acquire k => exact congrArg (fun q => [q]) (Option.some.inj h)
  | _ => cases h

/-- A path whose shard is free is not pinned. -/
theorem Steady.notMem_pins (hs : Steady S c) {path : Path} (hg : c.guarded S path = false) {tid : ℕ}
    {pc : LockPc} (hpc : c.pcs.get tid = some pc) : path ∉ pc.pins :=
  fun hmem => guarded_eq_false.mp hg tid pc hpc (hs.entry tid pc path hpc hmem).1

theorem get_acquired (k : CheckArgs) (p : Path) : (c.acquired now k).entries.get p =
    if p = k.path then some ⟨some k.fh, now⟩ else c.table.entries.get p :=
  FinMap.get_insert ..

theorem owner_acquired (k : CheckArgs) (p : Path) : (c.acquired now k).owner p =
    if p = k.path then some k.fh else c.table.owner p :=
  CasTable.owner_insert ..

theorem acquired_keeps (k : CheckArgs) (p : Path) (state : FileState)
    (h : c.table.entries.get p = some state) :
    ∃ state', (c.acquired now k).entries.get p = some state' := by
  rw [get_acquired]
  split
  · exact ⟨_, rfl⟩
  · exact ⟨state, h⟩

/-- Only `evict_older_than` removes entries, and only where no guard is held. -/
theorem advance_keeps (now : Time) (hs : Steady S c) {tid : ℕ} {pc : LockPc}
    (hpc : c.pcs.get tid = some pc) (p : Path) (state : FileState)
    (hstate : c.table.entries.get p = some state) :
    (∃ state', (c.advance S now pc).1.entries.get p = some state') ∨
      ((∃ cutoff toRemove, pc = .evict cutoff (p :: toRemove)) ∧ c.guarded S p = false) := by
  have hout := advance_out (S := S) now hs hpc
  generalize c.advance S now pc = r at hout
  cases hout with
  | ensured k _ =>
    refine Or.inl ?_
    rw [CasTable.get_entries_ensureEntry]
    split
    · exact ⟨_, rfl⟩
    · exact ⟨state, hstate⟩
  | own k _ _ => exact Or.inl (acquired_keeps k p state hstate)
  | acquires k => exact Or.inl (acquired_keeps k p state hstate)
  | releases path fh _ =>
    refine Or.inl ?_
    rw [CasTable.get_entries_releaseWrite, hstate]
    split
    · exact ⟨_, rfl⟩
    · exact ⟨state, rfl⟩
  | evicts cutoff path toRemove hg =>
    by_cases hp : p = path
    · subst hp; exact Or.inr ⟨⟨cutoff, toRemove, rfl⟩, hg⟩
    · exact Or.inl ⟨state, (FinMap.get_remove ..).trans ((if_neg hp).trans hstate)⟩
  | expires cutoff shard _ =>
    rw [exec_removeReceipts]
    exact Or.inl ⟨state, hstate⟩
  | _ => exact Or.inl ⟨state, hstate⟩

/-- A pinned entry survives every step of a call. -/
theorem advance_pinned (now : Time) (hs : Steady S c) {tid : ℕ} {pc : LockPc}
    (hpc : c.pcs.get tid = some pc) (j : ℕ) (pcj : LockPc) (p : Path) (hj : c.pcs.get j = some pcj)
    (hp : p ∈ pcj.pins) : ∃ state', (c.advance S now pc).1.entries.get p = some state' := by
  obtain ⟨-, state, hstate⟩ := hs.entry j pcj p hj hp
  exact (advance_keeps now hs hpc p state hstate).resolve_right fun h => hs.notMem_pins h.2 hj hp

/-- STEP: a step of a call keeps the invariant. -/
theorem steady_run (now : Time) (hs : Steady S c) {tid : ℕ} {pc : LockPc}
    (hpc : c.pcs.get tid = some pc) : Steady S (c.goOn tid (c.advance S now pc)) := by
  have hout := advance_out (S := S) now hs hpc
  have hkeep := advance_pinned (S := S) now hs hpc
  generalize c.advance S now pc = r at hout hkeep
  have hold : ∀ pc' p, some pc = some pc' → p ∈ pc'.pins →
      pc'.guard S = some (S.entries p) ∧ ∃ state, c.table.entries.get p = some state := by
    intro pc' p heq hp
    rw [← Option.some.inj heq] at hp ⊢
    exact hs.entry tid pc p hpc hp
  have hmine : ∀ pc' p, some pc = some pc' → pc'.mutex = some p →
      c.table.owner p = none ∧ (pc.mutex = some p ∨ c.locked p = false) := by
    intro pc' p heq hp
    rw [← Option.some.inj heq] at hp
    exact ⟨hs.free tid pc p hpc hp, Or.inl hp⟩
  have hfree : ∀ j pcj p, c.pcs.get j = some pcj → pcj.mutex = some p → j ≠ tid →
      c.table.owner p = none := fun j pcj p hj hp _ => hs.free j pcj p hj hp
  cases hout with
  | ensureWaits k _ => exact hs.quiet hpc hold hmine fun k' h => hs.hashless tid k' (hpc.trans h)
  | lockWaits pc p _ _ => exact hs.quiet hpc hold hmine fun k' h => hs.hashless tid k' (hpc.trans h)
  | ensured k _ =>
    refine hs.moved hpc hkeep (fun j pcj p hj hp _ => ?_) (fun pc' p h hp => ?_)
      (fun pc' p h hp => ?_) (fun k' h => by cases h)
    · rw [CasTable.owner_ensureEntry]
      exact hs.free j pcj p hj hp
    · cases h; cases hp
    · cases h; cases hp
  | missing k he => exact hs.leaves hpc rfl hkeep hfree
  | found k state he => exact hs.finds hpc rfl rfl rfl he
  | own k hl ho =>
    refine hs.leaves hpc rfl hkeep fun j pcj p hj hp hne => ?_
    rw [owner_acquired, if_neg]
    · exact hfree j pcj p hj hp hne
    · rintro rfl; exact locked_eq_false.mp hl j pcj hj hp
  | refused k x hl ho hx => exact hs.leaves hpc rfl hkeep hfree
  | locks k hl ho =>
    refine hs.quiet hpc (fun pc' p h hp => ?_) (fun pc' p h hp => ?_) (fun k' h => by cases h)
    · cases h; exact hs.entry tid (.lock k) p hpc hp
    · cases h; cases hp; exact ⟨ho, Or.inr hl⟩
  | hashless k h hh hr =>
    refine hs.quiet hpc (fun pc' p h' hp => ?_) (fun pc' p h' hp => ?_) (fun k' h' => ?_)
    · cases h'; exact hs.entry tid (.handle k) p hpc hp
    · cases h'; cases hp; exact ⟨hs.free tid _ _ hpc rfl, Or.inl rfl⟩
    · cases h'; exact ⟨h, hh, hr⟩
  | passes pc k hcmp _ =>
    obtain ⟨hpins, hmutex⟩ := comparing_cases hcmp
    refine hs.quiet hpc (fun pc' p h hp => ?_) (fun pc' p h hp => ?_) (fun k' h => by cases h)
    · cases h
      obtain ⟨-, hstate⟩ := hs.entry tid pc p hpc (by rw [hpins]; exact hp)
      obtain rfl := List.mem_singleton.mp hp
      exact ⟨rfl, hstate⟩
    · cases h; cases hp; exact ⟨hs.free tid _ _ hpc hmutex, Or.inl hmutex⟩
  | fails pc k e hcmp _ => exact hs.leaves hpc rfl hkeep hfree
  | acquires k =>
    refine hs.leaves hpc rfl hkeep fun j pcj p hj hp hne => ?_
    rw [owner_acquired, if_neg]
    · exact hfree j pcj p hj hp hne
    · rintro rfl; exact hne (hs.alone j tid pcj _ k.path hj hpc hp rfl)
  | untracked path fh he => exact hs.leaves hpc rfl hkeep hfree
  | releasing path fh state he => exact hs.finds hpc rfl rfl rfl he
  | releases path fh hl =>
    refine hs.leaves hpc rfl hkeep fun j pcj p hj hp hne => ?_
    rw [CasTable.owner_releaseWrite, hfree j pcj p hj hp hne, ite_self]
  | inactive path he => exact hs.leaves hpc rfl hkeep hfree
  | looking path state he => exact hs.finds hpc rfl rfl rfl he
  | looks path hl => exact hs.leaves hpc rfl hkeep hfree
  | scans pc j shard hnext _ =>
    refine hs.quiet hpc (fun pc' p h hp => ?_) (fun pc' p h hp => ?_) (fun k' h => by cases h)
    · cases h
      obtain ⟨⟨p', state⟩, hmem, rfl⟩ := List.mem_map.mp hp
      obtain ⟨hmem, hshard⟩ := List.mem_filter.mp hmem
      exact ⟨congrArg some (of_decide_eq_true hshard).symm, state, FinMap.mem_iter.mp hmem⟩
    · cases h; cases hp
  | collected pc cutoff toRemove shard _ =>
    exact hs.unpinned hpc rfl rfl hkeep fun _ h => h
  | scanned pc j shard _ => exact hs.leaves hpc rfl hkeep hfree
  | looksAt j shard path todo state _ _ =>
    refine hs.quiet hpc (fun pc' p h hp => ?_) (fun pc' p h hp => ?_) (fun k' h => by cases h)
    · cases h; exact hs.entry tid (.look j shard (path :: todo)) p hpc (List.mem_cons_of_mem _ hp)
    · cases h; cases hp
  | underflows seconds => exact hs.leaves hpc rfl hkeep hfree
  | subtracts seconds => exact hs.unpinned hpc rfl rfl hkeep fun _ h => h
  | evictWaits cutoff path toRemove _ =>
    exact hs.quiet hpc hold hmine fun k' h => hs.hashless tid k' (hpc.trans h)
  | evicts cutoff path toRemove _ =>
    refine hs.unpinned hpc rfl rfl hkeep fun p h => ?_
    rw [CasTable.owner, FinMap.get_remove]
    split
    · rfl
    · exact h
  | evicted cutoff => exact hs.unpinned hpc rfl rfl hkeep fun _ h => h
  | expires cutoff shard _ =>
    refine hs.unpinned hpc rfl rfl hkeep fun p h => ?_
    rw [exec_removeReceipts]
    exact h
  | passed cutoff shard => exact hs.leaves hpc rfl hkeep hfree

/-- A change leaves the other entries alone. -/
theorem apply_other {t : CasTable} {ch : Change} {p : Path}
    (h : ∀ path, ch.entry = some path → p ≠ path) :
    (ch.apply t).entries.get p = t.entries.get p := by
  cases ch with
  | ensureEntry now path => exact (CasTable.get_entries_ensureEntry ..).trans (if_neg (h path rfl))
  | removeEntry path => exact (FinMap.get_remove ..).trans (if_neg (h path rfl))
  | insertEntry path state => exact (FinMap.get_insert ..).trans (if_neg (h path rfl))
  | removeReceipt sid path => rfl
  | insertReceipt sid path entry => rfl

/-- Entries are changed and removed only where no guard is held. -/
theorem steady_change (hs : Steady S c) {ch : Change} (hg : ch.entry.any (c.guarded S) = false) :
    Steady S { c with table := ch.apply c.table } := by
  have hpinned : ∀ j pcj p, c.pcs.get j = some pcj → p ∈ pcj.pins →
      (ch.apply c.table).entries.get p = c.table.entries.get p := by
    intro j pcj p hj hp
    refine apply_other fun path hch heq => ?_
    rw [hch, Option.any_some] at hg
    exact hs.notMem_pins hg hj (heq ▸ hp)
  exact
    { entry := fun j pcj p hj hp => by
        obtain ⟨hguard, state, hstate⟩ := hs.entry j pcj p hj hp
        exact ⟨hguard, state, (hpinned j pcj p hj hp).trans hstate⟩
      alone := hs.alone
      free := fun j pcj p hj hp => by
        rw [CasTable.owner, hpinned j pcj p hj (by rw [pins_of_mutex hp]; exact List.mem_singleton_self p)]
        exact hs.free j pcj p hj hp
      hashless := hs.hashless }

theorem get_apply {t : HandleTable} {op : HandleOp} {fh : ℕ} (h : fh ≠ op.key t) :
    (op.apply t).get fh = t.get fh := by
  cases op with
  | alloc realFd path flags hash sid => exact (t.get_alloc ..).trans (if_neg h)
  | written k => exact (t.get_modify ..).trans (if_neg h)
  | flushed k newHash => exact (t.get_modify ..).trans (if_neg h)
  | remove k => exact (t.get_remove ..).trans (if_neg h)

/-- STEP: every event keeps the invariant. -/
theorem steady_step (hs : Steady S c) (e : LockEvent) : Steady S (c.step S e) := by
  cases e with
  | begin_ tid call =>
    rw [step]
    cases hpc : c.pcs.get tid with
    | some pc => exact hs
    | none =>
      have hget : ∀ j pcj, (c.pcs.insert tid call.start).get j = some pcj →
          c.pcs.get j = some pcj ∨ (pcj.pins = [] ∧ pcj.mutex = none ∧ pcj.handleGuard = none) := by
        intro j pcj hj
        rw [FinMap.get_insert] at hj
        split at hj
        · obtain rfl := Option.some.inj hj
          cases call <;> exact Or.inr ⟨rfl, rfl, rfl⟩
        · exact Or.inl hj
      refine ⟨fun j pcj p hj hp => ?_, fun i j pci pcj p hi hj hpi hpj => ?_, fun j pcj p hj hp => ?_,
        fun j k hj => ?_⟩
      · rcases hget j pcj hj with hold | ⟨hnone, -, -⟩
        · exact hs.entry j pcj p hold hp
        · rw [hnone] at hp; cases hp
      · rcases hget i pci hi with holdi | ⟨-, hnone, -⟩
        · rcases hget j pcj hj with holdj | ⟨-, hnone, -⟩
          · exact hs.alone i j pci pcj p holdi holdj hpi hpj
          · rw [hnone] at hpj; cases hpj
        · rw [hnone] at hpi; cases hpi
      · rcases hget j pcj hj with hold | ⟨-, hnone, -⟩
        · exact hs.free j pcj p hold hp
        · rw [hnone] at hp; cases hp
      · rcases hget j _ hj with hold | ⟨-, -, hnone⟩
        · exact hs.hashless j k hold
        · cases hnone
  | run tid now =>
    rw [step]
    cases hpc : c.pcs.get tid with
    | some pc => exact steady_run now hs hpc
    | none => exact hs
  | change ch =>
    rw [step]
    cases hg : ch.entry.any (c.guarded S) with
    | true => exact hs
    | false => exact steady_change hs hg
  | handle op =>
    rw [step]
    cases hg : c.handleGuarded S (op.key c.handles) with
    | true => exact hs
    | false =>
      refine ⟨hs.entry, hs.alone, hs.free, fun j k hj => ?_⟩
      obtain ⟨h, hh, hr⟩ := hs.hashless j k hj
      refine ⟨h, ?_, hr⟩
      have hne : k.fh ≠ op.key c.handles := by
        intro heq
        exact handleGuarded_eq_false.mp hg j _ k.fh hj rfl (by rw [heq])
      exact (get_apply hne).trans hh

/-- Nobody is in a call. -/
theorem steady_start (t : CasTable) (h : HandleTable) : Steady S ⟨t, h, .empty⟩ where
  entry := fun _ _ _ hpc _ => by cases hpc
  alone := fun _ _ _ _ _ hpc _ _ _ => by cases hpc
  free := fun _ _ _ hpc _ => by cases hpc
  hashless := fun _ _ hpc => by cases hpc

/-- RUN: whatever the threads do. -/
theorem steady_exec (t : CasTable) (h : HandleTable) (l : List LockEvent) :
    Steady S (Run.exec (step S) ⟨t, h, .empty⟩ l) :=
  Run.exec_of_inv (I := Steady S) (P := fun _ _ => True) (fun _ e hs _ => steady_step hs e) l _
    (steady_start t h)
    (Run.along_of_forall l _ fun _ _ => trivial)

end Locked

end Dibs
