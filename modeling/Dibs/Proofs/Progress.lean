import Dibs.Proofs.LockSteps

/-! The locks do not block the daemon. A thread that holds a mutex never waits, and the others wait only
    for guards and mutexes that are held; so in every state some thread in a call can go on, and all
    calls in flight can be brought to their end (`calls_complete`). What can go wrong is the `unwrap` in
    `check_and_acquire_write`: between `ensure_entry` and `get` nothing is held, and it panics if the
    entry was removed there, but for no other reason (`panics_only_after_removal`). -/

namespace Dibs

/-- The entries that a scan at this shard has ahead of it. -/
def CasTable.ahead (S : Shards) (t : CasTable) (shard : ℕ) : ℕ :=
  t.entries.iter.countP fun e => decide (shard ≤ S.entries e.1)

/-- The removals a scan has gathered. -/
def Scan.gathered : Scan → ℕ
  | .evict _ toRemove => toRemove.length
  | _ => 0

/-- How many steps a call takes at most from here, if no entry is added: a scan looks at each entry ahead
    of it and removes it perhaps. -/
def LockPc.left (S : Shards) (t : CasTable) : LockPc → ℕ
  | .ensure _ => 6
  | .find _ => 5
  | .lock _ => 4
  | .handle _ => 3
  | .receipt _ => 2
  | .acquire _ => 1
  | .releaseFind _ _ | .activeFind _ => 2
  | .releaseLock _ _ | .activeLock _ => 1
  | .scan j => j.gathered + 2 * t.ahead S 0 + 2 * S.count + 5
  | .look j shard todo =>
    j.gathered + 2 * (todo.length + t.ahead S (shard + 1)) + (S.count - shard) + S.count + 4
  | .cutoff _ => 2 * t.ahead S 0 + 2 * S.count + 6
  | .evict _ toRemove => toRemove.length + S.count + 2
  | .expire _ shard => S.count - shard + 1

namespace Locked

/-- The steps that are left in all calls. -/
def work (S : Shards) (c : Locked) : ℕ := (c.pcs.iter.map fun e => e.2.left S c.table).sum

variable {S : Shards} {c : Locked} {tid : ℕ} {now : Time} {pc : LockPc}

/-! ### Some thread can go on -/

theorem not_waits_of_mutex {p : Path} (h : pc.mutex = some p) : (c.advance S now pc).2 ≠ .waits := by
  cases pc with
  | handle k =>
    rw [advance]
    split
    · simp
    · split
      · split <;> simp
      · simp
  | receipt k =>
    rw [advance]
    split
    · split <;> simp
    · simp
  | acquire k => simp [advance]
  | _ => cases h

theorem nextShard_ne_waits (t : CasTable) (j : Scan) (shard : ℕ) : nextShard S t j shard ≠ .waits := by
  unfold nextShard
  split
  · simp
  · cases j <;> simp

/-- A thread at a mutex can take it if no thread holds any. -/
theorem not_waits_of_guard {shard : ℕ} (hfree : ∀ p, c.locked p = false)
    (h : pc.guard S = some shard) : (c.advance S now pc).2 ≠ .waits := by
  cases pc with
  | lock k =>
    rw [advance, if_neg (by simp [hfree k.path])]
    split
    · split <;> simp
    · simp
  | releaseLock path fh => rw [advance, if_neg (by simp [hfree path])]; simp
  | activeLock path => rw [advance, if_neg (by simp [hfree path])]; simp
  | look j shard todo =>
    cases todo with
    | nil => exact nextShard_ne_waits c.table j (shard + 1)
    | cons path todo =>
      rw [advance, if_neg (by simp [hfree path])]
      split <;> simp
  | handle k => exact not_waits_of_mutex rfl
  | receipt k => exact not_waits_of_mutex rfl
  | acquire k => exact not_waits_of_mutex rfl
  | _ => cases h

/-- A thread that holds nothing can go on if no thread holds anything. -/
theorem not_waits_of_free (hfree : ∀ p, c.guarded S p = false) (h : pc.guard S = none) :
    (c.advance S now pc).2 ≠ .waits := by
  cases pc with
  | ensure k => rw [advance, if_neg (by simp [hfree k.path])]; simp
  | find k => rw [advance]; split <;> simp
  | releaseFind path fh => rw [advance]; split <;> simp
  | activeFind path => rw [advance]; split <;> simp
  | scan j => exact nextShard_ne_waits c.table j 0
  | cutoff seconds => rw [advance]; split <;> simp
  | evict cutoff toRemove =>
    cases toRemove with
    | nil => simp [advance]
    | cons path toRemove => rw [advance, if_neg (by simp [hfree path])]; simp
  | expire cutoff shard => rw [advance]; split <;> simp
  | _ => cases h

/-- SPEC: no deadlock. The thread that goes on adds an entry only where all threads are about to. -/
theorem someone_goes_on (hpc : c.pcs.get tid = some pc) :
    ∃ i pc', c.pcs.get i = some pc' ∧ (∀ now, (c.advance S now pc').2 ≠ .waits) ∧
      ((∀ k, pc' ≠ .ensure k) ∨ ∀ j pcj, c.pcs.get j = some pcj → ∃ k, pcj = .ensure k) := by
  by_cases hmutex : ∃ i pci p, c.pcs.get i = some pci ∧ pci.mutex = some p
  · obtain ⟨i, pci, p, hi, hp⟩ := hmutex
    exact ⟨i, pci, hi, fun now => not_waits_of_mutex hp, Or.inl (by rintro k rfl; cases hp)⟩
  · have hunlocked : ∀ p, c.locked p = false := fun p =>
      locked_eq_false.mpr fun i pci hi hp => hmutex ⟨i, pci, p, hi, hp⟩
    by_cases hguard : ∃ i pci shard, c.pcs.get i = some pci ∧ pci.guard S = some shard
    · obtain ⟨i, pci, shard, hi, hp⟩ := hguard
      exact ⟨i, pci, hi, fun now => not_waits_of_guard hunlocked hp, Or.inl (by rintro k rfl; cases hp)⟩
    · have hfree : ∀ p, c.guarded S p = false := fun p =>
        guarded_eq_false.mpr fun i pci hi hq => hguard ⟨i, pci, _, hi, hq⟩
      have hnone : ∀ i pci, c.pcs.get i = some pci → pci.guard S = none := by
        intro i pci hi
        cases hg : pci.guard S with
        | none => rfl
        | some shard => exact absurd ⟨i, pci, shard, hi, hg⟩ hguard
      by_cases hother : ∃ i pci, c.pcs.get i = some pci ∧ ∀ k, pci ≠ .ensure k
      · obtain ⟨i, pci, hi, hne⟩ := hother
        exact ⟨i, pci, hi, fun now => not_waits_of_free hfree (hnone i pci hi), Or.inl hne⟩
      · push Not at hother
        exact ⟨tid, pc, hpc, fun now => not_waits_of_free hfree (hnone tid pc hpc), Or.inr hother⟩

/-! ### Every step that goes on is one step less -/

theorem ahead_shard (t : CasTable) (shard : ℕ) :
    (inShard S t shard).length + t.ahead S (shard + 1) = t.ahead S shard := by
  rw [inShard, List.length_map, ← List.countP_eq_length_filter, CasTable.ahead, CasTable.ahead]
  induction t.entries.iter with
  | nil => rfl
  | cons e l ih =>
    simp only [List.countP_cons, decide_eq_true_eq]
    split_ifs <;> omega

theorem ahead_insert {t : CasTable} {p : Path} {state : FileState} (h : t.entries.get p = some state)
    (state' : FileState) (r : FinMap (ℕ × Path) ReaderEntry) (shard : ℕ) :
    CasTable.ahead S ⟨t.entries.insert p state', r⟩ shard = t.ahead S shard :=
  FinMap.countP_insert h state' fun q => decide (shard ≤ S.entries q)

/-- Entries are added by `ensure_entry` only. -/
theorem ahead_advance (hs : Steady S c) (hpc : c.pcs.get tid = some pc) (hne : ∀ k, pc ≠ .ensure k)
    (shard : ℕ) : (c.advance S now pc).1.ahead S shard ≤ c.table.ahead S shard := by
  have hout := advance_out (S := S) now hs hpc
  generalize c.advance S now pc = r at hout
  cases hout with
  | ensured k _ => exact absurd rfl (hne k)
  | own k _ _ =>
    obtain ⟨-, state, hstate⟩ := hs.entry tid _ k.path hpc (List.mem_singleton_self _)
    exact (ahead_insert hstate ..).le
  | acquires k =>
    obtain ⟨-, state, hstate⟩ := hs.entry tid _ k.path hpc (List.mem_singleton_self _)
    exact (ahead_insert hstate ..).le
  | releases path fh _ =>
    simp only [CasTable.releaseWrite]
    split
    · rename_i state hstate
      split
      · exact (ahead_insert hstate ..).le
      · exact le_rfl
    · exact le_rfl
  | evicts cutoff path toRemove _ => exact FinMap.countP_remove_le ..
  | expires cutoff shard' _ =>
    rw [exec_removeReceipts]
    exact le_rfl
  | _ => exact le_rfl

theorem left_mono {t t' : CasTable} (h : ∀ shard, t'.ahead S shard ≤ t.ahead S shard) (pc : LockPc) :
    pc.left S t' ≤ pc.left S t := by
  cases pc with
  | scan j => simp only [LockPc.left]; have := h 0; omega
  | look j shard todo => simp only [LockPc.left]; have := h (shard + 1); omega
  | cutoff seconds => simp only [LockPc.left]; have := h 0; omega
  | _ => exact le_rfl

def leftAt (S : Shards) (t : CasTable) : Option LockPc → ℕ
  | some pc => pc.left S t
  | none => 0

theorem gathered_look (path : Path) (state : FileState) (j : Scan) :
    (j.look path state).gathered ≤ j.gathered + 1 := by
  cases j with
  | activeWriters n => exact Nat.zero_le _
  | allEntries rows => exact Nat.zero_le _
  | evict cutoff toRemove =>
    simp only [Scan.look, Scan.gathered]
    split
    · rw [List.length_append]; exact le_rfl
    · exact Nat.le_succ _

/-- What a thread that goes to another shard has ahead of it. -/
theorem left_next {j : Scan} {shard : ℕ} (h : pc.next = some (j, shard)) :
    j.gathered + S.count + 4 ≤ pc.left S c.table ∧ (shard < S.count →
      j.gathered + 2 * c.table.ahead S shard + (S.count - shard) + S.count + 4 < pc.left S c.table) := by
  cases pc with
  | scan j' =>
    cases h
    simp only [LockPc.left]
    omega
  | look j' shard' todo =>
    cases todo with
    | nil =>
      cases h
      simp only [LockPc.left, List.length_nil]
      omega
    | cons path todo => cases h
  | _ => cases h

theorem left_after (hs : Steady S c) (hpc : c.pcs.get tid = some pc)
    (hgo : (c.advance S now pc).2 ≠ .waits) :
    leftAt S (c.advance S now pc).1 ((c.advance S now pc).2.after pc) < pc.left S c.table := by
  have hout := advance_out (S := S) now hs hpc
  generalize c.advance S now pc = r at hout hgo
  cases hout with
  | ensureWaits k _ => exact absurd rfl hgo
  | lockWaits pc p _ _ => exact absurd rfl hgo
  | evictWaits cutoff path toRemove _ => exact absurd rfl hgo
  | passes pc k hcmp _ => cases hcmp <;> simp [Next.after, leftAt, LockPc.left]
  | fails pc k e hcmp _ => cases hcmp <;> simp [Next.after, leftAt, LockPc.left]
  | scans pc j shard hnext hlt =>
    have hless := (left_next (S := S) (c := c) hnext).2 hlt
    have hshard := ahead_shard (S := S) c.table shard
    refine lt_of_le_of_lt ?_ hless
    simp only [Next.after, leftAt, LockPc.left]
    omega
  | collected pc cutoff toRemove shard hnext =>
    refine lt_of_lt_of_le ?_ (left_next (S := S) (c := c) hnext).1
    simp only [Next.after, leftAt, LockPc.left, Scan.gathered]
    omega
  | scanned pc j shard hnext =>
    exact lt_of_lt_of_le (Nat.zero_lt_succ _) (left_next (S := S) (c := c) hnext).1
  | looksAt j shard path todo state _ _ =>
    have hless := gathered_look path state j
    simp only [Next.after, leftAt, LockPc.left, List.length_cons]
    omega
  | expires cutoff shard hlt =>
    simp only [Next.after, leftAt, LockPc.left]
    omega
  | _ => simp [Next.after, leftAt, LockPc.left, Scan.gathered]

theorem sum_left_le {t t' : CasTable} {l : List (ℕ × LockPc)}
    (h : ∀ e ∈ l, e.2.left S t' ≤ e.2.left S t) :
    (l.map fun e => e.2.left S t').sum ≤ (l.map fun e => e.2.left S t).sum :=
  List.sum_le_sum h

/-- The other calls have not more steps left than before. -/
theorem work_goOn (hpc : c.pcs.get tid = some pc) (r : CasTable × Next) (hgo : r.2 ≠ .waits)
    (hothers : ∀ j pcj, c.pcs.get j = some pcj → pcj.left S r.1 ≤ pcj.left S c.table) :
    (c.goOn tid r).work S + pc.left S c.table ≤ c.work S + leftAt S r.1 (r.2.after pc) := by
  have hwork : c.work S = pc.left S c.table +
      ((c.pcs.remove tid).iter.map fun e => e.2.left S c.table).sum := by
    rw [work, ((FinMap.iter_perm hpc).map _).sum_eq]
    rfl
  have hrest : ((c.pcs.remove tid).iter.map fun e => e.2.left S r.1).sum ≤
      ((c.pcs.remove tid).iter.map fun e => e.2.left S c.table).sum := by
    refine sum_left_le fun e he => hothers e.1 e.2 ?_
    have hget := FinMap.mem_iter.mp he
    rw [FinMap.get_remove] at hget
    split at hget
    · cases hget
    · exact hget
  rw [hwork, work, goOn]
  cases hr : r.2 with
  | waits => exact absurd hr hgo
  | goesOn pc' =>
    have hiter : (c.pcs.insert tid pc').iter = (tid, pc') :: (c.pcs.remove tid).iter := rfl
    simp only [hiter, List.map_cons, List.sum_cons, Next.after, leftAt]
    omega
  | panics => simp only [Next.after, leftAt]; omega
  | returns a => simp only [Next.after, leftAt]; omega
  | scanned j => simp only [Next.after, leftAt]; omega

theorem work_lt (hs : Steady S c) (hpc : c.pcs.get tid = some pc)
    (hgo : (c.advance S now pc).2 ≠ .waits)
    (hensure : (∀ k, pc ≠ .ensure k) ∨ ∀ j pcj, c.pcs.get j = some pcj → ∃ k, pcj = .ensure k) :
    (c.step S (.run tid now)).work S < c.work S := by
  have hothers : ∀ j pcj, c.pcs.get j = some pcj →
      pcj.left S (c.advance S now pc).1 ≤ pcj.left S c.table := by
    rcases hensure with hne | hall
    · exact fun _ pcj _ => left_mono (ahead_advance hs hpc hne) pcj
    · intro j pcj hj
      obtain ⟨k, rfl⟩ := hall j pcj hj
      exact le_rfl
  have hless := left_after hs hpc hgo
  have hwork := work_goOn hpc (c.advance S now pc) hgo hothers
  simp only [step, hpc]
  omega

/-- RUN: all calls in flight can be brought to their end. -/
theorem finishes : ∀ (n : ℕ) {c : Locked}, Steady S c → c.work S ≤ n →
    ∃ l : List (ℕ × Time), l.length ≤ n ∧
      ∀ tid, (Run.exec (step S) c (l.map fun e => .run e.1 e.2)).pcs.get tid = none
  | n, c, hs, hn => by
    by_cases hflight : ∃ tid pc, c.pcs.get tid = some pc
    · obtain ⟨tid, pc, hpc⟩ := hflight
      obtain ⟨i, pci, hi, hgo, hensure⟩ := someone_goes_on (S := S) hpc
      have hless := work_lt hs hi (hgo 0) hensure
      cases n with
      | zero => omega
      | succ n =>
        obtain ⟨l, hlen, hend⟩ := finishes n (steady_step hs (.run i 0))
          (by omega : (c.step S (.run i 0)).work S ≤ n)
        exact ⟨(i, 0) :: l, by simpa using hlen, hend⟩
    · refine ⟨[], Nat.zero_le n, fun tid => ?_⟩
      cases hpc : c.pcs.get tid with
      | none => exact hpc
      | some pc => exact absurd ⟨tid, pc, hpc⟩ hflight

/-- CORRECT (no deadlock): in every state that the threads reach, as long as a call is in flight some
    thread can take a step of its call, and the threads alone can bring all calls to their end, in at
    most as many steps as the calls have left. -/
theorem calls_complete (S : Shards) (t : CasTable) (h : HandleTable) (l : List LockEvent) :
    let c := Run.exec (step S) ⟨t, h, .empty⟩ l
    (∀ tid pc, c.pcs.get tid = some pc →
      ∃ i pc', c.pcs.get i = some pc' ∧ ∀ now, (c.advance S now pc').2 ≠ .waits) ∧
    ∃ runs : List (ℕ × Time), runs.length ≤ c.work S ∧
      ∀ tid, (Run.exec (step S) c (runs.map fun e => .run e.1 e.2)).pcs.get tid = none := by
  refine ⟨fun _ _ hpc => ?_, finishes _ (steady_exec t h l) (Nat.le_refl _)⟩
  obtain ⟨i, pc', hi, hgo, -⟩ := someone_goes_on (S := S) hpc
  exact ⟨i, pc', hi, hgo⟩

/-! ### The `unwrap` -/

/-- The event removes the entry: some thread removes it, or an eviction does. -/
structure Removes (S : Shards) (c : Locked) (e : LockEvent) (p : Path) : Prop where
  there : ∃ state, c.table.entries.get p = some state
  gone : (c.step S e).table.entries.get p = none
  how : e = .change (.removeEntry p) ∨
    ∃ i now cutoff toRemove, e = .run i now ∧ c.pcs.get i = some (.evict cutoff (p :: toRemove))

/-- STEP: entries disappear only by removals. -/
theorem entry_stays (hs : Steady S c) {p : Path} {state : FileState}
    (hstate : c.table.entries.get p = some state) (e : LockEvent) :
    (∃ state', (c.step S e).table.entries.get p = some state') ∨ Removes S c e p := by
  cases hafter : (c.step S e).table.entries.get p with
  | some state' => exact Or.inl ⟨state', rfl⟩
  | none =>
    refine Or.inr ⟨⟨state, hstate⟩, hafter, ?_⟩
    have hkept : (c.step S e).table.entries.get p ≠ c.table.entries.get p := by
      rw [hafter, hstate]; simp
    cases e with
    | begin_ tid call =>
      refine absurd ?_ hkept
      rw [step]
      split <;> rfl
    | run tid now =>
      cases hpc : c.pcs.get tid with
      | none =>
        refine absurd ?_ hkept
        simp only [step, hpc]
      | some pc =>
        simp only [step, hpc, goOn] at hafter
        rcases advance_keeps now hs hpc p state hstate with ⟨state', hstate'⟩ | ⟨⟨cutoff, rest, rfl⟩, -⟩
        · rw [hafter] at hstate'; cases hstate'
        · exact Or.inr ⟨tid, now, cutoff, rest, rfl, hpc⟩
    | handle op =>
      refine absurd ?_ hkept
      rw [step]
      split <;> rfl
    | change ch =>
      rw [step] at hafter
      split at hafter
      · rw [hstate] at hafter; cases hafter
      · cases ch with
        | ensureEntry now path =>
          rw [Change.apply, CasTable.get_entries_ensureEntry] at hafter
          split at hafter
          · cases hafter
          · rw [hstate] at hafter; cases hafter
        | removeEntry path =>
          by_cases hp : p = path
          · exact Or.inl (by rw [hp])
          · rw [Change.apply, FinMap.get_remove, if_neg hp, hstate] at hafter; cases hafter
        | insertEntry path st =>
          rw [Change.apply, FinMap.get_insert] at hafter
          split at hafter
          · cases hafter
          · rw [hstate] at hafter; cases hafter
        | removeReceipt sid path =>
          rw [Change.apply, hstate] at hafter; cases hafter
        | insertReceipt sid path entry =>
          rw [Change.apply, hstate] at hafter; cases hafter

/-- STEP: a thread is at the `get` of a check because it has just made sure of the entry, or was there
    before. -/
theorem find_origin (hs : Steady S c) {k : CheckArgs} {e : LockEvent}
    (h : (c.step S e).pcs.get tid = some (.find k)) :
    c.pcs.get tid = some (.find k) ∨ ∃ now, e = .run tid now ∧
      c.pcs.get tid = some (.ensure k) ∧ ∃ state, (c.step S e).table.entries.get k.path = some state := by
  cases e with
  | begin_ i call =>
    rw [step] at h
    cases hpc : c.pcs.get i with
    | some pc => rw [hpc] at h; exact Or.inl h
    | none =>
      rw [hpc] at h
      simp only [FinMap.get_insert] at h
      split at h
      · cases call <;> cases h
      · exact Or.inl h
  | change ch => rw [step] at h; split at h <;> exact Or.inl h
  | handle op => rw [step] at h; split at h <;> exact Or.inl h
  | run i now =>
    rw [step] at h ⊢
    cases hpc : c.pcs.get i with
    | none => rw [hpc] at h; exact Or.inl h
    | some pc =>
      simp only [hpc, get_goOn_of hpc] at h ⊢
      split at h
      · rename_i htid
        have hout := advance_out (S := S) now hs hpc
        generalize hadv : c.advance S now pc = r at hout h
        cases hout with
        | ensureWaits k' _ => cases h
        | lockWaits pc p hwants _ =>
          obtain rfl : pc = .find k := Option.some.inj h
          cases hwants
        | ensured k' _ =>
          obtain rfl := LockPc.find.inj (Option.some.inj h)
          refine Or.inr ⟨now, by rw [htid], by rw [htid, hpc], c.table.entryOr now k'.path, ?_⟩
          exact (CasTable.get_entries_ensureEntry ..).trans (if_pos rfl)
        | passes pc k' _ _ => cases h
        | _ => cases h
      · exact Or.inl h

/-- CORRECT (the only panic): when the `unwrap` of a check finds no entry, then between the step in which
    this very call made sure of the entry and its `get`, where it has stood ever since, an event removed
    the entry. -/
theorem panics_only_after_removal (S : Shards) (t : CasTable) (h : HandleTable) (k : CheckArgs)
    (tid : ℕ) (l : List LockEvent)
    (hfind : (Run.exec (step S) ⟨t, h, .empty⟩ l).pcs.get tid = some (.find k))
    (hmissing : (Run.exec (step S) ⟨t, h, .empty⟩ l).table.entries.get k.path = none) :
    ∃ pre now mid e post, l = pre ++ .run tid now :: (mid ++ e :: post) ∧
      (Run.exec (step S) ⟨t, h, .empty⟩ pre).pcs.get tid = some (.ensure k) ∧
      (∀ m, m <+: mid ++ e :: post →
        (Run.exec (step S) ⟨t, h, .empty⟩ (pre ++ .run tid now :: m)).pcs.get tid = some (.find k)) ∧
      Removes S (Run.exec (step S) ⟨t, h, .empty⟩ (pre ++ .run tid now :: mid)) e k.path := by
  have hist : ∀ l : List LockEvent,
      (Run.exec (step S) ⟨t, h, .empty⟩ l).pcs.get tid = some (.find k) →
      ∃ pre now mid, l = pre ++ .run tid now :: mid ∧
        (Run.exec (step S) ⟨t, h, .empty⟩ pre).pcs.get tid = some (.ensure k) ∧
        (∀ m, m <+: mid →
          (Run.exec (step S) ⟨t, h, .empty⟩ (pre ++ .run tid now :: m)).pcs.get tid =
            some (.find k)) ∧
        ((∃ state, (Run.exec (step S) ⟨t, h, .empty⟩ l).table.entries.get k.path = some state) ∨
          ∃ m e post, mid = m ++ e :: post ∧
            Removes S (Run.exec (step S) ⟨t, h, .empty⟩ (pre ++ .run tid now :: m)) e k.path) := by
    intro l
    induction l using List.reverseRecOn with
    | nil => intro hpc; cases hpc
    | append_singleton l e ih =>
      intro hpc
      have hs := steady_exec (S := S) t h l
      have hexec : Run.exec (step S) ⟨t, h, .empty⟩ (l ++ [e]) =
          (Run.exec (step S) ⟨t, h, .empty⟩ l).step S e := by
        rw [Run.exec_append, Run.exec_cons, Run.exec_nil]
      have hpc' := hpc
      rw [hexec] at hpc'
      rcases find_origin hs hpc' with hold | ⟨now, rfl, hensure, hstate⟩
      · obtain ⟨pre, now, mid, hl, hensure, hstays, hor⟩ := ih hold
        refine ⟨pre, now, mid ++ [e], by simp [hl], hensure, fun m hm => ?_, ?_⟩
        · rcases List.prefix_concat_iff.mp hm with rfl | hm
          · have hall : pre ++ .run tid now :: (mid ++ [e]) = l ++ [e] := by simp [hl]
            rw [hall]
            exact hpc
          · exact hstays m hm
        · rcases hor with ⟨state, hstate⟩ | ⟨m, e', post, rfl, hremoves⟩
          · rcases entry_stays hs hstate e with hstay | hremoves
            · exact Or.inl (by rw [hexec]; exact hstay)
            · exact Or.inr ⟨mid, e, [], rfl, by rw [← hl]; exact hremoves⟩
          · exact Or.inr ⟨m, e', post ++ [e], by simp, hremoves⟩
      · refine ⟨l, now, [], rfl, hensure, fun m hm => ?_, Or.inl (by rw [hexec]; exact hstate)⟩
        rw [List.prefix_nil.mp hm]
        exact hpc
  obtain ⟨pre, now, mid, hl, hensure, hstays, ⟨state, hstate⟩ | ⟨m, e, post, rfl, hremoves⟩⟩ :=
    hist l hfind
  · rw [hmissing] at hstate; cases hstate
  · exact ⟨pre, now, m, e, post, hl, hensure, hstays, hremoves⟩

/-- A check of `f`. -/
def sampleCheck : CheckArgs := ⟨[[0x66]], 1, 7, []⟩

/-- All keys in one shard. -/
def oneShard : Shards where
  count := 1
  entries := fun _ => 0
  receipts := fun _ => 0
  handles := fun _ => 0
  entries_lt := fun _ => Nat.one_pos
  receipts_lt := fun _ => Nat.one_pos

/-- Thread 2 starts an eviction with a window of no time, scans a table in which `f` is old, and removes
    its entry after the `ensure_entry` of the check by thread 1. -/
def evictedBetween : List LockEvent :=
  [.begin_ 2 (.evictOlderThan 0), .run 2 1, .run 2 1, .run 2 1, .run 2 1,
    .begin_ 1 (.checkAndAcquireWrite sampleCheck), .run 1 1, .run 2 1]

theorem evictedBetween_panics :
    ∃ pre now mid e post, evictedBetween = pre ++ .run 1 now :: (mid ++ e :: post) ∧
      (Run.exec (step oneShard) ⟨CasTable.new.ensureEntry 0 [[0x66]], .new, .empty⟩ pre).pcs.get 1 =
        some (.ensure sampleCheck) ∧
      (∀ m, m <+: mid ++ e :: post →
        (Run.exec (step oneShard) ⟨CasTable.new.ensureEntry 0 [[0x66]], .new, .empty⟩
          (pre ++ .run 1 now :: m)).pcs.get 1 = some (.find sampleCheck)) ∧
      Removes oneShard (Run.exec (step oneShard) ⟨CasTable.new.ensureEntry 0 [[0x66]], .new, .empty⟩
        (pre ++ .run 1 now :: mid)) e sampleCheck.path :=
  panics_only_after_removal oneShard (CasTable.new.ensureEntry 0 [[0x66]]) .new sampleCheck 1
    evictedBetween rfl rfl

end Locked

end Dibs
