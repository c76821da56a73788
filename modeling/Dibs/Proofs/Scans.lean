import Dibs.Proofs.LockSteps

/-! A scan that nothing comes between. `active_writers`, `all_entries` and `evict_older_than` go from
    shard to shard and lock every entry in turn, so what they gather is no answer of one moment. Where
    no other thread acts in between, they give what the table says, whatever the shards are:
    `active_writers` the number of owners (`activeWriters_alone`), `all_entries` the entries in some
    order (`allEntries_alone`), and `evict_older_than` leaves the table of `evictOlderThan`
    (`evict_alone`).

        scan ─▶ look · look · … │ next shard ─▶ look · look · … │ … ─▶ evict · evict · … ─▶ expire -/

namespace Dibs

/-- What a scan has gathered behind these entries. -/
def Scan.over (l : List (Path × FileState)) (j : Scan) : Scan :=
  l.foldl (fun j e => j.look e.1 e.2) j

namespace Locked

/-- The entries in a shard. -/
def rows (S : Shards) (t : CasTable) (shard : ℕ) : List (Path × FileState) :=
  t.entries.iter.filter fun e => S.entries e.1 = shard

/-- The entries in `n` shards from this one on, in the order of a scan. -/
def visited (S : Shards) (t : CasTable) (shard n : ℕ) : List (Path × FileState) :=
  (List.range' shard n).flatMap (rows S t)

/-- The thread is in its call, and no other thread is in one. -/
structure Alone (c : Locked) (tid : ℕ) (pc : LockPc) : Prop where
  here : c.pcs.get tid = some pc
  others : ∀ j, j ≠ tid → c.pcs.get j = none

/-- The thread, alone, gets from `pc` to `pc'` and the table from `t` to `t'`. -/
def Leads (S : Shards) (tid : ℕ) (now : Time) (t : CasTable) (pc : LockPc) (t' : CasTable)
    (pc' : LockPc) : Prop :=
  ∀ c : Locked, c.Alone tid pc → c.table = t → ∃ n,
    (Run.exec (step S) c (List.replicate n (.run tid now))).Alone tid pc' ∧
      (Run.exec (step S) c (List.replicate n (.run tid now))).table = t'

variable {S : Shards} {c : Locked} {tid : ℕ} {now : Time} {t t' t'' : CasTable} {pc pc' pc'' : LockPc}

theorem Alone.eq (h : c.Alone tid pc) {j : ℕ} {pcj : LockPc} (hj : c.pcs.get j = some pcj) :
    pcj = pc := by
  by_cases hne : j = tid
  · rw [hne, h.here] at hj
    exact (Option.some.inj hj).symm
  · rw [h.others j hne] at hj
    cases hj

theorem Alone.locked (h : c.Alone tid pc) (hm : pc.mutex = none) (path : Path) :
    c.locked path = false := by
  refine locked_eq_false.mpr fun j pcj hj heq => ?_
  rw [h.eq hj, hm] at heq
  cases heq

theorem Alone.guarded (h : c.Alone tid pc) (hg : pc.guard S = none) (path : Path) :
    c.guarded S path = false := by
  refine guarded_eq_false.mpr fun j pcj hj heq => ?_
  rw [h.eq hj, hg] at heq
  cases heq

theorem Leads.refl (t : CasTable) (pc : LockPc) : Leads S tid now t pc t pc :=
  fun _ hc ht => ⟨0, hc, ht⟩

theorem Leads.trans (h : Leads S tid now t pc t' pc') (h' : Leads S tid now t' pc' t'' pc'') :
    Leads S tid now t pc t'' pc'' := by
  intro c hc ht
  obtain ⟨n, hc', ht'⟩ := h c hc ht
  obtain ⟨n', hc'', ht''⟩ := h' _ hc' ht'
  refine ⟨n + n', ?_⟩
  rw [List.replicate_add, Run.exec_append]
  exact ⟨hc'', ht''⟩

/-- STEP: the thread goes on. -/
theorem Leads.step (h : ∀ c : Locked, c.Alone tid pc → c.table = t →
    c.advance S now pc = (t', .goesOn pc')) : Leads S tid now t pc t' pc' := by
  intro c hc ht
  have hstep : c.step S (.run tid now) = c.goOn tid (t', .goesOn pc') := by
    rw [Locked.step, ← h c hc ht]
    simp only [hc.here]
  refine ⟨1, ?_⟩
  rw [List.replicate_one, Run.exec_cons, Run.exec_nil, hstep]
  refine ⟨⟨?_, fun j hj => ?_⟩, rfl⟩
  · exact FinMap.get_insert_self ..
  · exact (FinMap.get_insert ..).trans ((if_neg hj).trans (hc.others j hj))

/-! ### From shard to shard -/

theorem leads_look (shard : ℕ) : ∀ (l : List (Path × FileState)) (j : Scan),
    (∀ e ∈ l, t.entries.get e.1 = some e.2) →
      Leads S tid now t (.look j shard (l.map (·.1))) t (.look (j.over l) shard [])
  | [], j, _ => .refl t (.look j shard [])
  | e :: l, j, hl => by
    have hget : t.entries.get e.1 = some e.2 := hl e (List.mem_cons_self ..)
    refine (Leads.step fun c hc ht => ?_).trans
      (leads_look shard l (j.look e.1 e.2) fun x hx => hl x (List.mem_cons_of_mem _ hx))
    rw [List.map_cons, advance, if_neg (by rw [hc.locked rfl]; exact Bool.false_ne_true), ht, hget]

theorem advance_of_next {j : Scan} {shard : ℕ} (h : pc.next = some (j, shard)) (c : Locked) :
    c.advance S now pc = (c.table, nextShard S c.table j shard) := by
  cases pc with
  | scan i =>
    obtain ⟨rfl, rfl⟩ := Prod.mk.inj (Option.some.inj h)
    rfl
  | look i k todo =>
    cases todo with
    | nil =>
      obtain ⟨rfl, rfl⟩ := Prod.mk.inj (Option.some.inj h)
      rfl
    | cons path todo => cases h
  | _ => cases h

/-- RUN: the scan has looked at all the entries from this shard on. -/
theorem leads_visited : ∀ (n shard : ℕ) (pc : LockPc) (j : Scan), pc.next = some (j, shard) →
    shard + n = S.count →
      ∃ pc', pc'.next = some (j.over (visited S t shard n), S.count) ∧ Leads S tid now t pc t pc'
  | 0, shard, pc, j, hnext, hn => ⟨pc, by rw [hnext, ← hn]; rfl, .refl t pc⟩
  | n + 1, shard, pc, j, hnext, hn => by
    have hlt : shard < S.count := by omega
    have hrows : ∀ e ∈ rows S t shard, t.entries.get e.1 = some e.2 := fun e he =>
      FinMap.mem_iter.mp (List.mem_filter.mp he).1
    have hshard : Leads S tid now t pc t (.look j shard ((rows S t shard).map (·.1))) :=
      Leads.step fun c _ ht => by
        rw [advance_of_next hnext, ht]
        unfold nextShard
        rw [if_pos hlt]
        rfl
    obtain ⟨pc', hnext', hleads⟩ := leads_visited n (shard + 1)
      (.look (j.over (rows S t shard)) shard []) (j.over (rows S t shard)) rfl (by omega)
    refine ⟨pc', ?_, hshard.trans ((leads_look shard (rows S t shard) j hrows).trans hleads)⟩
    rw [hnext', visited, visited, List.range'_succ, List.flatMap_cons, Scan.over, Scan.over, Scan.over,
      List.foldl_append]

/-- A scan looks at every entry once. -/
theorem visited_perm (S : Shards) (t : CasTable) : (visited S t 0 S.count).Perm t.entries.iter := by
  have hnodup : t.entries.iter.Nodup := t.entries.pairwise_iter.imp fun hne heq => hne (by rw [heq])
  have hvisited : (visited S t 0 S.count).Nodup := by
    refine List.nodup_flatMap.mpr ⟨fun _ _ => hnodup.filter _, ?_⟩
    refine (List.pairwise_lt_range' 1).imp fun hlt e he he' => ?_
    have hleft := of_decide_eq_true (List.mem_filter.mp he).2
    have hright := of_decide_eq_true (List.mem_filter.mp he').2
    omega
  refine (List.perm_ext_iff_of_nodup hvisited hnodup).mpr fun e => ?_
  rw [visited, List.mem_flatMap]
  constructor
  · rintro ⟨shard, -, he⟩
    exact (List.mem_filter.mp he).1
  · intro he
    refine ⟨S.entries e.1, List.mem_range'_1.mpr ⟨Nat.zero_le _, ?_⟩, ?_⟩
    · rw [Nat.zero_add]; exact S.entries_lt e.1
    · exact List.mem_filter.mpr ⟨he, decide_eq_true rfl⟩

/-- A scan of a thread that is alone, up to its last shard. -/
theorem leads_scan (S : Shards) (tid : ℕ) (now : Time) (t : CasTable) (j : Scan) :
    ∃ pc, pc.next = some (j.over (visited S t 0 S.count), S.count) ∧
      Leads S tid now t (.scan j) t pc :=
  leads_visited S.count 0 (.scan j) j rfl (Nat.zero_add _)

/-! ### What the scans gather -/

theorem over_activeWriters (l : List (Path × FileState)) (n : ℕ) :
    (Scan.activeWriters n).over l =
      .activeWriters (n + (l.filter fun e => e.2.writeOwner.isSome).length) := by
  induction l generalizing n with
  | nil => rfl
  | cons e l ih =>
    rw [Scan.over, List.foldl_cons, ← Scan.over, Scan.look, ih, List.filter_cons]
    split
    · rw [List.length_cons, Nat.add_assoc, Nat.add_comm 1]
    · rfl

theorem over_allEntries (l : List (Path × FileState)) (rows : List FileStateInfo) :
    (Scan.allEntries rows).over l =
      .allEntries (rows ++ l.map fun e => ⟨e.1, e.2.writeOwner, e.2.lastAccess⟩) := by
  induction l generalizing rows with
  | nil => rw [List.map_nil, List.append_nil]; rfl
  | cons e l ih =>
    rw [Scan.over, List.foldl_cons, ← Scan.over, Scan.look, ih, List.append_assoc]
    rfl

theorem over_evict (l : List (Path × FileState)) (cutoff : Time) (toRemove : List Path) :
    (Scan.evict cutoff toRemove).over l = .evict cutoff (toRemove ++
      (l.filter fun e => e.2.writeOwner.isNone && e.2.lastAccess < cutoff).map (·.1)) := by
  induction l generalizing toRemove with
  | nil => rw [List.filter_nil, List.map_nil, List.append_nil]; rfl
  | cons e l ih =>
    rw [Scan.over, List.foldl_cons, ← Scan.over, Scan.look, ih, List.filter_cons]
    split
    · rw [List.append_assoc]; rfl
    · rfl

/-- REFINEMENT: `active_writers` alone counts the owners. -/
theorem activeWriters_alone (S : Shards) (tid : ℕ) (now : Time) (t : CasTable) :
    ∃ pc, Leads S tid now t LockCall.activeWriters.start t pc ∧
      ∀ c : Locked, c.table = t →
        c.advance S now pc = (t, .scanned (.activeWriters t.activeWriters)) := by
  obtain ⟨pc, hnext, hleads⟩ := leads_scan S tid now t (.activeWriters 0)
  refine ⟨pc, hleads, fun c ht => ?_⟩
  rw [over_activeWriters, Nat.zero_add, ((visited_perm S t).filter _).length_eq] at hnext
  rw [advance_of_next hnext, ht]
  unfold nextShard
  rw [if_neg (lt_irrefl _)]
  rfl

/-- REFINEMENT: `all_entries` alone lists the entries. -/
theorem allEntries_alone (S : Shards) (tid : ℕ) (now : Time) (t : CasTable) :
    ∃ pc rows, rows.Perm t.allEntries ∧ Leads S tid now t LockCall.allEntries.start t pc ∧
      ∀ c : Locked, c.table = t → c.advance S now pc = (t, .scanned (.allEntries rows)) := by
  obtain ⟨pc, hnext, hleads⟩ := leads_scan S tid now t (.allEntries [])
  rw [over_allEntries, List.nil_append] at hnext
  refine ⟨pc, _, (visited_perm S t).map _, hleads, fun c ht => ?_⟩
  rw [advance_of_next hnext, ht]
  unfold nextShard
  rw [if_neg (lt_irrefl _)]

/-! ### Eviction -/

theorem leads_evict (cutoff : Time) : ∀ (l : List Path) (t : CasTable),
    Leads S tid now t (.evict cutoff l)
      { t with entries := l.foldl (fun m path => m.remove path) t.entries } (.evict cutoff [])
  | [], t => .refl t (.evict cutoff [])
  | path :: l, t => by
    refine (Leads.step fun c hc ht => ?_).trans
      (leads_evict cutoff l { t with entries := t.entries.remove path })
    rw [advance, if_neg (by rw [hc.guarded rfl]; exact Bool.false_ne_true), ht]

/-- What a step of `retain` leaves of the receipts. -/
theorem get_expired (t : CasTable) (cutoff : Time) (shard : ℕ) (k : ℕ × Path) :
    ((expired S t cutoff shard).foldl (fun m k => m.remove k) t.readerHashes).get k =
      if S.receipts k = shard then (t.readerHashes.get k).filter fun v => cutoff ≤ v.lastAccess
      else t.readerHashes.get k := by
  have hfilter : expired S t cutoff shard = (t.readerHashes.iter.filter fun e =>
      !(decide (S.receipts e.1 = shard) == false || decide (cutoff ≤ e.2.lastAccess))).map (·.1) := by
    rw [expired]
    congr 2
    funext e
    cases decide (S.receipts e.1 = shard) <;> rfl
  rw [hfilter, FinMap.get_foldl_remove_filter (fun (j : ℕ × Path) (v : ReaderEntry) =>
    decide (S.receipts j = shard) == false || decide (cutoff ≤ v.lastAccess)), FinMap.get_retain]
  split
  · rename_i h; simp [h]
  · rename_i h; cases t.readerHashes.get k <;> simp [h]

/-- RUN: the receipts of these shards have been gone through. -/
theorem leads_expire (S : Shards) (tid : ℕ) (now cutoff : Time) : ∀ (n shard : ℕ) (t : CasTable),
    shard + n = S.count →
    ∃ t', t'.entries = t.entries ∧
      (∀ k, t'.readerHashes.get k =
        if shard ≤ S.receipts k then (t.readerHashes.get k).filter fun v => cutoff ≤ v.lastAccess
        else t.readerHashes.get k) ∧
      Leads S tid now t (.expire cutoff shard) t' (.expire cutoff S.count)
  | 0, shard, t, hn => by
    refine ⟨t, rfl, fun k => ?_, ?_⟩
    · have hlt := S.receipts_lt k
      rw [if_neg (by omega)]
    · have heq : shard = S.count := by omega
      rw [heq]
      exact .refl t (.expire cutoff S.count)
  | n + 1, shard, t, hn => by
    have hlt : shard < S.count := by omega
    obtain ⟨t', hentries, hget, hleads⟩ := leads_expire S tid now cutoff n (shard + 1)
      { t with readerHashes :=
        (expired S t cutoff shard).foldl (fun m k => m.remove k) t.readerHashes } (by omega)
    refine ⟨t', hentries, fun k => ?_, (Leads.step fun c _ ht => ?_).trans hleads⟩
    · rw [hget k, get_expired]
      rcases lt_trichotomy (S.receipts k) shard with hk | hk | hk
      · rw [if_neg (by omega), if_neg (by omega), if_neg (by omega)]
      · rw [if_neg (by omega), if_pos hk, if_pos (by omega)]
      · rw [if_pos (by omega), if_neg (by omega), if_pos (by omega)]
    · rw [advance, if_pos hlt, ht, exec_removeReceipts]

/-- REFINEMENT: `evict_older_than` alone leaves the table of `evictOlderThan`. -/
theorem evict_alone (S : Shards) (tid : ℕ) (now : Time) {t u : CasTable} {seconds : ℕ}
    (h : t.evictOlderThan now seconds = some u) :
    ∃ t' pc, (∀ p, t'.entries.get p = u.entries.get p) ∧
      (∀ k, t'.readerHashes.get k = u.readerHashes.get k) ∧
      Leads S tid now t (LockCall.evictOlderThan seconds).start t' pc ∧
      ∀ c : Locked, c.table = t' →
        c.advance S now pc = (t', .scanned (.evict (now - CasTable.chronoFromStd seconds) [])) := by
  have hreceipts := CasTable.get_readerHashes_evict t now h
  rw [CasTable.evictOlderThan] at h
  split at h
  · cases h
  · rename_i hruns
    obtain rfl := Option.some.inj h
    obtain ⟨pc, hnext, hscan⟩ := leads_scan S tid now t
      (.evict (now - CasTable.chronoFromStd seconds) [])
    rw [over_evict, List.nil_append] at hnext
    have hperm := ((visited_perm S t).filter fun e => e.2.writeOwner.isNone &&
      e.2.lastAccess < now - CasTable.chronoFromStd seconds).map (·.1)
    generalize ((visited S t 0 S.count).filter fun e => e.2.writeOwner.isNone &&
      e.2.lastAccess < now - CasTable.chronoFromStd seconds).map (·.1) = toRemove at hnext hperm
    obtain ⟨t', hentries, hget, hexpire⟩ := leads_expire S tid now
      (now - CasTable.chronoFromStd seconds) S.count 0
      { t with entries := toRemove.foldl (fun m path => m.remove path) t.entries } (Nat.zero_add _)
    have hcutoff : Leads S tid now t (.cutoff seconds) t
        (.scan (.evict (now - CasTable.chronoFromStd seconds) [])) :=
      Leads.step fun c _ ht => by rw [advance, if_neg hruns, ht]
    have hcollected : Leads S tid now t pc t
        (.evict (now - CasTable.chronoFromStd seconds) toRemove) :=
      Leads.step fun c _ ht => by
        rw [advance_of_next hnext, ht]
        unfold nextShard
        rw [if_neg (lt_irrefl _)]
    have hremoved : ∀ u, Leads S tid now u (.evict (now - CasTable.chronoFromStd seconds) []) u
        (.expire (now - CasTable.chronoFromStd seconds) 0) := fun u =>
      Leads.step fun c _ ht => by rw [advance, ht]
    refine ⟨t', .expire (now - CasTable.chronoFromStd seconds) S.count, fun p => ?_, fun k => ?_,
      ?_, fun c ht => ?_⟩
    · rw [hentries, FinMap.get_foldl_remove, FinMap.get_foldl_remove]
      by_cases hp : p ∈ toRemove
      · rw [if_pos hp, if_pos (hperm.mem_iff.mp hp)]
      · rw [if_neg hp, if_neg (mt hperm.mem_iff.mpr hp)]
    · rw [hget k, if_pos (Nat.zero_le _), hreceipts k]
    · exact hcutoff.trans (hscan.trans (hcollected.trans
        ((leads_evict _ toRemove t).trans ((hremoved _).trans hexpire))))
    · rw [advance, if_neg (lt_irrefl _), ht]

end Locked

end Dibs
