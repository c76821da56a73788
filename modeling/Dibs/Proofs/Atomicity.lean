import Dibs.Proofs.LockSteps

/-! The calls that lock one entry are atomic. `check_and_acquire_write`, `release_write` and
    `has_active_writer` take several steps between which other threads run, but every run of the threads
    is a run in which each of these calls happens at one instant while it is in flight, with the same
    answers and the same tables (`calls_atomic`). A check takes effect when it compares, though the time
    it stores is read when it acquires; so the atomic event looks ahead to that step. The `ensure_entry`
    a check begins with stays an event of its own, and all the other calls stay the series of changes to
    single keys that they are; `evict_older_than` makes one for each entry and receipt it drops. -/

namespace Dibs
open Linearize

/-- An event of the table without locks. -/
inductive Atomic where
  /-- a call of a thread, which answers it -/
  | call (tid : ℕ) (op : CasCall)
  | change (ch : Change)

namespace Atomic

def apply (t : CasTable) : Atomic → CasTable
  | .call _ op => t.call op
  | .change ch => ch.apply t

def reply (t : CasTable) : Atomic → List (ℕ × CasAnswer)
  | .call tid op => [(tid, t.answer op)]
  | .change _ => []

end Atomic

namespace Locked
variable (S : Shards)

/-- When the thread runs next. -/
def nextRun (tid : ℕ) : List LockEvent → Time
  | [] => 0
  | .run i now :: l => if i = tid then now else nextRun tid l
  | _ :: l => nextRun tid l

/-- The check of a thread, made now, with the time it is going to store. -/
def checkNow (c : Locked) (tid : ℕ) (now : Time) (k : CheckArgs) : Atomic :=
  .call tid (.checkAndAcquireWrite now k.path k.fh k.sid c.handles k.actual)

/-- What takes effect in a step of a call. -/
def effect (c : Locked) (tid : ℕ) (now : Time) (rest : List LockEvent) (pc : LockPc) : List Atomic :=
  match pc, (c.advance S now pc).2 with
  | .ensure k, .goesOn _ => [.change (.ensureEntry now k.path)]
  | .lock k, .returns _ => [c.checkNow tid now k]
  | .handle _, .goesOn (.receipt _) => []
  | .handle k, _ => [c.checkNow tid (nextRun tid rest) k]
  | .receipt k, _ => [c.checkNow tid (nextRun tid rest) k]
  | .releaseFind path fh, .returns _ => [.call tid (.releaseWrite path fh)]
  | .releaseLock path fh, .returns _ => [.call tid (.releaseWrite path fh)]
  | .activeFind path, .returns _ => [.call tid (.hasActiveWriter path)]
  | .activeLock path, .returns _ => [.call tid (.hasActiveWriter path)]
  | .evict _ (path :: _), .goesOn _ => [.change (.removeEntry path)]
  | .expire cutoff shard, .goesOn _ =>
    ((expired S c.table cutoff shard).map fun k => .removeReceipt k.1 k.2).map .change
  | _, _ => []

/-- What takes effect in an event. -/
def takesEffect (c : Locked) (e : LockEvent) (rest : List LockEvent) : List Atomic :=
  match e with
  | .run tid now =>
    match c.pcs.get tid with
    | some pc => c.effect S tid now rest pc
    | none => []
  | .change ch => if ch.entry.any (c.guarded S) then [] else [.change ch]
  | .begin_ _ _ | .handle _ => []

/-- An acquisition that has taken effect is still to be answered. -/
def owedAt : Option LockPc → List CasAnswer
  | some (.acquire _) => [.decision (.ok ())]
  | _ => []

def owed (c : Locked) (tid : ℕ) : List CasAnswer := owedAt (c.pcs.get tid)

/-- The atomic table is ahead of the locked one by the acquisitions that have taken effect. -/
structure Matches (S : Shards) (c : Locked) (t : CasTable) (rest : List LockEvent) : Prop where
  steady : Steady S c
  receipts : t.readerHashes = c.table.readerHashes
  acquiring : ∀ tid k, c.pcs.get tid = some (.acquire k) →
    t.entries.get k.path = some ⟨some k.fh, nextRun tid rest⟩
  entries : ∀ p, (∀ tid k, c.pcs.get tid = some (.acquire k) → k.path ≠ p) →
    t.entries.get p = c.table.entries.get p

variable {S} {c : Locked} {t t' : CasTable} {tid : ℕ} {now : Time} {l : List LockEvent} {pc : LockPc}

/-! ### Answers -/

def Next.answers : Next → List CasAnswer
  | .returns a => [a]
  | _ => []

theorem out_run (hpc : c.pcs.get tid = some pc) : c.out S (.run tid now) =
    (Next.answers (c.advance S now pc).2).map fun a => (tid, a) := by
  simp only [out, hpc]
  cases (c.advance S now pc).2 <;> rfl

theorem answersTo_map (k : ℕ) (as : List CasAnswer) :
    answersTo k (as.map fun a => (tid, a)) = if k = tid then as else [] := by
  induction as with
  | nil => rw [List.map_nil, answersTo_nil, ite_self]
  | cons a as ih =>
    rw [List.map_cons, ← List.singleton_append, answersTo_append, ih, answersTo_single]
    by_cases h : k = tid
    · rw [if_pos h, if_pos h.symm, if_pos h]; rfl
    · rw [if_neg h, if_neg fun h' => h h'.symm, if_neg h]; rfl

/-- The account of a thread that moves. -/
theorem account_moved (hpc : c.pcs.get tid = some pc) {r : CasTable × Next} {as : List CasAnswer}
    (h : owedAt (some pc) ++ as = Next.answers r.2 ++ owedAt (r.2.after pc)) (k : ℕ) :
    c.owed k ++ answersTo k (as.map fun a => (tid, a)) =
      answersTo k ((Next.answers r.2).map fun a => (tid, a)) ++ (c.goOn tid r).owed k := by
  rw [answersTo_map, answersTo_map, owed, owed, get_goOn_of hpc]
  by_cases hk : k = tid
  · rw [if_pos hk, if_pos hk, if_pos hk, hk, hpc, h]
  · rw [if_neg hk, if_neg hk, if_neg hk, List.append_nil, List.nil_append]

/-! ### Tables -/

theorem Matches.moved (hm : Matches S c t (.run tid now :: l)) (hpc : c.pcs.get tid = some pc)
    {r : CasTable × Next} (hsteady : Steady S (c.goOn tid r))
    (hreceipts : t'.readerHashes = r.1.readerHashes)
    (hmine : ∀ k, r.2.after pc = some (.acquire k) →
      t'.entries.get k.path = some ⟨some k.fh, nextRun tid l⟩)
    (hothers : ∀ j k, j ≠ tid → c.pcs.get j = some (.acquire k) →
      t'.entries.get k.path = t.entries.get k.path)
    (hentries : ∀ p, (∀ j k, j ≠ tid → c.pcs.get j = some (.acquire k) → k.path ≠ p) →
      (∀ k, r.2.after pc = some (.acquire k) → k.path ≠ p) →
      t'.entries.get p = r.1.entries.get p) : Matches S (c.goOn tid r) t' l where
  steady := hsteady
  receipts := hreceipts
  acquiring := by
    intro j k hj
    rw [get_goOn_of hpc] at hj
    split at hj
    · rename_i heq; rw [heq]; exact hmine k hj
    · rename_i hne
      rw [hothers j k hne hj, hm.acquiring j k hj, nextRun, if_neg fun h => hne h.symm]
  entries := by
    intro p hp
    refine hentries p (fun j k hne hj => ?_) fun k hk => ?_
    · refine hp j k ?_
      rw [get_goOn_of hpc, if_neg hne]
      exact hj
    · refine hp tid k ?_
      rw [get_goOn_of hpc, if_pos rfl]
      exact hk

/-- An entry that the others are not acquiring agrees, unless the thread itself is. -/
theorem Matches.get_of_others (hm : Matches S c t l) (hpc : c.pcs.get tid = some pc) {p : Path}
    (hmine : ∀ k, pc = .acquire k → k.path ≠ p)
    (hothers : ∀ j k, j ≠ tid → c.pcs.get j = some (.acquire k) → k.path ≠ p) :
    t.entries.get p = c.table.entries.get p := by
  refine hm.entries p fun j k hj => ?_
  by_cases hji : j = tid
  · rw [hji, hpc] at hj
    exact hmine k (Option.some.inj hj)
  · exact hothers j k hji hj

/-- Nobody is acquiring an entry whose mutex is free. -/
theorem not_acquiring_of_unlocked {path : Path} (hl : c.locked path = false) (j : ℕ) (k : CheckArgs)
    (hj : c.pcs.get j = some (.acquire k)) : k.path ≠ path := by
  intro heq
  exact locked_eq_false.mp hl j _ hj (by rw [← heq]; rfl)

theorem Matches.get_of_unlocked (hm : Matches S c t l) {p : Path} (h : c.locked p = false) :
    t.entries.get p = c.table.entries.get p :=
  hm.entries p (not_acquiring_of_unlocked h)

/-- Nobody is acquiring an entry whose shard is free. -/
theorem Matches.acquiring_elsewhere (hm : Matches S c t l) {path : Path} (hg : c.guarded S path = false)
    (j : ℕ) (k : CheckArgs) (hj : c.pcs.get j = some (.acquire k)) : k.path ≠ path := by
  intro heq
  exact hm.steady.notMem_pins hg hj (heq ▸ List.mem_singleton_self k.path)

/-- The thread that holds the mutex is not acquiring yet. -/
theorem Matches.get_of_mine (hm : Matches S c t l) (hpc : c.pcs.get tid = some pc) {p : Path}
    (hmutex : pc.mutex = some p) (hne : ∀ k, pc ≠ .acquire k) :
    t.entries.get p = c.table.entries.get p := by
  refine hm.entries p fun j k hj heq => ?_
  have hji : j = tid := hm.steady.alone j tid _ pc p hj hpc (by rw [← heq]; rfl) hmutex
  rw [hji, hpc] at hj
  exact hne k (Option.some.inj hj)

theorem Matches.get_of_none (hm : Matches S c t l) {p : Path} (h : c.table.entries.get p = none) :
    t.entries.get p = c.table.entries.get p := by
  refine hm.entries p fun j k hj heq => ?_
  obtain ⟨-, state, hstate⟩ := hm.steady.entry j _ p hj (by rw [← heq]; exact List.mem_singleton_self _)
  rw [h] at hstate
  cases hstate

/-- Neither table changes. -/
theorem Matches.quiet (hm : Matches S c t (.run tid now :: l)) (hpc : c.pcs.get tid = some pc) {n : Next}
    (hsteady : Steady S (c.goOn tid (c.table, n))) (hpc' : ∀ k, pc ≠ .acquire k)
    (hafter : ∀ k, n.after pc ≠ some (.acquire k)) (hreceipts : t'.readerHashes = t.readerHashes)
    (hentries : ∀ p, t'.entries.get p = t.entries.get p) :
    Matches S (c.goOn tid (c.table, n)) t' l := by
  refine hm.moved hpc hsteady (hreceipts.trans hm.receipts) (fun k h => absurd h (hafter k))
    (fun _ k _ _ => hentries k.path) fun p hothers _ => ?_
  rw [hentries]
  exact hm.get_of_others hpc (fun k h => absurd h (hpc' k)) hothers

/-- Both tables change alike, in an entry that nobody is acquiring. -/
theorem Matches.alike (hm : Matches S c t (.run tid now :: l)) (hpc : c.pcs.get tid = some pc)
    {r : CasTable × Next} {P : Path} (hsteady : Steady S (c.goOn tid r))
    (hafter : ∀ k, r.2.after pc ≠ some (.acquire k))
    (hP : ∀ j k, c.pcs.get j = some (.acquire k) → k.path ≠ P)
    (hreceipts : t'.readerHashes = r.1.readerHashes)
    (hother : ∀ p, p ≠ P → t'.entries.get p = t.entries.get p ∧
      r.1.entries.get p = c.table.entries.get p)
    (hsame : t.entries.get P = c.table.entries.get P → t'.entries.get P = r.1.entries.get P)
    (hpc' : ∀ k, pc ≠ .acquire k) : Matches S (c.goOn tid r) t' l := by
  refine hm.moved hpc hsteady hreceipts (fun k h => absurd h (hafter k))
    (fun j k _ hj => (hother k.path (hP j k hj)).1) fun p hothers _ => ?_
  by_cases hp : p = P
  · rw [hp]
    exact hsame (hm.entries P hP)
  · obtain ⟨hleft, hright⟩ := hother p hp
    rw [hleft, hright]
    exact hm.get_of_others hpc (fun k h => absurd h (hpc' k)) hothers

/-! ### A check that takes effect -/

theorem readerHashes_congr (h : t.readerHashes = c.table.readerHashes) (k : CheckArgs) :
    t.casCheck k.path k.fh k.sid c.handles k.actual = c.compares k :=
  CasTable.casCheck_congr (CasTable.getReaderHash_congr h _ _)

theorem owner_congr {p : Path} (h : t.entries.get p = c.table.entries.get p) :
    t.owner p = c.table.owner p := by
  rw [CasTable.owner, h, CasTable.owner]

theorem exec_checkNow (k : CheckArgs) : Run.exec Atomic.apply t [c.checkNow tid now k] =
    (t.checkAndAcquireWrite now k.path k.fh k.sid c.handles k.actual).1 := rfl

theorem outs_checkNow (k : CheckArgs) : outs Atomic.apply Atomic.reply t [c.checkNow tid now k] =
    [CasAnswer.decision (t.checkAndAcquireWrite now k.path k.fh k.sid c.handles k.actual).2].map
      fun a => (tid, a) := rfl

/-- A check that is refused changes no entry, since there is one. -/
theorem get_entries_refused {k : CheckArgs} {state : FileState} {e : CasError}
    (hstate : t.entries.get k.path = some state)
    (he : (t.checkAndAcquireWrite now k.path k.fh k.sid c.handles k.actual).2 = .error e) (p : Path) :
    (t.checkAndAcquireWrite now k.path k.fh k.sid c.handles k.actual).1.entries.get p =
      t.entries.get p := by
  rw [CasTable.get_entries_check, he]
  split
  · rename_i heq
    rw [heq, CasTable.entryOr, hstate]
    rfl
  · rfl

theorem get_entries_granted {k : CheckArgs}
    (hok : (t.checkAndAcquireWrite now k.path k.fh k.sid c.handles k.actual).2 = .ok ()) (p : Path) :
    (t.checkAndAcquireWrite now k.path k.fh k.sid c.handles k.actual).1.entries.get p =
      if p = k.path then some ⟨some k.fh, now⟩ else t.entries.get p := by
  rw [CasTable.get_entries_check, hok]

/-- The decision at a comparison: nobody owns the path, and both tables have the same receipts. -/
theorem decision_of_comparing (hm : Matches S c t l) (hpc : c.pcs.get tid = some pc) {k : CheckArgs}
    (hcmp : c.Comparing pc k) (now : Time) :
    (t.checkAndAcquireWrite now k.path k.fh k.sid c.handles k.actual).2 =
      match c.compares k with
      | some e => .error e
      | none => .ok () := by
  obtain ⟨-, hmutex⟩ := comparing_cases hcmp
  have hne : ∀ k', pc ≠ .acquire k' := by
    rintro k' rfl
    cases hcmp
  have howner : t.owner k.path = none :=
    (owner_congr (hm.get_of_mine hpc hmutex hne)).trans (hm.steady.free tid pc k.path hpc hmutex)
  cases hsays : c.compares k with
  | none =>
    simp only [CasTable.checkAndAcquireWrite_snd, howner, readerHashes_congr hm.receipts k, hsays]
  | some e =>
    simp only [CasTable.checkAndAcquireWrite_snd, howner, readerHashes_congr hm.receipts k, hsays]

theorem effect_comparing {k : CheckArgs} (hcmp : c.Comparing pc k) {x : CasTable} {n : Next}
    (hadv : c.advance S now pc = (x, n)) (hn : ∀ k', n ≠ .goesOn (.receipt k')) :
    c.effect S tid now l pc = [c.checkNow tid (nextRun tid l) k] := by
  cases hcmp with
  | receipt k => simp only [effect]
  | handle k _ =>
    simp only [effect, hadv]

theorem effect_next {x : Scan × ℕ} (h : pc.next = some x) : c.effect S tid now l pc = [] := by
  cases pc with
  | scan j => simp only [effect]
  | look j shard todo => simp only [effect]
  | _ => cases h

theorem ne_acquire_of_next {x : Scan × ℕ} (h : pc.next = some x) (k : CheckArgs) :
    pc ≠ .acquire k := by
  rintro rfl
  cases h

theorem exec_changes (t : CasTable) (l : List Change) :
    Run.exec Atomic.apply t (l.map .change) = Run.exec Change.apply t l := by
  induction l generalizing t with
  | nil => rfl
  | cons ch l ih => exact ih _

theorem outs_changes (t : CasTable) (l : List Change) :
    outs Atomic.apply Atomic.reply t (l.map .change) = ([] : List CasAnswer).map fun a => (tid, a) := by
  induction l generalizing t with
  | nil => rfl
  | cons ch l ih => exact ih _

/-- What has to be shown of a step of a call. -/
structure Keeps (S : Shards) (c : Locked) (t : CasTable) (tid : ℕ) (now : Time) (l : List LockEvent)
    (pc : LockPc) (r : CasTable × Next) : Prop where
  tables : Matches S (c.goOn tid r) (Run.exec Atomic.apply t (c.effect S tid now l pc)) l
  account : ∀ k, c.owed k ++
      answersTo k (outs Atomic.apply Atomic.reply t (c.effect S tid now l pc)) =
    answersTo k ((Next.answers r.2).map fun a => (tid, a)) ++ (c.goOn tid r).owed k

theorem keeps_of {r : CasTable × Next} (A : List Atomic) (w : List CasAnswer)
    (hpc : c.pcs.get tid = some pc) (heffect : c.effect S tid now l pc = A)
    (htables : Matches S (c.goOn tid r) (Run.exec Atomic.apply t A) l)
    (houts : outs Atomic.apply Atomic.reply t A = w.map fun a => (tid, a))
    (haccount : owedAt (some pc) ++ w = Next.answers r.2 ++ owedAt (r.2.after pc)) :
    Keeps S c t tid now l pc r := by
  refine ⟨?_, fun k => ?_⟩
  · rw [heffect]; exact htables
  · rw [heffect, houts]; exact account_moved hpc haccount k

/-- Nothing takes effect. -/
theorem keeps_nothing (hm : Matches S c t (.run tid now :: l)) (hpc : c.pcs.get tid = some pc)
    {n : Next} (hadv : c.advance S now pc = (c.table, n)) (heffect : c.effect S tid now l pc = [])
    (hpc' : ∀ k, pc ≠ .acquire k) (hafter : ∀ k, n.after pc ≠ some (.acquire k))
    (hn : Next.answers n = []) : Keeps S c t tid now l pc (c.table, n) := by
  have hsteady := steady_run (S := S) now hm.steady hpc
  rw [hadv] at hsteady
  have hnone : ∀ o, (∀ k, o ≠ some (LockPc.acquire k)) → owedAt o = [] := by
    intro o ho
    cases o with
    | none => rfl
    | some pc' =>
      cases pc' with
      | acquire k => exact absurd rfl (ho k)
      | _ => rfl
  refine keeps_of [] [] hpc heffect (hm.quiet hpc hsteady hpc' hafter rfl fun _ => rfl) rfl ?_
  rw [hn, hnone _ hafter, hnone _ fun k h => hpc' k (Option.some.inj h)]

theorem keeps_run (hm : Matches S c t (.run tid now :: l)) (hpc : c.pcs.get tid = some pc) :
    Keeps S c t tid now l pc (c.advance S now pc) := by
  have hsteady := steady_run (S := S) now hm.steady hpc
  have hout := advance_out (S := S) now hm.steady hpc
  generalize hadv : c.advance S now pc = r at hout hsteady
  cases hout with
  | ensureWaits k _ =>
    exact keeps_nothing hm hpc hadv (by simp only [effect, hadv]) (by simp) (by simp [Next.after]) rfl
  | lockWaits pc p hwants _ =>
    have hnot : ∀ k, pc ≠ .acquire k := by
      rintro k rfl
      cases hwants
    refine keeps_nothing hm hpc hadv ?_ hnot (fun k h => hnot k (Option.some.inj h)) rfl
    cases pc with
    | lock k => simp only [effect, hadv]
    | releaseLock path fh => simp only [effect, hadv]
    | activeLock path => simp only [effect, hadv]
    | look j shard todo => simp only [effect]
    | _ => cases hwants
  | ensured k hg =>
    have hfree := hm.acquiring_elsewhere hg
    refine keeps_of [.change (.ensureEntry now k.path)] [] hpc
      (by simp only [effect, hadv]) ?_ rfl rfl
    refine hm.alike hpc hsteady (by simp [Next.after]) hfree ?_ (fun p hp => ?_) (fun hsame => ?_)
      (by simp)
    · exact (CasTable.readerHashes_ensureEntry ..).trans
        (hm.receipts.trans (CasTable.readerHashes_ensureEntry ..).symm)
    · exact ⟨(CasTable.get_entries_ensureEntry ..).trans (if_neg hp),
        (CasTable.get_entries_ensureEntry ..).trans (if_neg hp)⟩
    · refine (CasTable.get_entries_ensureEntry ..).trans
        (Eq.trans ?_ (CasTable.get_entries_ensureEntry ..).symm)
      rw [if_pos rfl, if_pos rfl, CasTable.entryOr, hsame, CasTable.entryOr]
  | missing k he =>
    exact keeps_nothing hm hpc hadv (by simp only [effect]) (by simp) (by simp [Next.after]) rfl
  | found k state he =>
    exact keeps_nothing hm hpc hadv (by simp only [effect]) (by simp) (by simp [Next.after]) rfl
  | own k hl ho =>
    have howner := (owner_congr (hm.get_of_unlocked hl)).trans ho
    have hok : (t.checkAndAcquireWrite now k.path k.fh k.sid c.handles k.actual).2 = .ok () := by
      rw [CasTable.checkAndAcquireWrite_snd, howner]
      exact if_pos rfl
    refine keeps_of [c.checkNow tid now k] [.decision (.ok ())] hpc
      (by simp only [effect, hadv]) ?_ (by rw [outs_checkNow, hok]) rfl
    rw [exec_checkNow]
    refine hm.alike hpc hsteady (by simp [Next.after]) (not_acquiring_of_unlocked hl) ?_
      (fun p hp => ?_) (fun _ => ?_) (by simp)
    · exact (CasTable.readerHashes_check ..).trans hm.receipts
    · exact ⟨(get_entries_granted hok p).trans (if_neg hp), (get_acquired k p).trans (if_neg hp)⟩
    · rw [get_entries_granted hok, if_pos rfl, get_acquired, if_pos rfl]
  | refused k x hl ho hx =>
    have hsame := hm.get_of_unlocked hl
    have herr : (t.checkAndAcquireWrite now k.path k.fh k.sid c.handles k.actual).2 =
        .error (.owned k.path x) := by
      rw [CasTable.checkAndAcquireWrite_snd, (owner_congr hsame).trans ho]
      exact if_neg hx
    obtain ⟨-, state, hstate⟩ := hm.steady.entry tid _ k.path hpc (List.mem_singleton_self _)
    refine keeps_of [c.checkNow tid now k] [.decision (.error (.owned k.path x))] hpc
      (by simp only [effect, hadv]) ?_ (by rw [outs_checkNow, herr]) rfl
    rw [exec_checkNow]
    exact hm.quiet hpc hsteady (by simp) (by simp [Next.after]) (CasTable.readerHashes_check ..)
      (get_entries_refused (hsame.trans hstate) herr)
  | locks k hl ho =>
    exact keeps_nothing hm hpc hadv (by simp only [effect, hadv]) (by simp) (by simp [Next.after]) rfl
  | hashless k h hh hr =>
    exact keeps_nothing hm hpc hadv (by simp only [effect, hadv]) (by simp) (by simp [Next.after]) rfl
  | passes pc k hcmp hnone =>
    obtain ⟨-, hmutex⟩ := comparing_cases hcmp
    have hok := decision_of_comparing hm hpc hcmp (nextRun tid l)
    rw [hnone] at hok
    refine keeps_of _ [.decision (.ok ())] hpc
      (effect_comparing hcmp hadv (by simp)) ?_ (by rw [outs_checkNow, hok]) ?_
    · rw [exec_checkNow]
      refine hm.moved hpc hsteady ((CasTable.readerHashes_check ..).trans hm.receipts)
        (fun k' h => ?_) (fun j k' hne hj => ?_) fun p hothers hmine => ?_
      · cases h
        rw [get_entries_granted hok, if_pos rfl]
      · rw [get_entries_granted hok, if_neg]
        intro heq
        exact hne (hm.steady.alone j tid _ pc k.path hj hpc (by rw [← heq]; rfl) hmutex)
      · rw [get_entries_granted hok, if_neg fun heq => hmine k rfl heq.symm]
        refine hm.get_of_others hpc ?_ hothers
        rintro k' rfl
        cases hcmp
    · cases hcmp <;> rfl
  | fails pc k e hcmp hsome =>
    obtain ⟨hpins, hmutex⟩ := comparing_cases hcmp
    have hne : ∀ k', pc ≠ .acquire k' := by
      rintro k' rfl
      cases hcmp
    have herr := decision_of_comparing hm hpc hcmp (nextRun tid l)
    rw [hsome] at herr
    obtain ⟨-, state, hstate⟩ :=
      hm.steady.entry tid _ k.path hpc (by rw [hpins]; exact List.mem_singleton_self _)
    refine keeps_of _ [.decision (.error e)] hpc
      (effect_comparing hcmp hadv (by simp)) ?_ (by rw [outs_checkNow, herr]) ?_
    · rw [exec_checkNow]
      exact hm.quiet hpc hsteady hne (by simp [Next.after]) (CasTable.readerHashes_check ..)
        (get_entries_refused ((hm.get_of_mine hpc hmutex hne).trans hstate) herr)
    · cases hcmp <;> rfl
  | acquires k =>
    refine keeps_of [] [] hpc (by simp only [effect]) ?_ rfl rfl
    refine hm.moved hpc hsteady hm.receipts (by simp [Next.after]) (fun _ _ _ _ => rfl)
      fun p hothers _ => ?_
    rw [get_acquired]
    by_cases hp : p = k.path
    · rw [if_pos hp, hp]
      exact (hm.acquiring tid k hpc).trans (by rw [nextRun, if_pos rfl])
    · rw [if_neg hp]
      refine hm.get_of_others hpc ?_ hothers
      rintro k' ⟨⟩ heq
      exact hp heq.symm
  | untracked path fh he =>
    have hnone := (hm.get_of_none he).trans he
    refine keeps_of [.call tid (.releaseWrite path fh)] [.done] hpc
      (by simp only [effect, hadv]) ?_ rfl rfl
    refine hm.quiet hpc hsteady (by simp) (by simp [Next.after])
      (CasTable.readerHashes_releaseWrite ..) fun p => ?_
    refine (CasTable.get_entries_releaseWrite ..).trans ?_
    split
    · rename_i heq; rw [heq, hnone]; rfl
    · rfl
  | releasing path fh state he =>
    exact keeps_nothing hm hpc hadv (by simp only [effect, hadv]) (by simp) (by simp [Next.after]) rfl
  | releases path fh hl =>
    refine keeps_of [.call tid (.releaseWrite path fh)] [.done] hpc
      (by simp only [effect, hadv]) ?_ rfl rfl
    refine hm.alike hpc hsteady (by simp [Next.after]) (not_acquiring_of_unlocked hl) ?_
      (fun p hp => ?_) (fun hsame => ?_) (by simp)
    · exact (CasTable.readerHashes_releaseWrite ..).trans
        (hm.receipts.trans (CasTable.readerHashes_releaseWrite ..).symm)
    · exact ⟨(CasTable.get_entries_releaseWrite ..).trans (if_neg hp),
        (CasTable.get_entries_releaseWrite ..).trans (if_neg hp)⟩
    · refine (CasTable.get_entries_releaseWrite ..).trans
        (Eq.trans ?_ (CasTable.get_entries_releaseWrite ..).symm)
      rw [if_pos rfl, if_pos rfl, hsame]
  | inactive path he =>
    have hnone : t.owner path = none := by rw [CasTable.owner, (hm.get_of_none he).trans he]; rfl
    refine keeps_of [.call tid (.hasActiveWriter path)] [.writer false] hpc
      (by simp only [effect, hadv]) ?_ ?_ rfl
    · exact hm.quiet hpc hsteady (by simp) (by simp [Next.after]) rfl fun _ => rfl
    · simp only [outs, Atomic.reply, CasTable.answer, CasTable.hasActiveWriter_eq, hnone]
      rfl
  | looking path state he =>
    exact keeps_nothing hm hpc hadv (by simp only [effect, hadv]) (by simp) (by simp [Next.after]) rfl
  | looks path hl =>
    refine keeps_of [.call tid (.hasActiveWriter path)] [.writer (c.table.owner path).isSome] hpc
      (by simp only [effect, hadv]) ?_ ?_ rfl
    · exact hm.quiet hpc hsteady (by simp) (by simp [Next.after]) rfl fun _ => rfl
    · simp only [outs, Atomic.reply, CasTable.answer, CasTable.hasActiveWriter_eq,
        owner_congr (hm.get_of_unlocked hl)]
      rfl
  | scans pc j shard hnext _ =>
    exact keeps_nothing hm hpc hadv (effect_next hnext) (ne_acquire_of_next hnext)
      (by simp [Next.after]) rfl
  | collected pc cutoff toRemove shard hnext =>
    exact keeps_nothing hm hpc hadv (effect_next hnext) (ne_acquire_of_next hnext)
      (by simp [Next.after]) rfl
  | scanned pc j shard hnext =>
    exact keeps_nothing hm hpc hadv (effect_next hnext) (ne_acquire_of_next hnext)
      (by simp [Next.after]) rfl
  | looksAt j shard path todo state _ _ =>
    exact keeps_nothing hm hpc hadv (by simp only [effect]) (by simp) (by simp [Next.after]) rfl
  | underflows seconds =>
    exact keeps_nothing hm hpc hadv (by simp only [effect]) (by simp) (by simp [Next.after]) rfl
  | subtracts seconds =>
    exact keeps_nothing hm hpc hadv (by simp only [effect]) (by simp) (by simp [Next.after]) rfl
  | evictWaits cutoff path toRemove _ =>
    exact keeps_nothing hm hpc hadv (by simp only [effect, hadv]) (by simp) (by simp [Next.after]) rfl
  | evicts cutoff path toRemove hg =>
    refine keeps_of [.change (.removeEntry path)] [] hpc (by simp only [effect, hadv]) ?_ rfl rfl
    refine hm.alike hpc hsteady (by simp [Next.after]) (hm.acquiring_elsewhere hg) hm.receipts
      (fun p hp => ?_) (fun _ => ?_) (by simp)
    · exact ⟨(FinMap.get_remove ..).trans (if_neg hp), (FinMap.get_remove ..).trans (if_neg hp)⟩
    · exact (FinMap.get_remove_self ..).trans (FinMap.get_remove_self ..).symm
  | evicted cutoff =>
    exact keeps_nothing hm hpc hadv (by simp only [effect]) (by simp) (by simp [Next.after]) rfl
  | expires cutoff shard _ =>
    refine keeps_of
      (((expired S c.table cutoff shard).map fun k => .removeReceipt k.1 k.2).map .change) [] hpc
      (by simp only [effect, hadv]) ?_ (outs_changes ..) rfl
    rw [exec_changes]
    refine hm.moved hpc hsteady ?_ (by simp [Next.after]) (fun j k _ _ => ?_) fun p hothers _ => ?_
    · rw [exec_removeReceipts, exec_removeReceipts, hm.receipts]
    · rw [exec_removeReceipts]
    · rw [exec_removeReceipts, exec_removeReceipts]
      exact hm.get_of_others hpc (fun k h => by cases h) hothers
  | passed cutoff shard =>
    exact keeps_nothing hm hpc hadv (by simp only [effect, hadv]) (by simp) (by simp [Next.after]) rfl

/-! ### The other events -/

/-- What a change does to an entry depends on that entry, and what it does to the receipts on them. -/
theorem apply_congr (hreceipts : t.readerHashes = t'.readerHashes) (ch : Change) :
    (ch.apply t).readerHashes = (ch.apply t').readerHashes ∧
      ∀ p, t.entries.get p = t'.entries.get p →
        (ch.apply t).entries.get p = (ch.apply t').entries.get p := by
  cases ch with
  | ensureEntry now path =>
    refine ⟨?_, fun p h => ?_⟩
    · simp only [Change.apply, CasTable.readerHashes_ensureEntry, hreceipts]
    · simp only [Change.apply, CasTable.get_entries_ensureEntry, CasTable.entryOr]
      split
      · rename_i heq; rw [← heq, h]
      · exact h
  | removeEntry path => exact ⟨hreceipts, fun p h => by simp only [Change.apply, FinMap.get_remove, h]⟩
  | insertEntry path state =>
    exact ⟨hreceipts, fun p h => by simp only [Change.apply, FinMap.get_insert, h]⟩
  | removeReceipt sid path => exact ⟨by simp only [Change.apply, hreceipts], fun _ h => h⟩
  | insertReceipt sid path entry => exact ⟨by simp only [Change.apply, hreceipts], fun _ h => h⟩

theorem matches_begin {call : LockCall} (hm : Matches S c t (.begin_ tid call :: l)) :
    Matches S (c.step S (.begin_ tid call)) t l ∧ ∀ k, c.owed k = (c.step S (.begin_ tid call)).owed k := by
  have hsteady := steady_step (S := S) hm.steady (.begin_ tid call)
  rw [step] at hsteady ⊢
  cases hpc : c.pcs.get tid with
  | some pc => exact ⟨⟨hm.steady, hm.receipts, hm.acquiring, hm.entries⟩, fun _ => rfl⟩
  | none =>
    rw [hpc] at hsteady
    have hstart : ∀ k, call.start ≠ .acquire k := by
      intro k h
      cases call <;> cases h
    have hget : ∀ j k, (c.pcs.insert tid call.start).get j = some (.acquire k) ↔
        c.pcs.get j = some (.acquire k) := by
      intro j k
      rw [FinMap.get_insert]
      split
      · rename_i heq
        rw [heq, hpc]
        exact ⟨fun h => absurd (Option.some.inj h) (hstart k), fun h => by cases h⟩
      · exact Iff.rfl
    refine ⟨⟨hsteady, hm.receipts, fun j k hj => hm.acquiring j k ((hget j k).mp hj),
      fun p hp => hm.entries p fun j k hj => hp j k ((hget j k).mpr hj)⟩, fun k => ?_⟩
    rw [owed, owed]
    simp only [FinMap.get_insert]
    split
    · rename_i heq
      rw [heq, hpc]
      cases call <;> rfl
    · rfl

theorem matches_change {ch : Change} (hm : Matches S c t (.change ch :: l)) :
    Matches S (c.step S (.change ch))
      (Run.exec Atomic.apply t (c.takesEffect S (.change ch) l)) l := by
  have hsteady := steady_step (S := S) hm.steady (.change ch)
  rw [step] at hsteady ⊢
  rw [takesEffect]
  cases hg : ch.entry.any (c.guarded S) with
  | true => exact ⟨hm.steady, hm.receipts, hm.acquiring, hm.entries⟩
  | false =>
    rw [hg] at hsteady
    obtain ⟨hreceipts, hentries⟩ := apply_congr hm.receipts ch
    refine ⟨hsteady, hreceipts, fun j k hj => ?_, fun p hp => hentries p (hm.entries p hp)⟩
    have hne : ∀ path, ch.entry = some path → k.path ≠ path := by
      intro path hch
      rw [hch, Option.any_some] at hg
      exact hm.acquiring_elsewhere hg j k hj
    exact (apply_other hne).trans (hm.acquiring j k hj)

theorem matches_handle {op : HandleOp} (hm : Matches S c t (.handle op :: l)) :
    Matches S (c.step S (.handle op)) t l ∧ (c.step S (.handle op)).pcs = c.pcs := by
  have hsteady := steady_step (S := S) hm.steady (.handle op)
  rw [step] at hsteady ⊢
  cases hg : c.handleGuarded S (op.key c.handles) with
  | true => exact ⟨⟨hm.steady, hm.receipts, hm.acquiring, hm.entries⟩, rfl⟩
  | false =>
    rw [hg] at hsteady
    exact ⟨⟨hsteady, hm.receipts, hm.acquiring, hm.entries⟩, rfl⟩

/-- STEP: the atomic table keeps up with the locked one. -/
theorem linearizes : Linearizes (step S) (out S) Atomic.apply Atomic.reply (takesEffect S) owed
    (Matches S) where
  keeps := by
    intro c t e l hm
    cases e with
    | begin_ tid call => exact (matches_begin hm).1
    | run tid now =>
      cases hpc : c.pcs.get tid with
      | some pc =>
        simp only [step, takesEffect, hpc]
        exact (keeps_run hm hpc).tables
      | none =>
        simp only [step, takesEffect, hpc]
        refine ⟨hm.steady, hm.receipts, fun j k hj => ?_, hm.entries⟩
        refine (hm.acquiring j k hj).trans ?_
        rw [nextRun, if_neg]
        rintro rfl
        rw [hpc] at hj
        cases hj
    | change ch => exact matches_change hm
    | handle op => exact (matches_handle hm).1
  account := by
    intro c t e l hm k
    cases e with
    | begin_ tid call =>
      rw [(matches_begin (S := S) hm).2 k]
      exact List.append_nil _
    | run tid now =>
      cases hpc : c.pcs.get tid with
      | some pc =>
        rw [out_run hpc, takesEffect, step]
        simp only [hpc]
        exact (keeps_run hm hpc).account k
      | none =>
        simp only [takesEffect, out, step, hpc]
        exact List.append_nil _
    | change ch =>
      rw [takesEffect, step]
      cases hg : ch.entry.any (c.guarded S) with
      | true => exact List.append_nil _
      | false => exact List.append_nil _
    | handle op =>
      rw [owed, owed, (matches_handle (S := S) hm).2]
      exact List.append_nil _

/-- CORRECT (atomicity): whatever the shards and the schedule, the run of the threads is a run of the
    table without locks, in which every call that locks one entry takes effect at one of its own steps:
    the receipts are the same, so are the entries that no thread is about to write, and each thread has
    got the same answers, in the same order, but for an acquisition that it is about to write and to
    report. The other calls, the scans among them, only make their changes to single keys in it, each
    where it is made; what a scan gathers is not among the answers. -/
theorem calls_atomic (S : Shards) (t : CasTable) (h : HandleTable) (l : List LockEvent) :
    let c := Run.exec (step S) ⟨t, h, .empty⟩ l
    let a := atomics (step S) (takesEffect S) ⟨t, h, .empty⟩ l
    (Run.exec Atomic.apply t a).readerHashes = c.table.readerHashes ∧
    (∀ p, (∀ tid k, c.pcs.get tid = some (.acquire k) → k.path ≠ p) →
      (Run.exec Atomic.apply t a).entries.get p = c.table.entries.get p) ∧
    ∀ tid, answersTo tid (outs Atomic.apply Atomic.reply t a) =
      answersTo tid (outs (step S) (out S) ⟨t, h, .empty⟩ l) ++ c.owed tid := by
  have hstart : Matches S ⟨t, h, .empty⟩ t l :=
    ⟨steady_start t h, rfl, (fun _ _ hpc => by cases hpc), fun _ _ => rfl⟩
  obtain ⟨hm, hanswers⟩ := (linearizes (S := S)).run l hstart
  exact ⟨hm.receipts, hm.entries, hanswers⟩

end Locked

end Dibs
