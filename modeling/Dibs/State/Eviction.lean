import Dibs.State.CasCalls

/-! The eviction thread (`src/state/eviction.rs`) at work beside the request handlers. A pass collects
    the paths whose entries are ownerless and old, then removes these paths one by one, then drops the
    old receipts; calls of the handlers may come between any two of these steps. A pass nothing comes
    between is `evictOlderThan`. -/

namespace Dibs

/-- `Duration::from_secs(eviction_minutes * 60)`; the product wraps around in a release build. -/
def evictionSeconds (minutes : ℕ) : ℕ := minutes * 60 % 2 ^ 64

/-- The table, and the pass the thread is in: its cutoff and the collected paths not yet removed. -/
structure Evicting where
  table : CasTable
  pass : Option (Time × List Path) := none

inductive EvictEvent where
  /-- the thread starts a pass and collects -/
  | collect (now : Time) (seconds : ℕ)
  /-- the thread removes the next path it collected -/
  | removeNext
  /-- the thread drops the old receipts, which ends the pass -/
  | expire
  /-- a handler calls the table -/
  | call (c : CasCall)

namespace Evicting

/-- The paths a pass collects. -/
def collected (t : CasTable) (cutoff : Time) : List Path :=
  (t.entries.iter.filter fun e => e.2.writeOwner.isNone && e.2.lastAccess < cutoff).map (·.1)

/-- One event; what the thread cannot do at this point changes nothing. -/
def step (e : Evicting) : EvictEvent → Evicting
  | .collect now seconds =>
    match e.pass with
    | some _ => e
    | none =>
      let cutoff := now - CasTable.chronoFromStd seconds
      -- the subtraction panics and the thread ends
      if cutoff < CasTable.dateMin then e
      else { e with pass := some (cutoff, collected e.table cutoff) }
  | .removeNext =>
    match e.pass with
    | some (cutoff, path :: rest) =>
      ⟨{ e.table with entries := e.table.entries.remove path }, some (cutoff, rest)⟩
    | _ => e
  | .expire =>
    match e.pass with
    | some (cutoff, []) =>
      ⟨{ e.table with readerHashes := e.table.readerHashes.retain fun _ v => cutoff ≤ v.lastAccess },
        none⟩
    | _ => e
  | .call c => { e with table := e.table.call c }

/-- The collected paths not yet removed. -/
def pending (e : Evicting) : List Path := (e.pass.map (·.2)).getD []

theorem exec_removeNext (cutoff : Time) : ∀ (l : List Path) (t : CasTable),
    Run.exec step ⟨t, some (cutoff, l)⟩ (List.replicate l.length .removeNext) =
      ⟨{ t with entries := l.foldl (fun m path => m.remove path) t.entries }, some (cutoff, [])⟩
  | [], _ => rfl
  | p :: l, t => exec_removeNext cutoff l { t with entries := t.entries.remove p }

/-- REFINEMENT: a pass nothing comes between leaves the table `evictOlderThan` leaves. -/
theorem quiet_pass {t t' : CasTable} {now : Time} {seconds : ℕ}
    (h : t.evictOlderThan now seconds = some t') :
    Run.exec step ⟨t, none⟩ (.collect now seconds ::
        (List.replicate (collected t (now - CasTable.chronoFromStd seconds)).length .removeNext ++
          [.expire])) = ⟨t', none⟩ := by
  rw [CasTable.evictOlderThan] at h
  split at h
  · cases h
  · rename_i hok
    obtain rfl := Option.some.inj h
    rw [Run.exec_cons, step]
    simp only [if_neg hok]
    rw [Run.exec_append, exec_removeNext]
    rfl

/-- A pass that panics leaves the table as it is. -/
theorem panicked_pass {t : CasTable} {now : Time} {seconds : ℕ}
    (h : t.evictOlderThan now seconds = none) :
    step ⟨t, none⟩ (.collect now seconds) = ⟨t, none⟩ := by
  rw [CasTable.evictOlderThan] at h
  split at h
  · rename_i hpanics
    rw [step]
    simp only [if_pos hpanics]
  · cases h

end Evicting

end Dibs
