import Dibs.State.Eviction
import Dibs.Proofs.Lock

/-! Eviction beside the request handlers. A path is collected because its entry has no owner, but the
    entry is removed later and without another look. As long as no handle is let in on a collected
    path, and no owned entry is renamed to it, before the path is removed, no lock is ever broken. -/

namespace Dibs.Evicting
variable {e : Evicting} {a : EvictEvent}

/-- The condition: no call is let through on a path that is waiting for its removal, and no entry with
    an owner is renamed to one. -/
def Spares (e : Evicting) : EvictEvent → Prop
  | .call (.checkAndAcquireWrite _ path fh sid handles actual) => path ∈ e.pending →
      e.table.casCheck path fh sid handles actual ≠ none
  | .call (.rename old new) => new ∈ e.pending → old ≠ new → e.table.owner old = none
  | _ => True

/-- No lock is broken by one event: an entry the thread removes has no owner; an owner keeps its path
    but for a call that gives it up; and while it does, every other handle is refused. -/
structure LockKept (e : Evicting) (a : EvictEvent) : Prop where
  removed : a = .removeNext → ∀ cutoff path rest, e.pass = some (cutoff, path :: rest) →
    e.table.owner path = none
  lasts : ∀ p fh, e.table.owner p = some fh → (e.step a).table.owner p = some fh ∨
    ∃ c, a = .call c ∧ CasTable.GivesUp p fh c
  exclusive : ∀ p fh, e.table.owner p = some fh → ∀ fh', fh' ≠ fh → ∀ now sid handles actual, ∃ err,
    (e.table.checkAndAcquireWrite now p fh' sid handles actual).2 = .error err

/-- No collected path has an owner. -/
def PendingFree (e : Evicting) : Prop := ∀ p ∈ e.pending, e.table.owner p = none

theorem owner_of_collected {t : CasTable} {cutoff : Time} {p : Path} (h : p ∈ collected t cutoff) :
    t.owner p = none := by
  obtain ⟨⟨p', st⟩, hx, rfl⟩ := List.mem_map.mp h
  obtain ⟨hx, hst⟩ := List.mem_filter.mp hx
  simp only [Bool.and_eq_true, Option.isNone_iff_eq_none] at hst
  rw [CasTable.owner, FinMap.mem_iter.mp hx]
  exact hst.1

theorem owner_removeEntry (t : CasTable) (path p : Path) :
    (CasTable.mk (t.entries.remove path) t.readerHashes).owner p =
      if p = path then none else t.owner p :=
  t.owner_remove path p

/-- A call that spares the collected paths gives none of them an owner. -/
theorem owner_call_of_spares {c : CasCall} (hc : e.Spares (.call c)) {p : Path} (hp : p ∈ e.pending)
    (ho : e.table.owner p = none) : (e.table.call c).owner p = none := by
  cases c with
  | recordReader now path hash sid => exact ho
  | updateReader now sid path hash => exact ho
  | ensureEntry now path => exact (e.table.owner_ensureEntry now path p).trans ho
  | checkAndAcquireWrite now path fh sid handles actual =>
    rw [CasTable.call]
    rcases e.table.checkAndAcquireWrite_cases now path fh sid handles actual with
      ⟨t', heq, hg⟩ | ⟨err, heq, -⟩
    · rw [heq, hg.owner]
      split
      · rename_i hpath
        subst hpath
        rcases hg.why with hown | ⟨-, hnone⟩
        · rw [ho] at hown; cases hown
        · exact absurd hnone (hc hp)
      · exact ho
    · rw [heq]; exact (e.table.owner_ensureEntry now path p).trans ho
  | releaseWrite path fh =>
    rw [CasTable.call, CasTable.owner_releaseWrite]
    split
    · rfl
    · exact ho
  | hasActiveWriter path => exact ho
  | getReaderHash sid path => exact ho
  | remove path =>
    rw [CasTable.call, CasTable.owner_remove]
    split
    · rfl
    · exact ho
  | rename old new =>
    rw [CasTable.call, CasTable.owner_rename]
    split
    · exact ho
    · split
      · rename_i hnew
        subst hnew
        by_cases hold : old = p
        · rw [hold]; exact ho
        · exact hc hp hold
      · split
        · rfl
        · exact ho
  | evictOlderThan now seconds => exact (e.table.owner_evictOlderThan now seconds p).trans ho

/-- STEP: the collected paths stay free of owners. -/
theorem pendingFree_step (he : e.PendingFree) (ha : e.Spares a) : (e.step a).PendingFree := by
  cases a with
  | collect now seconds =>
    rw [step]
    split
    · exact he
    · simp only
      split
      · exact he
      · exact fun p hp => owner_of_collected hp
  | removeNext =>
    rw [step]
    split
    · rename_i cutoff path rest hpass
      intro p hp
      have hin : p ∈ e.pending := by
        rw [pending, hpass]; exact List.mem_cons_of_mem _ hp
      refine (owner_removeEntry ..).trans ?_
      split
      · rfl
      · exact he p hin
    · exact he
  | expire =>
    rw [step]
    split
    · intro p hp; cases hp
    · exact he
  | call c => exact fun p hp => owner_call_of_spares ha hp (he p hp)

theorem lockKept_of_pendingFree (he : e.PendingFree) : e.LockKept a where
  removed := by
    intro _ cutoff path rest hpass
    exact he path (by rw [pending, hpass]; exact List.mem_cons_self ..)
  lasts := by
    intro p fh ho
    cases a with
    | collect now seconds =>
      rw [step]
      split
      · exact Or.inl ho
      · simp only
        split <;> exact Or.inl ho
    | removeNext =>
      rw [step]
      split
      · rename_i cutoff path rest hpass
        have hne : p ≠ path := by
          rintro rfl
          have hfree := he p (by rw [pending, hpass]; exact List.mem_cons_self ..)
          rw [ho] at hfree
          cases hfree
        exact Or.inl ((owner_removeEntry ..).trans ((if_neg hne).trans ho))
      · exact Or.inl ho
    | expire =>
      rw [step]
      split <;> exact Or.inl ho
    | call c =>
      by_cases hc : CasTable.GivesUp p fh c
      · exact Or.inr ⟨c, rfl, hc⟩
      · exact Or.inl (CasTable.owner_call hc ho)
  exclusive := fun _ _ ho => (CasTable.locked_of_owner ho).others

/-- EVICTION: in every interleaving of passes and calls that spares the collected paths, no lock is
    broken. -/
theorem sparing_runs_keep_locks (t : CasTable) (events : List EvictEvent)
    (hrun : Run.Along step Spares ⟨t, none⟩ events) :
    Run.Along step LockKept ⟨t, none⟩ events :=
  Run.along_of_inv (fun _ _ he ha => pendingFree_step he ha)
    (fun _ _ he _ => lockKept_of_pendingFree he) events _ (fun p hp => by cases hp) hrun

/-- `f` was tracked at the epoch and nobody owns it. -/
def idle : CasTable := CasTable.new.ensureEntry 0 [[0x66]]

/-- Two hours later a pass with a window of one hour collects `f`; handle 1 gets `g` meanwhile, and
    gets `f` after the removal. -/
theorem acquire_after_removal_keeps_locks :
    Run.Along step LockKept ⟨idle, none⟩
      [.collect (7200 * 10 ^ 9) 3600,
        .call (.checkAndAcquireWrite (7200 * 10 ^ 9) [[0x67]] 1 7 .new [0xAA]),
        .removeNext, .expire,
        .call (.checkAndAcquireWrite (7200 * 10 ^ 9) [[0x66]] 1 7 .new [0xAA])] := by
  refine sparing_runs_keep_locks idle _ ⟨trivial, ?_, trivial, trivial, ?_, trivial⟩
  · exact fun hp => absurd hp (by decide +kernel)
  · exact fun hp => absurd hp (by decide +kernel)

/-- Handle 1 gets `f` between the two phases: the pass removes its entry, and handle 2 gets `f` while
    handle 1 has not released it. -/
theorem pass_removes_owned_entry :
    ∃ e : Evicting, e = Run.exec step ⟨idle, none⟩ [.collect (7200 * 10 ^ 9) 3600,
        .call (.checkAndAcquireWrite (7200 * 10 ^ 9) [[0x66]] 1 7 .new [0xAA])] ∧
      e.table.owner [[0x66]] = some 1 ∧ ¬ LockKept e .removeNext ∧
      (e.step .removeNext).table.owner [[0x66]] = none ∧
      ((e.step .removeNext).table.checkAndAcquireWrite (7200 * 10 ^ 9) [[0x66]] 2 8 .new
        [0xAA]).2 = .ok () := by
  refine ⟨_, rfl, by decide +kernel, fun h => ?_, by decide +kernel, rfl⟩
  have hpass : (Run.exec step ⟨idle, none⟩ [.collect (7200 * 10 ^ 9) 3600,
      .call (.checkAndAcquireWrite (7200 * 10 ^ 9) [[0x66]] 1 7 .new [0xAA])]).pass =
        some (3600 * 10 ^ 9, [[[0x66]]]) := by decide +kernel
  exact absurd (h.removed rfl _ _ _ hpass) (by decide +kernel)

end Dibs.Evicting
