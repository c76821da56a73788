import Dibs.State.CasCalls

/-! The CAS table as a lock on each path. Whatever calls are made, a handle that got a path keeps it
    until it releases it itself: others are refused, foreign releases are ignored. A refused call
    leaves all owners and receipts alone, and after the release the next handle is let in or not by
    its reference hash alone. -/

namespace Dibs.CasTable
variable {t : CasTable} {p : Path} {fh : ℕ}

/-- The call ends the ownership of `p` by `fh`: it is the release of `p` by `fh`, or removes or renames
    the entry of `p`. -/
def GivesUp (p : Path) (fh : ℕ) : CasCall → Prop
  | .releaseWrite path x => path = p ∧ x = fh
  | .remove path => path = p
  | .rename old new => old = p ∨ new = p
  | _ => False

/-- `fh` holds the lock on `p`: others are refused whatever they pass, `fh` is let through, and nobody
    else can give the lock away. -/
structure Locked (t : CasTable) (p : Path) (fh : ℕ) : Prop where
  others : ∀ fh', fh' ≠ fh → ∀ now sid handles actual, ∃ e,
    (t.checkAndAcquireWrite now p fh' sid handles actual).2 = .error e
  self : ∀ now sid handles actual, (t.checkAndAcquireWrite now p fh sid handles actual).2 = .ok ()
  foreign : ∀ fh', fh' ≠ fh → (t.releaseWrite p fh').owner p = t.owner p ∧ t.owner p = some fh

/-- A refused call changes no owner and no receipt; at most it adds an entry without an owner. -/
structure RefusalKeeps (t t' : CasTable) (p : Path) : Prop where
  owner : ∀ q, t'.owner q = t.owner q
  receipts : t'.readerHashes = t.readerHashes
  entries : ∀ q, t'.entries.get q = t.entries.get q ∨
    q = p ∧ t.entries.get q = none ∧ ∃ now, t'.entries.get q = some ⟨none, now⟩

/-- The path is free: a handle is let in, and then owns it, just when its reference hash is missing or
    is the actual one; otherwise it is refused. -/
structure HandsOver (t : CasTable) (p : Path) : Prop where
  granted : ∀ fh' now sid handles actual,
    (t.referenceHash p fh' sid handles = none ∨
      t.referenceHash p fh' sid handles = some actual) →
    (t.checkAndAcquireWrite now p fh' sid handles actual).2 = .ok () ∧
      (t.checkAndAcquireWrite now p fh' sid handles actual).1.owner p = some fh'
  refused : ∀ fh' now sid handles actual r, t.referenceHash p fh' sid handles = some r →
    r ≠ actual → ∃ e, (t.checkAndAcquireWrite now p fh' sid handles actual).2 = .error e

theorem owner_of_ok {now : Time} {sid : ℕ} {handles : HandleTable} {actual : Bytes}
    (h : (t.checkAndAcquireWrite now p fh sid handles actual).2 = .ok ()) :
    (t.checkAndAcquireWrite now p fh sid handles actual).1.owner p = some fh := by
  rcases t.checkAndAcquireWrite_cases now p fh sid handles actual with
    ⟨t', heq, hg⟩ | ⟨e, heq, -⟩
  · rw [heq, hg.owner, if_pos rfl]
  · rw [heq] at h; cases h

/-- STEP: no other call takes the path from its owner. -/
theorem owner_call {c : CasCall} (hc : ¬ GivesUp p fh c) (ho : t.owner p = some fh) :
    (t.call c).owner p = some fh := by
  cases c with
  | recordReader now path hash sid => exact ho
  | updateReader now sid path hash => exact ho
  | ensureEntry now path => exact (t.owner_ensureEntry now path p).trans ho
  | checkAndAcquireWrite now path x sid handles actual =>
    rw [call]
    rcases t.checkAndAcquireWrite_cases now path x sid handles actual with
      ⟨t', heq, hg⟩ | ⟨e, heq, -⟩
    · rw [heq]; exact hg.keeps ho
    · rw [heq]; exact (t.owner_ensureEntry now path p).trans ho
  | releaseWrite path x =>
    rw [call, owner_releaseWrite, if_neg, ho]
    rintro ⟨rfl, hx⟩
    rw [ho] at hx
    exact hc ⟨rfl, (Option.some.inj hx).symm⟩
  | hasActiveWriter path => exact ho
  | getReaderHash sid path => exact ho
  | remove path => rw [call, owner_remove, if_neg (Ne.symm hc), ho]
  | rename old new =>
    obtain ⟨hold, hnew⟩ := not_or.mp hc
    rw [call, owner_rename, if_neg (Ne.symm hnew), if_neg (Ne.symm hold), ite_self, ho]
  | evictOlderThan now seconds => exact (t.owner_evictOlderThan now seconds p).trans ho

theorem locked_of_owner (ho : t.owner p = some fh) : Locked t p fh where
  others := by
    intro fh' hne now sid handles actual
    rcases t.checkAndAcquireWrite_cases now p fh' sid handles actual with
      ⟨t', heq, hg⟩ | ⟨e, heq, -⟩
    · rcases hg.why with hown | ⟨hnone, -⟩
      · rw [ho] at hown; exact absurd (Option.some.inj hown).symm hne
      · rw [ho] at hnone; cases hnone
    · exact ⟨e, by rw [heq]⟩
  self := by
    intro now sid handles actual
    rcases t.checkAndAcquireWrite_cases now p fh sid handles actual with
      ⟨t', heq, -⟩ | ⟨e, heq, ⟨x, hne, hx, -⟩ | ⟨hnone, -⟩⟩
    · rw [heq]
    · rw [ho] at hx; exact absurd (Option.some.inj hx).symm hne
    · rw [ho] at hnone; cases hnone
  foreign := by
    intro fh' hne
    refine ⟨?_, ho⟩
    rw [owner_releaseWrite, if_neg]
    rintro ⟨-, hx⟩
    rw [ho] at hx
    exact hne (Option.some.inj hx).symm

theorem refusalKeeps_of_error {now : Time} {sid : ℕ} {handles : HandleTable} {actual : Bytes}
    {e : CasError} (h : (t.checkAndAcquireWrite now p fh sid handles actual).2 = .error e) :
    RefusalKeeps t (t.checkAndAcquireWrite now p fh sid handles actual).1 p := by
  rcases t.checkAndAcquireWrite_cases now p fh sid handles actual with
    ⟨t', heq, -⟩ | ⟨e', heq, -⟩
  · rw [heq] at h; cases h
  · rw [heq]
    refine ⟨fun q => t.owner_ensureEntry now p q, readerHashes_ensureEntry .., fun q => ?_⟩
    unfold ensureEntry
    cases hp : t.entries.get p with
    | some st => exact Or.inl rfl
    | none =>
      by_cases hq : q = p
      · subst hq
        exact Or.inr ⟨rfl, hp, now, FinMap.get_insert_self ..⟩
      · exact Or.inl ((FinMap.get_insert ..).trans (if_neg hq))

theorem handsOver_of_free (ho : t.owner p = none) : HandsOver t p where
  granted := by
    intro fh' now sid handles actual href
    have hnone : t.casCheck p fh' sid handles actual = none := by
      rw [casCheck_eq_none]
      intro r hr
      rcases href with h | h <;> rw [h] at hr
      · cases hr
      · exact (Option.some.inj hr).symm
    have hok : (t.checkAndAcquireWrite now p fh' sid handles actual).2 = .ok () := by
      rcases t.checkAndAcquireWrite_cases now p fh' sid handles actual with
        ⟨t', heq, -⟩ | ⟨e, heq, ⟨x, -, hx, -⟩ | ⟨-, hsome⟩⟩
      · rw [heq]
      · rw [ho] at hx; cases hx
      · rw [hnone] at hsome; cases hsome
    exact ⟨hok, owner_of_ok hok⟩
  refused := by
    intro fh' now sid handles actual r hr hne
    rcases t.checkAndAcquireWrite_cases now p fh' sid handles actual with
      ⟨t', heq, hg⟩ | ⟨e, heq, -⟩
    · rcases hg.why with hown | ⟨-, hnone⟩
      · rw [ho] at hown; cases hown
      · exact absurd ((casCheck_eq_none ..).mp hnone r hr) hne
    · exact ⟨e, by rw [heq]⟩

/-- LOCK: once a handle got a path, it holds it through every sequence of calls up to its own release;
    refusals change nothing; and its release hands the path over by reference hash. -/
theorem lock_held_until_release (t : CasTable) (now : Time) (p : Path) (fh sid : ℕ)
    (handles : HandleTable) (actual : Bytes)
    (hok : (t.checkAndAcquireWrite now p fh sid handles actual).2 = .ok ()) (calls : List CasCall)
    (hcalls : ∀ c ∈ calls, ¬ GivesUp p fh c) :
    Locked (Run.exec call (t.checkAndAcquireWrite now p fh sid handles actual).1 calls) p fh ∧
      (∀ (u : CasTable) now' q x sid' handles' actual' e,
        (u.checkAndAcquireWrite now' q x sid' handles' actual').2 = .error e →
        RefusalKeeps u (u.checkAndAcquireWrite now' q x sid' handles' actual').1 q) ∧
      HandsOver ((Run.exec call (t.checkAndAcquireWrite now p fh sid handles actual).1
        calls).releaseWrite p fh) p := by
  have howner : (Run.exec call (t.checkAndAcquireWrite now p fh sid handles actual).1 calls).owner p =
      some fh :=
    Run.exec_of_inv (I := fun u : CasTable => u.owner p = some fh) (fun u c hu hc => owner_call hc hu) calls _
      (owner_of_ok hok) (Run.along_of_forall calls _ hcalls)
  refine ⟨locked_of_owner howner, fun u now' q x sid' handles' actual' e h =>
    refusalKeeps_of_error h, handsOver_of_free ?_⟩
  rw [owner_releaseWrite, if_pos ⟨rfl, howner⟩]

/-- Handle 1 gets `f`; a foreign release and a receipt of another session come between. -/
theorem lock_held_through_foreign_release :
    Locked (Run.exec call (new.checkAndAcquireWrite 0 [[0x66]] 1 7 .new [0xAA]).1
      [.releaseWrite [[0x66]] 2, .recordReader 0 [[0x66]] [0xAA] 8]) [[0x66]] 1 := by
  refine (lock_held_until_release new 0 [[0x66]] 1 7 .new [0xAA] rfl _ ?_).1
  intro c hc
  rcases List.mem_cons.mp hc with rfl | hc
  · exact fun h => absurd h.2 (by decide)
  · obtain rfl := List.mem_singleton.mp hc
    exact id

/-- Session 7 has a receipt for `f`, handle 1 gets `f` and releases it. Handle 2 is in no handle
    table, so nothing is compared: passed with session 7 and another hash than the receipt, it is let
    in. -/
theorem unknown_handle_acquires :
    ∃ t : CasTable, t = ((new.recordReader 0 [[0x66]] [0xAA] 7).checkAndAcquireWrite 0 [[0x66]] 1 9
        .new [0xAA]).1.releaseWrite [[0x66]] 1 ∧
      ((HandleTable.new.get 2).bind (·.hashAtOpen)).or (t.getReaderHash 7 [[0x66]]) = some [0xAA] ∧
      (t.checkAndAcquireWrite 0 [[0x66]] 2 7 .new [0xBB]).2 = .ok () ∧
      (t.checkAndAcquireWrite 0 [[0x66]] 2 7 .new [0xBB]).1.owner [[0x66]] = some 2 :=
  ⟨_, rfl, by decide +kernel, rfl, by decide +kernel⟩

end Dibs.CasTable
