import Dibs.State.CasCalls

/-! Files do not interfere. What the table records of one path (its entry and every session's receipt)
    is changed only by calls that name the path and by the eviction thread, and these read nothing
    else. So all other calls can be left out of a sequence without any caller noticing on that path. -/

namespace Dibs.CasTable
variable {s t : CasTable} {q : Path}

/-- What the table records of a path. -/
def at_ (q : Path) (t : CasTable) : Option FileState × (ℕ → Option ReaderEntry) :=
  (t.entries.get q, fun sid => t.readerHashes.get (sid, q))

/-- The call names the path, or is a pass of the eviction thread. -/
def concerns (q : Path) : CasCall → Bool
  | .evictOlderThan _ _ => true
  | c => q ∈ c.paths

/-- No rename names the path. -/
def NotRenamed (q : Path) : CasCall → Prop
  | .rename old new => q ≠ old ∧ q ≠ new
  | _ => True

theorem at_eq_iff : at_ q s = at_ q t ↔
    s.entries.get q = t.entries.get q ∧
      ∀ sid, s.readerHashes.get (sid, q) = t.readerHashes.get (sid, q) := by
  rw [at_, at_, Prod.mk.injEq, funext_iff]

theorem get_readerHashes_recordReader (t : CasTable) (now : Time) (path : Path) (hash : Bytes)
    (sid sid' : ℕ) (q : Path) : (t.recordReader now path hash sid).readerHashes.get (sid', q) =
      if sid' = sid ∧ q = path then some ⟨hash, now⟩ else t.readerHashes.get (sid', q) := by
  simp only [recordReader, FinMap.get_insert, Prod.mk.injEq]

/-- STEP: a call that does not concern the path leaves what is recorded of it. -/
theorem at_call_of_not_concerns {c : CasCall} (hc : concerns q c = false) :
    at_ q (t.call c) = at_ q t := by
  rw [at_eq_iff]
  cases c with
  | recordReader now path hash sid =>
    have hq : q ≠ path := by simpa [concerns, CasCall.paths] using hc
    refine ⟨rfl, fun sid' => ?_⟩
    rw [call, get_readerHashes_recordReader, if_neg fun h => hq h.2]
  | updateReader now sid path hash =>
    have hq : q ≠ path := by simpa [concerns, CasCall.paths] using hc
    exact ⟨rfl, fun sid' =>
      (t.get_readerHashes_recordReader now path hash sid sid' q).trans (if_neg fun h => hq h.2)⟩
  | ensureEntry now path =>
    have hq : q ≠ path := by simpa [concerns, CasCall.paths] using hc
    rw [call, get_entries_ensureEntry, if_neg hq, readerHashes_ensureEntry]
    exact ⟨rfl, fun _ => rfl⟩
  | checkAndAcquireWrite now path fh sid handles actual =>
    have hq : q ≠ path := by simpa [concerns, CasCall.paths] using hc
    rw [call, get_entries_check, if_neg hq, readerHashes_check]
    exact ⟨rfl, fun _ => rfl⟩
  | releaseWrite path fh =>
    have hq : q ≠ path := by simpa [concerns, CasCall.paths] using hc
    rw [call, get_entries_releaseWrite, if_neg hq, readerHashes_releaseWrite]
    exact ⟨rfl, fun _ => rfl⟩
  | hasActiveWriter path => exact ⟨rfl, fun _ => rfl⟩
  | getReaderHash sid path => exact ⟨rfl, fun _ => rfl⟩
  | remove path =>
    have hq : q ≠ path := by simpa [concerns, CasCall.paths] using hc
    refine ⟨(FinMap.get_remove ..).trans (if_neg hq), fun sid => ?_⟩
    rw [call, get_readerHashes_remove, if_neg hq]
  | rename old new =>
    have hq : q ≠ old ∧ q ≠ new := by simpa [concerns, CasCall.paths, not_or] using hc
    refine ⟨?_, fun sid => ?_⟩
    · rw [call, get_entries_rename, if_neg hq.2, if_neg hq.1, ite_self]
    · rw [call, get_readerHashes_rename, if_neg hq.2, if_neg hq.1]
  | evictOlderThan now seconds => cases hc

theorem owner_congr (h : s.entries.get q = t.entries.get q) : s.owner q = t.owner q := by
  rw [owner, h, owner]

/-- STEP: a call that concerns the path is answered, and changes what is recorded of it, by what is
    recorded of it alone. -/
theorem at_call_congr {c : CasCall} (hr : NotRenamed q c) (hc : concerns q c = true)
    (h : at_ q s = at_ q t) : s.answer c = t.answer c ∧ at_ q (s.call c) = at_ q (t.call c) := by
  obtain ⟨he, hh⟩ := at_eq_iff.mp h
  rw [at_eq_iff]
  cases c with
  | recordReader now path hash sid =>
    refine ⟨rfl, he, fun sid' => ?_⟩
    rw [call, call, get_readerHashes_recordReader, get_readerHashes_recordReader, hh]
  | updateReader now sid path hash =>
    refine ⟨rfl, he, fun sid' => ?_⟩
    have hrec := fun u : CasTable => u.get_readerHashes_recordReader now path hash sid sid' q
    exact (hrec s).trans ((by rw [hh] : _ = _).trans (hrec t).symm)
  | ensureEntry now path =>
    obtain rfl : q = path := by simpa [concerns, CasCall.paths] using hc
    rw [call, call, get_entries_ensureEntry, get_entries_ensureEntry, readerHashes_ensureEntry,
      readerHashes_ensureEntry, entryOr, entryOr, he]
    exact ⟨rfl, rfl, hh⟩
  | checkAndAcquireWrite now path fh sid handles actual =>
    obtain rfl : q = path := by simpa [concerns, CasCall.paths] using hc
    have hdec : (s.checkAndAcquireWrite now q fh sid handles actual).2 =
        (t.checkAndAcquireWrite now q fh sid handles actual).2 := by
      have hreceipt : s.getReaderHash sid q = t.getReaderHash sid q := congrArg (Option.map _) (hh sid)
      rw [checkAndAcquireWrite_snd, checkAndAcquireWrite_snd, owner_congr he, casCheck_congr hreceipt]
    rw [answer, answer, call, call, get_entries_check, get_entries_check, readerHashes_check,
      readerHashes_check, hdec, entryOr, entryOr, he]
    exact ⟨rfl, rfl, hh⟩
  | releaseWrite path fh =>
    rw [call, call, get_entries_releaseWrite, get_entries_releaseWrite, readerHashes_releaseWrite,
      readerHashes_releaseWrite, he]
    exact ⟨rfl, rfl, hh⟩
  | hasActiveWriter path =>
    obtain rfl : q = path := by simpa [concerns, CasCall.paths] using hc
    rw [answer, answer, hasActiveWriter_eq, hasActiveWriter_eq, owner_congr he]
    exact ⟨rfl, he, hh⟩
  | getReaderHash sid path =>
    obtain rfl : q = path := by simpa [concerns, CasCall.paths] using hc
    rw [answer, answer, getReaderHash, hh, getReaderHash]
    exact ⟨rfl, he, hh⟩
  | remove path =>
    obtain rfl : q = path := by simpa [concerns, CasCall.paths] using hc
    refine ⟨rfl, ?_, fun sid => ?_⟩
    · exact (FinMap.get_remove_self ..).trans (FinMap.get_remove_self ..).symm
    · rw [call, call, get_readerHashes_remove, get_readerHashes_remove, if_pos rfl, if_pos rfl]
  | rename old new =>
    have hq : q = old ∨ q = new := by simpa [concerns, CasCall.paths] using hc
    exact absurd hq (not_or.mpr hr)
  | evictOlderThan now seconds =>
    -- whether the pass panics is decided by the clock and the window
    by_cases hmin : now - chronoFromStd seconds < dateMin
    · have hpanic : ∀ u : CasTable, u.evictOlderThan now seconds = none := fun u => if_pos hmin
      rw [answer, answer, call, call, hpanic, hpanic]
      exact ⟨rfl, he, hh⟩
    · obtain ⟨s', hs'⟩ : ∃ s', s.evictOlderThan now seconds = some s' := ⟨_, if_neg hmin⟩
      obtain ⟨t', ht'⟩ : ∃ t', t.evictOlderThan now seconds = some t' := ⟨_, if_neg hmin⟩
      rw [answer, answer, call, call, hs', ht', Option.getD_some, Option.getD_some,
        get_entries_evict s now hs', get_entries_evict t now ht', he]
      refine ⟨rfl, rfl, fun sid => ?_⟩
      rw [get_readerHashes_evict s now hs', get_readerHashes_evict t now ht', hh]

/-- ISOLATION: in any sequence of calls in which no rename names `q`, leaving out the calls that name
    only other paths changes neither an answer to the remaining ones nor what is recorded of `q` at
    the end. -/
theorem other_files_unnoticed (t : CasTable) (q : Path) (calls : List CasCall)
    (hq : ∀ c ∈ calls, NotRenamed q c) :
    Run.answersOf call answer (concerns q) t calls =
        Run.answers call answer t (calls.filter (concerns q)) ∧
      (Run.exec call t calls).entries.get q =
        (Run.exec call t (calls.filter (concerns q))).entries.get q ∧
      ∀ sid, (Run.exec call t calls).readerHashes.get (sid, q) =
        (Run.exec call t (calls.filter (concerns q))).readerHashes.get (sid, q) := by
  have hskip : ∀ (u : CasTable) c, NotRenamed q c → concerns q c = false →
      at_ q (u.call c) = at_ q u := fun _ _ _ hc => at_call_of_not_concerns hc
  have hkeep : ∀ (u v : CasTable) c, NotRenamed q c → concerns q c = true → at_ q u = at_ q v →
      u.answer c = v.answer c ∧ at_ q (u.call c) = at_ q (v.call c) :=
    fun _ _ _ hr hc hv => at_call_congr hr hc hv
  obtain ⟨hans, hend⟩ := Run.answersOf_of_view hskip hkeep calls t t hq rfl
  exact ⟨hans, at_eq_iff.mp hend⟩

/-- Session 7 reads `f` and handle 1 gets it, while `g` is read, locked and removed in between. -/
theorem reading_g_unnoticed_at_f :
    Run.answersOf call answer (concerns [[0x66]]) new
        [.recordReader 0 [[0x66]] [0xAA] 7, .recordReader 0 [[0x67]] [0xBB] 8,
          .checkAndAcquireWrite 0 [[0x67]] 2 8 .new [0xBB], .remove [[0x67]],
          .checkAndAcquireWrite 0 [[0x66]] 1 7 .new [0xAA]] =
      Run.answers call answer new
        [.recordReader 0 [[0x66]] [0xAA] 7, .checkAndAcquireWrite 0 [[0x66]] 1 7 .new [0xAA]] := by
  refine (other_files_unnoticed new [[0x66]] _ ?_).1
  simp [NotRenamed]

end Dibs.CasTable
