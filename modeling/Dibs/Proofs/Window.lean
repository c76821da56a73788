import Dibs.State.CasCalls

/-! Eviction inside the window. Two runs make the same calls, one of them after a pass of the eviction
    thread. They have the same owners and the same receipts of the pairs involved, but the evicted run
    lacks some ownerless entries. An absent entry and an ownerless one are told apart by `rename`
    alone: it overwrites the entry of the new name just when the old name has an entry. -/

namespace Dibs.CasTable
variable {I : ℕ → Path → Prop} {w : CasTable × CasTable}

/-- The table after an atomic pass. -/
def evicted (t : CasTable) (now : Time) (seconds : ℕ) : CasTable :=
  (t.evictOlderThan now seconds).getD t

/-- The pairs of session and path a call reads are in `I`, and so are those whose receipts a rename
    brings into `I`. Passes of the eviction thread are not among the calls. -/
def Involves (I : ℕ → Path → Prop) : CasCall → Prop
  | .checkAndAcquireWrite _ path _ sid _ _ => I sid path
  | .getReaderHash sid path => I sid path
  | .rename old new => ∀ sid, I sid new → I sid old
  | .evictOlderThan _ _ => False
  | _ => True

/-- Every receipt of a pair in `I` was recorded within the last `seconds` seconds. -/
def WithinWindow (t : CasTable) (I : ℕ → Path → Prop) (now : Time) (seconds : ℕ) : Prop :=
  ∀ sid p e, I sid p → t.readerHashes.get (sid, p) = some e →
    now - (seconds : ℤ) * 10 ^ 9 ≤ e.lastAccess

/-- `from_std` can represent the window, or no receipt in `I` is from before the pass. -/
def WindowFits (t : CasTable) (I : ℕ → Path → Prop) (now : Time) (seconds : ℕ) : Prop :=
  seconds * 1000 ≤ 2 ^ 63 - 1 ∨
    ∀ sid p e, I sid p → t.readerHashes.get (sid, p) = some e → now ≤ e.lastAccess

/-- The call is no rename onto an owned path of a name whose entry only the first of two tables
    has. -/
def Harmless (w : CasTable × CasTable) : CasCall → Prop
  | .rename old new => old ≠ new → w.2.entries.get old = none →
      w.1.entries.get old = none ∨ w.1.owner new = none
  | _ => True

/-- A sequence of calls is answered alike, stopped anywhere and followed by any one call. -/
def AnsweredAlike (I : ℕ → Path → Prop) (w : CasTable × CasTable) (calls : List CasCall) : Prop :=
  ∀ pre c, pre <+: calls → Involves I c →
    Run.answers call answer w.1 (pre ++ [c]) = Run.answers call answer w.2 (pre ++ [c])

/-- The tables of the two runs: same owners, same receipts in `I`, and the second has no entry that
    the first lacks. -/
structure Alike (I : ℕ → Path → Prop) (w : CasTable × CasTable) : Prop where
  owner : ∀ p, w.1.owner p = w.2.owner p
  receipt : ∀ sid p, I sid p → w.1.getReaderHash sid p = w.2.getReaderHash sid p
  entry : ∀ p, w.1.entries.get p = none → w.2.entries.get p = none

theorem owner_of_no_entry {t : CasTable} {p : Path} (h : t.entries.get p = none) :
    t.owner p = none := by
  rw [owner, h]; rfl

theorem Alike.decision (hw : Alike I w) {now : Time} {path : Path} {fh sid : ℕ}
    {handles : HandleTable} {actual : Bytes} (hI : I sid path) :
    (w.1.checkAndAcquireWrite now path fh sid handles actual).2 =
      (w.2.checkAndAcquireWrite now path fh sid handles actual).2 := by
  rw [checkAndAcquireWrite_snd, checkAndAcquireWrite_snd, hw.owner,
    casCheck_congr (hw.receipt sid path hI)]

theorem Alike.answer (hw : Alike I w) {c : CasCall} (hc : Involves I c) :
    w.1.answer c = w.2.answer c := by
  cases c with
  | checkAndAcquireWrite now path fh sid handles actual =>
    rw [CasTable.answer, CasTable.answer, hw.decision hc]
  | hasActiveWriter path =>
    rw [CasTable.answer, CasTable.answer, hasActiveWriter_eq, hasActiveWriter_eq, hw.owner]
  | getReaderHash sid path => rw [CasTable.answer, CasTable.answer, hw.receipt sid path hc]
  | evictOlderThan now seconds => exact hc.elim
  | _ => rfl

theorem owner_check_eq (t : CasTable) (now : Time) (path : Path) (fh sid : ℕ) (handles : HandleTable)
    (actual : Bytes) (p : Path) :
    (t.checkAndAcquireWrite now path fh sid handles actual).1.owner p =
      if p = path ∧ (t.checkAndAcquireWrite now path fh sid handles actual).2 = .ok () then some fh
      else t.owner p := by
  rcases t.checkAndAcquireWrite_cases now path fh sid handles actual with
    ⟨t', heq, hg⟩ | ⟨e, heq, -⟩
  · simp [heq, hg.owner]
  · simp [heq]

/-- The owners after a harmless rename. -/
theorem Alike.owner_rename (hw : Alike I w) {old new : Path} (hc : Harmless w (.rename old new))
    (p : Path) : (w.1.rename old new).owner p = (w.2.rename old new).owner p := by
  rw [CasTable.owner_rename, CasTable.owner_rename]
  cases h₂ : w.2.entries.get old with
  | some e₂ =>
    have h₁ : w.1.entries.get old ≠ none := fun h => by rw [hw.entry old h] at h₂; cases h₂
    rw [if_neg h₁, if_neg (Option.some_ne_none e₂), hw.owner, hw.owner]
  | none =>
    rw [if_pos rfl]
    split
    · exact hw.owner p
    · rename_i h₁
      have hold : w.1.owner old = none := (hw.owner old).trans (owner_of_no_entry h₂)
      by_cases hne : old = new
      · subst hne
        split
        · rename_i hp; rw [hp, hw.owner]
        · exact hw.owner p
      · have hnew : w.1.owner new = none := (hc hne h₂).resolve_left h₁
        split
        · rename_i hp; rw [hold, ← hw.owner, hp, hnew]
        · split
          · rename_i hp; rw [← hw.owner, hp, hold]
          · exact hw.owner p

/-- STEP: a harmless call keeps the tables alike. -/
theorem alike_call {c : CasCall} (hw : Alike I w) (hc : Harmless w c ∧ Involves I c) :
    Alike I (Run.both call w c) := by
  obtain ⟨hharm, hinv⟩ := hc
  cases c with
  | recordReader now path hash sid =>
    refine ⟨hw.owner, fun sid' p hI => ?_, hw.entry⟩
    rw [Run.both, call, call, getReaderHash_recordReader, getReaderHash_recordReader,
      hw.receipt sid' p hI]
  | updateReader now sid path hash =>
    refine ⟨hw.owner, fun sid' p hI => ?_, hw.entry⟩
    rw [Run.both, call, call, getReaderHash_updateReader, getReaderHash_updateReader,
      hw.receipt sid' p hI]
  | ensureEntry now path =>
    refine ⟨fun p => ?_, fun sid p hI => ?_, fun p hp => ?_⟩
    · rw [Run.both, call, call, owner_ensureEntry, owner_ensureEntry, hw.owner]
    · rw [Run.both, call, call, getReaderHash_ensureEntry, getReaderHash_ensureEntry,
        hw.receipt sid p hI]
    · simp only [Run.both, call, get_entries_ensureEntry] at hp ⊢
      split at hp
      · cases hp
      · rename_i hne; rw [if_neg hne]; exact hw.entry p hp
  | checkAndAcquireWrite now path fh sid handles actual =>
    refine ⟨fun p => ?_, fun sid' p hI => ?_, fun p hp => ?_⟩
    · rw [Run.both, call, call, owner_check_eq, owner_check_eq, hw.decision hinv, hw.owner]
    · rw [Run.both, call, call, getReaderHash_congr (readerHashes_check ..),
        getReaderHash_congr (readerHashes_check ..), hw.receipt sid' p hI]
    · simp only [Run.both, call, get_entries_check] at hp ⊢
      split at hp
      · cases hp
      · rename_i hne; rw [if_neg hne]; exact hw.entry p hp
  | releaseWrite path fh =>
    refine ⟨fun p => ?_, fun sid p hI => ?_, fun p hp => ?_⟩
    · rw [Run.both, call, call, owner_releaseWrite, owner_releaseWrite, hw.owner]
    · rw [Run.both, call, call, getReaderHash_releaseWrite, getReaderHash_releaseWrite,
        hw.receipt sid p hI]
    · simp only [Run.both, call, get_entries_releaseWrite] at hp ⊢
      split at hp
      · rename_i hq; rw [if_pos hq, hw.entry p (Option.map_eq_none_iff.mp hp)]; rfl
      · rename_i hq; rw [if_neg hq]; exact hw.entry p hp
  | hasActiveWriter path => exact ⟨hw.owner, hw.receipt, hw.entry⟩
  | getReaderHash sid path => exact ⟨hw.owner, hw.receipt, hw.entry⟩
  | remove path =>
    refine ⟨fun p => ?_, fun sid p hI => ?_, fun p hp => ?_⟩
    · rw [Run.both, call, call, owner_remove, owner_remove, hw.owner]
    · rw [Run.both, call, call, getReaderHash_remove, getReaderHash_remove, hw.receipt sid p hI]
    · simp only [Run.both, call, remove, FinMap.get_remove] at hp ⊢
      split at hp
      · rename_i hq; rw [if_pos hq]
      · rename_i hq; rw [if_neg hq]; exact hw.entry p hp
  | rename old new =>
    refine ⟨fun p => hw.owner_rename hharm p, fun sid p hI => ?_, fun p hp => ?_⟩
    · rw [Run.both, call, call, getReaderHash_rename, getReaderHash_rename]
      split
      · rename_i hp
        subst hp
        rw [hw.receipt sid old (hinv sid hI), hw.receipt sid p hI]
      · rw [hw.receipt sid p hI]
    · simp only [Run.both, call, get_entries_rename] at hp ⊢
      by_cases h₁ : w.1.entries.get old = none
      · rw [if_pos h₁] at hp
        rw [if_pos (hw.entry old h₁), hw.entry p hp]
      · rw [if_neg h₁] at hp
        split at hp
        · exact absurd hp h₁
        · rename_i hn
          rw [if_neg hn]
          split at hp
          · rename_i ho
            subst ho
            rw [if_pos rfl]
            split
            · assumption
            · rfl
          · rename_i ho
            rw [if_neg ho, ite_self]
            exact hw.entry p hp
  | evictOlderThan now seconds => exact hinv.elim

/-- A pass that drops no receipt in `I` leaves a table like the one before. -/
theorem alike_evicted {t : CasTable} {now : Time} {seconds : ℕ}
    (hwin : t.WithinWindow I now seconds) (hfit : t.WindowFits I now seconds) :
    Alike I (t, t.evicted now seconds) := by
  refine ⟨fun p => (t.owner_evictOlderThan now seconds p).symm, fun sid p hI => ?_, fun p hp => ?_⟩
  · rw [evicted]
    cases hu : t.evictOlderThan now seconds with
    | none => rfl
    | some u =>
      rw [Option.getD_some, getReaderHash, getReaderHash, get_readerHashes_evict t now hu]
      cases he : t.readerHashes.get (sid, p) with
      | none => rfl
      | some e =>
        have hcut : now - chronoFromStd seconds ≤ e.lastAccess := by
          rw [chronoFromStd]
          split
          · exact hwin sid p e hI he
          · rename_i hbig
            rw [sub_zero]
            exact hfit.resolve_left hbig sid p e hI he
        rw [Option.filter_some, if_pos (decide_eq_true hcut)]
  · rw [evicted]
    cases hu : t.evictOlderThan now seconds with
    | none => exact hp
    | some u => rw [Option.getD_some, get_entries_evict t now hu, hp]; rfl

/-- A pass whose window `from_std` cannot represent drops the receipts from before the pass. -/
theorem windowFits_of_receipts {t : CasTable} {now : Time} {seconds : ℕ} (hnow : dateMin ≤ now)
    (h : ∀ sid p, I sid p → t.getReaderHash sid p = (t.evicted now seconds).getReaderHash sid p) :
    t.WindowFits I now seconds := by
  by_cases hsmall : seconds * 1000 ≤ 2 ^ 63 - 1
  · exact Or.inl hsmall
  · refine Or.inr fun sid p e hI he => ?_
    have hcut : now - chronoFromStd seconds = now := by rw [chronoFromStd, if_neg hsmall, sub_zero]
    have hok : ¬ now - chronoFromStd seconds < dateMin := by rw [hcut]; exact not_lt.mpr hnow
    obtain ⟨u, hu⟩ : ∃ u, t.evictOlderThan now seconds = some u := ⟨_, if_neg hok⟩
    by_contra hlt
    have heq := h sid p hI
    rw [evicted, hu, Option.getD_some, getReaderHash, getReaderHash, get_readerHashes_evict t now hu,
      he, hcut] at heq
    simp [hlt] at heq

/-- The probe: after a harmful rename the new name has an owner in one run only. -/
theorem harmless_of_probe (hw : Alike I w) {c : CasCall}
    (h : ∀ p, (w.1.call c).hasActiveWriter p = (w.2.call c).hasActiveWriter p) : Harmless w c := by
  cases c with
  | rename old new =>
    intro hne h₂
    by_cases h₁ : w.1.entries.get old = none
    · exact Or.inl h₁
    · have hprobe := h new
      rw [call, call, hasActiveWriter_eq, hasActiveWriter_eq, owner_rename, owner_rename, if_neg h₁,
        if_pos rfl, if_pos h₂, hw.owner, owner_of_no_entry h₂, ← hw.owner] at hprobe
      exact Or.inr (Option.not_isSome_iff_eq_none.mp (by rw [← hprobe]; exact Bool.false_ne_true))
  | _ => trivial

theorem harmless_of_answeredAlike : ∀ (calls : List CasCall) (w : CasTable × CasTable), Alike I w →
    (∀ c ∈ calls, Involves I c) → AnsweredAlike I w calls →
    Run.Along (Run.both call) Harmless w calls
  | [], _, _, _, _ => trivial
  | c :: calls, w, hw, hinv, h => by
    have hc : Harmless w c := by
      refine harmless_of_probe hw fun p => ?_
      have hprobe := h [c] (.hasActiveWriter p) (List.prefix_cons_inj c |>.mpr (List.nil_prefix ..))
        trivial
      exact CasAnswer.writer.inj (List.cons.inj (List.cons.inj hprobe).2).1
    refine ⟨hc, harmless_of_answeredAlike calls _
      (alike_call hw ⟨hc, hinv c (List.mem_cons_self ..)⟩)
      (fun c' hc' => hinv c' (List.mem_cons_of_mem _ hc')) fun pre c' hpre hc' => ?_⟩
    exact (List.cons.inj (h (c :: pre) c' ((List.prefix_cons_inj c).mpr hpre) hc')).2

theorem answeredAlike_of_harmless {calls : List CasCall} (hw : Alike I w)
    (hinv : ∀ c ∈ calls, Involves I c) (h : Run.Along (Run.both call) Harmless w calls) :
    AnsweredAlike I w calls := by
  rintro pre c ⟨rest, rfl⟩ hc
  have hpre := (h.of_append).and_forall fun a ha => hinv a (List.mem_append_left _ ha)
  have hend : Alike I (Run.exec (Run.both call) w pre) :=
    Run.exec_of_inv (fun _ _ hw hc => alike_call hw hc) pre w hw hpre
  rw [Run.exec_both] at hend
  have hout : ∀ (w : CasTable × CasTable) c, Alike I w → Harmless w c ∧ Involves I c →
      w.1.answer c = w.2.answer c := fun _ _ hw hc => hw.answer hc.2
  have hans := Run.answers_of_rel (fun _ _ hw hc => alike_call hw hc) hout pre w hw hpre
  rw [Run.answers_append, Run.answers_append, hans, Run.answers, Run.answers, hend.answer hc]
  rfl

/-- WINDOW: with all receipts involved inside the window, a pass of the eviction thread before a
    sequence of calls goes unnoticed exactly if the window can be represented (or spares the receipts
    anyway) and no rename meets an entry that only the other run still has. -/
theorem eviction_unnoticed_iff (t : CasTable) (now : Time) (seconds : ℕ) (I : ℕ → Path → Prop)
    (calls : List CasCall) (hnow : dateMin ≤ now) (hwin : t.WithinWindow I now seconds)
    (hinv : ∀ c ∈ calls, Involves I c) :
    AnsweredAlike I (t, t.evicted now seconds) calls ↔
      t.WindowFits I now seconds ∧
        Run.Along (Run.both call) Harmless (t, t.evicted now seconds) calls := by
  constructor
  · intro h
    have hfit : t.WindowFits I now seconds := by
      refine windowFits_of_receipts hnow fun sid p hI => ?_
      have hprobe := h [] (.getReaderHash sid p) (List.nil_prefix ..) hI
      exact CasAnswer.receipt.inj (List.cons.inj hprobe).1
    exact ⟨hfit, harmless_of_answeredAlike calls _ (alike_evicted hwin hfit) hinv h⟩
  · rintro ⟨hfit, hrun⟩
    exact answeredAlike_of_harmless (alike_evicted hwin hfit) hinv hrun

/-- Two hours after the epoch. -/
def twoHours : Time := 7200 * 10 ^ 9

/-- `f` was tracked at the epoch and session 7 read it now; nobody owns `g`. -/
def idleEntry : CasTable := (new.ensureEntry 0 [[0x66]]).recordReader twoHours [[0x66]] [0xAA] 7

/-- A pass with a window of one hour drops the entry of `f`, and a rename of `f` onto the free `g`
    does not tell. -/
theorem rename_onto_free_unnoticed :
    AnsweredAlike (fun _ _ => True) (idleEntry, idleEntry.evicted twoHours 3600)
      [.rename [[0x66]] [[0x67]], .hasActiveWriter [[0x67]]] := by
  have hwin : idleEntry.WithinWindow (fun _ _ => True) twoHours 3600 := by
    intro sid p e _ he
    have hiter : idleEntry.readerHashes.iter = [((7, [[0x66]]), ⟨[0xAA], twoHours⟩)] := by
      decide +kernel
    have hmem := FinMap.mem_iter.mpr he
    rw [hiter] at hmem
    obtain ⟨-, rfl⟩ := Prod.mk.inj (List.mem_singleton.mp hmem)
    decide
  refine (eviction_unnoticed_iff idleEntry twoHours 3600 _ _ (by decide) hwin ?_).mpr
    ⟨Or.inl (by decide), ?_, trivial, trivial⟩
  · simp [Involves]
  · exact fun _ _ => Or.inr (by decide +kernel)

/-- `f` was tracked at the epoch, and handle 1 now owns `g`. No receipts. -/
def idleBesideOwned : CasTable :=
  ((new.ensureEntry 0 [[0x66]]).checkAndAcquireWrite twoHours [[0x67]] 1 7 .new [0xAA]).1

/-- The rename of `f` onto `g` takes `g` from its owner in the run without the pass only. -/
theorem rename_onto_owned_noticed :
    idleBesideOwned.WithinWindow (fun _ _ => True) twoHours 3600 ∧
      Run.answers call answer idleBesideOwned
        [.rename [[0x66]] [[0x67]], .hasActiveWriter [[0x67]]] = [.done, .writer false] ∧
      Run.answers call answer (idleBesideOwned.evicted twoHours 3600)
        [.rename [[0x66]] [[0x67]], .hasActiveWriter [[0x67]]] = [.done, .writer true] ∧
      ¬ AnsweredAlike (fun _ _ => True) (idleBesideOwned, idleBesideOwned.evicted twoHours 3600)
        [.rename [[0x66]] [[0x67]]] := by
  have hstay : Run.answers call answer idleBesideOwned
      [.rename [[0x66]] [[0x67]], .hasActiveWriter [[0x67]]] = [.done, .writer false] := rfl
  have hevict : Run.answers call answer (idleBesideOwned.evicted twoHours 3600)
      [.rename [[0x66]] [[0x67]], .hasActiveWriter [[0x67]]] = [.done, .writer true] := rfl
  refine ⟨?_, hstay, hevict, fun h => ?_⟩
  · intro sid p e _ he
    have hnone : idleBesideOwned.readerHashes.get (sid, p) = none := rfl
    rw [hnone] at he
    cases he
  · have heq := h [.rename [[0x66]] [[0x67]]] (.hasActiveWriter [[0x67]]) (List.prefix_rfl) trivial
    rw [List.singleton_append, hstay, hevict] at heq
    cases heq

end Dibs.CasTable
