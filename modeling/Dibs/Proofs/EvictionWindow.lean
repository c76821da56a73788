import Dibs.State.Eviction

/-! The eviction window as it is configured. The minutes go through an unchecked product to seconds, a
    conversion to `chrono::Duration` that falls back to zero, and a subtraction of dates; the three have
    different limits. Within all of them a longer window removes less. Beyond the second one the window
    is zero, and the pass removes everything that no handle owns. -/

namespace Dibs.CasTable

/-- A pass of the eviction thread over a quiet table, configured with `m` minutes. -/
def evictionPass (t : CasTable) (now : Time) (m : ℕ) : Option CasTable :=
  t.evictOlderThan now (evictionSeconds m)

/-- The window of `m` minutes in nanoseconds. -/
def windowOf (m : ℕ) : ℤ := m * 60 * 10 ^ 9

/-- The minutes are not distorted on their way to the cutoff, and the pass gets through, to `u`. -/
structure PassesTo (t u : CasTable) (now : Time) (m : ℕ) : Prop where
  seconds : evictionSeconds m = m * 60
  window : chronoFromStd (evictionSeconds m) = windowOf m
  pass : t.evictionPass now m = some u
  /-- what was accessed within the window stays -/
  entries : ∀ p e, t.entries.get p = some e → now - windowOf m ≤ e.lastAccess →
    u.entries.get p = some e
  receipts : ∀ k r, t.readerHashes.get k = some r → now - windowOf m ≤ r.lastAccess →
    u.readerHashes.get k = some r

/-- What is missing in `u` is missing in `v` as well. -/
structure RemovesLess (u v : CasTable) : Prop where
  entries : ∀ p, u.entries.get p = none → v.entries.get p = none
  receipts : ∀ k, u.readerHashes.get k = none → v.readerHashes.get k = none

/-- Of two windows, the longer one evicts less. -/
def EvictsLess (t : CasTable) (now : Time) (m₁ m₂ : ℕ) : Prop :=
  ∃ u₁ u₂, PassesTo t u₁ now m₁ ∧ PassesTo t u₂ now m₂ ∧ RemovesLess u₂ u₁

/-- The window fits in a `chrono::Duration`, and reaches back to a representable date. -/
def Fits (now : Time) (m : ℕ) : Prop :=
  m * 60 * 1000 ≤ 2 ^ 63 - 1 ∧ dateMin ≤ now - windowOf m

variable {t : CasTable} {now : Time}

theorem windowOf_mono {m₁ m₂ : ℕ} (hle : m₁ ≤ m₂) : windowOf m₁ ≤ windowOf m₂ := by
  unfold windowOf
  omega

/-- A longer window has the earlier cutoff. -/
theorem cutoff_anti {m₁ m₂ : ℕ} (hle : m₁ ≤ m₂) : now - windowOf m₂ ≤ now - windowOf m₁ :=
  sub_le_sub_left (windowOf_mono hle) now

theorem Fits.mono {m₁ m₂ : ℕ} (hle : m₁ ≤ m₂) (h : Fits now m₂) : Fits now m₁ := by
  refine ⟨le_trans ?_ h.1, h.2.trans (cutoff_anti hle)⟩
  exact Nat.mul_le_mul_right _ (Nat.mul_le_mul_right _ hle)

theorem Fits.seconds {m : ℕ} (h : Fits now m) : evictionSeconds m = m * 60 := by
  obtain ⟨hms, -⟩ := h
  rw [evictionSeconds]
  omega

theorem Fits.window {m : ℕ} (h : Fits now m) :
    chronoFromStd (evictionSeconds m) = windowOf m := by
  rw [h.seconds, chronoFromStd, if_pos h.1, windowOf]
  push_cast
  ring

theorem Fits.passesTo {m : ℕ} (h : Fits now m) : ∃ u, PassesTo t u now m := by
  have hok : t.evictionPass now m ≠ none := by
    rw [evictionPass, evictOlderThan, h.window]
    simp only
    rw [if_neg (not_lt.mpr h.2)]
    simp
  obtain ⟨u, hu⟩ := Option.ne_none_iff_exists'.mp hok
  refine ⟨u, h.seconds, h.window, hu, fun p e he hage => ?_, fun k r hr hage => ?_⟩
  · rw [get_entries_evict t now hu, he, h.window, Option.filter_some, if_pos]
    simp only [Bool.not_eq_true', Bool.and_eq_false_iff, decide_eq_false_iff_not, not_lt]
    exact Or.inr hage
  · rw [get_readerHashes_evict t now hu, hr, h.window, Option.filter_some, if_pos]
    simpa using hage

/-- An undistorted window that gets through fits. -/
theorem PassesTo.fits {u : CasTable} {m : ℕ} (h : PassesTo t u now m) : Fits now m := by
  have hw := h.window
  have hpass := h.pass
  rw [evictionPass, evictOlderThan, hw] at hpass
  simp only at hpass
  split at hpass
  · cases hpass
  · rename_i hdate
    refine ⟨?_, not_lt.mp hdate⟩
    rw [h.seconds, chronoFromStd, windowOf] at hw
    split at hw
    · assumption
    · -- the fallback is the window of no minutes
      have hzero : m = 0 := by omega
      subst hzero
      decide

/-- The later cutoff removes what the earlier one removes. -/
theorem PassesTo.removesLess {u₁ u₂ : CasTable} {m₁ m₂ : ℕ} (hle : m₁ ≤ m₂)
    (h₁ : PassesTo t u₁ now m₁) (h₂ : PassesTo t u₂ now m₂) : RemovesLess u₂ u₁ := by
  constructor
  · intro p hp
    rw [get_entries_evict t now h₂.pass, h₂.window] at hp
    rw [get_entries_evict t now h₁.pass, h₁.window]
    rw [Option.filter_eq_none_iff] at hp ⊢
    intro e he
    have hold := hp e he
    simp only [Bool.not_eq_true', Bool.not_eq_false, Bool.and_eq_true, decide_eq_true_eq] at hold ⊢
    exact ⟨hold.1, hold.2.trans_le (cutoff_anti hle)⟩
  · intro k hk
    rw [get_readerHashes_evict t now h₂.pass, h₂.window] at hk
    rw [get_readerHashes_evict t now h₁.pass, h₁.window]
    rw [Option.filter_eq_none_iff] at hk ⊢
    intro r hr
    have hold := hk r hr
    simp only [decide_eq_true_eq, not_le] at hold ⊢
    exact hold.trans_le (cutoff_anti hle)

/-- CORRECT (exact): the longer window evicts less, without overflow or panic, exactly if it fits. -/
theorem evictsLess_iff {m₁ m₂ : ℕ} (hle : m₁ ≤ m₂) : t.EvictsLess now m₁ m₂ ↔ Fits now m₂ := by
  constructor
  · rintro ⟨-, u₂, -, h₂, -⟩
    exact h₂.fits
  · intro hfits
    obtain ⟨u₁, h₁⟩ := (hfits.mono hle).passesTo (t := t)
    obtain ⟨u₂, h₂⟩ := hfits.passesTo (t := t)
    exact ⟨u₁, u₂, h₁, h₂, h₁.removesLess hle h₂⟩

/-- A file that was accessed one minute after the epoch, ownerless. -/
def oneEntry : CasTable := ⟨FinMap.empty.insert [[1]] ⟨none, windowOf 1⟩, .empty⟩

/-- Two minutes after the epoch, a window of an hour evicts less than one of thirty minutes. -/
theorem hour_evictsLess : 30 ≤ 60 ∧ oneEntry.EvictsLess (windowOf 2) 30 60 :=
  ⟨by decide, (evictsLess_iff (by decide)).mpr ⟨by decide, by decide⟩⟩

/-- With the largest window a file accessed a minute ago is evicted, which thirty minutes keep. -/
theorem largest_window_evicts : ¬ oneEntry.EvictsLess (windowOf 2) 30 (2 ^ 64 - 1) := by
  rintro ⟨u₁, u₂, h₁, h₂, hless⟩
  have hgone : u₂.entries.get [[1]] = none := by
    rw [get_entries_evict oneEntry _ h₂.pass]
    decide
  have hkept : u₁.entries.get [[1]] = some ⟨none, windowOf 1⟩ :=
    h₁.entries _ _ (by decide) (by decide)
  rw [hless.entries _ hgone] at hkept
  cases hkept

end Dibs.CasTable
