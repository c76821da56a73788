import Dibs.Os.Basic

/-! What `to_string_lossy` returns is UTF-8, and UTF-8 is returned as it is. So decoding a name twice is
    decoding it once, and a name that is changed by decoding is the decoding of no name. A NUL byte is
    never inside an ill-formed chunk, so it stays where it is. -/

namespace Dibs

/-- A well-formed character: the decoder takes it whole, whatever follows. -/
def Whole (c : Bytes) : Prop := c ≠ [] ∧ ∀ rest, utf8Chunk (c ++ rest) = (true, c.length)

inductive Utf8 : Bytes → Prop where
  | nil : Utf8 []
  | char {c rest : Bytes} : Whole c → Utf8 rest → Utf8 (c ++ rest)

theorem utf8Chunk_single {b : UInt8} (h : seqLen b = 1) (rest : Bytes) :
    utf8Chunk (b :: rest) = (true, 1) := by
  rw [utf8Chunk, h]
  rfl

theorem utf8Chunk_multi {b c : UInt8} (h : 2 ≤ seqLen b)
    (hc : ((secondRange b).1 ≤ c && c ≤ (secondRange b).2) = true) (rest : Bytes) :
    utf8Chunk (b :: c :: rest) =
      (min (seqLen b - 2) (rest.takeWhile isCont).length == seqLen b - 2,
        2 + min (seqLen b - 2) (rest.takeWhile isCont).length) := by
  rw [utf8Chunk]
  split
  · omega
  · omega
  · simp only [hc, Bool.not_true, Bool.false_eq_true, if_false]

/-- A chunk the decoder keeps: an ASCII byte, or a first byte, a second byte in its range and the
    continuation bytes that are announced. -/
theorem utf8Chunk_kept {b : UInt8} {rest : Bytes} (h : (utf8Chunk (b :: rest)).1 = true) :
    seqLen b = 1 ∨ ∃ c rest', 2 ≤ seqLen b ∧ rest = c :: rest' ∧
      ((secondRange b).1 ≤ c && c ≤ (secondRange b).2) = true ∧
      seqLen b - 2 ≤ (rest'.takeWhile isCont).length := by
  rw [utf8Chunk] at h
  split at h
  · cases h
  · left; assumption
  · rename_i h0 h1
    split at h
    · cases h
    · rename_i c rest'
      split at h
      · cases h
      · rename_i hrange
        refine .inr ⟨c, rest', ?_, rfl, by simpa using hrange, ?_⟩
        · have h0' : seqLen b ≠ 0 := h0
          have h1' : seqLen b ≠ 1 := h1
          omega
        · have hk := eq_of_beq h
          omega

theorem whole_take {b : UInt8} {rest : Bytes} (h : (utf8Chunk (b :: rest)).1 = true) :
    Whole ((b :: rest).take (utf8Chunk (b :: rest)).2) := by
  rcases utf8Chunk_kept h with hb | ⟨c, rest', hb, rfl, hc, hlen⟩
  · rw [utf8Chunk_single hb]
    exact ⟨by simp, fun t => utf8Chunk_single hb t⟩
  · have hpre := List.prefix_iff_eq_take.mp (List.takeWhile_prefix isCont (l := rest'))
    have hcont : ∀ x ∈ rest'.take (seqLen b - 2), isCont x = true := by
      intro x hx
      refine List.mem_takeWhile_imp (l := rest') ?_
      rw [hpre]
      exact List.take_subset_take_left _ hlen hx
    have hlen' : (rest'.take (seqLen b - 2)).length = seqLen b - 2 := by
      have hle := (List.takeWhile_prefix isCont (l := rest')).length_le
      rw [List.length_take]
      omega
    rw [utf8Chunk_multi hb hc, Nat.min_eq_left hlen, Nat.add_comm 2]
    simp only [List.take_succ_cons]
    refine ⟨by simp, fun t => ?_⟩
    -- the continuation bytes that were taken are still there
    rw [List.cons_append, List.cons_append, utf8Chunk_multi hb hc,
      List.takeWhile_append_of_pos hcont, List.length_append, hlen',
      Nat.min_eq_left (Nat.le_add_right ..)]
    simp only [beq_self_eq_true, List.length_cons, hlen', Nat.add_comm 2]

theorem whole_replacement : Whole replacement :=
  ⟨by decide, fun t => by rw [replacement, List.cons_append, List.cons_append,
    utf8Chunk_multi (by decide) (by decide)]; rfl⟩

theorem utf8_lossyLoop : ∀ (fuel : ℕ) (n : Bytes), Utf8 (lossyLoop fuel n)
  | 0, _ => .nil
  | _ + 1, [] => .nil
  | fuel + 1, b :: rest => by
    rw [lossyLoop]
    refine .char ?_ (utf8_lossyLoop fuel _)
    split
    · rename_i hkept; exact whole_take hkept
    · exact whole_replacement

theorem lossyLoop_of_utf8 {n : Bytes} (h : Utf8 n) :
    ∀ fuel, n.length ≤ fuel → lossyLoop fuel n = n := by
  induction h with
  | nil => intro fuel _; cases fuel <;> rfl
  | @char c rest hc _ ih =>
    intro fuel hlen
    obtain ⟨hne, hwhole⟩ := hc
    have hpos := List.length_pos_iff.mpr hne
    obtain ⟨b, c', rfl⟩ := List.exists_cons_of_ne_nil hne
    cases fuel with
    | zero => simp at hlen
    | succ fuel =>
      rw [List.length_append] at hlen
      have hchunk := hwhole rest
      rw [List.cons_append] at hchunk ⊢
      rw [lossyLoop, hchunk]
      simp only [if_true, ← List.cons_append, List.take_left', List.drop_left']
      rw [ih fuel (by omega)]

/-- IDEMPOTENT: a decoded name is decoded to itself. -/
theorem toStringLossy_idem (n : Name) : toStringLossy (toStringLossy n) = toStringLossy n :=
  lossyLoop_of_utf8 (utf8_lossyLoop ..) _ (le_refl _)

/-! ### NUL bytes -/

theorem secondRange_pos (b : UInt8) : ¬ (secondRange b).1 ≤ 0 := by
  rw [secondRange]
  split_ifs <;> decide

/-- An ill-formed chunk has no NUL byte: it is a byte that is not ASCII, with what may follow it. -/
theorem not_nul_of_replaced {b : UInt8} {rest : Bytes} (h : (utf8Chunk (b :: rest)).1 = false) :
    0 ∉ (b :: rest).take (utf8Chunk (b :: rest)).2 := by
  have hfirst : seqLen b ≠ 1 → 0 ≠ b := by
    rintro hb rfl
    exact hb rfl
  rw [utf8Chunk] at h ⊢
  split at h
  · rename_i h0
    simpa using hfirst (by rw [h0]; decide)
  · cases h
  · rename_i h1
    have hb := hfirst h1
    split
    · simpa using hb
    · rename_i c rest'
      split
      · simpa using hb
      · rename_i hrange
        have hc : 0 ≠ c := by
          rintro rfl
          simp only [Bool.not_eq_true', Bool.and_eq_false_iff, not_or, decide_eq_false_iff_not,
            not_not] at hrange
          exact secondRange_pos b hrange.1
        have hcont : 0 ∉ rest'.take (min (seqLen b - 2) (rest'.takeWhile isCont).length) := by
          intro hmem
          have hpre := List.prefix_iff_eq_take.mp (List.takeWhile_prefix isCont (l := rest'))
          have htake := List.take_subset_take_left rest' (Nat.min_le_right _ _) hmem
          rw [← hpre] at htake
          exact absurd (List.mem_takeWhile_imp htake) (by decide)
        simp only [Nat.add_comm 2, List.take_succ_cons, List.mem_cons, not_or]
        exact ⟨hb, hc, hcont⟩

theorem nul_mem_lossyLoop : ∀ (fuel : ℕ) (n : Bytes), n.length ≤ fuel → 0 ∈ n →
    0 ∈ lossyLoop fuel n
  | _, [], _, h => absurd h (List.not_mem_nil)
  | 0, _ :: _, hlen, _ => absurd hlen (by simp)
  | fuel + 1, b :: rest, hlen, h => by
    have hpos := utf8Chunk_pos b rest
    rw [lossyLoop, List.mem_append]
    rw [← List.take_append_drop (utf8Chunk (b :: rest)).2 (b :: rest), List.mem_append] at h
    rcases h with h | h
    · left
      split
      · exact h
      · rename_i hrepl
        exact absurd h (not_nul_of_replaced (eq_false_of_ne_true hrepl))
    · right
      refine nul_mem_lossyLoop fuel _ ?_ h
      rw [List.length_drop]
      omega

theorem nul_mem_toStringLossy {n : Name} (h : 0 ∈ n) : 0 ∈ toStringLossy n :=
  nul_mem_lossyLoop _ n (le_refl _) h

end Dibs
