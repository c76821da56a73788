import Dibs.Fs.Hashing

/-! A hash stands for a content. The two digests are told apart by their lengths, so two contents that
    `hash_file` does not distinguish were hashed by one and the same library, and collide there. -/

namespace Dibs

/-! ### The bytes of a 128-bit integer -/

theorem length_toBeBytes (h : BitVec 128) : (toBeBytes h).length = 16 := by
  rw [toBeBytes, List.length_map, List.length_range]

/-- Bit `j` is bit `j % 8` of the byte that is `j / 8` from the end. -/
theorem testBit_toBeBytes (h : BitVec 128) {j : ℕ} (hj : j < 128) :
    ((toBeBytes h).getD (15 - j / 8) 0).toNat.testBit (j % 8) = h.toNat.testBit j := by
  have hi : 15 - j / 8 < (toBeBytes h).length := by
    rw [length_toBeBytes]
    omega
  have hpos : 8 * (15 - (15 - j / 8)) + j % 8 = j := by omega
  rw [List.getD_eq_getElem _ _ hi]
  simp only [toBeBytes, List.getElem_map, List.getElem_range, UInt8.toNat_ofNat']
  rw [Nat.testBit_mod_two_pow, Nat.testBit_shiftRight, hpos]
  simp [Nat.mod_lt]

theorem toBeBytes_injective {h h' : BitVec 128} (heq : toBeBytes h = toBeBytes h') : h = h' := by
  refine BitVec.eq_of_toNat_eq (Nat.eq_of_testBit_eq fun j => ?_)
  by_cases hj : j < 128
  · rw [← testBit_toBeBytes h hj, heq, testBit_toBeBytes h' hj]
  · have hpow : 2 ^ 128 ≤ 2 ^ j := Nat.pow_le_pow_right (by decide) (not_lt.mp hj)
    rw [Nat.testBit_lt_two_pow (h.isLt.trans_le hpow), Nat.testBit_lt_two_pow (h'.isLt.trans_le hpow)]

/-! ### What `hash_file` tells apart -/

/-- Two contents that one and the same digest does not tell apart. -/
def Collision (X : Ext) (c₁ c₂ : Bytes) : Prop :=
  (c₁.length ≤ HASH_THRESHOLD ∧ c₂.length ≤ HASH_THRESHOLD ∧ X.sha256 c₁ = X.sha256 c₂) ∨
    (HASH_THRESHOLD < c₁.length ∧ HASH_THRESHOLD < c₂.length ∧ X.xxh3_128 c₁ = X.xxh3_128 c₂)

variable {σ : Type} (S : Sha256 σ) (X : Ext)

/-- The pieces that the reads of `hash_file` can return of the content `c`. -/
structure Split (c : Bytes) (chunks : List Bytes) : Prop where
  flatten : chunks.flatten = c
  chunks : Reads.Chunks (bufLen c.length) chunks

/-- `hash_file` on a file of content `c` whose reads return these pieces. -/
def hashSplit (c : Bytes) (chunks : List Bytes) : Except Errno Bytes :=
  hashFileCalls S X (.ok c.length) (.ok ()) (chunks.map .ok)

/-- The result of `hash_file` identifies the content. -/
structure Identifies : Prop where
  returns : ∀ c chunks, Split c chunks → ∃ v, hashSplit S X c chunks = .ok v
  split : ∀ c chunks chunks', Split c chunks → Split c chunks' →
    hashSplit S X c chunks = hashSplit S X c chunks'
  equal : ∀ c₁ c₂ chunks₁ chunks₂, Split c₁ chunks₁ → Split c₂ chunks₂ →
    (hashSplit S X c₁ chunks₁ = hashSplit S X c₂ chunks₂ ↔ c₁ = c₂ ∨ Collision X c₁ c₂)
  sides : ∀ c₁ c₂ chunks₁ chunks₂, Split c₁ chunks₁ → Split c₂ chunks₂ →
    c₁.length ≤ HASH_THRESHOLD → HASH_THRESHOLD < c₂.length →
    hashSplit S X c₁ chunks₁ ≠ hashSplit S X c₂ chunks₂

variable {S X} {c₁ c₂ : Bytes}

/-- The two digests have different lengths. -/
theorem hashContent_ne_of_sides (hlen : ∀ c, (X.sha256 c).length = 32)
    (h₁ : c₁.length ≤ HASH_THRESHOLD) (h₂ : HASH_THRESHOLD < c₂.length) :
    hashContent X c₁ ≠ hashContent X c₂ := by
  intro heq
  have hlengths := congrArg List.length heq
  rw [hashContent, hashContent, if_pos h₁, if_neg (not_le.mpr h₂), hlen, length_toBeBytes] at hlengths
  omega

theorem hashContent_eq_iff (hlen : ∀ c, (X.sha256 c).length = 32) :
    hashContent X c₁ = hashContent X c₂ ↔ c₁ = c₂ ∨ Collision X c₁ c₂ := by
  constructor
  · intro heq
    right
    rcases le_or_gt c₁.length HASH_THRESHOLD with h₁ | h₁ <;>
      rcases le_or_gt c₂.length HASH_THRESHOLD with h₂ | h₂
    · rw [hashContent, hashContent, if_pos h₁, if_pos h₂] at heq
      exact .inl ⟨h₁, h₂, heq⟩
    · exact absurd heq (hashContent_ne_of_sides hlen h₁ h₂)
    · exact absurd heq.symm (hashContent_ne_of_sides hlen h₂ h₁)
    · rw [hashContent, hashContent, if_neg (not_le.mpr h₁), if_neg (not_le.mpr h₂)] at heq
      exact .inr ⟨h₁, h₂, toBeBytes_injective heq⟩
  · rintro (rfl | ⟨h₁, h₂, heq⟩ | ⟨h₁, h₂, heq⟩)
    · rfl
    · rw [hashContent, hashContent, if_pos h₁, if_pos h₂, heq]
    · rw [hashContent, hashContent, if_neg (not_le.mpr h₁), if_neg (not_le.mpr h₂), heq]

/-- CORRECT: `hash_file` returns a value that depends on the content alone, and two values are equal
    exactly if the contents are, or collide under the library that hashed both. -/
theorem hash_identifies (hS : S.Digests X) (hlen : ∀ c, (X.sha256 c).length = 32) :
    Identifies S X := by
  have hsplit : ∀ c chunks, Split c chunks → hashSplit S X c chunks = .ok (hashContent X c) :=
    fun c chunks h => hashFileCalls_chunks hS h.flatten h.chunks
  refine ⟨fun c chunks h => ⟨_, hsplit c chunks h⟩, fun c chunks chunks' h h' => ?_,
    fun c₁ c₂ chunks₁ chunks₂ h₁ h₂ => ?_, fun c₁ c₂ chunks₁ chunks₂ h₁ h₂ hle hlt => ?_⟩
  · rw [hsplit c chunks h, hsplit c chunks' h']
  · rw [hsplit c₁ chunks₁ h₁, hsplit c₂ chunks₂ h₂, Except.ok.injEq, hashContent_eq_iff hlen]
  · rw [hsplit c₁ chunks₁ h₁, hsplit c₂ chunks₂ h₂, ne_eq, Except.ok.injEq]
    exact hashContent_ne_of_sides hlen hle hlt

/-- A hasher that gathers what it gets and makes the digest of it at the end. -/
def gathering (X : Ext) : Sha256 Bytes := ⟨[], fun total chunk => total ++ chunk, X.sha256⟩

theorem gathering_digests (X : Ext) : (gathering X).Digests X := by
  intro chunks
  exact congrArg X.sha256 (foldl_append_chunks chunks)

/-- The external code, with SHA-256 of `ab` as well. -/
def pairExt : Ext :=
  { sampleExt with
    sha256 := fun c => if c = [0x61, 0x62] then
      [0xFB, 0x8E, 0x20, 0xFC, 0x2E, 0x4C, 0x3F, 0x24, 0x8C, 0x60, 0xC3, 0x9B, 0xD6, 0x52, 0xF3,
        0xC1, 0x34, 0x72, 0x98, 0xBB, 0x97, 0x7B, 0x8B, 0x4D, 0x59, 0x03, 0xB8, 0x50, 0x55, 0x62,
        0x06, 0x03]
      else sampleSha256 c }

theorem length_pairExt (c : Bytes) : (pairExt.sha256 c).length = 32 := by
  simp only [pairExt, sampleSha256]
  split_ifs <;> rfl

/-- `ab` has one hash, read at once or byte by byte, and it is not that of `a`. -/
theorem pair_identified :
    hashSplit (gathering pairExt) pairExt [0x61, 0x62] [[0x61], [0x62]] =
        hashSplit (gathering pairExt) pairExt [0x61, 0x62] [[0x61, 0x62]] ∧
      hashSplit (gathering pairExt) pairExt [0x61, 0x62] [[0x61, 0x62]] ≠
        hashSplit (gathering pairExt) pairExt [0x61] [[0x61]] := by
  have h := hash_identifies (gathering_digests pairExt) length_pairExt
  have hpair : Split [0x61, 0x62] [[0x61, 0x62]] := ⟨rfl, by decide, by decide⟩
  have hsingle : Split [0x61] [[0x61]] := ⟨rfl, by decide, by decide⟩
  refine ⟨h.split _ _ _ ⟨rfl, by decide, by decide⟩ hpair, fun heq => ?_⟩
  rcases (h.equal _ _ _ _ hpair hsingle).mp heq with hsame | hsha | hxxh
  · exact absurd hsame (by decide)
  · exact absurd hsha.2.2 (by decide)
  · exact absurd hxxh.1 (by decide)

end Dibs
