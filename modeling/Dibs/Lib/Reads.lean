import Mathlib.Data.List.Basic

/-! A file read to its end through a buffer of fixed size. Each read fills the beginning of the buffer
    and says how much it filled; the loop uses that much of it. A read that fills nothing is the end of
    the file, and a failing one ends the loop. Whatever pieces the reads return, the loop uses these
    pieces in their order and nothing else: no byte that an earlier read left in the buffer
    (`loop_chunks`), and no result comes out of a file that was read in part (`loop_error`). -/

namespace Reads
variable {ε β σ : Type*}

/-- The buffer after a read that returns `chunk`; beyond it the buffer keeps what it had. -/
def fill (buf chunk : List β) : List β := chunk.take buf.length ++ buf.drop chunk.length

/-- `loop { let n = read(&mut buf)?; if n == 0 { break; } use(&buf[..n]) }` over what the reads
    return; after these the file is at its end. -/
def loop (use : σ → List β → σ) : σ → List β → List (Except ε (List β)) → Except ε σ
  | acc, _, [] => .ok acc
  | _, _, .error e :: _ => .error e
  | acc, buf, .ok chunk :: rest =>
    if chunk.length = 0 then .ok acc
    else loop use (use acc ((fill buf chunk).take chunk.length)) (fill buf chunk) rest

/-- What reads into a buffer of `n` elements can return before the end of a file. -/
structure Chunks (n : ℕ) (chunks : List (List β)) : Prop where
  nonempty : ∀ x ∈ chunks, x ≠ []
  fits : ∀ x ∈ chunks, x.length ≤ n

variable {buf chunk : List β} {use : σ → List β → σ}

theorem length_fill (h : chunk.length ≤ buf.length) : (fill buf chunk).length = buf.length := by
  rw [fill, List.length_append, List.length_take, List.length_drop]
  omega

theorem take_fill (h : chunk.length ≤ buf.length) : (fill buf chunk).take chunk.length = chunk := by
  rw [fill, List.take_of_length_le h, List.take_left]

theorem Chunks.uncons {chunks : List (List β)} (h : Chunks buf.length (chunk :: chunks)) :
    chunk ≠ [] ∧ chunk.length ≤ buf.length ∧ Chunks (fill buf chunk).length chunks := by
  have hfit := h.fits chunk (List.mem_cons_self ..)
  refine ⟨h.nonempty chunk (List.mem_cons_self ..), hfit, ?_, ?_⟩
  · intro x hx
    exact h.nonempty x (List.mem_cons_of_mem _ hx)
  · intro x hx
    rw [length_fill hfit]
    exact h.fits x (List.mem_cons_of_mem _ hx)

/-- STEP: a read of `chunk` uses `chunk`. -/
theorem loop_cons (hne : chunk ≠ []) (hfit : chunk.length ≤ buf.length) (acc : σ)
    (rest : List (Except ε (List β))) :
    loop use acc buf (.ok chunk :: rest) = loop use (use acc chunk) (fill buf chunk) rest := by
  rw [loop, if_neg (by simpa using hne), take_fill hfit]

/-- RULE: a file that is read to its end is used piece by piece. -/
theorem loop_chunks {chunks : List (List β)} (h : Chunks buf.length chunks) (acc : σ) :
    (loop use acc buf (chunks.map .ok) : Except ε σ) = .ok (chunks.foldl use acc) := by
  induction chunks generalizing acc buf with
  | nil => rfl
  | cons chunk chunks ih =>
    obtain ⟨hne, hfit, hrest⟩ := h.uncons
    rw [List.map_cons, loop_cons hne hfit, ih hrest, List.foldl_cons]

/-- RULE: an error of a read is the result. -/
theorem loop_error {chunks : List (List β)} (h : Chunks buf.length chunks) (acc : σ) (e : ε)
    (rest : List (Except ε (List β))) :
    loop use acc buf (chunks.map .ok ++ .error e :: rest) = .error e := by
  induction chunks generalizing acc buf with
  | nil => rfl
  | cons chunk chunks ih =>
    obtain ⟨hne, hfit, hrest⟩ := h.uncons
    rw [List.map_cons, List.cons_append, loop_cons hne hfit, ih hrest]

end Reads
