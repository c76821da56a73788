import Dibs.Fs.Cas
import Dibs.Lib.Reads

/-! `hash_file` call by call (`src/fs/cas.rs`): the size decides between two loops that read the file to
    its end, one of which hashes each piece as it comes. Whatever pieces the reads return, the result is
    `hashContent` of the whole content, so `hashFile` stands for these calls (`hashFileCalls_eq`). -/

namespace Dibs

/-- The incremental interface of the `sha2` crate. -/
structure Sha256 (σ : Type) where
  new : σ
  update : σ → Bytes → σ
  finalize : σ → Bytes

/-- The crate's promise: the digest does not depend on how the bytes were cut. -/
def Sha256.Digests {σ : Type} (S : Sha256 σ) (X : Ext) : Prop :=
  ∀ chunks : List Bytes, S.finalize (chunks.foldl S.update S.new) = X.sha256 chunks.flatten

variable {σ : Type} (S : Sha256 σ) (X : Ext)

/-- The length of the buffer for a file of this size. -/
def bufLen (size : ℕ) : ℕ := if size ≤ HASH_THRESHOLD then 8192 else 65536

def hashSha256 (reads : List (Except Errno Bytes)) : Except Errno Bytes := do
  let hasher ← Reads.loop S.update S.new (List.replicate 8192 0) reads
  return S.finalize hasher

def hashXxh3 (reads : List (Except Errno Bytes)) : Except Errno Bytes := do
  let total ← Reads.loop (fun total chunk => total ++ chunk) [] (List.replicate 65536 0) reads
  return toBeBytes (X.xxh3_128 total)

/-- `hash_file` over what its calls return: the size from `std::fs::metadata`, the result of
    `File::open`, and what each `read` puts in the buffer. -/
def hashFileCalls (metadata : Except Errno ℕ) (opened : Except Errno Unit)
    (reads : List (Except Errno Bytes)) : Except Errno Bytes := do
  let size ← metadata
  opened
  if size ≤ HASH_THRESHOLD then hashSha256 S reads else hashXxh3 X reads

/-- What the calls can return for a path while the file does not change. -/
inductive HashCalls (b : Backing) (os : Os) (p : Path) :
    Except Errno ℕ → Except Errno Unit → List (Except Errno Bytes) → Prop where
  | hashed (c : Bytes) (chunks : List Bytes) : os.unreadable p = false → b.content p = some c →
      chunks.flatten = c → Reads.Chunks (bufLen c.length) chunks →
      HashCalls b os p (.ok c.length) (.ok ()) (chunks.map .ok)
  | noMetadata (e : Errno) {opened reads} : os.unreadable p = true ∨ b.content p = none →
      HashCalls b os p (.error e) opened reads
  | notOpened (size : ℕ) (e : Errno) {reads} : os.unreadable p = true ∨ b.content p = none →
      HashCalls b os p (.ok size) (.error e) reads
  | notRead (size : ℕ) (chunks : List Bytes) (e : Errno) {reads} :
      os.unreadable p = true ∨ b.content p = none → Reads.Chunks (bufLen size) chunks →
      HashCalls b os p (.ok size) (.ok ()) (chunks.map .ok ++ .error e :: reads)

variable {S X}

theorem bufLen_of_le {size : ℕ} (h : size ≤ HASH_THRESHOLD) :
    bufLen size = (List.replicate 8192 (0 : UInt8)).length := by
  rw [bufLen, if_pos h, List.length_replicate]

theorem bufLen_of_not_le {size : ℕ} (h : ¬ size ≤ HASH_THRESHOLD) :
    bufLen size = (List.replicate 65536 (0 : UInt8)).length := by
  rw [bufLen, if_neg h, List.length_replicate]

theorem foldl_append_chunks (chunks : List Bytes) :
    chunks.foldl (fun total chunk => total ++ chunk) [] = chunks.flatten := by
  have h := @List.foldl_append_eq_append _ _ chunks id []
  rwa [List.map_id, List.nil_append] at h

/-- SPEC: the calls on a file of content `c` compute its hash, however the reads cut it. -/
theorem hashFileCalls_chunks (hS : S.Digests X) {c : Bytes} {chunks : List Bytes}
    (hflat : chunks.flatten = c) (hchunks : Reads.Chunks (bufLen c.length) chunks) :
    hashFileCalls S X (.ok c.length) (.ok ()) (chunks.map .ok) = .ok (hashContent X c) := by
  change (if c.length ≤ HASH_THRESHOLD then hashSha256 S (chunks.map .ok)
    else hashXxh3 X (chunks.map .ok)) = _
  rw [hashContent]
  by_cases hsize : c.length ≤ HASH_THRESHOLD
  · rw [bufLen_of_le hsize] at hchunks
    rw [if_pos hsize, if_pos hsize, hashSha256, Reads.loop_chunks hchunks, ← hflat, ← hS chunks]
    rfl
  · rw [bufLen_of_not_le hsize] at hchunks
    rw [if_neg hsize, if_neg hsize, hashXxh3, Reads.loop_chunks hchunks, foldl_append_chunks, hflat]
    rfl

/-- SPEC: an error of a read is the result, whatever was read before. -/
theorem hashFileCalls_error {size : ℕ} {chunks : List Bytes} {e : Errno}
    (hchunks : Reads.Chunks (bufLen size) chunks) (reads : List (Except Errno Bytes)) :
    hashFileCalls S X (.ok size) (.ok ()) (chunks.map .ok ++ .error e :: reads) = .error e := by
  change (if size ≤ HASH_THRESHOLD then hashSha256 S _ else hashXxh3 X _) = _
  by_cases hsize : size ≤ HASH_THRESHOLD
  · rw [bufLen_of_le hsize] at hchunks
    rw [if_pos hsize, hashSha256, Reads.loop_error hchunks]
    rfl
  · rw [bufLen_of_not_le hsize] at hchunks
    rw [if_neg hsize, hashXxh3, Reads.loop_error hchunks]
    rfl

/-- REFINEMENT: `hashFile` is the result of the calls. -/
theorem hashFileCalls_eq (hS : S.Digests X) {b : Backing} {os : Os} {p : Path}
    {metadata : Except Errno ℕ} {opened : Except Errno Unit} {reads : List (Except Errno Bytes)}
    (h : HashCalls b os p metadata opened reads) :
    (hashFileCalls S X metadata opened reads).toOption = hashFile X b os p := by
  have hnone : os.unreadable p = true ∨ b.content p = none → hashFile X b os p = none := by
    rintro (hunread | hcontent)
    · rw [hashFile, if_pos hunread]
    · rw [hashFile, hcontent]
      exact ite_self _
  cases h with
  | hashed c chunks hread hcontent hflat hchunks =>
    rw [hashFileCalls_chunks hS hflat hchunks, hashFile, if_neg (by simp [hread]), hcontent]
    rfl
  | noMetadata e hfail => exact (hnone hfail).symm
  | notOpened size e hfail => exact (hnone hfail).symm
  | notRead size chunks e hfail hchunks =>
    rw [hashFileCalls_error hchunks, hnone hfail]
    rfl

end Dibs
