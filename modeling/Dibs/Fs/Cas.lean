import Dibs.Os.Backing

/-! Content hashes (`src/fs/cas.rs`). The two digests and the renderings of other crates are
    parameters of the whole development, collected in `Ext`. -/

namespace Dibs

/-- One row of `.dibs/locks` (`FileStateInfo`). -/
structure FileStateInfo where
  path : Path
  writeOwner : Option ℕ
  lastAccess : Time
  deriving DecidableEq, Repr

/-- Code of other crates that the daemon calls. -/
structure Ext where
  /-- SHA-256 of a byte string -/
  sha256 : Bytes → Bytes
  /-- XXH3-128 of a byte string -/
  xxh3_128 : Bytes → BitVec 128
  /-- a time, in milliseconds, in the format `%Y%m%d_%H%M%S_%3f` -/
  stamp : ℤ → Bytes
  /-- the JSON text of the counters in `.dibs/status` -/
  statusJson : (tracked active uptime : ℕ) → (sessionId : Bytes) → Bytes
  /-- the JSON text of the rows in `.dibs/locks` -/
  locksJson : List FileStateInfo → Bytes

/-- Threshold for switching from SHA-256 to xxHash (10 MB). -/
def HASH_THRESHOLD : ℕ := 10 * 1024 * 1024

/-- `u128::to_be_bytes` -/
def toBeBytes (h : BitVec 128) : Bytes :=
  (List.range 16).map fun i => UInt8.ofNat (h.toNat >>> (8 * (15 - i)))

/-- The hash of a file content: SHA-256 up to the threshold, XXH3-128 above it. -/
def hashContent (X : Ext) (c : Bytes) : Bytes :=
  if c.length ≤ HASH_THRESHOLD then X.sha256 c else toBeBytes (X.xxh3_128 c)

/-- `hash_file`, `none` for an error: there is no regular file at the path, or it is unreadable. -/
def hashFile (X : Ext) (b : Backing) (os : Os) (p : Path) : Option Bytes :=
  if os.unreadable p then none else (b.content p).map (hashContent X)

theorem hashFile_eq_some {X : Ext} {b : Backing} {os : Os} {p : Path} {h : Bytes} :
    hashFile X b os p = some h ↔
      os.unreadable p = false ∧ ∃ o, b.fileAt p = some o ∧ hashContent X (b.dataOf o) = h := by
  unfold hashFile Backing.content
  cases os.unreadable p with
  | true => simp
  | false => cases b.fileAt p <;> simp

/-- SHA-256 on the contents that occur in worked examples: nothing, `a`, `b`, `c`. -/
def sampleSha256 (c : Bytes) : Bytes :=
  if c = [] then
    [0xE3, 0xB0, 0xC4, 0x42, 0x98, 0xFC, 0x1C, 0x14, 0x9A, 0xFB, 0xF4, 0xC8, 0x99, 0x6F, 0xB9,
      0x24, 0x27, 0xAE, 0x41, 0xE4, 0x64, 0x9B, 0x93, 0x4C, 0xA4, 0x95, 0x99, 0x1B, 0x78,
      0x52, 0xB8, 0x55]
  else if c = [0x61] then
    [0xCA, 0x97, 0x81, 0x12, 0xCA, 0x1B, 0xBD, 0xCA, 0xFA, 0xC2, 0x31, 0xB3, 0x9A, 0x23, 0xDC,
      0x4D, 0xA7, 0x86, 0xEF, 0xF8, 0x14, 0x7C, 0x4E, 0x72, 0xB9, 0x80, 0x77, 0x85, 0xAF,
      0xEE, 0x48, 0xBB]
  else if c = [0x62] then
    [0x3E, 0x23, 0xE8, 0x16, 0x00, 0x39, 0x59, 0x4A, 0x33, 0x89, 0x4F, 0x65, 0x64, 0xE1, 0xB1,
      0x34, 0x8B, 0xBD, 0x7A, 0x00, 0x88, 0xD4, 0x2C, 0x4A, 0xCB, 0x73, 0xEE, 0xAE, 0xD5,
      0x9C, 0x00, 0x9D]
  else if c = [0x63] then
    [0x2E, 0x7D, 0x2C, 0x03, 0xA9, 0x50, 0x7A, 0xE2, 0x65, 0xEC, 0xF5, 0xB5, 0x35, 0x68, 0x85,
      0xA5, 0x33, 0x93, 0xA2, 0x02, 0x9D, 0x24, 0x13, 0x94, 0x99, 0x72, 0x65, 0xA1, 0xA2,
      0x5A, 0xEF, 0xC6]
  else List.replicate 32 0

/-- External code as it behaves in worked examples; the clock reads 2025-02-26 14:32:00.123. -/
def sampleExt : Ext where
  sha256 := sampleSha256
  xxh3_128 := fun _ => 0
  stamp := fun _ => [0x32, 0x30, 0x32, 0x35, 0x30, 0x32, 0x32, 0x36, 0x5F, 0x31, 0x34, 0x33, 0x32,
    0x30, 0x30, 0x5F, 0x31, 0x32, 0x33]
  statusJson := fun _ _ _ _ => [0x7B, 0x7D]
  locksJson := fun _ => [0x5B, 0x5D]

end Dibs
