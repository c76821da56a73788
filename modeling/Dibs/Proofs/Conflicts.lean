import Dibs.Fs.Step
import Dibs.Fs.Outcomes
import Dibs.Os.Below

/-! Saved conflicts. A rejected write is saved under the time, rounded to milliseconds, and the decoded
    base name of the file; the directory of the file and the session do not enter the name, and
    `std::fs::write` replaces what it finds. So of two rejected writes with equal base names in the same
    millisecond only the later one is recoverable, and otherwise all of them are. -/

namespace Dibs

def Warning.isWrite : Warning → Bool
  | .write _ => true
  | _ => false

/-- A write request and the system's answers while it is served. -/
structure WriteRequest where
  os : Os
  pid : ℕ
  ino : ℕ
  fh : ℕ
  offset : ℕ
  data : Bytes

namespace WriteRequest

def call (r : WriteRequest) : Call := .fuse r.os r.pid (.write r.ino r.fh r.offset r.data)

/-- The millisecond in which the request is served. -/
def millis (r : WriteRequest) : ℤ := r.os.now / 10 ^ 6

end WriteRequest

namespace DibsFs
variable (X : Ext)

def serve (s : DibsFs) (r : WriteRequest) : DibsFs := s.step X r.call

/-- The base name of the handle's file as it appears in the name of a saved conflict. -/
def conflictBase (s : DibsFs) (fh : ℕ) : Name :=
  (((s.fileHandles.get fh).bind (·.path.getLast?)).map toStringLossy).getD UNKNOWN_NAME

def conflictName (s : DibsFs) (r : WriteRequest) : Name :=
  X.stamp r.millis ++ [0x5F] ++ conflictBase s r.fh

/-- The request is rejected for a CAS conflict, and saving its data succeeds. -/
structure RejectedAndSaved (dir : Path) (s : DibsFs) (r : WriteRequest) : Prop where
  rejected : (s.out X r.call).warn.any Warning.isWrite = true
  saved : (s.serve X r).backing.content (dir ++ [conflictName X s r]) = some r.data

/-- Nothing in the conflict directory has the name of a conflict to be saved. -/
def NamesFree (dir : Path) (s : DibsFs) (rs : List WriteRequest) : Prop :=
  ∃ d o, s.backing.find true dir = .ok (d, ⟨o, .dir⟩) ∧
    ∀ r ∈ rs, s.backing.tree.get (d ++ [conflictName X s r]) = none

/-- `%Y%m%d_%H%M%S_%3f` at the times of the requests: nineteen characters, which tell the milliseconds
    apart. -/
structure StampsFit (rs : List WriteRequest) : Prop where
  width : ∀ r ∈ rs, (X.stamp r.millis).length = 19
  injective : ∀ r ∈ rs, ∀ r' ∈ rs, X.stamp r.millis = X.stamp r'.millis → r.millis = r'.millis

/-- After the requests the conflict directory holds the data of each, and no conflict was saved over
    an earlier one. -/
structure Recoverable (dir : Path) (s : DibsFs) (rs : List WriteRequest) : Prop where
  contained : ∀ r ∈ rs, ∃ n, (Run.exec (serve X) s rs).backing.content (dir ++ [n]) = some r.data
  apart : rs.Pairwise fun r r' => conflictName X s r ≠ conflictName X s r'

variable {X} {s : DibsFs} {dir d : Path} {o : ℕ}

/-- `std::fs::write` to a name the directory does not hold: at most this name is new, and every file
    keeps its content. -/
theorem fsWrite_fresh {b : Backing} {n : Name} (hn : n ≠ Backing.dotdot) (os : Os) (data : Bytes)
    (hdir : b.find true dir = .ok (d, ⟨o, .dir⟩)) (hfree : b.tree.get (d ++ [n]) = none) :
    (∀ p c, b.content p = some c → (b.fsWrite os (dir ++ [n]) data).content p = some c) ∧
      (b.fsWrite os (dir ++ [n]) data).find true dir = .ok (d, ⟨o, .dir⟩) ∧
      ∀ k, k ≠ d ++ [n] → (b.fsWrite os (dir ++ [n]) data).tree.get k = b.tree.get k := by
  obtain ⟨hext, -, hdata⟩ := b.fsWrite_spec os (dir ++ [n]) data
  have hres : b.resolve false (dir ++ [n]) = .missing d n := by
    rw [Backing.resolve_entry hn hdir, Backing.below, hfree]
  have hnone : b.fileAt (dir ++ [n]) = none := by
    refine Backing.fileAt_eq_none_of_resolve fun q hq => ?_
    rw [Backing.resolve_missing_follow hres] at hq
    cases hq
  refine ⟨fun p c hc => ?_, ?_, fun k hk => ?_⟩
  · obtain ⟨f, hf, rfl⟩ := Option.map_eq_some_iff.mp hc
    have hf' : (b.fsWrite os (dir ++ [n]) data).fileAt p = some f :=
      Backing.fileAt_iff_target.mpr (Backing.target_mono hext (Backing.fileAt_iff_target.mp hf))
    rw [Backing.content, hf', Option.map_some, hdata f (Backing.fileAt_lt hf), hnone,
      if_neg (by simp)]
  · obtain ⟨hq, he⟩ := Backing.find_ok_iff.mp hdir
    exact Backing.find_ok_iff.mpr
      ⟨Backing.followLinks_mono hext Backing.MAXSYMLINKS [] dir hq, Backing.entry_mono hext he⟩
  · rw [Backing.fsWrite]
    split
    · rfl
    · rw [Backing.resolve_missing_follow hres]
      simp only
      split
      · rfl
      · exact (FinMap.get_insert ..).trans (if_neg hk)

/-- A rejected write changes the backing directory by the saved conflict only. -/
theorem serve_rejected {r : WriteRequest} (hdir : s.conflictDir = some dir)
    (h : (s.out X r.call).warn.any Warning.isWrite = true) :
    (s.serve X r).backing = s.backing.fsWrite r.os (dir ++ [conflictName X s r]) r.data ∧
      (s.serve X r).fileHandles = s.fileHandles ∧ (s.serve X r).conflictDir = some dir := by
  rw [serve, step]
  rw [WriteRequest.call, out, handle] at h ⊢
  have hout := s.write_out X r.os r.ino r.fh r.offset r.data
  generalize s.write X r.os r.ino r.fh r.offset r.data = w at hout h
  cases hout with
  | failed e => cases h
  | through hh cas _ _ _ =>
    rw [writeThrough] at h
    simp only at h
    split at h <;> cases h
  | rejected hh e _ hget _ _ =>
    simp only [saveConflict, hdir]
    refine ⟨?_, trivial, trivial⟩
    rw [conflictPath, conflictName, conflictBase, hget, Option.bind_some]
    rfl

theorem conflictName_congr {s' : DibsFs} (h : s'.fileHandles = s.fileHandles) (r : WriteRequest) :
    conflictName X s' r = conflictName X s r := by
  rw [conflictName, conflictBase, h, conflictName, conflictBase]

theorem conflictName_ne_dotdot (r : WriteRequest) : conflictName X s r ≠ Backing.dotdot := by
  intro h
  have hmem : (0x5F : UInt8) ∈ conflictName X s r := by simp [conflictName]
  rw [h] at hmem
  exact absurd hmem (by decide)

/-- RUN: conflicts with different free names are all saved, and whatever had a content keeps it. -/
theorem saved_of_apart : ∀ (rs : List WriteRequest) (s : DibsFs), s.conflictDir = some dir →
    Run.Along (serve X) (RejectedAndSaved X dir) s rs → NamesFree X dir s rs →
      rs.Pairwise (fun r r' => conflictName X s r ≠ conflictName X s r') →
      (∀ p c, s.backing.content p = some c → (Run.exec (serve X) s rs).backing.content p = some c) ∧
        ∀ r ∈ rs, (Run.exec (serve X) s rs).backing.content (dir ++ [conflictName X s r]) = some r.data
  | [], _, _, _, _, _ => ⟨fun _ _ h => h, fun r hr => absurd hr List.not_mem_nil⟩
  | r :: rs, s, hdir, ⟨hr, hrun⟩, ⟨d, o, hd, hfree⟩, hapart => by
    obtain ⟨hb, hh, hc⟩ := serve_rejected hdir hr.rejected
    obtain ⟨hkeep, hd', hother⟩ := fsWrite_fresh (conflictName_ne_dotdot r) r.os r.data hd
      (hfree r (List.mem_cons_self ..))
    rw [← hb] at hkeep hd' hother
    obtain ⟨hhead, htail⟩ := List.pairwise_cons.mp hapart
    -- the later names are still free
    have hfree' : NamesFree X dir (s.serve X r) rs := by
      refine ⟨d, o, hd', fun r' hr' => ?_⟩
      rw [conflictName_congr hh, hother]
      · exact hfree r' (List.mem_cons_of_mem _ hr')
      · intro heq
        have hsame := (List.append_inj' heq rfl).2
        exact hhead r' hr' (List.cons.inj hsame).1.symm
    have htail' : rs.Pairwise
        (fun r₁ r₂ => conflictName X (s.serve X r) r₁ ≠ conflictName X (s.serve X r) r₂) := by
      simpa only [conflictName_congr hh] using htail
    obtain ⟨hall, hsaved⟩ := saved_of_apart rs (s.serve X r) hc hrun hfree' htail'
    rw [Run.exec_cons]
    refine ⟨fun p c hpc => hall p c (hkeep p c hpc), fun r' hr' => ?_⟩
    rcases List.mem_cons.mp hr' with rfl | hr'
    · exact hall _ _ hr.saved
    · rw [← conflictName_congr hh]
      exact hsaved r' hr'

/-- Time and base name can be read off the name. -/
theorem conflictName_inj {rs : List WriteRequest} (hstamp : StampsFit X rs) {r r' : WriteRequest}
    (hr : r ∈ rs) (hr' : r' ∈ rs) :
    conflictName X s r = conflictName X s r' ↔
      r.millis = r'.millis ∧ conflictBase s r.fh = conflictBase s r'.fh := by
  constructor
  · intro h
    rw [conflictName, conflictName, List.append_assoc, List.append_assoc] at h
    obtain ⟨ht, hbase⟩ := List.append_inj h ((hstamp.width r hr).trans (hstamp.width r' hr').symm)
    exact ⟨hstamp.injective r hr r' hr' ht, (List.cons.inj hbase).2⟩
  · rintro ⟨ht, hbase⟩
    rw [conflictName, conflictName, ht, hbase]

/-- CORRECT (exact): all rejected writes stay recoverable exactly if no two of them have the same
    millisecond and the same base name. -/
theorem recoverable_iff {rs : List WriteRequest} (hdir : s.conflictDir = some dir)
    (hrun : Run.Along (serve X) (RejectedAndSaved X dir) s rs) (hfree : NamesFree X dir s rs)
    (hstamp : StampsFit X rs) :
    Recoverable X dir s rs ↔ rs.Pairwise fun r r' =>
      r.millis ≠ r'.millis ∨ conflictBase s r.fh ≠ conflictBase s r'.fh := by
  have hkey : rs.Pairwise (fun r r' => conflictName X s r ≠ conflictName X s r') ↔
      rs.Pairwise fun r r' =>
        r.millis ≠ r'.millis ∨ conflictBase s r.fh ≠ conflictBase s r'.fh := by
    refine List.Pairwise.iff_of_mem fun hr hr' => ?_
    rw [ne_eq, conflictName_inj hstamp hr hr', not_and_or]
  rw [← hkey]
  constructor
  · exact fun h => h.apart
  · intro hapart
    have hsaved := (saved_of_apart rs s hdir hrun hfree hapart).2
    exact ⟨fun r hr => ⟨_, hsaved r hr⟩, hapart⟩

/-! ### Two writes of one handle -/

/-- A mount with conflict saving over the file `f`: session 7 wrote `b` and session 8 then `c`, so
    that session 7's handle, number 1, is stale. -/
def staleHandle : DibsFs := Run.exec (step sampleExt) (mount sampleBacking { ino := 50 } true [])
  [.fuse {} 7 (.lookup 1 fName), .fuse {} 7 (.open_ 10 O_RDWR), .fuse {} 7 (.write 10 1 0 [0x62]),
    .fuse {} 7 (.flush 10 1), .fuse { fd := 4 } 8 (.open_ 10 O_WRONLY),
    .fuse {} 8 (.write 10 2 0 [0x63]), .fuse {} 8 (.flush 10 2)]

/-- A write of session 7 at a millisecond; a saved conflict gets the inode number `ino`. -/
def lateWrite (ino : ℕ) (ms : ℤ) (data : Bytes) : WriteRequest :=
  ⟨{ ino := ino, now := ms * 10 ^ 6 }, 7, 10, 1, 0, data⟩

/-- The external code with the stamps of 2025-02-26 14:32:00.123 and 14:32:00.124. -/
def twoStamps : Ext :=
  { sampleExt with
    stamp := fun ms => if ms = 1740580320124 then
      [0x32, 0x30, 0x32, 0x35, 0x30, 0x32, 0x32, 0x36, 0x5F, 0x31, 0x34, 0x33, 0x32, 0x30, 0x30,
        0x5F, 0x31, 0x32, 0x34]
      else sampleExt.stamp ms }

theorem conflicts_recoverable :
    Recoverable twoStamps [CONFLICTS_DIR] staleHandle
      [lateWrite 100 1740580320123 [0x78], lateWrite 101 1740580320124 [0x79]] ↔
    [lateWrite 100 1740580320123 [0x78], lateWrite 101 1740580320124 [0x79]].Pairwise fun r r' =>
      r.millis ≠ r'.millis ∨ conflictBase staleHandle r.fh ≠ conflictBase staleHandle r'.fh :=
  recoverable_iff (by decide +kernel)
    ⟨⟨by decide +kernel, by decide +kernel⟩, ⟨by decide +kernel, by decide +kernel⟩, trivial⟩
    ⟨[CONFLICTS_DIR], 2, by decide +kernel, by decide +kernel⟩ ⟨by decide, by decide⟩

/-- Within one millisecond the second conflict is saved over the first one, and no file holds the data
    of the first request. -/
theorem conflict_overwritten :
    Run.Along (serve sampleExt) (RejectedAndSaved sampleExt [CONFLICTS_DIR]) staleHandle
      [lateWrite 100 1740580320123 [0x78], lateWrite 101 1740580320123 [0x79]] ∧
    ¬ Recoverable sampleExt [CONFLICTS_DIR] staleHandle
      [lateWrite 100 1740580320123 [0x78], lateWrite 101 1740580320123 [0x79]] := by
  refine ⟨⟨⟨by decide +kernel, by decide +kernel⟩, ⟨by decide +kernel, by decide +kernel⟩, trivial⟩, ?_⟩
  intro h
  obtain ⟨n, hn⟩ := h.contained _ (List.mem_cons_self ..)
  obtain ⟨o, ho, hdata⟩ := Option.map_eq_some_iff.mp hn
  have hlt := Backing.fileAt_lt ho
  have hother : ∀ o, o < (Run.exec (serve sampleExt) staleHandle
      [lateWrite 100 1740580320123 [0x78],
        lateWrite 101 1740580320123 [0x79]]).backing.nextObj →
      (Run.exec (serve sampleExt) staleHandle [lateWrite 100 1740580320123 [0x78],
        lateWrite 101 1740580320123 [0x79]]).backing.dataOf o ≠ [0x78] := by decide +kernel
  exact hother o hlt hdata

end DibsFs

end Dibs
