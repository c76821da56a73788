import Dibs.Fs.Step
import Dibs.Lib.Slices

/-! Reading a virtual file from its beginning to its end. The text of `.dibs/status` and `.dibs/locks` is
    made anew for each read request, and the request gets a slice of the text of that moment. A series
    of reads therefore delivers one document if the text stays the same from the first read to the
    last; if it grows meanwhile, the read that should find the end returns the tail of another text. -/

namespace Dibs

/-- The bytes of a reply to `read`. -/
def Reply.bytes : Reply → Bytes
  | .data d => d
  | _ => []

namespace DibsFs
variable (X : Ext)

/-- The document in a virtual file. -/
def virtualText (s : DibsFs) (os : Os) (ino : ℕ) : Bytes :=
  if ino = DIBS_STATUS_INO then s.statusJson X os else s.locksJson X

/-- A read request of a series, after the other events that come before it. -/
structure SeriesRead where
  before : List Call := []
  os : Os
  pid : ℕ
  size : ℕ
  size_pos : 0 < size := by decide

/-- The events of a series of reads, and the bytes it returns. Each read starts at the offset at
    which the one before it ended. -/
def readSeries (ino fh : ℕ) : DibsFs → ℕ → List SeriesRead → List Call × List Bytes
  | _, _, [] => ([], [])
  | s, off, r :: rest =>
    let t := Run.exec (step X) s r.before
    let c := Call.fuse r.os r.pid (.read ino fh off r.size)
    let d := (t.out X c).reply.bytes
    let next := readSeries ino fh (t.step X c) (off + d.length) rest
    (r.before ++ c :: next.1, d :: next.2)

/-- The text each read of a series finds, of the state and at the time of the read, and how much of it
    the read asks for. -/
def requests (ino : ℕ) : DibsFs → List SeriesRead → List (Bytes × ℕ)
  | _, [] => []
  | s, r :: rest =>
    let t := Run.exec (step X) s r.before
    (virtualText X t r.os ino, r.size) :: requests ino t rest

/-- An open of a virtual file and a series of reads on the handle. -/
structure VirtualRead where
  os : Os
  pid : ℕ
  ino : ℕ
  flags : OpenFlags := O_RDONLY
  reads : List SeriesRead
  isVirtual : ino = DIBS_STATUS_INO ∨ ino = DIBS_LOCKS_INO

namespace VirtualRead
variable (v : VirtualRead) (s : DibsFs)

def opening : Call := .fuse v.os v.pid (.open_ v.ino v.flags)

/-- All events, from the open to the last read. -/
def calls : List Call :=
  v.opening :: (readSeries X v.ino s.fileHandles.nextFh (s.step X v.opening) 0 v.reads).1

def replies : List Bytes :=
  (readSeries X v.ino s.fileHandles.nextFh (s.step X v.opening) 0 v.reads).2

/-- The bytes read are the document of one moment: the text that one of the reads found. -/
def Snapshot : Prop :=
  ∃ x ∈ requests X v.ino (s.step X v.opening) v.reads, (v.replies X s).flatten = x.1

end VirtualRead

/-- The text is the same at every read. -/
def VirtualRead.Steady (v : VirtualRead) (s : DibsFs) : Prop :=
  ∀ x ∈ requests X v.ino (s.step X v.opening) v.reads,
    ∀ y ∈ requests X v.ino (s.step X v.opening) v.reads, x.1 = y.1

variable {X} {s : DibsFs}

/-- A read of a virtual file returns a slice of the text and changes nothing. -/
theorem read_virtual {os : Os} {pid ino fh off size : ℕ}
    (hv : ino = DIBS_STATUS_INO ∨ ino = DIBS_LOCKS_INO) :
    (s.out X (.fuse os pid (.read ino fh off size))).reply.bytes =
        ((virtualText X s os ino).drop off).take size ∧
      s.step X (.fuse os pid (.read ino fh off size)) = s := by
  rw [step, out, handle, read, virtualText]
  rcases hv with rfl | rfl
  · rw [if_pos rfl, if_pos rfl]
    exact ⟨rfl, rfl⟩
  · rw [if_neg (by decide), if_pos rfl, if_neg (by decide)]
    exact ⟨rfl, rfl⟩

/-- REFINEMENT: the replies of a series are slices at consecutive offsets of the texts it finds. -/
theorem readSeries_snd {ino fh : ℕ} (hv : ino = DIBS_STATUS_INO ∨ ino = DIBS_LOCKS_INO)
    (reads : List SeriesRead) (s : DibsFs) (off : ℕ) :
    (readSeries X ino fh s off reads).2 = Slices.answers off (requests X ino s reads) := by
  induction reads generalizing s off with
  | nil => rfl
  | cons r rest ih =>
    have hread := @read_virtual X (Run.exec (step X) s r.before) r.os r.pid ino fh off r.size hv
    rw [readSeries, requests, Slices.answers]
    simp only [hread.1, hread.2, ih]

theorem requests_pos {ino : ℕ} (reads : List SeriesRead) (s : DibsFs) :
    ∀ x ∈ requests X ino s reads, 0 < x.2 := by
  induction reads generalizing s with
  | nil => intro x hx; cases hx
  | cons r rest ih =>
    intro x hx
    rcases List.mem_cons.mp hx with rfl | hx
    · exact r.size_pos
    · exact ih _ x hx

/-- CORRECT: if the text is the same at every read, the series delivers the document. -/
theorem snapshot_of_steady {v : VirtualRead} (hend : (v.replies X s).getLast? = some [])
    (hsteady : v.Steady X s) : v.Snapshot X s := by
  cases hreads : v.reads with
  | nil =>
    rw [VirtualRead.replies, hreads, readSeries] at hend
    cases hend
  | cons r rest =>
    rw [VirtualRead.Steady, hreads] at hsteady
    rw [VirtualRead.replies, readSeries_snd v.isVirtual, hreads] at hend
    -- every read finds what the first one finds
    have hsame : ∀ x ∈ requests X v.ino (s.step X v.opening) (r :: rest),
        x.1 = virtualText X (Run.exec (step X) (s.step X v.opening) r.before) r.os v.ino :=
      fun x hx => hsteady x hx _ (List.mem_cons_self ..)
    obtain ⟨x, hx⟩ : ∃ x, (requests X v.ino (s.step X v.opening) (r :: rest)).getLast? = some x := by
      rw [requests, List.getLast?_cons]
      exact ⟨_, rfl⟩
    have hflat := Slices.flatten_answers _ _ 0 (requests_pos (r :: rest) (s.step X v.opening))
      (Slices.agree_of_forall _ 0 hsame) hend
      (by rw [hx, Option.map_some, hsame x (List.mem_of_getLast? hx)])
    rw [List.take_zero, List.nil_append] at hflat
    refine ⟨(virtualText X (Run.exec (step X) (s.step X v.opening) r.before) r.os v.ino, r.size), ?_, ?_⟩
    · rw [hreads]
      exact List.mem_cons_self ..
    · rw [VirtualRead.replies, readSeries_snd v.isVirtual, hreads, hflat]

/-! ### Ten seconds after the start -/

/-- A number below one hundred in decimal. -/
def twoDigits (n : ℕ) : Bytes :=
  if n < 10 then [UInt8.ofNat (0x30 + n)]
  else [UInt8.ofNat (0x30 + n / 10), UInt8.ofNat (0x30 + n % 10)]

/-- The external code, with the text of the counters as it is while they are below one hundred:
    `{"active_locks":_,"session_id":"_","tracked_files":_,"uptime_seconds":_}`. -/
def countersExt : Ext :=
  { sampleExt with
    statusJson := fun tracked active uptime sessionId =>
      [0x7B, 0x22, 0x61, 0x63, 0x74, 0x69, 0x76, 0x65, 0x5F, 0x6C, 0x6F, 0x63, 0x6B, 0x73, 0x22,
        0x3A] ++ twoDigits active ++
      [0x2C, 0x22, 0x73, 0x65, 0x73, 0x73, 0x69, 0x6F, 0x6E, 0x5F, 0x69, 0x64, 0x22, 0x3A,
        0x22] ++ sessionId ++
      [0x22, 0x2C, 0x22, 0x74, 0x72, 0x61, 0x63, 0x6B, 0x65, 0x64, 0x5F, 0x66, 0x69, 0x6C, 0x65,
        0x73, 0x22, 0x3A] ++ twoDigits tracked ++
      [0x2C, 0x22, 0x75, 0x70, 0x74, 0x69, 0x6D, 0x65, 0x5F, 0x73, 0x65, 0x63, 0x6F, 0x6E, 0x64,
        0x73, 0x22, 0x3A] ++ twoDigits uptime ++ [0x7D] }

/-- `cat .dibs/status` with a large buffer: one read for the text, one that finds the end, and one
    more. The last two come at the time `t`. -/
def catStatus (t : Time) : VirtualRead where
  os := { now := 9 * 10 ^ 9 }
  pid := 7
  ino := DIBS_STATUS_INO
  reads := [{ os := { now := 9 * 10 ^ 9 }, pid := 7, size := 4096 },
    { os := { now := t }, pid := 7, size := 4096 }, { os := { now := t }, pid := 7, size := 4096 }]
  isVirtual := Or.inl rfl

theorem catStatus_snapshot : ((catStatus (9 * 10 ^ 9 + 1)).replies countersExt sampleMount).getLast? =
      some [] ∧ (catStatus (9 * 10 ^ 9 + 1)).Snapshot countersExt sampleMount :=
  ⟨by decide +kernel, snapshot_of_steady (by decide +kernel)
    (by unfold VirtualRead.Steady; decide +kernel)⟩

/-- If the tenth second passes between the two reads, the second one returns the brace that the longer
    text ends with: what was read is `{...}}`, the text of no state of the run at no time from the open
    to the last read. -/
theorem catStatus_torn :
    ((catStatus (10 * 10 ^ 9)).replies countersExt sampleMount).getLast? = some [] ∧
      ¬ (catStatus (10 * 10 ^ 9)).Snapshot countersExt sampleMount ∧
      ∀ pre os, pre <+: (catStatus (10 * 10 ^ 9)).calls countersExt sampleMount →
        9 * 10 ^ 9 ≤ os.now → os.now ≤ 10 * 10 ^ 9 →
        ((catStatus (10 * 10 ^ 9)).replies countersExt sampleMount).flatten ≠
          virtualText countersExt (Run.exec (step countersExt) sampleMount pre) os DIBS_STATUS_INO := by
  refine ⟨by decide +kernel, by unfold VirtualRead.Snapshot; decide +kernel, ?_⟩
  intro pre os hpre hge hle heq
  have hstate : ∀ pre ∈ ((catStatus (10 * 10 ^ 9)).calls countersExt sampleMount).inits,
      (Run.exec (step countersExt) sampleMount pre).casTable.len = 0 ∧
        (Run.exec (step countersExt) sampleMount pre).casTable.activeWriters = 0 ∧
        (Run.exec (step countersExt) sampleMount pre).startTime = 0 ∧
        (Run.exec (step countersExt) sampleMount pre).sessionId = [] := by decide +kernel
  obtain ⟨hlen, hactive, hstart, hid⟩ := hstate pre ((List.mem_inits ..).mpr hpre)
  have hseconds : ∀ t : ℤ, 9 * 10 ^ 9 ≤ t → t ≤ 10 * 10 ^ 9 → t / 10 ^ 9 = 9 ∨ t / 10 ^ 9 = 10 := by
    intro t h1 h2
    omega
  -- at the ninth second the text is shorter, at the tenth it ends otherwise
  rw [virtualText, if_pos rfl, statusJson, hlen, hactive, hstart, hid, sub_zero] at heq
  rcases hseconds os.now hge hle with hu | hu
  · rw [hu] at heq
    exact absurd heq (by decide +kernel)
  · rw [hu] at heq
    exact absurd heq (by decide +kernel)

end DibsFs

end Dibs
