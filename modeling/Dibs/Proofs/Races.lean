import Dibs.Fs.Threads
import Dibs.Fs.Outcomes

/-! Handlers that race on one file. `check_and_acquire_write` compares with a hash its caller made a few
    calls earlier, so it compares with the content of the file only if no other handler has changed the
    file since, or another handle owns the path by then and the check is refused anyway. -/

namespace Dibs

/-- What a handler that has hashed a file carries to its check: the path, the hash (`none`: there will
    be no check), and whether its own `libc::open` has truncated the file. -/
structure Hashed where
  path : Path
  actual : Option Bytes
  truncated : Bool

def Pc.hashed : Pc → Option Hashed
  | .openCall _ rel _ pre => some ⟨rel, pre, false⟩
  | .openAlloc _ rel flags pre _ => some ⟨rel, pre, hasFlag flags O_TRUNC⟩
  | .openCheck _ rel flags pre _ _ => some ⟨rel, pre, hasFlag flags O_TRUNC⟩
  | .writeCheck _ h _ _ actual => some ⟨h.path, some actual, false⟩
  | _ => none

/-- The arguments of a `check_and_acquire_write`. -/
structure Check where
  path : Path
  fh : ℕ
  sid : ℕ
  actual : Bytes

def Pc.check : Pc → Option Check
  | .openCheck sid rel _ (some actual) _ fh => some ⟨rel, fh, sid, actual⟩
  | .writeCheck fh h _ _ actual => some ⟨h.path, fh, h.sid, actual⟩
  | _ => none

theorem Pc.hashed_of_check {pc : Pc} {k : Check} (h : pc.check = some k) :
    ∃ r, pc.hashed = some ⟨k.path, some k.actual, r⟩ := by
  cases pc with
  | openCheck sid rel flags pre fd fh =>
    cases pre with
    | none => cases h
    | some actual => cases h; exact ⟨_, rfl⟩
  | writeCheck fh h' offset data actual => cases h; exact ⟨_, rfl⟩
  | _ => cases h

namespace DibsFs
variable {X : Ext} {s : DibsFs} {os : Os}

/-- The object whose content the next call of a handler rewrites, and how: a truncating `libc::open`, a
    `pwrite`, or a rejected write that is saved over an old one. -/
def rewrites (X : Ext) (s : DibsFs) (os : Os) : Pc → Option (ℕ × (Bytes → Bytes))
  | .openCall _ rel flags _ =>
    match s.backing.libcOpen os rel flags 0, s.backing.fileAt rel with
    | .ok _, some o => if hasFlag flags O_TRUNC then some (o, fun _ => []) else none
    | _, _ => none
  | .writePwrite h offset data =>
    match s.backing.pwrite os h.realFd offset data, s.backing.fds.get h.realFd with
    | .ok _, some f => some (f.obj, fun old => Backing.splice old
        (if hasFlag f.flags O_APPEND && os.appendAtEnd then old.length else offset)
        (data.take os.written))
    | _, _ => none
  | .writeSave h data =>
    s.conflictDir.bind fun dir => (s.backing.fileAt (conflictPath X os dir h.path)).bind fun o =>
      os.saved.map fun k => (o, fun _ => data.take k)
  | _ => none

theorem pwrite_data {b b' : Backing} {fd : ℤ} {offset n : ℕ} {data : Bytes}
    (h : b.pwrite os fd offset data = .ok (b', n)) : ∃ f, b.fds.get fd = some f ∧
      b' = b.setData f.obj (Backing.splice (b.dataOf f.obj)
        (if hasFlag f.flags O_APPEND && os.appendAtEnd then (b.dataOf f.obj).length else offset)
        (data.take os.written)) := by
  rw [Backing.pwrite] at h
  split at h
  · cases h
  · split at h
    · cases h
    · rename_i f hf
      split at h
      · cases h
      · split at h
        · cases h
        · exact ⟨f, hf, (Prod.mk.inj (Except.ok.inj h)).1.symm⟩

/-- The calls that reach the backing directory and may change it. -/
def onDisk : Pc → Bool
  | .openCall .. | .openClose _ | .writePwrite .. | .writeSave .. | .releaseClose _ => true
  | _ => false

theorem call_backing {pc : Pc} (h : onDisk pc = false) :
    (s.call X os pc).1.backing = s.backing := by
  cases pc with
  | openCheck sid rel flags pre fd fh =>
    cases pre with
    | none => rfl
    | some actual => rw [call]; split <;> rfl
  | writeGuard fh h offset data => rw [call]; split <;> rfl
  | writeCheck fh h offset data actual => rw [call]; split <;> rfl
  | flushHash fh h => rw [call]; split <;> rfl
  | openCall sid rel flags pre => cases h
  | openClose fd => cases h
  | writePwrite h offset data => cases h
  | writeSave h data => cases h
  | releaseClose fd => cases h
  | _ => rfl

theorem rewrites_none {pc : Pc} (h : onDisk pc = false) : s.rewrites X os pc = none := by
  cases pc with
  | openCall sid rel flags pre => cases h
  | writePwrite h offset data => cases h
  | writeSave h data => cases h
  | _ => rfl

/-- SPEC: what one call does to the old contents. -/
theorem call_data (pc : Pc) {o : ℕ} (ho : o < s.backing.nextObj) :
    (s.call X os pc).1.backing.dataOf o =
      match s.rewrites X os pc with
      | some (o', f) => if o = o' then f (s.backing.dataOf o) else s.backing.dataOf o
      | none => s.backing.dataOf o := by
  cases pc with
  | openCall sid rel flags pre =>
    rw [call, rewrites]
    cases hopen : s.backing.libcOpen os rel flags 0 with
    | error e => rfl
    | ok x =>
      obtain ⟨b, fd⟩ := x
      obtain ⟨-, -, ⟨o', hfile⟩ | hdir | hnew⟩ := Backing.libcOpen_cases hopen
      · simp only [hfile.file]
        rw [hfile.data]
        by_cases ht : hasFlag flags O_TRUNC = true
        · simp [ht]
        · simp [ht]
      · simp only [hdir.noFile]
        exact hdir.data o
      · simp only [hnew.noFile]
        rw [hnew.data, if_neg (Nat.ne_of_lt ho)]
  | writePwrite h offset data =>
    rw [call, rewrites]
    cases hw : s.backing.pwrite os h.realFd offset data with
    | error e => rfl
    | ok x =>
      obtain ⟨b, n⟩ := x
      obtain ⟨f, hf, rfl⟩ := pwrite_data hw
      simp only [hf]
      rw [Backing.dataOf_setData]
      by_cases heq : o = f.obj
      · simp [heq]
      · simp [heq]
  | writeSave h data =>
    rw [call, rewrites, saveConflict]
    cases s.conflictDir with
    | none => rfl
    | some dir =>
      obtain ⟨-, -, hdata⟩ := Backing.fsWrite_spec s.backing os (conflictPath X os dir h.path) data
      simp only [Option.bind_some]
      rw [hdata o ho]
      cases s.backing.fileAt (conflictPath X os dir h.path) with
      | none => simp
      | some o' =>
        cases os.saved with
        | none => simp
        | some k => by_cases heq : o = o' <;> simp [heq, eq_comm]
  | openClose fd => rfl
  | releaseClose fd => rfl
  | _ => rw [call_backing rfl, rewrites_none rfl]

/-- No call takes a name away. -/
theorem call_tree (pc : Pc) : Backing.Extends s.backing.tree (s.call X os pc).1.backing.tree := by
  have hsame : Backing.Extends s.backing.tree s.backing.tree := fun _ _ h => h
  cases pc with
  | openCall sid rel flags pre =>
    rw [call]
    cases hopen : s.backing.libcOpen os rel flags 0 with
    | error e => exact hsame
    | ok x => exact (Backing.libcOpen_target hopen).1
  | writePwrite h offset data =>
    rw [call]
    cases hw : s.backing.pwrite os h.realFd offset data with
    | error e => exact hsame
    | ok x =>
      obtain ⟨f, -, hb⟩ := pwrite_data hw
      simp only [hb]
      exact hsame
  | writeSave h data =>
    rw [call, saveConflict]
    split
    · exact (Backing.fsWrite_spec ..).1
    · exact hsame
  | openClose fd => exact hsame
  | releaseClose fd => exact hsame
  | _ => rw [call_backing rfl]; exact hsame

theorem call_fileAt (pc : Pc) {p : Path} {o : ℕ} (h : s.backing.fileAt p = some o) :
    (s.call X os pc).1.backing.fileAt p = some o :=
  Backing.fileAt_iff_target.mpr
    (Backing.target_mono (call_tree pc) (Backing.fileAt_iff_target.mp h))

/-- The requests whose handlers are taken apart: write-mode `open`, `write`, `flush`, `release`. -/
def Writing : ThreadEvent → Prop
  | .begin_ _ _ _ (.open_ _ flags) => accessMode flags ≠ O_RDONLY
  | .begin_ _ _ _ (.write ..) | .begin_ _ _ _ (.flush ..) | .begin_ _ _ _ (.release ..) => True
  | .begin_ .. => False
  | .run .. => True

/-- Such a request arrives without a hash, and before its first call nothing happens on disk. -/
theorem begin_quiet {tid pid : ℕ} {req : Request} (h : Writing (.begin_ tid os pid req)) (sid : ℕ) :
    (s.begin_ X os sid req).1.backing = s.backing ∧
      ∀ pc, (s.begin_ X os sid req).2 = some pc → pc.hashed = none := by
  cases req with
  | open_ ino flags =>
    rw [begin_]
    split
    · rename_i hmode
      have hdibs : isDibsIno ino = true := hmode.resolve_right h
      refine ⟨?_, fun pc hpc => by cases hpc⟩
      rw [open_, if_pos hdibs]
      split <;> rfl
    · split
      · exact ⟨rfl, fun pc hpc => by cases hpc⟩
      · split
        · exact ⟨rfl, fun pc hpc => by cases hpc⟩
        · exact ⟨rfl, fun pc hpc => by cases hpc; rfl⟩
  | write ino fh offset data =>
    rw [begin_]
    split
    · exact ⟨rfl, fun pc hpc => by cases hpc⟩
    · split
      · exact ⟨rfl, fun pc hpc => by cases hpc⟩
      · exact ⟨rfl, fun pc hpc => by cases hpc; rfl⟩
  | flush ino fh =>
    rw [begin_]
    split
    · exact ⟨rfl, fun pc hpc => by cases hpc⟩
    · split
      · exact ⟨rfl, fun pc hpc => by cases hpc⟩
      · split
        · exact ⟨rfl, fun pc hpc => by cases hpc; rfl⟩
        · exact ⟨rfl, fun pc hpc => by cases hpc⟩
  | release ino fh =>
    rw [begin_]
    split
    · exact ⟨rfl, fun pc hpc => by cases hpc⟩
    · exact ⟨rfl, fun pc hpc => by cases hpc; rfl⟩
  | _ => exact h.elim

end DibsFs

/-- What a handler should find when it reaches its check: the content of the file it hashed, `none` if
    it could not be hashed, kept up to date with what the other handlers do to the file, but without the
    handler's own truncation; and whether the others have changed it. -/
structure Glance where
  content : Option Bytes := none
  changed : Bool := false

/-- Another handler rewrites the file. -/
def Glance.after (g : Glance) (f : Bytes → Bytes) : Glance :=
  ⟨g.content.map f, g.changed || decide (g.content.map f ≠ g.content)⟩

/-- The threads with a glance for each of them, a record of the past that no handler reads. -/
structure Watched where
  sys : Threads
  glances : ℕ → Glance := fun _ => {}

namespace Watched
variable {X : Ext}

/-- A thread's glance after a call of its own: only hashing takes a new look. -/
def look (X : Ext) (s : DibsFs) (os : Os) (g : Glance) : Pc → Glance
  | .openHash _ rel _ => ⟨(hashFile X s.backing os rel).bind fun _ => s.backing.content rel, false⟩
  | .writeHash _ h _ _ =>
    ⟨(hashFile X s.backing os h.path).bind fun _ => s.backing.content h.path, false⟩
  | _ => g

/-- A thread's glance after the call `pc` of another one. -/
def beside (X : Ext) (s : DibsFs) (os : Os) (pc : Pc) (mine : Option Pc) (g : Glance) : Glance :=
  match mine.bind Pc.hashed, s.rewrites X os pc with
  | some k, some (o, f) => if s.backing.fileAt k.path = some o then g.after f else g
  | _, _ => g

def step (X : Ext) (w : Watched) : ThreadEvent → Watched
  | .begin_ tid os pid req => { w with sys := w.sys.step X (.begin_ tid os pid req) }
  | .run tid os =>
    ⟨w.sys.step X (.run tid os),
      match w.sys.pcs.get tid with
      | some pc => fun j =>
        if j = tid then look X w.sys.fs os (w.glances j) pc
        else beside X w.sys.fs os pc (w.sys.pcs.get j) (w.glances j)
      | none => w.glances⟩

/-- The record does not disturb the threads. -/
theorem exec_sys (events : List ThreadEvent) (w : Watched) :
    (Run.exec (step X) w events).sys = Run.exec (Threads.step X) w.sys events := by
  induction events generalizing w with
  | nil => rfl
  | cons e events ih =>
    rw [Run.exec_cons, Run.exec_cons, ih]
    cases e <;> rfl

/-- The condition: a handler that reaches its check although its file could not be hashed, or has been
    changed by another handler since, finds another handle the owner of the path. -/
def Shielded (w : Watched) : ThreadEvent → Prop
  | .begin_ .. => True
  | .run tid _ => ∀ pc ∈ w.sys.pcs.get tid, ∀ k ∈ pc.check,
      (w.glances tid).content = none ∨ (w.glances tid).changed = true →
      ∃ x ∈ w.sys.fs.casTable.owner k.path, x ≠ k.fh

instance (w : Watched) : ∀ e, Decidable (w.Shielded e)
  | .begin_ .. => inferInstanceAs (Decidable True)
  | .run tid _ => inferInstanceAs (Decidable (∀ pc ∈ w.sys.pcs.get tid, _))

/-- A check that acquires the path compares with the content of the file at that moment, but for a
    truncation of the handle's own; and a session that has a reference hash has seen that content. -/
def Compares (X : Ext) (w : Watched) : ThreadEvent → Prop
  | .begin_ .. => True
  | .run tid os => ∀ pc ∈ w.sys.pcs.get tid, ∀ k ∈ pc.check,
      w.sys.fs.casTable.owner k.path ≠ some k.fh →
      (w.sys.fs.casTable.checkAndAcquireWrite os.now k.path k.fh k.sid w.sys.fs.fileHandles
        k.actual).2 = .ok () →
      ∃ c, (w.glances tid).content = some c ∧ k.actual = hashContent X c ∧
        (∀ h ∈ pc.hashed, h.truncated = false → w.sys.fs.backing.content k.path = some c) ∧
        ∀ r, w.sys.fs.casTable.referenceHash k.path k.fh k.sid w.sys.fs.fileHandles = some r →
          r = hashContent X c

/-- The glance of a handler between its hash and its check is right. -/
def Seen (X : Ext) (s : DibsFs) (g : Glance) (k : Hashed) : Prop :=
  ∀ c, g.content = some c → ∃ o, s.backing.fileAt k.path = some o ∧
    (k.truncated = false → s.backing.dataOf o = c) ∧
    (g.changed = false → k.actual = some (hashContent X c))

def AllSeen (X : Ext) (w : Watched) : Prop :=
  ∀ j pc k, w.sys.pcs.get j = some pc → pc.hashed = some k → Seen X w.sys.fs (w.glances j) k

theorem seen_hash {s : DibsFs} {os : Os} {p : Path} :
    Seen X s ⟨(hashFile X s.backing os p).bind fun _ => s.backing.content p, false⟩
      ⟨p, hashFile X s.backing os p, false⟩ := by
  intro c hc
  obtain ⟨a, ha, hcont⟩ := Option.bind_eq_some_iff.mp hc
  obtain ⟨-, o, ho, hash⟩ := hashFile_eq_some.mp ha
  rw [Backing.content, ho] at hcont
  have hdata : s.backing.dataOf o = c := Option.some.inj hcont
  exact ⟨o, ho, fun _ => hdata, fun _ => by rw [ha, ← hash, hdata]⟩

/-- The calls after which a handler carries a hash to its check. -/
inductive Carrying : Pc → Prop where
  | openHash (sid : ℕ) (rel : Path) (flags : OpenFlags) : Carrying (.openHash sid rel flags)
  | openCall (sid : ℕ) (rel : Path) (flags : OpenFlags) (pre : Option Bytes) :
      Carrying (.openCall sid rel flags pre)
  | openAlloc (sid : ℕ) (rel : Path) (flags : OpenFlags) (pre : Option Bytes) (fd : ℤ) :
      Carrying (.openAlloc sid rel flags pre fd)
  | writeHash (fh : ℕ) (h : HandleState) (offset : ℕ) (data : Bytes) :
      Carrying (.writeHash fh h offset data)

theorem carrying_of_hashed {s : DibsFs} {os : Os} {pc pc' : Pc} {k : Hashed}
    (hcall : (s.call X os pc).2 = some pc') (hk : pc'.hashed = some k) : Carrying pc := by
  cases pc with
  | openHash sid rel flags => exact .openHash ..
  | openCall sid rel flags pre => exact .openCall ..
  | openAlloc sid rel flags pre fd => exact .openAlloc ..
  | writeHash fh h offset data => exact .writeHash ..
  | openCheck sid rel flags pre fd fh =>
    cases pre with
    | none => cases hcall
    | some actual =>
      rw [DibsFs.call] at hcall
      split at hcall
      · cases hcall; cases hk
      · simp only at hcall
        split at hcall <;> cases hcall
        cases hk
  | writeGuard fh h offset data =>
    rw [DibsFs.call] at hcall
    split at hcall <;> cases hcall <;> cases hk
  | writeCheck fh h offset data actual =>
    rw [DibsFs.call] at hcall
    split at hcall <;> cases hcall <;> cases hk
  | flushHash fh h =>
    rw [DibsFs.call] at hcall
    split at hcall <;> cases hcall <;> cases hk
  | writePwrite h offset data =>
    rw [DibsFs.call] at hcall
    split at hcall <;> cases hcall
  | releaseWrite fh h =>
    rw [DibsFs.call] at hcall
    simp only at hcall
    split at hcall <;> cases hcall
    cases hk
  | openRemove fd fh => cases hcall; cases hk
  | writeMark fh h offset data => cases hcall; cases hk
  | flushReader fh h newHash => cases hcall; cases hk
  | flushHandle fh h newHash => cases hcall; cases hk
  | _ => cases hcall

/-- A thread's own call: the hash is of what it has just seen, and its truncation is disregarded. -/
theorem seen_own {s : DibsFs} {os : Os} {g : Glance} {pc pc' : Pc} {k' : Hashed}
    (hold : ∀ k, pc.hashed = some k → Seen X s g k) (hcall : (s.call X os pc).2 = some pc')
    (hk : pc'.hashed = some k') : Seen X (s.call X os pc).1 (look X s os g pc) k' := by
  cases carrying_of_hashed hcall hk with
  | openHash sid rel flags =>
    cases hcall
    cases hk
    exact seen_hash
  | writeHash fh h offset data =>
    cases hcall
    cases hk
    intro c hc
    obtain ⟨o, ho, hdata, hact⟩ := seen_hash c hc
    refine ⟨o, ho, hdata, fun hch => ?_⟩
    have hash : hashFile X s.backing os h.path = some (hashContent X c) := hact hch
    simp only [hash, Option.getD_some]
  | openCall sid rel flags pre =>
    have hk' : k' = ⟨rel, pre, hasFlag flags O_TRUNC⟩ := by
      rw [DibsFs.call] at hcall
      split at hcall
      · cases hcall
      · cases hcall
        cases hk
        rfl
    subst hk'
    intro c hc
    obtain ⟨o, ho, hdata, hact⟩ := hold _ rfl c hc
    refine ⟨o, DibsFs.call_fileAt _ ho, fun htrunc => ?_, hact⟩
    have hnone : s.rewrites X os (.openCall sid rel flags pre) = none := by
      rw [DibsFs.rewrites]
      split
      · rw [if_neg (by simp [show hasFlag flags O_TRUNC = false from htrunc])]
      · rfl
    rw [DibsFs.call_data _ (Backing.fileAt_lt ho), hnone]
    exact hdata rfl
  | openAlloc sid rel flags pre fd =>
    cases hcall
    cases hk
    exact hold _ rfl

/-- A call of another thread: the glance follows what it does to the file. -/
theorem seen_beside {s : DibsFs} {os : Os} {g : Glance} {pc mine : Pc} {k : Hashed}
    (hk : mine.hashed = some k) (hold : Seen X s g k) :
    Seen X (s.call X os pc).1 (beside X s os pc (some mine) g) k := by
  have hdata := @DibsFs.call_data X s os pc
  rw [beside, Option.bind_some, hk]
  cases hr : s.rewrites X os pc with
  | none =>
    intro c hc
    obtain ⟨o, ho, hsame, hact⟩ := hold c hc
    refine ⟨o, DibsFs.call_fileAt pc ho, fun htr => ?_, hact⟩
    rw [hdata (Backing.fileAt_lt ho), hr]
    exact hsame htr
  | some x =>
    obtain ⟨o', f⟩ := x
    simp only
    split
    · rename_i hfile
      intro c hc
      obtain ⟨c₀, hc₀, rfl⟩ := Option.map_eq_some_iff.mp hc
      obtain ⟨o, ho, hsame, hact⟩ := hold c₀ hc₀
      obtain rfl : o' = o := Option.some.inj (hfile.symm.trans ho)
      refine ⟨o', DibsFs.call_fileAt pc ho, fun htr => ?_, fun hch => ?_⟩
      · rw [hdata (Backing.fileAt_lt ho), hr, ← hsame htr]
        exact if_pos rfl
      · simp only [Glance.after, Bool.or_eq_false_iff, decide_eq_false_iff_not, not_not, hc₀,
          Option.map_some, Option.some.injEq] at hch
        rw [hch.2]
        exact hact hch.1
    · rename_i hfile
      intro c hc
      obtain ⟨o, ho, hsame, hact⟩ := hold c hc
      refine ⟨o, DibsFs.call_fileAt pc ho, fun htr => ?_, hact⟩
      rw [hdata (Backing.fileAt_lt ho), hr]
      exact (if_neg fun heq : o = o' => hfile (heq ▸ ho)).trans (hsame htr)

/-- STEP: every event keeps the glances right. -/
theorem allSeen_step {w : Watched} {e : ThreadEvent} (h : AllSeen X w) (he : DibsFs.Writing e) :
    AllSeen X (w.step X e) := by
  intro j pc k hpc hk
  cases e with
  | begin_ tid os pid req =>
    rw [step, Threads.step] at hpc ⊢
    cases hbusy : w.sys.pcs.get tid with
    | some pc' => simp only [hbusy] at hpc ⊢; exact h j pc k hpc hk
    | none =>
      simp only [hbusy, Threads.get_goOn] at hpc ⊢
      obtain ⟨hback, hnone⟩ := w.sys.fs.begin_quiet (X := X) he (getSid os pid)
      split at hpc
      · rw [hnone pc hpc] at hk; cases hk
      · intro c hc
        rw [Threads.goOn]
        simp only [hback]
        exact h j pc k hpc hk c hc
  | run tid os =>
    rw [step, Threads.step] at hpc ⊢
    cases hbusy : w.sys.pcs.get tid with
    | none => simp only [hbusy] at hpc ⊢; exact h j pc k hpc hk
    | some pc' =>
      simp only [hbusy, Threads.get_goOn] at hpc ⊢
      split at hpc
      · rename_i hj
        rw [if_pos hj]
        rw [hj]
        exact seen_own (fun k' hk' => h tid pc' k' hbusy hk') hpc hk
      · rename_i hj
        rw [if_neg hj, hpc]
        exact seen_beside hk (h j pc k hpc hk)

/-- A check that is not overtaken, or is refused, compares with the content it should. -/
theorem compares_of_seen {w : Watched} {e : ThreadEvent} (h : AllSeen X w) (hs : w.Shielded e) :
    w.Compares X e := by
  cases e with
  | begin_ tid os pid req => trivial
  | run tid os =>
    intro pc hpc k hk hown hok
    have hfree : w.sys.fs.casTable.owner k.path = none ∧
        w.sys.fs.casTable.casCheck k.path k.fh k.sid w.sys.fs.fileHandles k.actual = none := by
      rcases w.sys.fs.casTable.checkAndAcquireWrite_cases os.now k.path k.fh k.sid
        w.sys.fs.fileHandles k.actual with ⟨t, heq, hg⟩ | ⟨err, heq, -⟩
      · exact hg.why.resolve_left hown
      · rw [heq] at hok; cases hok
    have hfresh : ¬ ((w.glances tid).content = none ∨ (w.glances tid).changed = true) := by
      intro hlate
      obtain ⟨x, hx, -⟩ := hs pc hpc k hk hlate
      rw [hfree.1] at hx
      cases hx
    obtain ⟨hsome, hsame⟩ := not_or.mp hfresh
    obtain ⟨c, hc⟩ := Option.ne_none_iff_exists'.mp hsome
    obtain ⟨r, hr⟩ := Pc.hashed_of_check hk
    obtain ⟨o, ho, hdata, hact⟩ := h tid pc _ hpc hr c hc
    have hactual : k.actual = hashContent X c := Option.some.inj (hact (eq_false_of_ne_true hsame))
    refine ⟨c, hc, hactual, fun k' hk' htr => ?_, fun ref href => ?_⟩
    · rw [hr] at hk'
      obtain rfl := Option.some.inj hk'
      rw [Backing.content, ho, Option.map_some, hdata htr]
    · rw [← hactual]
      exact (CasTable.casCheck_eq_none ..).mp hfree.2 ref href

/-- RACES: in every interleaving of write-mode opens, writes, flushes and releases, from any state, in
    which a handler that was overtaken between its hash and its check finds the path owned, each check
    that acquires a path compares with the content of the file at that moment. -/
theorem checks_compare_current (X : Ext) (s : DibsFs) (events : List ThreadEvent)
    (hwriting : ∀ e ∈ events, DibsFs.Writing e)
    (hshielded : Run.Along (step X) Shielded ⟨⟨s, .empty⟩, fun _ => {}⟩ events) :
    Run.Along (step X) (Compares X) ⟨⟨s, .empty⟩, fun _ => {}⟩ events := by
  have hstart : AllSeen X ⟨⟨s, .empty⟩, fun _ => {}⟩ := by
    intro j pc k hpc
    cases hpc
  exact Run.along_of_inv (fun w e h he => allSeen_step h he.2)
    (fun w e h he => compares_of_seen h he.1) events _ hstart (hshielded.and_forall hwriting)

/-! ### Sessions 7 and 8 with the same receipt -/

/-- Both sessions have read `f`, with content `a`. -/
def bothRead : DibsFs := Run.exec (DibsFs.step sampleExt) DibsFs.sampleMount
  [.fuse {} 7 (.lookup 1 DibsFs.fName), .fuse {} 7 (.open_ 10 O_RDONLY),
    .fuse { fd := 4 } 8 (.open_ 10 O_RDONLY)]

theorem bothRead_reachable : DibsFs.Reachable sampleExt bothRead :=
  DibsFs.sampleMount_reachable.exec (by decide +kernel)

/-- Thread 2 takes session 8's write-mode open and makes its first call, `hash_file`. -/
def hashFirst : List ThreadEvent := [.begin_ 2 {} 8 (.open_ 10 O_WRONLY), .run 2 {}]

/-- Thread 1 serves session 7's open, from its first call to its reply, and its write of `b`. -/
def openAndWrite : List ThreadEvent :=
  [.begin_ 1 {} 7 (.open_ 10 O_WRONLY), .run 1 {}, .run 1 { fd := 5 }, .run 1 {}, .run 1 {},
    .begin_ 1 {} 7 (.write 10 3 0 [0x62]), .run 1 {}, .run 1 {}, .run 1 {}]

/-- Then its flush and release. -/
def flushAndRelease : List ThreadEvent :=
  [.begin_ 1 {} 7 (.flush 10 3), .run 1 {}, .run 1 {}, .run 1 {}, .run 1 {},
    .begin_ 1 {} 7 (.release 10 3), .run 1 {}, .run 1 {}]

/-- Thread 2 goes on to its check. -/
def openThenCheck : List ThreadEvent := [.run 2 { fd := 6 }, .run 2 {}, .run 2 {}]

/-- Session 8 is overtaken while session 7 still owns `f`: its check is refused. -/
theorem overtaken_open_refused :
    Run.Along (step sampleExt) (Compares sampleExt) ⟨⟨bothRead, .empty⟩, fun _ => {}⟩
        (hashFirst ++ openAndWrite ++ openThenCheck) ∧
      (Run.exec (step sampleExt) ⟨⟨bothRead, .empty⟩, fun _ => {}⟩
        (hashFirst ++ openAndWrite ++ openThenCheck)).sys.fs.casTable.owner [DibsFs.fName] =
          some 3 := by
  refine ⟨checks_compare_current sampleExt bothRead _ ?_ (by decide +kernel), by decide +kernel⟩
  simp [DibsFs.Writing, hashFirst, openAndWrite, openThenCheck, O_WRONLY, accessMode, O_ACCMODE,
    O_RDONLY]

/-- Session 8 is overtaken by a whole cycle of session 7. Its check still compares with the hash of
    `a`, although `f` contains `b`, and acquires `f`; session 8 then commits `c` over the update. -/
theorem overtaken_open_acquires :
    DibsFs.Reachable sampleExt bothRead ∧
      (∀ e ∈ hashFirst ++ openAndWrite ++ flushAndRelease ++ openThenCheck, DibsFs.Writing e) ∧
      ¬ Run.Along (step sampleExt) (Compares sampleExt) ⟨⟨bothRead, .empty⟩, fun _ => {}⟩
        (hashFirst ++ openAndWrite ++ flushAndRelease ++ openThenCheck) ∧
      (Run.exec (Threads.step sampleExt) ⟨bothRead, .empty⟩
        (hashFirst ++ openAndWrite ++ flushAndRelease ++ openThenCheck)).fs.casTable.owner
          [DibsFs.fName] = some 4 ∧
      (Run.exec (Threads.step sampleExt) ⟨bothRead, .empty⟩
        (hashFirst ++ openAndWrite ++ flushAndRelease ++ openThenCheck ++
          [.begin_ 2 {} 8 (.write 10 4 0 [0x63]), .run 2 {}, .run 2 {}, .run 2 {},
            .begin_ 2 {} 8 (.flush 10 4), .run 2 {}, .run 2 {}, .run 2 {}, .run 2 {}])).fs.backing.content
          [DibsFs.fName] = some [0x63] := by
  refine ⟨bothRead_reachable, ?_, fun h => ?_, by decide +kernel, by decide +kernel⟩
  · simp [DibsFs.Writing, hashFirst, openAndWrite, flushAndRelease, openThenCheck, O_WRONLY,
      accessMode, O_ACCMODE, O_RDONLY]
  · have hlast := Run.Along.last (l := hashFirst ++ openAndWrite ++ flushAndRelease ++
      [.run 2 { fd := 6 }, .run 2 {}]) (a := .run 2 {}) h
    obtain ⟨c, -, hact, hcont, -⟩ := hlast
      (.openCheck 8 [DibsFs.fName] O_WRONLY (some (sampleSha256 [0x61])) 6 4) rfl
      ⟨[DibsFs.fName], 4, 8, sampleSha256 [0x61]⟩ rfl (by decide +kernel) rfl
    have hb := (hcont _ rfl (by decide)).symm.trans
      (show _ = some [0x62] by decide +kernel)
    obtain rfl : c = [0x62] := Option.some.inj hb
    exact absurd hact (by decide +kernel)

end Watched

end Dibs
