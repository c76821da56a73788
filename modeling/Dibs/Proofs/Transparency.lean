import Dibs.Fs.Transitions
import Dibs.Fs.Passthrough

/-! The checks are transparent. The mount and a plain passthrough filesystem run side by side; for each
    event of the mount the plain filesystem gets the requests listed in `shadow`: the request itself
    unless the mount refused it, and otherwise what a refusal leaves behind. Then both always have the
    same names, contents, inode tables, descriptors and handle numbers, and a request that is not
    refused gets the same reply from both (`transparent`). -/

namespace Dibs

theorem Backing.eq_of_fields {a b : Backing} (htree : a.tree = b.tree) (hdata : a.data = b.data)
    (hattrs : a.attrs = b.attrs) (hfds : a.fds = b.fds) (hnext : a.nextObj = b.nextObj) : a = b := by
  cases a
  cases b
  simp only at htree hdata hattrs hfds hnext
  subst htree hdata hattrs hfds hnext
  rfl

/-- A directory that another program could have left, with the daemon's descriptors, is taken as it is. -/
theorem Backing.withFdsOf_self {b old : Backing} (hfds : b.fds = old.fds)
    (hnext : old.nextObj ≤ b.nextObj) : b.withFdsOf old = b :=
  Backing.eq_of_fields rfl rfl rfl hfds.symm (max_eq_left hnext)

namespace DibsFs

/-- The plain filesystem is in the same state, as far as it has one. -/
structure Mirrors (s : DibsFs) (p : Passthrough) : Prop where
  backing : p.backing = s.backing
  inodes : p.inodes = s.inodes
  dirHandles : p.dirHandles = s.dirHandles
  nextFh : p.nextFh = s.fileHandles.nextFh
  files : ∀ fh, p.files.get fh = (s.fileHandles.get fh).map (·.realFd)

/-- A refused write saves its data under the conflict directory, if there is one: for the plain
    filesystem, another program writes that file. -/
def savedCopy (X : Ext) (s : DibsFs) (p : Passthrough) : Call → List Call
  | .fuse os _ (.write _ fh _ data) =>
    match s.conflictDir, s.fileHandles.get fh with
    | some dir, some h => [.outside (p.backing.fsWrite os (conflictPath X os dir h.path) data)]
    | _, _ => []
  | _ => []

/-- What the plain filesystem is asked for one event of the mount. A refused open has opened the file
    and closes it again, a refused write saves its data, and any other refused request has done
    nothing. -/
def shadow (X : Ext) (s : DibsFs) (p : Passthrough) (c : Call) : List Call :=
  match (s.out X c).warn with
  | none => [c]
  | some (.open_ _) => [c, .fuse {} 0 (.release 0 s.fileHandles.nextFh)]
  | some (.write _) => savedCopy X s p c
  | some _ => []

/-- The reply shows the text of `.dibs/status` or `.dibs/locks`, or its length. -/
def textual : Request → Bool
  | .lookup parent name =>
    parent == DIBS_DIR_INO && (name == DIBS_STATUS_NAME || name == DIBS_LOCKS_NAME)
  | .getattr ino => ino == DIBS_STATUS_INO || ino == DIBS_LOCKS_INO
  | .read ino _ _ _ => ino == DIBS_STATUS_INO || ino == DIBS_LOCKS_INO
  | _ => false

/-- Both side by side. -/
def beside (X : Ext) (w : DibsFs × Passthrough) (c : Call) : DibsFs × Passthrough :=
  (w.1.step X c, Run.exec (Passthrough.step X) w.2 (w.1.shadow X w.2 c))

/-- A request that is not refused gets the same reply from both. -/
def RepliesAgree (X : Ext) (w : DibsFs × Passthrough) (c : Call) : Prop :=
  (w.1.out X c).warn = none → (∀ os pid req, c = .fuse os pid req → textual req = false) →
    (w.2.out X c).reply = (w.1.out X c).reply

/-! ### Requests that no table takes part in -/

/-- The state without its tables. -/
def bare (s : DibsFs) : DibsFs :=
  { backing := s.backing, inodes := s.inodes, dirHandles := s.dirHandles }

/-- Requests that the plain filesystem serves with the same code. -/
def byNames : Request → Bool
  | .lookup .. | .getattr _ | .opendir _ | .readdir .. | .releasedir _ | .mkdir .. | .rmdir ..
  | .symlink .. | .readlink _ | .link .. | .access _ => true
  | _ => false

variable {X : Ext} {s : DibsFs} {p : Passthrough}

theorem Mirrors.names (h : Mirrors s p) : p.names = s.bare := by
  rw [Passthrough.names, bare, h.backing, h.inodes, h.dirHandles]

theorem replyEntry_bare (os : Os) (rel : Path) :
    s.bare.replyEntry os rel = ⟨(s.replyEntry os rel).st.bare, (s.replyEntry os rel).reply,
      (s.replyEntry os rel).warn⟩ := by
  have hback : s.bare.backing = s.backing := rfl
  rw [replyEntry, replyEntry, lookupAndRegister, lookupAndRegister, hback]
  cases s.backing.lstat os rel with
  | error e => rfl
  | ok st =>
    by_cases hr : rel = []
    · simp only [hr, if_true]; rfl
    · simp only [hr, if_false]; rfl

theorem replyAttr_bare (os : Os) (rel : Path) (ino : ℕ) :
    s.bare.replyAttr os rel ino = ⟨(s.replyAttr os rel ino).st.bare, (s.replyAttr os rel ino).reply,
      (s.replyAttr os rel ino).warn⟩ := by
  have hback : s.bare.backing = s.backing := rfl
  rw [replyAttr, replyAttr, hback]
  cases s.backing.lstat os rel <;> rfl

theorem listNames_bare (os : Os) (rel : Path) (names : List Name)
    (acc : DibsFs × List (ℕ × FileType × Name)) :
    names.foldl (listName os rel) (acc.1.bare, acc.2) =
      ((names.foldl (listName os rel) acc).1.bare, (names.foldl (listName os rel) acc).2) := by
  induction names generalizing acc with
  | nil => rfl
  | cons n names ih =>
    have hone : listName os rel (acc.1.bare, acc.2) n =
        ((listName os rel acc n).1.bare, (listName os rel acc n).2) := by
      have hback : acc.1.bare.backing = acc.1.backing := rfl
      rw [listName, listName, hback]
      simp only
      split
      · rfl
      · split <;> rfl
    rw [List.foldl_cons, List.foldl_cons, hone]
    exact ih (listName os rel acc n)

/-- SPEC: these requests are served from names and attributes alone, but for the two virtual texts. -/
theorem handle_bare (os : Os) (sid : ℕ) {req : Request} (hreq : byNames req = true) :
    (s.bare.handle X os 0 req).st = (s.handle X os sid req).st.bare ∧
      (textual req = false → (s.bare.handle X os 0 req).reply = (s.handle X os sid req).reply) := by
  have hback : s.bare.backing = s.backing := rfl
  have hino : s.bare.inodes = s.inodes := rfl
  have hdirs : s.bare.dirHandles = s.dirHandles := rfl
  cases req with
  | lookup parent name =>
    simp only [handle, lookup, textual]
    split
    · exact ⟨rfl, fun _ => rfl⟩
    · split
      · rename_i hp
        split_ifs with hst hlk
        · exact ⟨rfl, fun h => by simp [hp, hst] at h⟩
        · exact ⟨rfl, fun h => by simp [hp, hlk] at h⟩
        · exact ⟨rfl, fun _ => rfl⟩
        · exact ⟨rfl, fun _ => rfl⟩
      · have hres : s.bare.resolvePath parent name = s.resolvePath parent name := rfl
        rw [hres, replyEntry_bare]
        exact ⟨rfl, fun _ => rfl⟩
  | getattr ino =>
    simp only [handle, getattr, textual, hino]
    split_ifs with h1 h2 h3 h4
    · rw [replyAttr_bare]; exact ⟨rfl, fun _ => rfl⟩
    · exact ⟨rfl, fun _ => rfl⟩
    · exact ⟨rfl, fun h => by simp [h3] at h⟩
    · exact ⟨rfl, fun h => by simp [h4] at h⟩
    · exact ⟨rfl, fun _ => rfl⟩
    · cases s.inodes.getPath ino with
      | none => exact ⟨rfl, fun _ => rfl⟩
      | some rel =>
        exact ⟨congrArg (·.st) (replyAttr_bare os rel ino),
          fun _ => congrArg (·.reply) (replyAttr_bare os rel ino)⟩
  | opendir ino =>
    simp only [handle, opendir, hino, hback, hdirs]
    split
    · exact ⟨rfl, fun _ => rfl⟩
    · split
      · exact ⟨rfl, fun _ => rfl⟩
      · split
        · exact ⟨rfl, fun _ => rfl⟩
        · split <;> exact ⟨rfl, fun _ => rfl⟩
  | readdir ino offset =>
    simp only [handle, readdir, hino, hback]
    split
    · exact ⟨rfl, fun _ => rfl⟩
    · split
      · exact ⟨rfl, fun _ => rfl⟩
      · split
        · exact ⟨rfl, fun _ => rfl⟩
        · split
          · exact ⟨rfl, fun _ => rfl⟩
          · rename_i rel _ _ names _
            have hpar : s.bare.parentIno ino rel = s.parentIno ino rel := rfl
            rw [hpar]
            have hlist := listNames_bare os rel names
              (s, [(ino, .directory, [0x2E]), (s.parentIno ino rel, .directory, Backing.dotdot)] ++
                if ino = 1 then [(DIBS_DIR_INO, .directory, DIBS_DIR_NAME)] else [])
            rw [hlist]
            exact ⟨rfl, fun _ => rfl⟩
  | releasedir d =>
    simp only [handle, releasedir, hdirs]
    split <;> exact ⟨rfl, fun _ => rfl⟩
  | mkdir parent name mode =>
    have hres : s.bare.resolvePath parent name = s.resolvePath parent name := rfl
    simp only [handle, mkdir, hres, hback]
    split
    · exact ⟨rfl, fun _ => rfl⟩
    · split
      · exact ⟨rfl, fun _ => rfl⟩
      · split
        · exact ⟨rfl, fun _ => rfl⟩
        · rename_i b _
          have hentry := replyEntry_bare (s := { s with backing := b }) os (s.resolvePath parent name)
          exact ⟨congrArg (·.st) hentry, fun _ => congrArg (·.reply) hentry⟩
  | symlink parent name target =>
    have hres : s.bare.resolvePath parent name = s.resolvePath parent name := rfl
    simp only [handle, symlink, hres, hback]
    split
    · exact ⟨rfl, fun _ => rfl⟩
    · split
      · exact ⟨rfl, fun _ => rfl⟩
      · split
        · exact ⟨rfl, fun _ => rfl⟩
        · rename_i b _
          have hentry := replyEntry_bare (s := { s with backing := b }) os (s.resolvePath parent name)
          exact ⟨congrArg (·.st) hentry, fun _ => congrArg (·.reply) hentry⟩
  | rmdir parent name =>
    have hres : s.bare.resolvePath parent name = s.resolvePath parent name := rfl
    simp only [handle, rmdir, hres, hback]
    split
    · exact ⟨rfl, fun _ => rfl⟩
    · split
      · exact ⟨rfl, fun _ => rfl⟩
      · split <;> exact ⟨rfl, fun _ => rfl⟩
  | readlink ino =>
    simp only [handle, readlink, hino, hback]
    split
    · exact ⟨rfl, fun _ => rfl⟩
    · split <;> exact ⟨rfl, fun _ => rfl⟩
  | link ino newparent newname => exact ⟨rfl, fun _ => rfl⟩
  | access ino =>
    simp only [handle, access, hino, hback]
    split
    · exact ⟨rfl, fun _ => rfl⟩
    · split
      · exact ⟨rfl, fun _ => rfl⟩
      · split
        · exact ⟨rfl, fun _ => rfl⟩
        · split <;> exact ⟨rfl, fun _ => rfl⟩
  | _ => cases hreq

/-! ### The step -/

/-- The mount did not refuse, and the plain filesystem did and replied the same. -/
structure Alike (o : Out) (a : Passthrough.Answer) : Prop where
  quiet : o.warn = none
  st : Mirrors o.st a.st
  reply : a.reply = o.reply

/-- The plain filesystem follows one event. -/
def Mirrored (X : Ext) (s : DibsFs) (p : Passthrough) (c : Call) : Prop :=
  Mirrors (s.step X c) (Run.exec (Passthrough.step X) p (s.shadow X p c)) ∧ RepliesAgree X (s, p) c

theorem Alike.mirrored {c : Call} (h : Alike (s.out X c) (p.out X c)) : Mirrored X s p c := by
  refine ⟨?_, fun _ _ => h.reply⟩
  rw [shadow, h.quiet]
  exact h.st

theorem alike_fail (h : Mirrors s p) (e : Errno) : Alike (s.fail e) (p.fail e) := ⟨rfl, h, rfl⟩

theorem mirrors_alloc (h : Mirrors s p) (b : Backing) (fd : ℤ) (rel : Path) (flags : OpenFlags)
    (hash : Option Bytes) (sid : ℕ) (cas : CasTable) :
    Mirrors { s with
      backing := b
      fileHandles := (s.fileHandles.alloc fd rel flags hash sid).1
      casTable := cas } (p.alloc b fd) where
  backing := rfl
  inodes := h.inodes
  dirHandles := h.dirHandles
  nextFh := congrArg (· + 1) h.nextFh
  files := by
    intro fh
    simp only [Passthrough.alloc, FinMap.get_insert, HandleTable.get_alloc, h.nextFh, h.files]
    split <;> rfl

/-- Handles that are changed in place keep their descriptors. -/
theorem files_modify (h : Mirrors s p) (fh : ℕ) {f : HandleState → HandleState}
    (hf : ∀ x, (f x).realFd = x.realFd) (fh' : ℕ) :
    p.files.get fh' = ((s.fileHandles.modify fh f).get fh').map (·.realFd) := by
  rw [HandleTable.get_modify, h.files]
  split
  · cases s.fileHandles.get fh' <;> simp [hf]
  · rfl

/-- A refused open leaves an opened and closed file, and a handle number that is used up. -/
theorem refusedOpen_mirrored (h : Mirrors s p) {b : Backing} {fd : ℤ} (hfd : 0 ≤ fd) (os os' : Os)
    (sid : ℕ) (rel : Path) (flags : OpenFlags) (pre : Option Bytes) :
    Mirrors (s.refusedOpen os sid rel flags pre b fd)
      ((p.alloc b fd).step X (.fuse os' 0 (.release 0 s.fileHandles.nextFh))) := by
  have hget : (p.alloc b fd).files.get s.fileHandles.nextFh = some fd := by
    rw [Passthrough.alloc, h.nextFh]
    exact FinMap.get_insert_self ..
  simp only [Passthrough.step, Passthrough.out, Passthrough.serve, Passthrough.release, hget,
    if_pos hfd]
  refine ⟨rfl, h.inodes, h.dirHandles, congrArg (· + 1) h.nextFh, fun fh => ?_⟩
  simp only [Passthrough.alloc, refusedOpen, opening, FinMap.get_remove, FinMap.get_insert,
    HandleTable.get_remove, HandleTable.get_alloc, h.nextFh, h.files]
  split
  · rfl
  · rfl

/-- The write-mode part of `open`. -/
theorem openWrite_mirrored (h : Mirrors s p) {c : Call} {os : Os} {sid : ℕ} {rel : Path}
    {flags : OpenFlags} {pre : Option Bytes} {b : Backing} {fd : ℤ} (hfd : 0 ≤ fd)
    (ho : s.out X c = s.openWrite os sid rel flags pre b fd)
    (hp : p.out X c = ⟨p.alloc b fd, .opened p.nextFh⟩) : Mirrored X s p c := by
  have hout := s.openWrite_out os sid rel flags pre b fd
  rw [← ho] at hout
  generalize heq : s.out X c = o at hout
  cases hout with
  | rejected actual e hpre hr =>
    refine ⟨?_, fun hw => ?_⟩
    · have hst : p.step X c = p.alloc b fd := congrArg (·.st) hp
      rw [shadow, step, heq, Run.exec_cons, Run.exec_cons, Run.exec_nil, hst]
      exact refusedOpen_mirrored h hfd os {} sid rel flags pre
    · simp only [heq] at hw
      cases hw
  | granted actual cas hpre hg =>
    refine Alike.mirrored ?_
    rw [heq, hp, h.nextFh]
    exact ⟨rfl, mirrors_alloc h .., rfl⟩
  | unhashed hpre =>
    refine Alike.mirrored ?_
    rw [heq, hp, h.nextFh]
    exact ⟨rfl, mirrors_alloc h .., rfl⟩

theorem open_mirrored (h : Mirrors s p) (os : Os) (pid ino : ℕ) (flags : OpenFlags) :
    Mirrored X s p (.fuse os pid (.open_ ino flags)) := by
  have ho : s.out X (.fuse os pid (.open_ ino flags)) = s.open_ X os (getSid os pid) ino flags := rfl
  have hp : p.out X (.fuse os pid (.open_ ino flags)) = p.open_ os ino flags := rfl
  by_cases hv : ino = DIBS_STATUS_INO ∨ ino = DIBS_LOCKS_INO
  · refine Alike.mirrored ?_
    rw [ho, hp, open_, Passthrough.open_, if_pos hv, if_pos hv, h.backing, h.nextFh]
    exact ⟨rfl, mirrors_alloc h s.backing (-1) VIRTUAL_PATH flags none 0 s.casTable, rfl⟩
  · by_cases hd : isDibsIno ino = true
    · refine Alike.mirrored ?_
      rw [ho, hp, open_, Passthrough.open_, if_neg hv, if_neg hv, if_pos hd, if_pos hd]
      exact alike_fail h _
    · rw [open_, if_neg hv, if_neg hd] at ho
      rw [Passthrough.open_, if_neg hv, if_neg hd, h.inodes] at hp
      cases hrel : s.inodes.getPath ino with
      | none =>
        rw [hrel] at ho hp
        refine Alike.mirrored ?_
        rw [ho, hp]
        exact alike_fail h _
      | some rel =>
        rw [hrel] at ho hp
        by_cases hnul : hasNul rel = true
        · refine Alike.mirrored ?_
          rw [ho, hp]
          simp only [if_pos hnul]
          exact alike_fail h _
        · simp only [if_neg hnul, h.backing] at ho hp
          cases hopen : s.backing.libcOpen os rel flags 0 with
          | error e =>
            rw [hopen] at ho hp
            refine Alike.mirrored ?_
            rw [ho, hp]
            exact alike_fail h _
          | ok r =>
            obtain ⟨b, fd⟩ := r
            rw [hopen] at ho hp
            simp only at ho hp
            by_cases hm : accessMode flags = O_RDONLY
            · rw [if_pos hm] at ho
              refine Alike.mirrored ?_
              rw [ho, hp, h.nextFh]
              exact ⟨rfl, mirrors_alloc h .., rfl⟩
            · rw [if_neg hm] at ho
              obtain ⟨rfl, -, -⟩ := Backing.libcOpen_cases hopen
              exact openWrite_mirrored h (Int.natCast_nonneg _) ho hp

theorem create_alike (h : Mirrors s p) (os : Os) (sid parent : ℕ) (name : Name) (mode : ℕ)
    (flags : OpenFlags) :
    Alike (s.create X os sid parent name mode flags) (p.create os parent name mode flags) := by
  have hres : p.names.resolvePath parent name = s.resolvePath parent name := by rw [h.names]; rfl
  rw [create, Passthrough.create]
  simp only [hres, h.backing, h.inodes]
  split
  · exact alike_fail h _
  · split
    · exact alike_fail h _
    · cases s.backing.libcOpen os (s.resolvePath parent name) (flags ||| O_CREAT) mode with
      | error e => exact alike_fail h _
      | ok r =>
        obtain ⟨b, fd⟩ := r
        simp only
        cases b.fstat os fd with
        | error e => exact ⟨rfl, ⟨rfl, rfl, h.dirHandles, h.nextFh, h.files⟩, rfl⟩
        | ok st =>
          have hm := mirrors_alloc h b fd (s.resolvePath parent name) flags
            (some ((hashFile X b os (s.resolvePath parent name)).getD [])) sid s.casTable
          refine ⟨rfl, ⟨rfl, rfl, h.dirHandles, hm.nextFh, hm.files⟩, ?_⟩
          rw [h.nextFh]
          rfl

theorem release_alike (h : Mirrors s p) (fh : ℕ) : Alike (s.release fh) (p.release fh) := by
  rw [release, Passthrough.release, h.files]
  cases s.fileHandles.get fh with
  | none => exact ⟨rfl, h, rfl⟩
  | some hs =>
    simp only [Option.map_some, h.backing]
    refine ⟨rfl, ⟨rfl, h.inodes, h.dirHandles, h.nextFh, fun fh' => ?_⟩, rfl⟩
    simp only [FinMap.get_remove, HandleTable.get_remove, h.files]
    split <;> rfl

theorem flush_alike (h : Mirrors s p) (os : Os) (ino fh : ℕ) :
    Alike (s.flush X os ino fh) ⟨p, .ok⟩ := by
  rw [flush]
  split
  · exact ⟨rfl, h, rfl⟩
  · split
    · exact ⟨rfl, h, rfl⟩
    · rename_i hs _
      split
      · refine ⟨rfl, ?_, rfl⟩
        simp only [flushHash]
        split
        · exact ⟨h.backing, h.inodes, h.dirHandles, h.nextFh, files_modify h fh fun _ => rfl⟩
        · exact ⟨h.backing, h.inodes, h.dirHandles, h.nextFh, h.files⟩
      · exact ⟨rfl, h, rfl⟩

theorem read_alike (h : Mirrors s p) (os : Os) (ino fh offset size : ℕ)
    (ht : textual (.read ino fh offset size) = false) :
    Alike (s.read X os ino fh offset size) (p.read os fh offset size) := by
  simp only [textual, Bool.or_eq_false_iff, beq_eq_false_iff_ne] at ht
  rw [read, if_neg ht.1, if_neg ht.2, Passthrough.read, h.files, h.backing]
  cases s.fileHandles.get fh with
  | none => exact alike_fail h _
  | some hs =>
    simp only [Option.map_some]
    cases s.backing.pread os hs.realFd offset size with
    | error e => exact alike_fail h _
    | ok bytes => exact ⟨rfl, h, rfl⟩

/-! ### Requests that may be refused -/

theorem finishSetattr_bare (os : Os) (rel : Path) (ino : ℕ) (a : SetattrArgs) :
    s.bare.finishSetattr os rel ino a = ⟨(s.finishSetattr os rel ino a).st.bare,
      (s.finishSetattr os rel ino a).reply, (s.finishSetattr os rel ino a).warn⟩ := by
  have hback : s.bare.backing = s.backing := rfl
  rw [finishSetattr, finishSetattr, hback]
  cases (attrCalls os s.backing rel a).2 with
  | some e => rfl
  | none => exact replyAttr_bare (s := { s with backing := (attrCalls os s.backing rel a).1 }) os rel ino

theorem fromNames_alike (h : Mirrors s p) {o o' : Out} (hst : o'.st = o.st.bare)
    (hr : o'.reply = o.reply) (hw : o.warn = none) (hf : o.st.fileHandles = s.fileHandles) :
    Alike o (p.fromNames o') where
  quiet := hw
  st := by
    refine ⟨?_, ?_, ?_, ?_, ?_⟩
    · rw [Passthrough.fromNames, hst]; rfl
    · rw [Passthrough.fromNames, hst]; rfl
    · rw [Passthrough.fromNames, hst]; rfl
    · rw [hf]; exact h.nextFh
    · rw [hf]; exact h.files
  reply := hr

theorem finishSetattr_alike (h : Mirrors s p) (os : Os) (rel : Path) (ino : ℕ) (a : SetattrArgs) :
    Alike (s.finishSetattr os rel ino a) (p.fromNames (p.names.finishSetattr os rel ino a)) := by
  have hbare := finishSetattr_bare (s := s) os rel ino a
  obtain ⟨b', r, -, heq⟩ := s.finishSetattr_out os rel ino a
  rw [h.names]
  refine fromNames_alike h (by rw [hbare]) (by rw [hbare]) (by rw [heq]) (by rw [heq])

theorem truncateCall_alike (h : Mirrors s p) (os : Os) (rel : Path) (fh : Option ℕ) (size : ℕ) :
    p.truncateCall os rel fh size = s.truncateCall os rel fh size := by
  have hget : fh.bind p.files.get = (fh.bind s.fileHandles.get).map (·.realFd) := by
    cases fh with
    | none => rfl
    | some fh' => exact h.files fh'
  cases hfh : fh.bind s.fileHandles.get <;>
    simp only [Passthrough.truncateCall, truncateCall, hget, hfh, h.backing, Option.map_some,
      Option.map_none]

/-- `setattr` that passes its check. -/
theorem passed_alike (h : Mirrors s p) (os : Os) (rel : Path) (ino size : ℕ) (a : SetattrArgs)
    (cas : CasTable) :
    Alike
      (match finishTruncate { s with casTable := cas } os rel a.fh size with
        | .error out => out
        | .ok s' => s'.finishSetattr os rel ino a)
      (match p.truncateCall os rel a.fh size with
        | .error e => p.fail e
        | .ok b => Passthrough.fromNames { p with backing := b }
          ((Passthrough.names { p with backing := b }).finishSetattr os rel ino a)) := by
  have hcas : Mirrors { s with casTable := cas } p :=
    ⟨h.backing, h.inodes, h.dirHandles, h.nextFh, h.files⟩
  rw [truncateCall_alike hcas, finishTruncate]
  cases truncateCall { s with casTable := cas } os rel a.fh size with
  | error e => exact alike_fail hcas e
  | ok b =>
    have hb : Mirrors { s with casTable := cas, backing := b } { p with backing := b } :=
      ⟨rfl, h.inodes, h.dirHandles, h.nextFh, h.files⟩
    exact finishSetattr_alike hb os rel ino a

theorem setattr_mirrored (h : Mirrors s p) (os : Os) (pid ino : ℕ) (a : SetattrArgs) :
    Mirrored X s p (.fuse os pid (.setattr ino a)) := by
  have ho : s.out X (.fuse os pid (.setattr ino a)) = s.setattr X os ino a := rfl
  have hp : p.out X (.fuse os pid (.setattr ino a)) = p.setattr os ino a := rfl
  have hpath : p.inodes.getPath ino = s.inodes.getPath ino := by rw [h.inodes]
  rw [setattr] at ho
  rw [Passthrough.setattr, hpath] at hp
  by_cases hd : isDibsIno ino = true
  · rw [if_pos hd] at ho hp
    exact Alike.mirrored (by rw [ho, hp]; exact alike_fail h _)
  · rw [if_neg hd] at ho hp
    cases hrel : s.inodes.getPath ino with
    | none =>
      rw [hrel] at ho hp
      exact Alike.mirrored (by rw [ho, hp]; exact alike_fail h _)
    | some rel =>
      rw [hrel] at ho hp
      by_cases hnul : hasNul rel = true
      · simp only [if_pos hnul] at ho hp
        exact Alike.mirrored (by rw [ho, hp]; exact alike_fail h _)
      · simp only [if_neg hnul] at ho hp
        cases hsize : a.size with
        | none =>
          rw [hsize] at ho hp
          exact Alike.mirrored (by rw [ho, hp]; exact finishSetattr_alike h os rel ino a)
        | some size =>
          rw [hsize] at ho hp
          simp only at ho hp
          cases hfh : a.fh with
          | none =>
            have halike := passed_alike h os rel ino size a s.casTable
            simp only [hfh] at ho hp halike
            exact Alike.mirrored (by rw [ho, hp, setattrSize]; exact halike)
          | some fh =>
            simp only [hfh, setattrSize] at ho hp
            rcases s.casTable.checkAndAcquireWrite_cases os.now rel fh
              (((s.fileHandles.get fh).map (·.sid)).getD 0) s.fileHandles
              ((hashFile X s.backing os rel).getD []) with ⟨cas, heq, -⟩ | ⟨e, heq, -⟩
            · have halike := passed_alike h os rel ino size a cas
              simp only [hfh] at halike
              simp only [heq] at ho
              exact Alike.mirrored (by rw [ho, hp]; exact halike)
            · rw [heq] at ho
              refine ⟨?_, fun hw => ?_⟩
              · rw [shadow, step, ho]
                exact ⟨h.backing, h.inodes, h.dirHandles, h.nextFh, h.files⟩
              · simp only [ho] at hw
                cases hw

theorem write_mirrored (h : Mirrors s p) (os : Os) (pid ino fh offset : ℕ) (data : Bytes) :
    Mirrored X s p (.fuse os pid (.write ino fh offset data)) := by
  have ho : s.out X (.fuse os pid (.write ino fh offset data)) = s.write X os ino fh offset data := rfl
  have hp : p.out X (.fuse os pid (.write ino fh offset data)) = p.write os ino fh offset data := rfl
  rw [write] at ho
  rw [Passthrough.write, h.files] at hp
  by_cases hd : isDibsIno ino = true
  · rw [if_pos hd] at ho hp
    exact Alike.mirrored (by rw [ho, hp]; exact alike_fail h _)
  · rw [if_neg hd] at ho hp
    cases hh : s.fileHandles.get fh with
    | none =>
      rw [hh] at ho hp
      exact Alike.mirrored (by rw [ho, hp]; exact alike_fail h _)
    | some hs =>
      rw [hh] at ho hp
      simp only [Option.map_some, h.backing] at ho hp
      rcases s.writeGuard_cases X os fh hs data with ⟨cas, heq, -⟩ | ⟨e, -, -, heq⟩
      · rw [heq] at ho
        refine Alike.mirrored ?_
        rw [ho, hp]
        simp only [writeThrough]
        cases s.backing.pwrite os hs.realFd offset data with
        | error e =>
          exact ⟨rfl, ⟨h.backing, h.inodes, h.dirHandles, h.nextFh, files_modify h fh fun _ => rfl⟩, rfl⟩
        | ok r =>
          exact ⟨rfl, ⟨rfl, h.inodes, h.dirHandles, h.nextFh, files_modify h fh fun _ => rfl⟩, rfl⟩
      · rw [heq] at ho
        refine ⟨?_, fun hw => ?_⟩
        · rw [shadow, step, ho]
          simp only [savedCopy, saveConflict, hh]
          cases hdir : s.conflictDir with
          | none => exact ⟨h.backing, h.inodes, h.dirHandles, h.nextFh, h.files⟩
          | some dir =>
            refine ⟨?_, h.inodes, h.dirHandles, h.nextFh, h.files⟩
            simp only [Run.exec_cons, Run.exec_nil, Passthrough.step, Passthrough.out, h.backing]
            exact Backing.withFdsOf_self (Backing.fsWrite_spec ..).2.1 (Backing.fsWrite_nextObj ..)
        · simp only [ho] at hw
          cases hw

/-- A request that `unlink` or `rename` refuses does nothing. -/
theorem refused_mirrored (h : Mirrors s p) {c : Call} {path : Path} {w : Warning}
    (hw : w = .unlink path ∨ w = .renameSource path ∨ w = .renameDest path)
    (ho : s.out X c = ⟨s, .error .eio, some w⟩) : Mirrored X s p c := by
  refine ⟨?_, fun hq => ?_⟩
  · rw [shadow, step, ho]
    rcases hw with rfl | rfl | rfl <;> exact h
  · simp only [ho] at hq
    cases hq

theorem unlink_mirrored (h : Mirrors s p) (os : Os) (pid parent : ℕ) (name : Name) :
    Mirrored X s p (.fuse os pid (.unlink parent name)) := by
  have ho : s.out X (.fuse os pid (.unlink parent name)) = s.unlink X os (getSid os pid) parent name :=
    rfl
  have hp : p.out X (.fuse os pid (.unlink parent name)) = p.unlink os parent name := rfl
  have hres : p.names.resolvePath parent name = s.resolvePath parent name := by rw [h.names]; rfl
  rw [unlink] at ho
  rw [Passthrough.unlink] at hp
  simp only [hres, h.backing, h.inodes] at hp
  by_cases hd : isDibsIno parent = true
  · rw [if_pos hd] at ho hp
    exact Alike.mirrored (by rw [ho, hp]; exact alike_fail h _)
  · rw [if_neg hd] at ho hp
    simp only at ho
    by_cases hst : s.staleReceipt X os (getSid os pid) (s.resolvePath parent name) = true
    · rw [if_pos hst] at ho
      exact refused_mirrored h (Or.inl rfl) ho
    · rw [if_neg hst] at ho
      by_cases hnul : hasNul (s.resolvePath parent name) = true
      · rw [if_pos hnul] at ho hp
        exact Alike.mirrored (by rw [ho, hp]; exact alike_fail h _)
      · rw [if_neg hnul] at ho hp
        cases hb : s.backing.unlink os (s.resolvePath parent name) with
        | error e =>
          rw [hb] at ho hp
          exact Alike.mirrored (by rw [ho, hp]; exact alike_fail h _)
        | ok b =>
          rw [hb] at ho hp
          refine Alike.mirrored ?_
          rw [ho, hp]
          exact ⟨rfl, ⟨rfl, rfl, h.dirHandles, h.nextFh, h.files⟩, rfl⟩

theorem rename_mirrored (h : Mirrors s p) (os : Os) (pid parent newparent fl : ℕ)
    (name newname : Name) :
    Mirrored X s p (.fuse os pid (.rename parent name newparent newname fl)) := by
  have ho : s.out X (.fuse os pid (.rename parent name newparent newname fl)) =
    s.rename X os (getSid os pid) parent name newparent newname fl := rfl
  have hp : p.out X (.fuse os pid (.rename parent name newparent newname fl)) =
    p.rename os parent name newparent newname := rfl
  have hold : p.names.resolvePath parent name = s.resolvePath parent name := by rw [h.names]; rfl
  have hnew : p.names.resolvePath newparent newname = s.resolvePath newparent newname := by
    rw [h.names]; rfl
  rw [rename] at ho
  rw [Passthrough.rename] at hp
  simp only [hold, hnew, h.backing, h.inodes] at hp
  by_cases hd : isDibsIno parent = true ∨ isDibsIno newparent = true
  · rw [if_pos hd] at ho hp
    exact Alike.mirrored (by rw [ho, hp]; exact alike_fail h _)
  · rw [if_neg hd] at ho hp
    simp only at ho
    by_cases hst : s.staleReceipt X os (getSid os pid) (s.resolvePath parent name) = true
    · rw [if_pos hst] at ho
      exact refused_mirrored h (Or.inr (Or.inl rfl)) ho
    · rw [if_neg hst] at ho
      by_cases hdst : s.backing.pathExists (s.resolvePath newparent newname) = true ∧
          s.staleReceipt X os (getSid os pid) (s.resolvePath newparent newname) = true
      · rw [if_pos hdst] at ho
        exact refused_mirrored h (Or.inr (Or.inr rfl)) ho
      · rw [if_neg hdst] at ho
        by_cases hnul : hasNul (s.resolvePath parent name) = true ∨
            hasNul (s.resolvePath newparent newname) = true
        · rw [if_pos hnul] at ho hp
          exact Alike.mirrored (by rw [ho, hp]; exact alike_fail h _)
        · rw [if_neg hnul] at ho hp
          cases hb : s.backing.rename os (s.resolvePath parent name)
              (s.resolvePath newparent newname) with
          | error e =>
            rw [hb] at ho hp
            exact Alike.mirrored (by rw [ho, hp]; exact alike_fail h _)
          | ok b =>
            rw [hb] at ho hp
            refine Alike.mirrored ?_
            rw [ho, hp]
            exact ⟨rfl, ⟨rfl, rfl, h.dirHandles, h.nextFh, h.files⟩, rfl⟩

theorem byNames_mirrored (h : Mirrors s p) (os : Os) (pid : ℕ) {req : Request}
    (hreq : byNames req = true) : Mirrored X s p (.fuse os pid req) := by
  have hpass : passive req = true := by cases req <;> first | rfl | cases hreq
  have hserve : p.out X (.fuse os pid req) = p.fromNames (p.names.handle X os 0 req) := by
    cases req <;> first | rfl | cases hreq
  have hwarn := (s.passive_out X os hpass (getSid os pid)).2
  obtain ⟨hst, hreply⟩ := handle_bare (X := X) (s := s) os (getSid os pid) hreq
  have hfiles := (s.handle_passive X os hpass (getSid os pid)).handles
  have hout : s.out X (.fuse os pid req) = s.handle X os (getSid os pid) req := rfl
  have hmirrors : Mirrors (s.out X (.fuse os pid req)).st (p.out X (.fuse os pid req)).st := by
    rw [hout, hserve, h.names, Passthrough.fromNames, hst]
    exact ⟨rfl, rfl, rfl, by rw [hfiles]; exact h.nextFh, by rw [hfiles]; exact h.files⟩
  refine ⟨?_, fun _ htext => ?_⟩
  · rw [shadow, hout, hwarn]
    exact hmirrors
  · rw [hserve, h.names, hout]
    exact hreply (htext os pid req rfl)

theorem read_mirrored (h : Mirrors s p) (os : Os) (pid ino fh offset size : ℕ) :
    Mirrored X s p (.fuse os pid (.read ino fh offset size)) := by
  cases ht : textual (.read ino fh offset size) with
  | false =>
    exact Alike.mirrored (c := .fuse os pid (.read ino fh offset size))
      (read_alike h os ino fh offset size ht)
  | true =>
    have hreq : readOnly (.read ino fh offset size) = true := rfl
    obtain ⟨hst, hwarn⟩ := s.handle_readOnly X os hreq (getSid os pid)
    refine ⟨?_, fun _ htext => ?_⟩
    · have hp : (p.read os fh offset size).st = p := by
        rw [Passthrough.read]
        split
        · rfl
        · split <;> rfl
      rw [shadow, step, out, hwarn, hst, Run.exec_cons, Run.exec_nil, Passthrough.step,
        Passthrough.out, Passthrough.serve, hp]
      exact h
    · rw [htext os pid _ rfl] at ht
      cases ht

/-- STEP: the plain filesystem follows every event. -/
theorem step_mirrored (X : Ext) (h : Mirrors s p) (c : Call) : Mirrored X s p c := by
  cases c with
  | evict now seconds =>
    exact Alike.mirrored ⟨rfl, ⟨h.backing, h.inodes, h.dirHandles, h.nextFh, h.files⟩, rfl⟩
  | outside b =>
    refine Alike.mirrored ⟨rfl, ⟨?_, h.inodes, h.dirHandles, h.nextFh, h.files⟩, rfl⟩
    rw [Passthrough.out, h.backing]
    rfl
  | fuse os pid req =>
    cases req with
    | open_ ino flags => exact open_mirrored h os pid ino flags
    | read ino fh offset size => exact read_mirrored h os pid ino fh offset size
    | write ino fh offset data => exact write_mirrored h os pid ino fh offset data
    | flush ino fh => exact Alike.mirrored (c := .fuse os pid (.flush ino fh)) (flush_alike h os ino fh)
    | release ino fh => exact Alike.mirrored (c := .fuse os pid (.release ino fh)) (release_alike h fh)
    | setattr ino a => exact setattr_mirrored h os pid ino a
    | create parent name mode flags =>
      exact Alike.mirrored (c := .fuse os pid (.create parent name mode flags))
        (create_alike h os (getSid os pid) parent name mode flags)
    | unlink parent name => exact unlink_mirrored h os pid parent name
    | rename parent name newparent newname fl =>
      exact rename_mirrored h os pid parent newparent fl name newname
    | _ => exact byNames_mirrored h os pid rfl

theorem mirrors_mount (backing : Backing) (os : Os) (saveConflicts : Bool) (sessionId : Bytes) :
    Mirrors (mount backing os saveConflicts sessionId) (.mount backing os saveConflicts) where
  backing := rfl
  inodes := rfl
  dirHandles := rfl
  nextFh := rfl
  files := fun _ => rfl

/-- In every run of the mount, the plain filesystem that is asked what `shadow` lists has at every
    request the same names, contents, inodes, descriptors and handles, and gives the same reply to
    every request that is not refused; both are in the same state at the end. -/
theorem transparent (X : Ext) (backing : Backing) (os : Os) (saveConflicts : Bool)
    (sessionId : Bytes) (calls : List Call) :
    Run.Along (beside X) (fun w c => Mirrors w.1 w.2 ∧ RepliesAgree X w c)
        (mount backing os saveConflicts sessionId, .mount backing os saveConflicts) calls ∧
      Mirrors
        (Run.exec (beside X)
          (mount backing os saveConflicts sessionId, .mount backing os saveConflicts) calls).1
        (Run.exec (beside X)
          (mount backing os saveConflicts sessionId, .mount backing os saveConflicts) calls).2 := by
  have hmount := mirrors_mount backing os saveConflicts sessionId
  have hstep : ∀ (w : DibsFs × Passthrough) c, Mirrors w.1 w.2 → True →
      Mirrors (beside X w c).1 (beside X w c).2 := fun w c h _ => (step_mirrored X h c).1
  have hall : Run.Along (beside X) (fun _ _ => True)
      (mount backing os saveConflicts sessionId, Passthrough.mount backing os saveConflicts) calls :=
    Run.along_of_forall calls _ fun _ _ => trivial
  exact ⟨Run.along_of_inv (I := fun w => Mirrors w.1 w.2) hstep
      (fun w c h _ => ⟨h, (step_mirrored X h c).2⟩) calls _ hmount hall,
    Run.exec_of_inv (I := fun w => Mirrors w.1 w.2) hstep calls _ hmount hall⟩

end DibsFs

end Dibs
