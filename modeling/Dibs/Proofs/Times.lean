import Dibs.Fs.Outcomes

/-! The times of a file, from `setattr` to `getattr`. `to_timespec` encodes what a request gives and
    `system_time_from_parts` decodes what `lstat` finds; both take a time before the epoch for the
    epoch, so a given time comes back unless it was before the epoch. The calls of `setattr` follow a
    symbolic link and `getattr` does not: what is given to a link goes to the link's target. -/

namespace Dibs

/-! ### Encoding and decoding -/

/-- Decoding undoes encoding for a time from the epoch on; earlier ones become the epoch. -/
theorem systemTimeFromParts_toTimespec (t : ℤ) :
    systemTimeFromParts (toTimespec (some (.specificTime t))) = max t 0 := by
  simp only [systemTimeFromParts, toTimespec]
  split <;> omega

/-- A given time is stored as it was encoded: its nanosecond part is neither of the two markers. -/
theorem applyTimespec_given (os : Os) (t : ℤ) (old : Timespec) :
    applyTimespec os (toTimespec (some (.specificTime t))) old =
      toTimespec (some (.specificTime t)) := by
  have hnsec : 0 ≤ (toTimespec (some (.specificTime t))).nsec :=
    Int.emod_nonneg _ (by norm_num)
  have hnow : (toTimespec (some (.specificTime t))).nsec ≠ UTIME_NOW := by rw [UTIME_NOW]; omega
  have homit : (toTimespec (some (.specificTime t))).nsec ≠ UTIME_OMIT := by
    rw [UTIME_OMIT]
    omega
  rw [applyTimespec, if_neg hnow, if_neg homit]

theorem applyTimespec_none (os : Os) (old : Timespec) :
    applyTimespec os (toTimespec none) old = old := by
  rw [applyTimespec, toTimespec, if_neg (by decide), if_pos rfl]

namespace DibsFs

/-! ### The calls of `setattr` -/

theorem attrCall_ok {r : Backing × Option Errno} {wanted : Bool}
    {call : Backing → Except Errno Backing} (h : (attrCall r wanted call).2 = none) :
    r.2 = none ∧ (wanted = true → call r.1 = .ok (attrCall r wanted call).1) := by
  obtain ⟨b, e⟩ := r
  cases e with
  | some e => cases h
  | none =>
    refine ⟨rfl, fun hw => ?_⟩
    simp only [attrCall, if_pos hw] at h ⊢
    cases hc : call b with
    | ok b' => rfl
    | error e => rw [hc] at h; cases h

theorem changeAttr_attr {T : Attr → Prop} {b b' : Backing} {os : Os} {call : Syscall} {rel : Path}
    {f : Attr → Attr} {o : ℕ} (hf : ∀ t, T t → T (f t)) (hb : T (b.attrOf o))
    (h : b.changeAttr os call rel f = .ok b') : T (b'.attrOf o) := by
  obtain ⟨q, e, -, rfl⟩ := Backing.changeAttr_ok h
  rw [Backing.attrOf_setAttr]
  split
  · rename_i heq; rw [← heq]; exact hf _ hb
  · exact hb

section
variable {T : Attr → Prop} {os : Os} {b : Backing} {rel : Path} {a : SetattrArgs}

/-- What each of the four updates keeps of the attributes of an object, all of them keep. -/
theorem attrCalls_keep {o : ℕ} (hb : T (b.attrOf o))
    (hmode : ∀ t m, T t → T { t with mode := m })
    (howner : ∀ t u g, T t → T { t with uid := u, gid := g })
    (htimes : ∀ t, T t → T { t with
      atime := applyTimespec os (toTimespec a.atime) t.atime
      mtime := applyTimespec os (toTimespec a.mtime) t.mtime })
    (hflags : ∀ t f, T t → T { t with flags := f }) : T ((attrCalls os b rel a).1.attrOf o) := by
  have keep : ∀ {r : Backing × Option Errno} {wanted : Bool} {call : Syscall} {f : Attr → Attr},
      T (r.1.attrOf o) → (∀ t, T t → T (f t)) →
      T ((attrCall r wanted fun b => b.changeAttr os call rel f).1.attrOf o) := by
    intro r wanted call f hr hf
    exact attrCall_keeps (R := fun b => T (b.attrOf o)) hr fun _ _ => changeAttr_attr hf
  unfold attrCalls
  exact keep (keep (keep (keep hb fun t => hmode t _) fun t => howner t _ _) htimes)
    fun t => hflags t _

/-- What `utimensat` brings about and `chflags` keeps, the object at the end of the path has after a
    successful request that gives a time. -/
theorem attrCalls_given {q : Path} {e : Entry} (h : (attrCalls os b rel a).2 = none)
    (hfind : b.find true rel = .ok (q, e)) (hgiven : (a.atime.isSome || a.mtime.isSome) = true)
    (htimes : ∀ t : Attr, T { t with
      atime := applyTimespec os (toTimespec a.atime) t.atime
      mtime := applyTimespec os (toTimespec a.mtime) t.mtime })
    (hflags : ∀ t f, T t → T { t with flags := f }) :
    T ((attrCalls os b rel a).1.attrOf e.obj) := by
  unfold attrCalls at h ⊢
  obtain ⟨hr, -⟩ := attrCall_ok h
  obtain ⟨q', e', hfind', hset⟩ := Backing.changeAttr_ok ((attrCall_ok hr).2 hgiven)
  -- `chmod` and `chown` leave the names alone, so `utimensat` reaches the same object
  rw [Backing.find_congr ((attrCall_tree os).trans (attrCall_tree os)), hfind] at hfind'
  obtain ⟨rfl, rfl⟩ := Prod.mk.inj (Except.ok.inj hfind')
  refine attrCall_keeps (R := fun b => T (b.attrOf e.obj)) ?_
    fun _ _ => changeAttr_attr fun t => hflags t _
  rw [hset, Backing.attrOf_setAttr, if_pos rfl]
  exact htimes _

/-- The times a successful request gives are what the object at the end of the path has then. -/
theorem attrCalls_stored {q : Path} {e : Entry} (h : (attrCalls os b rel a).2 = none)
    (hfind : b.find true rel = .ok (q, e)) (t : ℤ) :
    (a.atime = some (.specificTime t) →
        systemTimeFromParts ((attrCalls os b rel a).1.attrOf e.obj).atime = max t 0) ∧
      (a.mtime = some (.specificTime t) →
        systemTimeFromParts ((attrCalls os b rel a).1.attrOf e.obj).mtime = max t 0) := by
  have hdecode : ∀ old, systemTimeFromParts
      (applyTimespec os (toTimespec (some (.specificTime t))) old) = max t 0 := by
    intro old
    rw [applyTimespec_given, systemTimeFromParts_toTimespec]
  constructor
  · intro ha
    refine attrCalls_given (T := fun x => systemTimeFromParts x.atime = max t 0) h hfind ?_ ?_ ?_
    · rw [ha]; rfl
    · intro x; rw [ha]; exact hdecode _
    · intro _ _ hx; exact hx
  · intro hm
    refine attrCalls_given (T := fun x => systemTimeFromParts x.mtime = max t 0) h hfind ?_ ?_ ?_
    · rw [hm, Option.isSome_some, Bool.or_true]
    · intro x; rw [hm]; exact hdecode _
    · intro _ _ hx; exact hx

/-- A time that the request does not give stays what it is, on every object. -/
theorem attrCalls_omitted (o : ℕ) :
    (a.atime = none → ((attrCalls os b rel a).1.attrOf o).atime = (b.attrOf o).atime) ∧
      (a.mtime = none → ((attrCalls os b rel a).1.attrOf o).mtime = (b.attrOf o).mtime) := by
  constructor
  · intro ha
    refine attrCalls_keep (T := fun x => x.atime = (b.attrOf o).atime) rfl (fun _ _ hx => hx)
      (fun _ _ _ hx => hx) (fun x hx => ?_) fun _ _ hx => hx
    rw [ha, applyTimespec_none]
    exact hx
  · intro hm
    refine attrCalls_keep (T := fun x => x.mtime = (b.attrOf o).mtime) rfl (fun _ _ hx => hx)
      (fun _ _ _ hx => hx) (fun x hx => ?_) fun _ _ hx => hx
    rw [hm, applyTimespec_none]
    exact hx

end

/-! ### The two requests -/

/-- The path `getattr` looks at. -/
def attrPath (s : DibsFs) (ino : ℕ) : Option Path :=
  if ino = 1 then some [] else s.inodes.getPath ino

variable {X : Ext} {s : DibsFs} {os : Os} {ino : ℕ} {a : SetattrArgs} {attr : FileAttr}

theorem setattrSize_error {rel : Path} {fh : Option ℕ} {size : ℕ} {out : Out}
    (h : s.setattrSize X os rel fh size = .error out) : ∃ e, out.reply = .error e := by
  have hfinish : ∀ s' : DibsFs, s'.finishTruncate os rel fh size = .error out →
      ∃ e, out.reply = .error e := by
    intro s' h'
    rw [finishTruncate] at h'
    split at h'
    · rename_i e _; exact ⟨e, by cases h'; rfl⟩
    · cases h'
  unfold setattrSize at h
  split at h
  · simp only at h
    split at h
    · cases h; exact ⟨.eio, rfl⟩
    · exact hfinish _ h
  · exact hfinish _ h

theorem finishSetattr_served {rel : Path} (h : (s.finishSetattr os rel ino a).reply = .attr attr) :
    (attrCalls os s.backing rel a).2 = none ∧
      (s.finishSetattr os rel ino a).st.backing = (attrCalls os s.backing rel a).1 := by
  unfold finishSetattr at h ⊢
  simp only at h ⊢
  split at h
  · cases h
  · rename_i hnone
    obtain ⟨r, heq⟩ :=
      replyAttr_out { s with backing := (attrCalls os s.backing rel a).1 } os rel ino
    rw [hnone, heq]
    exact ⟨rfl, rfl⟩

/-- A `setattr` that is served has made all of its calls, after the truncation if there is one. -/
theorem setattr_served (h : (s.setattr X os ino a).reply = .attr attr) :
    isDibsIno ino = false ∧ ∃ rel b, s.inodes.getPath ino = some rel ∧
      (a.size = none → b = s.backing) ∧ (attrCalls os b rel a).2 = none ∧
      (s.setattr X os ino a).st.backing = (attrCalls os b rel a).1 := by
  unfold setattr at h ⊢
  split at h
  · cases h
  · rename_i hd
    rw [if_neg hd]
    refine ⟨by simpa using hd, ?_⟩
    split at h
    · cases h
    · rename_i rel hrel
      split at h
      · cases h
      · rename_i hnul
        refine ⟨rel, ?_⟩
        simp only [hrel, if_neg hnul]
        cases hsz : a.size with
        | none =>
          simp only [hsz] at h ⊢
          exact ⟨s.backing, trivial, fun _ => rfl, finishSetattr_served h⟩
        | some size =>
          simp only [hsz] at h ⊢
          cases hsize : s.setattrSize X os rel a.fh size with
          | error out =>
            obtain ⟨e, he⟩ := setattrSize_error hsize
            simp only [hsize, he, reduceCtorEq] at h
          | ok s' =>
            simp only [hsize] at h ⊢
            exact ⟨s'.backing, trivial, (fun hno => by cases hno), finishSetattr_served h⟩

theorem replyAttr_served {rel : Path} (h : (s.replyAttr os rel ino).reply = .attr attr) :
    ∃ q e, s.backing.find false rel = .ok (q, e) ∧
      attr = { statToFileAttr (s.backing.statOf e) with ino := ino } := by
  unfold replyAttr Backing.lstat at h
  split at h
  · rename_i st hst
    split at hst
    · cases hst
    · split at hst
      · cases hst
      · split at hst
        · cases hst
        · rename_i q e hfind
          cases hst
          exact ⟨q, e, hfind, (Reply.attr.inj h).symm⟩
  · cases h

/-- A `getattr` on a real inode that is served reports what `lstat` finds at its path. -/
theorem getattr_served (hd : isDibsIno ino = false) (h : (s.getattr X os ino).reply = .attr attr) :
    ∃ rel q e, s.attrPath ino = some rel ∧ s.backing.find false rel = .ok (q, e) ∧
      attr = { statToFileAttr (s.backing.statOf e) with ino := ino } := by
  have hbase : ¬ SYNTHETIC_INODE_BASE ≤ ino := by simpa [isDibsIno, InodeTable.isSynthetic] using hd
  have hne : ∀ n, SYNTHETIC_INODE_BASE ≤ n → ino ≠ n := by
    rintro n hn rfl
    exact hbase hn
  rw [attrPath]
  by_cases hroot : ino = 1
  · subst hroot
    rw [getattr, if_pos rfl] at h
    rw [if_pos rfl]
    obtain ⟨q, e, hfind, hattr⟩ := replyAttr_served h
    exact ⟨[], q, e, rfl, hfind, hattr⟩
  · rw [getattr, if_neg hroot, if_neg (hne _ (by decide)), if_neg (hne _ (by decide)),
      if_neg (hne _ (by decide)), if_neg (hne _ (by decide))] at h
    rw [if_neg hroot]
    cases hrel : s.inodes.getPath ino with
    | none => rw [hrel] at h; cases h
    | some rel =>
      rw [hrel] at h
      obtain ⟨q, e, hfind, hattr⟩ := replyAttr_served h
      exact ⟨rel, q, e, rfl, hfind, hattr⟩

/-- A `setattr` about an inode is served, and later a `getattr` that means the same file, whose times
    nothing has set in between. -/
structure SetThenGet (X : Ext) (s : DibsFs) (os : Os) (ino : ℕ) (a : SetattrArgs) (s' : DibsFs)
    (os' : Os) (attr : FileAttr) : Prop where
  served : ∃ r, (s.setattr X os ino a).reply = .attr r
  path : s'.attrPath ino = s.inodes.getPath ino
  /-- the path still leads to the object -/
  object : ∀ rel, s.inodes.getPath ino = some rel →
    s'.backing.find false rel = (s.setattr X os ino a).st.backing.find false rel
  times : ∀ rel q e, s.inodes.getPath ino = some rel → s'.backing.find false rel = .ok (q, e) →
    (s'.backing.attrOf e.obj).atime = ((s.setattr X os ino a).st.backing.attrOf e.obj).atime ∧
      (s'.backing.attrOf e.obj).mtime = ((s.setattr X os ino a).st.backing.attrOf e.obj).mtime
  reported : (s'.getattr X os' ino).reply = .attr attr

/-- What `getattr` reports is what the calls of `setattr` left at the object it finds. -/
theorem SetThenGet.outcome {s' : DibsFs} {os' : Os} (h : SetThenGet X s os ino a s' os' attr) :
    isDibsIno ino = false ∧ ∃ rel b q e, s.inodes.getPath ino = some rel ∧
      (a.size = none → b = s.backing) ∧ (attrCalls os b rel a).2 = none ∧
      b.find false rel = .ok (q, e) ∧ attr.kind = fileType e.kind ∧
      attr.atime = systemTimeFromParts ((attrCalls os b rel a).1.attrOf e.obj).atime ∧
      attr.mtime = systemTimeFromParts ((attrCalls os b rel a).1.attrOf e.obj).mtime := by
  obtain ⟨r, hserved⟩ := h.served
  obtain ⟨hd, rel, b, hrel, hsize, hnone, hst⟩ := setattr_served hserved
  obtain ⟨rel', q, e, hpath, hfind, hattr⟩ := getattr_served hd h.reported
  rw [h.path, hrel] at hpath
  obtain rfl := Option.some.inj hpath
  obtain ⟨hatime, hmtime⟩ := h.times rel q e hrel hfind
  rw [h.object rel hrel, hst, Backing.find_congr (attrCalls_same os b rel a).tree] at hfind
  rw [hst] at hatime hmtime
  refine ⟨hd, rel, b, q, e, hrel, hsize, hnone, hfind, ?_, ?_, ?_⟩
  · rw [hattr]; rfl
  · rw [hattr, ← hatime]; rfl
  · rw [hattr, ← hmtime]; rfl

theorem SetThenGet.given {s' : DibsFs} {os' : Os} (h : SetThenGet X s os ino a s' os' attr)
    (hkind : attr.kind ≠ .symlink) (t : ℤ) :
    (a.atime = some (.specificTime t) → attr.atime = max t 0) ∧
      (a.mtime = some (.specificTime t) → attr.mtime = max t 0) := by
  obtain ⟨-, rel, b, q, e, -, -, hnone, hfind, hk, hatime, hmtime⟩ := h.outcome
  have hnolink : ∀ tg, e.kind ≠ .symlink tg := by
    intro tg hlink
    rw [hlink] at hk
    exact hkind hk
  rw [hatime, hmtime]
  exact attrCalls_stored hnone (Backing.find_follow hfind hnolink) t

theorem SetThenGet.kept {s' : DibsFs} {os' os₀ : Os} {before : FileAttr}
    (h : SetThenGet X s os ino a s' os' attr) (hbefore : (s.getattr X os₀ ino).reply = .attr before)
    (hsize : a.size = none) :
    (a.atime = none → attr.atime = before.atime) ∧ (a.mtime = none → attr.mtime = before.mtime) := by
  obtain ⟨hd, rel, b, q, e, hrel, hb, -, hfind, -, hat, hmt⟩ := h.outcome
  obtain rfl := hb hsize
  obtain ⟨rel₀, q₀, e₀, hpath, hfind₀, rfl⟩ := getattr_served hd hbefore
  -- the request before looks at the same path, and finds the same object there
  have hsame : s.attrPath ino = s.inodes.getPath ino := by
    have hp := h.path
    unfold attrPath at hp ⊢
    split
    · rename_i hroot; rw [if_pos hroot] at hp; exact hp
    · rfl
  rw [hsame, hrel] at hpath
  obtain rfl := Option.some.inj hpath
  obtain ⟨rfl, rfl⟩ := Prod.mk.inj (Except.ok.inj (hfind.symm.trans hfind₀))
  obtain ⟨hatime, hmtime⟩ := @attrCalls_omitted os s.backing rel a e.obj
  exact ⟨fun ha => hat.trans (congrArg systemTimeFromParts (hatime ha)),
    fun hm => hmt.trans (congrArg systemTimeFromParts (hmtime hm))⟩

/-- CORRECT: after a `setattr`, `getattr` reports of a file that is no link each time the request
    gave, the epoch for one before it; a time it did not give is what `getattr` reported before. -/
theorem times_round_trip (X : Ext) {s s' : DibsFs} {os os' : Os} {ino : ℕ} {a : SetattrArgs}
    {attr : FileAttr} (h : SetThenGet X s os ino a s' os' attr) :
    (∀ t, systemTimeFromParts (toTimespec (some (.specificTime t))) = max t 0) ∧
      (attr.kind ≠ .symlink → ∀ t,
        (a.atime = some (.specificTime t) → attr.atime = max t 0) ∧
          (a.mtime = some (.specificTime t) → attr.mtime = max t 0)) ∧
      (a.size = none → ∀ os₀ before, (s.getattr X os₀ ino).reply = .attr before →
        (a.atime = none → attr.atime = before.atime) ∧
          (a.mtime = none → attr.mtime = before.mtime)) :=
  ⟨systemTimeFromParts_toTimespec, fun hkind t => h.given hkind t,
    fun hsize _ _ hbefore => h.kept hbefore hsize⟩

def lName : Name := [0x6C]

/-- The sample mount with a symbolic link `l`, inode 11, to `f`, which was modified 7 s after the
    epoch. -/
def linkedMount : DibsFs := Run.exec (step sampleExt) sampleMount
  [.fuse {} 7 (.lookup 1 fName), .fuse { ino := 11 } 7 (.symlink 1 lName fName),
    .fuse {} 7 (.setattr 10 { mtime := some (.specificTime 7000000000) })]

/-- The state after a `setattr` on `linkedMount`. -/
def timedMount (ino : ℕ) (a : SetattrArgs) : DibsFs := (linkedMount.setattr sampleExt {} ino a).st

/-- Where the path and the object are known. -/
theorem SetThenGet.of_find {s' : DibsFs} {os' : Os} {r : FileAttr} (rel q : Path) (e : Entry)
    (hserved : (s.setattr X os ino a).reply = .attr r) (hrel : s.inodes.getPath ino = some rel)
    (hpath : s'.attrPath ino = some rel)
    (hobject : (s.setattr X os ino a).st.backing.find false rel = .ok (q, e))
    (hfind : s'.backing.find false rel = .ok (q, e))
    (htimes : (s'.backing.attrOf e.obj).atime = ((s.setattr X os ino a).st.backing.attrOf e.obj).atime ∧
      (s'.backing.attrOf e.obj).mtime = ((s.setattr X os ino a).st.backing.attrOf e.obj).mtime)
    (hreported : (s'.getattr X os' ino).reply = .attr attr) :
    SetThenGet X s os ino a s' os' attr where
  served := ⟨r, hserved⟩
  path := hpath.trans hrel.symm
  object := by
    intro rel' hrel'
    obtain rfl := Option.some.inj (hrel.symm.trans hrel')
    rw [hfind, hobject]
  times := by
    intro rel' q' e' hrel' hfind'
    obtain rfl := Option.some.inj (hrel.symm.trans hrel')
    obtain ⟨-, rfl⟩ := Prod.mk.inj (Except.ok.inj (hfind.symm.trans hfind'))
    exact htimes
  reported := hreported

/-- The state in which session 7 has `f` open and has written `b` to it. -/
def writtenMount : DibsFs := Run.exec (step sampleExt) linkedMount
  [.fuse {} 7 (.open_ 10 O_RDWR), .fuse {} 7 (.write 10 1 0 [0x62]), .fuse {} 7 (.flush 10 1)]

/-- An access time of 1.5 s given to `f` is reported after the file has been closed, and the
    modification time is what it was. -/
theorem file_times_kept :
    ∃ before attr : FileAttr, (writtenMount.getattr sampleExt {} 10).reply = .attr before ∧
      ((Run.exec (step sampleExt) writtenMount
        [.fuse {} 7 (.setattr 10 { atime := some (.specificTime 1500000000) }),
          .fuse {} 7 (.release 10 1)]).getattr sampleExt {} 10).reply = .attr attr ∧
      attr.atime = 1500000000 ∧ attr.mtime = before.mtime := by
  have hbefore : (writtenMount.getattr sampleExt {} 10).reply =
      .attr ⟨10, 1, .regularFile, 0, 0, 0, 0, 0, 7000000000⟩ := by decide +kernel
  have hserved : (writtenMount.setattr sampleExt {} 10 { atime := some (.specificTime 1500000000) }).reply =
      .attr ⟨10, 1, .regularFile, 0, 0, 0, 0, 1500000000, 7000000000⟩ := by decide +kernel
  have h : SetThenGet sampleExt writtenMount {} 10 { atime := some (.specificTime 1500000000) }
      (Run.exec (step sampleExt) writtenMount
        [.fuse {} 7 (.setattr 10 { atime := some (.specificTime 1500000000) }),
          .fuse {} 7 (.release 10 1)]) {}
      ⟨10, 1, .regularFile, 0, 0, 0, 0, 1500000000, 7000000000⟩ :=
    .of_find [fName] [fName] ⟨1, .file⟩ hserved (by decide +kernel) (by decide +kernel)
      (by decide +kernel) (by decide +kernel) (by decide +kernel) (by decide +kernel)
  obtain ⟨-, hgiven, hkept⟩ := times_round_trip sampleExt h
  exact ⟨_, _, hbefore, h.reported, ((hgiven (by decide) 1500000000).1 rfl).trans (by decide),
    (hkept rfl {} _ hbefore).2 rfl⟩

/-- A modification time of a second before the epoch given to `f` is reported as the epoch, and one
    given to the link `l` is not reported at all. -/
theorem times_lost :
    Reachable sampleExt linkedMount ∧
      (∃ attr, SetThenGet sampleExt linkedMount {} 10 { mtime := some (.specificTime (-1000000000)) }
        (timedMount 10 { mtime := some (.specificTime (-1000000000)) }) {} attr ∧
        attr.mtime ≠ -1000000000) ∧
      ∃ attr, SetThenGet sampleExt linkedMount {} 11 { mtime := some (.specificTime 1000000000) }
        (timedMount 11 { mtime := some (.specificTime 1000000000) }) {} attr ∧
        attr.mtime ≠ 1000000000 := by
  refine ⟨sampleMount_reachable.exec (by decide +kernel), ?_, ?_⟩
  · have hserved : ((linkedMount.setattr sampleExt {} 10
        { mtime := some (.specificTime (-1000000000)) }).reply =
        .attr ⟨10, 1, .regularFile, 0, 0, 0, 0, 0, 0⟩) := by decide +kernel
    exact ⟨⟨10, 1, .regularFile, 0, 0, 0, 0, 0, 0⟩,
      .of_find [fName] [fName] ⟨1, .file⟩ hserved (by decide +kernel) (by decide +kernel)
        (by decide +kernel) (by decide +kernel) ⟨rfl, rfl⟩ (by decide +kernel), by decide⟩
  · have hserved : ((linkedMount.setattr sampleExt {} 11
        { mtime := some (.specificTime 1000000000) }).reply =
        .attr ⟨11, 0, .symlink, 0, 0, 0, 0, 0, 0⟩) := by decide +kernel
    exact ⟨⟨11, 0, .symlink, 0, 0, 0, 0, 0, 0⟩,
      .of_find [lName] [lName] ⟨2, .symlink fName⟩ hserved (by decide +kernel) (by decide +kernel)
        (by decide +kernel) (by decide +kernel) ⟨rfl, rfl⟩ (by decide +kernel), by decide⟩

end DibsFs

end Dibs
