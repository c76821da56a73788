import Dibs.Proofs.Settled

/-! The requests about the path keep it settled. One lemma for each request, each from the outcomes of
    the request; an outcome that hands out a handle or takes a receipt has a lemma of its own. -/

namespace Dibs.DibsFs
variable {X : Ext} {S : ℕ} {p : Path} {s : DibsFs} {g : Notes} {c : Call}

/-- A receipt is taken: whatever was noted before, it is fresh now. -/
theorem Settled.refreshed {s' : DibsFs} {g' : Notes} (hs : Settled X S p s g)
    (hsids : ∀ fh h, s'.fileHandles.get fh = some h → h.path = p → h.sid = S)
    (hwrite : ∀ fh h, s'.WriteHandle p fh h ↔ s.WriteHandle p fh h)
    (howner : s'.casTable.owner p = s.casTable.owner p) (hfresh : Fresh X S p s')
    (hcontent : s.casTable.owner p = none → ∀ fh h, s.WriteHandle p fh h →
      ∀ x, s.backing.content p = some x → s'.backing.content p = some x)
    (hkept : s'.backing.content p = none → s.backing.content p = none)
    (hunfl : g'.unflushed = g.unflushed) : Settled X S p s' g' := by
  refine ⟨hsids, ?_, ?_, fun _ _ => hfresh, ?_, ?_, ?_⟩
  · intro fh fh' h h' hw hw'
    exact hs.one fh fh' h h' ((hwrite fh h).mp hw) ((hwrite fh' h').mp hw')
  · intro fh ho
    rw [howner] at ho
    obtain ⟨h, hw⟩ := hs.owner fh ho
    exact ⟨h, (hwrite fh h).mpr hw⟩
  · intro ho fh h hw
    rw [howner] at ho
    have hw' := (hwrite fh h).mp hw
    refine ⟨hfresh, fun r hr => ?_⟩
    obtain ⟨x, hx, hhash⟩ := (hs.idle ho fh h hw').2 r hr
    exact ⟨x, hcontent ho fh h hw' x hx, hhash⟩
  · intro hnone
    refine ⟨?_, fun fh h hw => (hs.missing (hkept hnone)).2 fh h ((hwrite fh h).mp hw)⟩
    cases hr : s'.casTable.getReaderHash S p with
    | none => rfl
    | some r =>
      obtain ⟨x, hx, -⟩ := hfresh r hr
      rw [hnone] at hx
      cases hx
  · intro hu
    rw [hunfl] at hu
    obtain ⟨fh, h, hw, hwr⟩ := hs.writing hu
    exact ⟨fh, h, (hwrite fh h).mpr hw, hwr⟩

/-- The handles on `p` after one more was given out. -/
theorem writeHandle_alloc {s' : DibsFs} {fd : ℤ} {flags : OpenFlags} {hash : Option Bytes} {sid : ℕ}
    (hh : s'.fileHandles = (s.fileHandles.alloc fd p flags hash sid).1) (fh : ℕ) (h : HandleState) :
    s'.WriteHandle p fh h ↔ s.WriteHandle p fh h ∨ (accessMode flags ≠ O_RDONLY ∧
      fh = s.fileHandles.nextFh ∧ h = ⟨s.fileHandles.nextFh, fd, p, hash, flags, false, sid⟩) := by
  constructor
  · rintro ⟨hlive, hpath, hmode⟩
    rw [hh, HandleTable.get_alloc] at hlive
    split at hlive
    · rename_i heq
      obtain rfl := Option.some.inj hlive
      exact Or.inr ⟨hmode, heq, rfl⟩
    · exact Or.inl ⟨hlive, hpath, hmode⟩
  · rintro (hw | ⟨hmode, rfl, rfl⟩)
    · exact ⟨by rw [hh]; exact get_alloc_of_live hw.live .., hw.path, hw.mode⟩
    · exact ⟨by rw [hh, HandleTable.get_alloc, if_pos rfl], rfl, hmode⟩

theorem Settled.sids_alloc {s' : DibsFs} {fd : ℤ} {rel : Path} {flags : OpenFlags}
    {hash : Option Bytes} (hs : Settled X S p s g)
    (hh : s'.fileHandles = (s.fileHandles.alloc fd rel flags hash S).1) (fh : ℕ) (h : HandleState)
    (hlive : s'.fileHandles.get fh = some h) (hpath : h.path = p) : h.sid = S := by
  rw [hh, HandleTable.get_alloc] at hlive
  split at hlive
  · obtain rfl := Option.some.inj hlive
    rfl
  · exact hs.sids fh h hlive hpath

/-- The only write handle is a new one, as the owner or as a handle whose hash is up to date. -/
theorem Settled.opened {s' : DibsFs} {g' : Notes} {fd : ℤ} {flags : OpenFlags} {hash : Option Bytes}
    (hs : Settled X S p s g) (hno : ∀ fh h, ¬ s.WriteHandle p fh h)
    (hm : accessMode flags ≠ O_RDONLY)
    (hhandles : s'.fileHandles = (s.fileHandles.alloc fd p flags hash S).1)
    (howner : ∀ fh, s'.casTable.owner p = some fh → fh = s.fileHandles.nextFh)
    (hfresh : g'.truncated = false → Fresh X S p s')
    (hidle : s'.casTable.owner p = none →
      Fresh X S p s' ∧ ∀ r, hash = some r → s'.IsHash X p r)
    (hmissing : s'.backing.content p = none →
      s'.casTable.getReaderHash S p = none ∧ hash = none)
    (hunfl : g'.unflushed = g.unflushed) : Settled X S p s' g' := by
  have honly : ∀ fh h, s'.WriteHandle p fh h → fh = s.fileHandles.nextFh ∧
      h = ⟨s.fileHandles.nextFh, fd, p, hash, flags, false, S⟩ := by
    intro fh h hw
    exact (((writeHandle_alloc hhandles fh h).mp hw).resolve_left (hno fh h)).2
  refine ⟨hs.sids_alloc hhandles, ?_, ?_, fun ht _ => hfresh ht, ?_, ?_, ?_⟩
  · intro fh fh' h h' hw hw'
    rw [(honly fh h hw).1, (honly fh' h' hw').1]
  · intro fh ho
    rw [howner fh ho]
    exact ⟨_, (writeHandle_alloc hhandles _ _).mpr (Or.inr ⟨hm, rfl, rfl⟩)⟩
  · intro ho fh h hw
    rw [(honly fh h hw).2]
    exact hidle ho
  · intro hnone
    refine ⟨(hmissing hnone).1, fun fh h hw => ?_⟩
    rw [(honly fh h hw).2]
    exact (hmissing hnone).2
  · intro hu
    rw [hunfl, hs.unflushed_of_no_writer hno] at hu
    cases hu

/-- A read-only open leaves a receipt for the file as the open left it. -/
theorem Settled.openRead {os : Os} {flags : OpenFlags} {b : Backing} {fd : ℤ} {g' : Notes}
    (hs : Settled X S p s g) (hread : os.unreadable p = false) (hm : accessMode flags = O_RDONLY)
    (hcontent : s.casTable.owner p = none → ∀ fh h, s.WriteHandle p fh h →
      ∀ x, s.backing.content p = some x → b.content p = some x)
    (hkept : b.content p = none → s.backing.content p = none)
    (hunfl : g'.unflushed = g.unflushed) :
    Settled X S p (s.openRead X os S p flags b fd).st g' := by
  have hhandles : (s.openRead X os S p flags b fd).st.fileHandles =
      (s.fileHandles.alloc fd p flags (hashFile X b os p) S).1 := rfl
  refine hs.refreshed (hs.sids_alloc hhandles) ?_ ?_ ?_ hcontent hkept hunfl
  · intro fh h
    rw [writeHandle_alloc hhandles]
    simp [hm]
  · simp only [DibsFs.openRead]
    split <;> rfl
  · intro r hr
    simp only [DibsFs.openRead] at hr
    cases hx : b.content p with
    | some x =>
      simp only [hashFile_of_content hread, hx, Option.map_some,
        CasTable.getReaderHash_recordReader, and_self, if_true] at hr
      exact ⟨x, hx, Option.some.inj hr⟩
    | none =>
      simp only [hashFile_of_content hread, hx, Option.map_none] at hr
      rw [(hs.missing (hkept hx)).1] at hr
      cases hr

/-- A write-mode open that got through: the handle is the owner, and an `O_RDWR` one has left a receipt
    for the content before it. -/
theorem Settled.granted {os : Os} {flags : OpenFlags} {actual : Bytes} {b : Backing} {fd : ℤ}
    {cas : CasTable} {g' : Notes} (hs : Settled X S p s g) (hno : ∀ fh h, ¬ s.WriteHandle p fh h)
    (hm : accessMode flags ≠ O_RDONLY)
    (hg : s.casTable.Grants cas p s.fileHandles.nextFh S
      (s.opening S p flags (some actual) fd) actual) (hactual : s.IsHash X p actual)
    (hkept : b.content p = none → s.backing.content p = none)
    (hnote : g'.truncated = false → (accessMode flags ≠ O_RDWR → g.truncated = false) ∧
      ∀ x, s.backing.content p = some x → b.content p = some x)
    (hunfl : g'.unflushed = g.unflushed) :
    Settled X S p (s.grantedOpen os S p flags actual b fd cas) g' := by
  have howner : (s.grantedOpen os S p flags actual b fd cas).casTable.owner p =
      some s.fileHandles.nextFh := by
    have hown : cas.owner p = some s.fileHandles.nextFh := (hg.owner p).trans (if_pos rfl)
    rw [grantedOpen]
    simp only
    split <;> exact hown
  have hhandles : (s.grantedOpen os S p flags actual b fd cas).fileHandles =
      (s.fileHandles.alloc fd p flags (if accessMode flags = O_RDWR then some actual else none)
        S).1 := rfl
  refine hs.opened hno hm hhandles ?_ ?_ ?_ ?_ hunfl
  · intro fh hfh
    rw [howner] at hfh
    exact (Option.some.inj hfh).symm
  · intro htrunc r hr
    obtain ⟨hold, hsame⟩ := hnote htrunc
    rw [grantedOpen] at hr
    by_cases hrdwr : accessMode flags = O_RDWR
    · rw [if_pos hrdwr, CasTable.getReaderHash_recordReader, if_pos ⟨rfl, rfl⟩] at hr
      obtain ⟨x, hx, hhash⟩ := hactual
      exact ⟨x, hsame x hx, hhash.trans (Option.some.inj hr)⟩
    · rw [if_neg hrdwr, CasTable.getReaderHash_congr hg.receipts] at hr
      obtain ⟨x, hx, hhash⟩ := hs.fresh (hold hrdwr) (hs.unflushed_of_no_writer hno) r hr
      exact ⟨x, hsame x hx, hhash⟩
  · intro hnone
    rw [howner] at hnone
    cases hnone
  · intro hnone
    obtain ⟨x, hx, -⟩ := hactual
    rw [hkept hnone] at hx
    cases hx

/-- A request that changed nothing. -/
theorem Settled.unchanged {g' : Notes} (hs : Settled X S p s g) (hst : s.step X c = s)
    (htrunc : g'.truncated = false → g.truncated = false) (hunfl : g'.unflushed = g.unflushed) :
    Settled X S p (s.step X c) g' := by
  rw [hst]
  exact hs.sameAt (.of_eq rfl rfl) (fun _ h => h) htrunc hunfl

theorem settled_open {os : Os} {pid ino : ℕ} {flags : OpenFlags} (hs : Settled X S p s g)
    (hc : Alone X S p s g (.fuse os pid (.open_ ino flags)))
    (hrec : Recorded S p s g (.fuse os pid (.open_ ino flags)))
    (hn : Names s p (.fuse os pid (.open_ ino flags))) :
    Settled X S p (s.step X (.fuse os pid (.open_ ino flags)))
      (g.note X p s (.fuse os pid (.open_ ino flags))) := by
  have hout := s.step_out X (.fuse os pid (.open_ ino flags))
  generalize ho : s.out X (.fuse os pid (.open_ ino flags)) = out at hout
  obtain ⟨hsid, hread, hno⟩ := hc.own hn
  have hn' : isDibsIno ino = false ∧ s.inodes.getPath ino = some p := hn
  have hkeeps : s.KeepsName p (.fuse os pid (.open_ ino flags)) := trivial
  have hkept := fun h => content_of_step_none (X := X) hkeeps h
  -- without `O_TRUNC` the content stays
  have hcontent : hasFlag flags O_TRUNC = false → ∀ x, s.backing.content p = some x →
      (s.step X (.fuse os pid (.open_ ino flags))).backing.content p = some x := by
    intro hf x hx
    refine step_content hkeeps (fun o _ hhit => ?_) hx
    obtain ⟨htr, -⟩ := hhit
    rw [hf] at htr
    cases htr
  cases hout with
  | passive hp => cases hp
  | nameStale rel w hf _ => cases hf
  | idle hi => simp at hi
  | failed e _ =>
    have hst : s.step X (.fuse os pid (.open_ ino flags)) = s := by rw [step, ho]; rfl
    have hnote : g.note X p s (.fuse os pid (.open_ ino flags)) =
        { g with truncated := g.truncated || s.changes X p (.fuse os pid (.open_ ino flags)) } := by
      rw [Notes.note, if_pos hn', ho]
      rfl
    rw [hnote]
    exact hs.unchanged hst (fun h => (Bool.or_eq_false_iff.mp h).1) rfl
  | openVirtual hv =>
    have hreal := hn.1
    rcases hv with rfl | rfl <;> exact absurd hreal (by decide)
  | openRead rel b fd hop hm =>
    obtain rfl := Option.some.inj (hn.2.symm.trans hop.path)
    have hst : s.step X (.fuse os pid (.open_ ino flags)) = (s.openRead X os S p flags b fd).st := by
      rw [step, ho, hsid]
    have hnote : g.note X p s (.fuse os pid (.open_ ino flags)) = { g with truncated := false } := by
      rw [Notes.note, if_pos hn', ho]
      exact if_pos hm
    rw [hst] at hcontent hkept ⊢
    rw [hnote]
    refine hs.openRead hread hm (fun hnone fh h hw => hcontent ?_) hkept rfl
    cases hf : hasFlag flags O_TRUNC with
    | false => rfl
    | true =>
      rw [hrec.2 hf fh h hw] at hnone
      cases hnone
  | openRejected rel b fd actual e hop hm hhash hr =>
    obtain rfl := Option.some.inj (hn.2.symm.trans hop.path)
    exact absurd hr (hs.open_passes (hc.own hn) hrec hm hhash e)
  | openGranted rel b fd actual cas hop hm hhash hg =>
    obtain rfl := Option.some.inj (hn.2.symm.trans hop.path)
    have hst : s.step X (.fuse os pid (.open_ ino flags)) =
        s.grantedOpen os S p flags actual b fd cas := by rw [step, ho, hsid]
    have hactual := Option.map_eq_some_iff.mp ((hashFile_of_content hread).symm.trans hhash)
    have hnote : g.note X p s (.fuse os pid (.open_ ino flags)) =
        if accessMode flags = O_RDWR then
          { g with truncated := s.changes X p (.fuse os pid (.open_ ino flags)) }
        else { g with
          truncated := g.truncated || s.changes X p (.fuse os pid (.open_ ino flags)) } := by
      rw [Notes.note, if_pos hn', ho]
      exact if_neg hm
    have hsame : s.changes X p (.fuse os pid (.open_ ino flags)) = false →
        ∀ x, s.backing.content p = some x → b.content p = some x := by
      intro hch x hx
      have hstep := content_of_unchanged hch hx
      rw [hst] at hstep
      exact hstep
    rw [hst] at hkept ⊢
    rw [hsid] at hg
    rw [hnote]
    refine hs.granted (hno hm) hm hg hactual hkept (fun htrunc => ?_) ?_
    · split at htrunc
      · rename_i hrdwr
        exact ⟨fun hne => absurd hrdwr hne, hsame htrunc⟩
      · obtain ⟨hold, hch⟩ := Bool.or_eq_false_iff.mp htrunc
        exact ⟨fun _ => hold, hsame hch⟩
    · split <;> rfl
  | openUnhashed rel b fd hop hm hhash =>
    obtain rfl := Option.some.inj (hn.2.symm.trans hop.path)
    -- there was no file, hence no receipt either
    have hgone : s.backing.content p = none :=
      Option.map_eq_none_iff.mp ((hashFile_of_content hread).symm.trans hhash)
    have hreceipt : (s.step X (.fuse os pid (.open_ ino flags))).casTable.getReaderHash S p = none := by
      rw [step, ho, CasTable.getReaderHash_ensureEntry]
      exact (hs.missing hgone).1
    have hfresh : Fresh X S p (s.step X (.fuse os pid (.open_ ino flags))) := by
      intro r hr
      rw [hreceipt] at hr
      cases hr
    have hhandles : (s.step X (.fuse os pid (.open_ ino flags))).fileHandles =
        (s.fileHandles.alloc fd p flags (if accessMode flags = O_RDWR then none else none) S).1 := by
      rw [step, ho, opening, hsid]
    rw [ite_self] at hhandles
    refine hs.opened (hno hm) hm hhandles ?_ (fun _ => hfresh) ?_ (fun _ => ⟨hreceipt, rfl⟩) ?_
    · intro fh hfh
      rw [step, ho, CasTable.owner_ensureEntry, hs.owner_of_no_writer (hno hm)] at hfh
      cases hfh
    · exact fun _ => ⟨hfresh, fun r hr => by cases hr⟩
    · rw [Notes.note, if_pos hn', ho]
      simp only
      split
      · rfl
      · split <;> rfl

/-- After a successful `create` there is a file. -/
theorem content_of_create {os : Os} {flags : OpenFlags} {mode : ℕ} {b : Backing} {fd : ℤ}
    (h : s.backing.libcOpen os p (flags ||| O_CREAT) mode = .ok (b, fd)) :
    ∃ x, b.content p = some x := by
  have hcreat : hasFlag (flags ||| O_CREAT) O_CREAT = true := by
    rw [hasFlag_or]
    simp [show hasFlag O_CREAT O_CREAT = true by decide]
  obtain ⟨-, -, ⟨o, hf⟩ | hdir | hnew⟩ := Backing.libcOpen_cases h
  · exact ⟨b.dataOf o, by rw [Backing.content, Backing.fileAt_congr hf.tree, hf.file]; rfl⟩
  · rw [hdir.creat] at hcreat; cases hcreat
  · exact ⟨b.dataOf _, by rw [Backing.content, hnew.file]; rfl⟩

theorem settled_create {os : Os} {pid parent : ℕ} {name : Name} {mode : ℕ} {flags : OpenFlags}
    (hs : Settled X S p s g) (hc : Alone X S p s g (.fuse os pid (.create parent name mode flags)))
    (hrec : Recorded S p s g (.fuse os pid (.create parent name mode flags)))
    (hn : Names s p (.fuse os pid (.create parent name mode flags))) :
    Settled X S p (s.step X (.fuse os pid (.create parent name mode flags)))
      (g.note X p s (.fuse os pid (.create parent name mode flags))) := by
  have hout := s.step_out X (.fuse os pid (.create parent name mode flags))
  generalize ho : s.out X (.fuse os pid (.create parent name mode flags)) = out at hout
  obtain ⟨hsid, hread, hno⟩ := hc.own hn
  have hn' : s.resolvePath parent name = p := hn
  have hkeeps : s.KeepsName p (.fuse os pid (.create parent name mode flags)) := trivial
  have hkept := fun h => content_of_step_none (X := X) hkeeps h
  -- a write handle that is not the owner sees the content stay
  have hcontent : s.casTable.owner p = none → ∀ fh h, s.WriteHandle p fh h →
      ∀ x, s.backing.content p = some x →
        (s.step X (.fuse os pid (.create parent name mode flags))).backing.content p = some x := by
    intro hnone fh h hw x hx
    refine step_content hkeeps (fun o _ hhit => ?_) hx
    rw [hrec hhit.1 fh h hw] at hnone
    cases hnone
  cases hout with
  | passive hp => cases hp
  | nameStale rel w hf _ => cases hf
  | idle hi => simp at hi
  | failed e _ =>
    have hst : s.step X (.fuse os pid (.create parent name mode flags)) = s := by rw [step, ho]; rfl
    rw [Notes.note, if_pos hn', ho]
    exact hs.unchanged hst (fun h => (Bool.or_eq_false_iff.mp h).1) rfl
  | createDropped b fd e _ hcall =>
    have hsame : SameAt S p s (s.step X (.fuse os pid (.create parent name mode flags))) := by
      rw [step, ho]
      exact .of_eq rfl rfl
    rw [Notes.note, if_pos hn', ho]
    refine hs.transfer (hs.sids_congr hsame.handles) (writeHandle_congr hsame.handles) ?_
      hsame.receipt ?_ ?_ hkept rfl
    · intro fh hfh
      rw [hsame.owner] at hfh
      exact hs.owner fh hfh
    · intro h
      obtain ⟨hold, hch⟩ := Bool.or_eq_false_iff.mp h
      exact ⟨hold, fun x hx => content_of_unchanged hch hx⟩
    · intro hnone fh h hw
      rw [hsame.owner] at hnone
      exact ⟨hnone, hcontent hnone fh h hw⟩
  | created b fd attr _ hcall =>
    rw [hn'] at hcall ho
    obtain ⟨x, hx⟩ := content_of_create hcall
    have hhash : (hashFile X b os p).getD [] = hashContent X x := by
      rw [hashFile_of_content hread, hx]
      rfl
    have hst : s.step X (.fuse os pid (.create parent name mode flags)) =
        s.createdAt X os (getSid os pid) p flags b fd attr := by rw [step, ho]
    have hnew : (s.step X (.fuse os pid (.create parent name mode flags))).IsHash X p
        (hashContent X x) := by
      rw [hst]
      exact ⟨x, hx, rfl⟩
    have hfresh : Fresh X S p (s.step X (.fuse os pid (.create parent name mode flags))) := by
      intro r hr
      rw [hst, createdAt, CasTable.getReaderHash_ensureEntry, CasTable.getReaderHash_recordReader,
        if_pos ⟨hsid.symm, rfl⟩, hhash] at hr
      rw [← Option.some.inj hr]
      exact hnew
    have hhandles : (s.step X (.fuse os pid (.create parent name mode flags))).fileHandles =
        (s.fileHandles.alloc fd p flags (some (hashContent X x)) S).1 := by
      rw [hst, createdAt, hhash, hsid]
    have howner : (s.step X (.fuse os pid (.create parent name mode flags))).casTable.owner p =
        s.casTable.owner p := by
      rw [hst, createdAt, CasTable.owner_ensureEntry, CasTable.owner_recordReader]
    rw [Notes.note, if_pos hn', ho]
    by_cases hm : accessMode flags = O_RDONLY
    · refine hs.refreshed (hs.sids_alloc hhandles) ?_ howner hfresh hcontent hkept rfl
      intro fh h
      rw [writeHandle_alloc hhandles]
      simp [hm]
    · refine hs.opened (hno hm) hm hhandles ?_ (fun _ => hfresh) (fun _ => ⟨hfresh, ?_⟩) ?_ rfl
      · intro fh hfh
        rw [howner, hs.owner_of_no_writer (hno hm)] at hfh
        cases hfh
      · intro r hr
        rw [← Option.some.inj hr]
        exact hnew
      · intro hnone
        obtain ⟨y, hy, -⟩ := hnew
        rw [hnone] at hy
        cases hy

theorem settled_setattr {os : Os} {pid ino : ℕ} {a : SetattrArgs} (hs : Settled X S p s g)
    (hc : Alone X S p s g (.fuse os pid (.setattr ino a)))
    (hrec : Recorded S p s g (.fuse os pid (.setattr ino a)))
    (hn : Names s p (.fuse os pid (.setattr ino a))) :
    Settled X S p (s.step X (.fuse os pid (.setattr ino a)))
      (g.note X p s (.fuse os pid (.setattr ino a))) := by
  have hout := s.step_out X (.fuse os pid (.setattr ino a))
  generalize ho : s.out X (.fuse os pid (.setattr ino a)) = out at hout
  obtain ⟨hsid, hread, hcarry⟩ := hc.own hn
  have hn' : s.inodes.getPath ino = some p := hn
  have hkeeps : s.KeepsName p (.fuse os pid (.setattr ino a)) := trivial
  rw [Notes.note, if_pos hn']
  -- the truncation got past the check, if there was one, and may have changed the file
  have hcut : ∀ {rel size cas}, s.Truncating ino a rel size → s.Passed X os rel a.fh cas →
      (s.step X (.fuse os pid (.setattr ino a))).fileHandles = s.fileHandles →
      (s.step X (.fuse os pid (.setattr ino a))).casTable = cas →
      Settled X S p (s.step X (.fuse os pid (.setattr ino a))) { g with
        truncated := g.truncated || s.changes X p (.fuse os pid (.setattr ino a)) } := by
    intro rel size cas ht hpass hhandles hcas
    obtain rfl := Option.some.inj (hn'.symm.trans ht.path)
    have hsize : a.size ≠ none := by rw [ht.size]; simp
    have hlive : ∀ fh h, h.path = p →
        ((s.step X (.fuse os pid (.setattr ino a))).fileHandles.get fh = some h ↔
          s.fileHandles.get fh = some h) := fun fh h _ => by rw [hhandles]
    refine hs.transfer (hs.sids_congr hlive) (writeHandle_congr hlive) ?_ ?_ ?_ ?_
      (fun h => content_of_step_none hkeeps h) rfl
    · intro fh hfh
      rw [hcas] at hfh
      rcases hpass with ⟨-, rfl⟩ | ⟨fh', hfh', hg⟩
      · exact hs.owner fh hfh
      · rw [hg.owner, if_pos rfl] at hfh
        obtain rfl := Option.some.inj hfh
        exact hcarry hsize _ hfh'
    · intro r hr
      rw [hcas] at hr
      rcases hpass with ⟨-, rfl⟩ | ⟨fh', -, hg⟩
      · exact hr
      · exact (CasTable.getReaderHash_congr hg.receipts S p).symm.trans hr
    · intro h
      obtain ⟨hold, hch⟩ := Bool.or_eq_false_iff.mp h
      exact ⟨hold, fun x hx => content_of_unchanged hch hx⟩
    · intro hnone fh h hw
      rw [hcas] at hnone
      rcases hpass with ⟨hno, rfl⟩ | ⟨fh', -, hg⟩
      · rw [hrec hsize hno fh h hw] at hnone; cases hnone
      · rw [hg.owner, if_pos rfl] at hnone; cases hnone
  cases hout with
  | passive hp => cases hp
  | nameStale rel w hf _ => cases hf
  | idle hi => simp at hi
  | failed e _ =>
    have hst : s.step X (.fuse os pid (.setattr ino a)) = s := by rw [step, ho]; rfl
    exact hs.unchanged hst (fun h => (Bool.or_eq_false_iff.mp h).1) rfl
  | truncateRejected rel fh size e ht hfh hr =>
    obtain rfl := Option.some.inj (hn'.symm.trans ht.path)
    exact absurd hr (hs.setattr_passes (hc.own hn) ht.size hfh e)
  | notTruncated rel size cas e ht hpass _ =>
    exact hcut ht hpass (by rw [step, ho]; rfl) (by rw [step, ho]; rfl)
  | truncated rel size cas b b' r ht hpass _ _ =>
    exact hcut ht hpass (by rw [step, ho]) (by rw [step, ho])
  | attributes b' r hsize hsame =>
    refine hs.sameAt (by rw [step, ho]; exact .of_eq rfl rfl) ?_
      (fun h => (Bool.or_eq_false_iff.mp h).1) rfl
    exact fun x hx => step_content hkeeps (fun o _ hhit => hhit.1 hsize) hx

/-- A write makes its handle the owner and leaves the receipts alone. -/
theorem Settled.write_st (hs : Settled X S p s g) {os : Os} {pid ino fh offset : ℕ} {data : Bytes}
    {h : HandleState} (hread : os.unreadable p = false) (hw : s.WriteHandle p fh h)
    (hreal : isDibsIno ino = false) :
    ∃ cas b, s.step X (.fuse os pid (.write ino fh offset data)) = { s with
        casTable := cas
        fileHandles := s.fileHandles.modify fh fun h => { h with hasWritten := true }
        backing := b } ∧
      cas.owner p = some fh ∧ cas.getReaderHash S p = s.casTable.getReaderHash S p := by
  rcases s.writeGuard_cases X os fh h data with ⟨cas, heq, hg⟩ | ⟨e, hnone, hcheck, -⟩
  · obtain ⟨b, hb, -⟩ := writeThrough_st { s with casTable := cas } os fh h offset data
    refine ⟨cas, b, ?_, ?_⟩
    · simp only [step, out, handle, write, hreal, Bool.false_eq_true, if_false, hw.live, heq, hb]
    · rcases hg with ⟨hsome, rfl⟩ | ⟨-, hg⟩
      · rw [hw.path] at hsome
        exact ⟨(hs.owner_eq hw).resolve_left hsome, rfl⟩
      · rw [hw.path] at hg
        exact ⟨(hg.owner p).trans (if_pos rfl), CasTable.getReaderHash_congr hg.receipts S p⟩
  · -- the check of the only write handle goes through
    rw [hw.path] at hnone hcheck
    rw [hs.sids fh h hw.live hw.path] at hcheck
    exact absurd (Or.inr ⟨hnone, hcheck⟩) (hs.handle_passes hread hw e)

theorem settled_write {os : Os} {pid ino fh offset : ℕ} {data : Bytes} (hs : Settled X S p s g)
    (hc : Alone X S p s g (.fuse os pid (.write ino fh offset data)))
    (hn : Names s p (.fuse os pid (.write ino fh offset data))) :
    Settled X S p (s.step X (.fuse os pid (.write ino fh offset data)))
      (g.note X p s (.fuse os pid (.write ino fh offset data))) := by
  obtain ⟨-, hread, h, hw⟩ := hc.own hn
  have hkeeps : s.KeepsName p (.fuse os pid (.write ino fh offset data)) := trivial
  cases hreal : isDibsIno ino with
  | true =>
    have hst : s.step X (.fuse os pid (.write ino fh offset data)) = s := by
      simp [step, out, handle, write, hreal, fail]
    have hnote : g.note X p s (.fuse os pid (.write ino fh offset data)) = g := by
      simp [Notes.note, hw.live, hreal]
    rw [hnote]
    exact hs.unchanged hst id rfl
  | false =>
    have hnote : g.note X p s (.fuse os pid (.write ino fh offset data)) =
        { g with unflushed := true } := by
      simp [Notes.note, hw.live, hreal, hw.path]
    obtain ⟨cas, b, hst, howner, hreceipts⟩ := hs.write_st hread hw hreal
    -- the write handle is marked, and it is the only one
    have honly : ∀ k h', (s.step X (.fuse os pid (.write ino fh offset data))).WriteHandle p k h' →
        k = fh ∧ h' = { h with hasWritten := true } := by
      rintro k h' ⟨hlive, hpath, hmode⟩
      rw [hst, HandleTable.get_modify] at hlive
      split at hlive
      · rename_i heq
        rw [heq, hw.live, Option.map_some] at hlive
        exact ⟨heq, (Option.some.inj hlive).symm⟩
      · rename_i hne
        exact absurd (hs.one k fh h' h ⟨hlive, hpath, hmode⟩ hw) hne
    have hself : (s.step X (.fuse os pid (.write ino fh offset data))).WriteHandle p fh
        { h with hasWritten := true } := by
      refine ⟨?_, hw.path, hw.mode⟩
      rw [hst, HandleTable.get_modify, if_pos rfl, hw.live, Option.map_some]
    rw [hnote]
    refine ⟨?_, ?_, ?_, (fun _ hu => by cases hu), ?_, ?_, fun _ => ⟨fh, _, hself, rfl⟩⟩
    · intro k h' hlive hpath
      rw [hst, HandleTable.get_modify] at hlive
      split at hlive
      · obtain ⟨h₀, hh₀, rfl⟩ := Option.map_eq_some_iff.mp hlive
        exact hs.sids k h₀ hh₀ hpath
      · exact hs.sids k h' hlive hpath
    · intro k k' h₁ h₂ hw₁ hw₂
      rw [(honly k h₁ hw₁).1, (honly k' h₂ hw₂).1]
    · intro k hk
      rw [hst, howner] at hk
      obtain rfl := Option.some.inj hk
      exact ⟨_, hself⟩
    · intro hnone
      rw [hst, howner] at hnone
      cases hnone
    · intro hnone
      obtain ⟨hr, hno⟩ := hs.missing (content_of_step_none hkeeps hnone)
      refine ⟨?_, fun k h' hw' => ?_⟩
      · rw [hst, hreceipts]; exact hr
      · rw [(honly k h' hw').2]
        exact hno fh h hw

/-- The note a flush leaves of an unflushed write. -/
theorem Settled.unflushed_kept (hs : Settled X S p s g) {fh : ℕ} {h : HandleState}
    (hlive : s.fileHandles.get fh = some h) (hpath : h.path = p) (hnot : h.hasWritten = false) :
    (g.unflushed && decide (accessMode h.flags = O_RDONLY)) = g.unflushed := by
  by_cases hm : accessMode h.flags = O_RDONLY
  · simp [hm]
  · cases hu : g.unflushed with
    | false => rfl
    | true =>
      obtain ⟨k, h', hw', hwr⟩ := hs.writing hu
      obtain rfl := hs.one fh k h h' ⟨hlive, hpath, hm⟩ hw'
      obtain rfl := Option.some.inj (hlive.symm.trans hw'.live)
      rw [hnot] at hwr
      cases hwr

theorem settled_stored {os : Os} {fh : ℕ} {h : HandleState} {x : Bytes} {g' : Notes}
    (hs : Settled X S p s g) (hlive : s.fileHandles.get fh = some h) (hpath : h.path = p)
    (hx : s.backing.content p = some x)
    (hunfl : g'.unflushed = (g.unflushed && decide (accessMode h.flags = O_RDONLY))) :
    Settled X S p (s.stored os fh h (hashContent X x)) g' := by
  have hget : ∀ k, (s.stored os fh h (hashContent X x)).fileHandles.get k =
      if k = fh then some { h with hashAtOpen := some (hashContent X x), hasWritten := false }
      else s.fileHandles.get k := by
    intro k
    rw [stored, HandleTable.get_modify]
    split
    · rename_i heq; rw [heq, hlive]; rfl
    · rfl
  have hwrite : ∀ k h', (s.stored os fh h (hashContent X x)).WriteHandle p k h' →
      (k = fh ∧ h'.hashAtOpen = some (hashContent X x) ∧ s.WriteHandle p k h) ∨
        (k ≠ fh ∧ s.WriteHandle p k h') := by
    rintro k h' ⟨hlive', hpath', hmode'⟩
    rw [hget] at hlive'
    split at hlive'
    · rename_i heq
      subst heq
      obtain rfl := Option.some.inj hlive'
      exact Or.inl ⟨rfl, rfl, hlive, hpath, hmode'⟩
    · rename_i hne
      exact Or.inr ⟨hne, hlive', hpath', hmode'⟩
  have hwrite' : ∀ k h', s.WriteHandle p k h' →
      ∃ h'', (s.stored os fh h (hashContent X x)).WriteHandle p k h'' := by
    intro k h' hw
    by_cases hk : k = fh
    · subst hk
      obtain rfl := Option.some.inj (hlive.symm.trans hw.live)
      exact ⟨_, (hget k).trans (if_pos rfl), hpath, hw.mode⟩
    · exact ⟨h', by rw [hget, if_neg hk]; exact hw.live, hw.path, hw.mode⟩
  have hfresh : Fresh X S p (s.stored os fh h (hashContent X x)) := by
    intro r hr
    rw [stored, CasTable.getReaderHash_releaseWrite, CasTable.getReaderHash_updateReader,
      if_pos ⟨(hs.sids fh h hlive hpath).symm, hpath.symm⟩] at hr
    exact ⟨x, hx, Option.some.inj hr⟩
  refine ⟨?_, ?_, ?_, fun _ _ => hfresh, ?_, ?_, ?_⟩
  · intro k h' hlive' hpath'
    rw [hget] at hlive'
    split at hlive'
    · obtain rfl := Option.some.inj hlive'
      exact hs.sids fh h hlive hpath
    · exact hs.sids k h' hlive' hpath'
  · intro k k' h₁ h₂ hw₁ hw₂
    have hold : ∀ {k h'}, (s.stored os fh h (hashContent X x)).WriteHandle p k h' →
        ∃ h'', s.WriteHandle p k h'' := by
      intro k h' hw
      rcases hwrite k h' hw with ⟨-, -, hw'⟩ | ⟨-, hw'⟩ <;> exact ⟨_, hw'⟩
    obtain ⟨h₁', hw₁'⟩ := hold hw₁
    obtain ⟨h₂', hw₂'⟩ := hold hw₂
    exact hs.one k k' h₁' h₂' hw₁' hw₂'
  · intro k hk
    have hold : (s.casTable.updateReader os.now h.sid h.path (hashContent X x)).owner p = some k :=
      owner_of_releaseWrite hk
    obtain ⟨h', hw⟩ := hs.owner k hold
    exact hwrite' k h' hw
  · intro hnone k h' hw
    refine ⟨hfresh, fun r hr => ?_⟩
    rcases hwrite k h' hw with ⟨-, hhash, -⟩ | ⟨hne, hw'⟩
    · exact ⟨x, hx, Option.some.inj (hhash.symm.trans hr)⟩
    · -- the flushed handle is a reader, so it was not the owner
      rcases hs.owner_eq hw' with ho | ho
      · exact (hs.idle ho k h' hw').2 r hr
      · have hstill : (s.stored os fh h (hashContent X x)).casTable.owner p = some k :=
          owner_releaseWrite_keep (t := s.casTable.updateReader os.now h.sid h.path (hashContent X x))
            ho fun heq => hne heq.2
        rw [hnone] at hstill
        cases hstill
  · intro hnone
    rw [show (s.stored os fh h (hashContent X x)).backing = s.backing from rfl, hx] at hnone
    cases hnone
  · intro hu
    rw [hunfl] at hu
    obtain ⟨hu, hm⟩ := Bool.and_eq_true_iff.mp hu
    obtain ⟨k, h', hw, hwr⟩ := hs.writing hu
    have hne : k ≠ fh := by
      rintro rfl
      obtain rfl := Option.some.inj (hlive.symm.trans hw.live)
      exact hw.mode (of_decide_eq_true hm)
    exact ⟨k, h', ⟨by rw [hget, if_neg hne]; exact hw.live, hw.path, hw.mode⟩, hwr⟩

/-- There is nothing left to compare with: no receipt, and no hash in the write handle. -/
theorem Settled.bare {s' : DibsFs} {g' : Notes} (hs : Settled X S p s g)
    (hhandles : s'.fileHandles = s.fileHandles)
    (howner : ∀ fh, s'.casTable.owner p = some fh → s.casTable.owner p = some fh)
    (hreceipt : s'.casTable.getReaderHash S p = none) (hno : s.NoHash p)
    (hunfl : g'.unflushed = true → g.unflushed = true) : Settled X S p s' g' := by
  have hlive : ∀ fh h, h.path = p →
      (s'.fileHandles.get fh = some h ↔ s.fileHandles.get fh = some h) :=
    fun fh h _ => by rw [hhandles]
  have hwrite := writeHandle_congr hlive
  have hfresh : Fresh X S p s' := by
    intro r hr
    rw [hreceipt] at hr
    cases hr
  have hno' : s'.NoHash p := fun fh h hw => hno fh h ((hwrite fh h).mp hw)
  refine ⟨hs.sids_congr hlive, ?_, ?_, fun _ _ => hfresh, ?_, fun _ => ⟨hreceipt, hno'⟩, ?_⟩
  · intro fh fh' h h' hw hw'
    exact hs.one fh fh' h h' ((hwrite fh h).mp hw) ((hwrite fh' h').mp hw')
  · intro fh ho
    obtain ⟨h, hw⟩ := hs.owner fh (howner fh ho)
    exact ⟨h, (hwrite fh h).mpr hw⟩
  · intro _ fh h hw
    refine ⟨hfresh, fun r hr => ?_⟩
    rw [hno' fh h hw] at hr
    cases hr
  · intro hu
    obtain ⟨fh, h, hw, hwr⟩ := hs.writing (hunfl hu)
    exact ⟨fh, h, (hwrite fh h).mpr hw, hwr⟩

theorem settled_flush {os : Os} {pid ino fh : ℕ} (hs : Settled X S p s g)
    (hc : Alone X S p s g (.fuse os pid (.flush ino fh)))
    (hn : Names s p (.fuse os pid (.flush ino fh))) :
    Settled X S p (s.step X (.fuse os pid (.flush ino fh)))
      (g.note X p s (.fuse os pid (.flush ino fh))) := by
  have hout := s.step_out X (.fuse os pid (.flush ino fh))
  generalize ho : s.out X (.fuse os pid (.flush ino fh)) = out at hout
  obtain ⟨-, hread, -⟩ := hc.own hn
  obtain ⟨h, hlive, hpath⟩ := hn
  have hnote : isDibsIno ino = false → g.note X p s (.fuse os pid (.flush ino fh)) =
      { truncated := g.truncated && !h.hasWritten
        unflushed := g.unflushed && decide (accessMode h.flags = O_RDONLY) } := by
    intro hreal
    simp [Notes.note, hlive, hreal, hpath]
  cases hout with
  | passive hp => cases hp
  | failed e hf => cases hf
  | nameStale rel w hf _ => cases hf
  | idle hi =>
    have hst : s.step X (.fuse os pid (.flush ino fh)) = s := by rw [step, ho]
    cases hreal : isDibsIno ino with
    | true =>
      have hsame : g.note X p s (.fuse os pid (.flush ino fh)) = g := by
        simp [Notes.note, hlive, hreal]
      rw [hsame]
      exact hs.unchanged hst id rfl
    | false =>
      have hnot : h.hasWritten = false := by
        rcases hi with ⟨heq, hd | hidle⟩ | ⟨heq, -⟩
        · cases heq; rw [hd] at hreal; cases hreal
        · cases heq; exact hidle h hlive
        · cases heq
      rw [hnote hreal]
      exact hs.unchanged hst (by simp [hnot]) (hs.unflushed_kept hlive hpath hnot)
  | flushed h' newHash hreal hlive' hw hhash =>
    obtain rfl := Option.some.inj (hlive.symm.trans hlive')
    rw [hpath, hashFile_of_content hread] at hhash
    obtain ⟨x, hx, rfl⟩ := Option.map_eq_some_iff.mp hhash
    rw [hnote hreal, step, ho]
    exact settled_stored hs hlive hpath hx rfl
  | flushedUnhashed h' hreal hlive' hw hhash =>
    obtain rfl := Option.some.inj (hlive.symm.trans hlive')
    rw [hpath, hashFile_of_content hread] at hhash
    obtain ⟨hr, hno⟩ := hs.missing (Option.map_eq_none_iff.mp hhash)
    rw [hnote hreal, step, ho]
    refine hs.bare rfl (fun _ hk => owner_of_releaseWrite hk) ?_ hno
      (fun hu => (Bool.and_eq_true_iff.mp hu).1)
    exact (CasTable.getReaderHash_releaseWrite ..).trans hr

theorem settled_release {os : Os} {pid ino fh : ℕ} (hs : Settled X S p s g)
    (hc : Alone X S p s g (.fuse os pid (.release ino fh)))
    (hn : Names s p (.fuse os pid (.release ino fh))) :
    Settled X S p (s.step X (.fuse os pid (.release ino fh))) g := by
  obtain ⟨-, -, hflushed⟩ := hc.own hn
  obtain ⟨h, hlive, hpath⟩ := hn
  have hst : s.step X (.fuse os pid (.release ino fh)) = s.released fh h := by
    simp [step, out, handle, release, hlive, released]
  have hcontent : (s.released fh h).backing.content p = s.backing.content p := by
    simp only [DibsFs.released]
    split
    · rw [Backing.content, Backing.fileAt_close]
      rfl
    · rfl
  have hhash : ∀ {r}, s.IsHash X p r → (s.released fh h).IsHash X p r := by
    rintro r ⟨x, hx, hr⟩
    exact ⟨x, hcontent.trans hx, hr⟩
  have hreceipt : (s.released fh h).casTable.getReaderHash S p = s.casTable.getReaderHash S p :=
    CasTable.getReaderHash_releaseWrite ..
  have hwrite : ∀ k h', (s.released fh h).WriteHandle p k h' ↔ s.WriteHandle p k h' ∧ k ≠ fh := by
    intro k h'
    constructor
    · rintro ⟨hlive', hpath', hmode'⟩
      rw [DibsFs.released, HandleTable.get_remove] at hlive'
      split at hlive'
      · cases hlive'
      · rename_i hne; exact ⟨⟨hlive', hpath', hmode'⟩, hne⟩
    · rintro ⟨hw, hne⟩
      refine ⟨?_, hw.path, hw.mode⟩
      rw [DibsFs.released, HandleTable.get_remove, if_neg hne]
      exact hw.live
  -- who is not the released handle owns `p` just as before
  have howner : ∀ k h', s.WriteHandle p k h' → k ≠ fh →
      (s.released fh h).casTable.owner p = none → s.casTable.owner p = none := by
    intro k h' hw hne hnone
    rcases hs.owner_eq hw with ho | ho
    · exact ho
    · have hstill : (s.released fh h).casTable.owner p = some k :=
        owner_releaseWrite_keep ho fun heq => hne heq.2
      rw [hnone] at hstill
      cases hstill
  rw [hst]
  refine ⟨?_, ?_, ?_, ?_, ?_, ?_, ?_⟩
  · intro k h' hlive' hpath'
    rw [DibsFs.released, HandleTable.get_remove] at hlive'
    split at hlive'
    · cases hlive'
    · exact hs.sids k h' hlive' hpath'
  · intro k k' h₁ h₂ hw₁ hw₂
    exact hs.one k k' h₁ h₂ ((hwrite k h₁).mp hw₁).1 ((hwrite k' h₂).mp hw₂).1
  · intro k hk
    have hold : s.casTable.owner p = some k := owner_of_releaseWrite hk
    obtain ⟨h', hw⟩ := hs.owner k hold
    refine ⟨h', (hwrite k h').mpr ⟨hw, ?_⟩⟩
    rintro rfl
    rw [DibsFs.released, CasTable.owner_releaseWrite, if_pos ⟨hpath.symm, hold⟩] at hk
    cases hk
  · intro ht hu r hr
    exact hhash (hs.fresh ht hu r (hreceipt.symm.trans hr))
  · intro hnone k h' hw
    obtain ⟨hw', hne⟩ := (hwrite k h').mp hw
    obtain ⟨hf, hown⟩ := hs.idle (howner k h' hw' hne hnone) k h' hw'
    exact ⟨fun r hr => hhash (hf r (hreceipt.symm.trans hr)), fun r hr => hhash (hown r hr)⟩
  · intro hnone
    obtain ⟨hr, hno⟩ := hs.missing (hcontent.symm.trans hnone)
    exact ⟨hreceipt.trans hr, fun k h' hw => hno k h' ((hwrite k h').mp hw).1⟩
  · intro hu
    obtain ⟨k, h', hw, hwr⟩ := hs.writing hu
    refine ⟨k, h', (hwrite k h').mpr ⟨hw, ?_⟩, hwr⟩
    rintro rfl
    rw [hflushed ⟨h', hw⟩] at hu
    cases hu

theorem settled_unlink {os : Os} {pid parent : ℕ} {name : Name} (hs : Settled X S p s g)
    (hrec : Recorded S p s g (.fuse os pid (.unlink parent name)))
    (hn : Names s p (.fuse os pid (.unlink parent name))) :
    Settled X S p (s.step X (.fuse os pid (.unlink parent name))) g := by
  have hout := s.step_out X (.fuse os pid (.unlink parent name))
  generalize ho : s.out X (.fuse os pid (.unlink parent name)) = out at hout
  have hn' : s.resolvePath parent name = p := hn
  cases hout with
  | passive hp => cases hp
  | idle hi => simp at hi
  | failed e _ => exact hs.unchanged (by rw [step, ho]; rfl) id rfl
  | nameStale rel w _ _ => exact hs.unchanged (by rw [step, ho]) id rfl
  | unlinked b _ _ _ =>
    rw [step, ho, hn']
    refine hs.bare rfl ?_ ?_ hrec.2 id
    · intro fh hfh
      simp [CasTable.owner_remove] at hfh
    · simp [CasTable.getReaderHash_remove]

theorem settled_rename {os : Os} {pid parent newparent flags : ℕ} {name newname : Name}
    (hs : Settled X S p s g)
    (hrec : Recorded S p s g (.fuse os pid (.rename parent name newparent newname flags))) :
    Settled X S p (s.step X (.fuse os pid (.rename parent name newparent newname flags))) g := by
  have hout := s.step_out X (.fuse os pid (.rename parent name newparent newname flags))
  generalize ho : s.out X (.fuse os pid (.rename parent name newparent newname flags)) = out at hout
  cases hout with
  | passive hp => cases hp
  | idle hi => simp at hi
  | failed e _ => exact hs.unchanged (by rw [step, ho]; rfl) id rfl
  | nameStale rel w _ _ => exact hs.unchanged (by rw [step, ho]) id rfl
  | renamed b _ _ _ _ hb =>
    obtain ⟨hold, hnew, hno⟩ := hrec b hb
    rw [step, ho, hold]
    refine hs.bare rfl ?_ ?_ hno id
    · intro fh hfh
      simp only [CasTable.owner_rename, if_neg (Ne.symm hnew)] at hfh
      split at hfh
      · exact hfh
      · simp at hfh
    · simp [CasTable.getReaderHash_rename, Ne.symm hnew]

/-- STEP: within the two conditions the invariant is kept. -/
theorem settled_step (hp : p ≠ VIRTUAL_PATH) (hs : Settled X S p s g) (hc : Alone X S p s g c)
    (hrec : Names s p c → Recorded S p s g c) :
    Settled X S p (s.step X c) (g.note X p s c) := by
  by_cases hn : Names s p c
  · have hrec := hrec hn
    cases c with
    | fuse os pid req =>
      cases req with
      | open_ ino flags => exact settled_open hs hc hrec hn
      | create parent name mode flags => exact settled_create hs hc hrec hn
      | setattr ino a => exact settled_setattr hs hc hrec hn
      | write ino fh offset data => exact settled_write hs hc hn
      | flush ino fh => exact settled_flush hs hc hn
      | release ino fh => exact settled_release hs hc hn
      | unlink parent name => exact settled_unlink hs hrec hn
      | rename parent name newparent newname flags => exact settled_rename hs hrec
      | _ => exact absurd hn id
    | evict => exact absurd hn id
    | outside => exact absurd hn id
  · exact settled_unnamed hp hs hc hn

end Dibs.DibsFs
