import Dibs.Proofs.FlushTruth
import Dibs.Proofs.StaleView

/-! What is asked of a session that is alone with a path (`Alone`), what keeps a run away from a hash
    that outlives its content (`Recorded`), and the invariant (`Settled`): at most one write handle,
    which alone can be the owner; a receipt that is the hash of the file unless a truncation or a
    write was noted since; no other hash behind the content while nobody owns the path. In a settled
    state the checks go through, and events about other paths keep it. -/

namespace Dibs.DibsFs

/-- The event is a request about the path `p`. -/
def Names (s : DibsFs) (p : Path) : Call → Prop
  | .fuse _ _ (.open_ ino _) => isDibsIno ino = false ∧ s.inodes.getPath ino = some p
  | .fuse _ _ (.setattr ino _) => s.inodes.getPath ino = some p
  | .fuse _ _ (.write _ fh _ _) => ∃ h, s.fileHandles.get fh = some h ∧ h.path = p
  | .fuse _ _ (.flush _ fh) => ∃ h, s.fileHandles.get fh = some h ∧ h.path = p
  | .fuse _ _ (.release _ fh) => ∃ h, s.fileHandles.get fh = some h ∧ h.path = p
  | .fuse _ _ (.create parent name _ _) => s.resolvePath parent name = p
  | .fuse _ _ (.unlink parent name) => s.resolvePath parent name = p
  | .fuse _ _ (.rename parent name newparent newname _) =>
      s.resolvePath parent name = p ∨ s.resolvePath newparent newname = p
  | _ => False

/-- A live handle on `p` in a write mode. -/
structure WriteHandle (s : DibsFs) (p : Path) (fh : ℕ) (h : HandleState) : Prop where
  live : s.fileHandles.get fh = some h
  path : h.path = p
  mode : accessMode h.flags ≠ O_RDONLY

/-- What an observer of `p` keeps in mind: a truncation that no receipt follows yet, and a write that
    no flush follows yet. -/
structure Notes where
  truncated : Bool := false
  unflushed : Bool := false

/-- The event changes the content of the file at `p`. -/
def changes (X : Ext) (p : Path) (s : DibsFs) (c : Call) : Bool :=
  (s.backing.content p).isSome && decide ((s.step X c).backing.content p ≠ s.backing.content p)

/-- A read-only open, a `create` and a flush after a write leave a receipt for the content as it is
    then, an `O_RDWR` open one for the content before it. -/
def Notes.note (X : Ext) (p : Path) (s : DibsFs) (g : Notes) (c : Call) : Notes :=
  match c with
  | .fuse _ _ (.open_ ino flags) =>
    if isDibsIno ino = false ∧ s.inodes.getPath ino = some p then
      match (s.out X c).reply with
      | .opened _ =>
        if accessMode flags = O_RDONLY then { g with truncated := false }
        else if accessMode flags = O_RDWR then { g with truncated := s.changes X p c }
        else { g with truncated := g.truncated || s.changes X p c }
      | _ => { g with truncated := g.truncated || s.changes X p c }
    else g
  | .fuse _ _ (.create parent name _ _) =>
    if s.resolvePath parent name = p then
      match (s.out X c).reply with
      | .created _ _ => { g with truncated := false }
      | _ => { g with truncated := g.truncated || s.changes X p c }
    else g
  | .fuse _ _ (.setattr ino _) =>
    if s.inodes.getPath ino = some p then { g with truncated := g.truncated || s.changes X p c }
    else g
  | .fuse _ _ (.write ino fh _ _) =>
    match s.fileHandles.get fh with
    | some h => if isDibsIno ino = false ∧ h.path = p then { g with unflushed := true } else g
    | none => g
  | .fuse _ _ (.flush ino fh) =>
    match s.fileHandles.get fh with
    | some h =>
      if isDibsIno ino = false ∧ h.path = p then
        { truncated := g.truncated && !h.hasWritten
          unflushed := g.unflushed && decide (accessMode h.flags = O_RDONLY) }
      else g
    | none => g
  | _ => g

/-- One event of a mount in which `p` is observed. -/
def observeAt (X : Ext) (p : Path) (w : DibsFs × Notes) (c : Call) : DibsFs × Notes :=
  (w.1.step X c, w.2.note X p w.1 c)

/-- What is asked of a request about `p`: it comes from `S` and finds `p` readable, a write handle is
    opened only when there is none, writes and truncations by handle carry a write handle of `p`, and
    a write handle is flushed after its last write before it is released. -/
def OwnRequest (S : ℕ) (p : Path) (s : DibsFs) (g : Notes) : Call → Prop
  | .fuse os pid req => getSid os pid = S ∧ os.unreadable p = false ∧
      match req with
      | .open_ _ flags => accessMode flags ≠ O_RDONLY → ∀ fh h, ¬ s.WriteHandle p fh h
      | .create _ _ _ flags => accessMode flags ≠ O_RDONLY → ∀ fh h, ¬ s.WriteHandle p fh h
      | .write _ fh _ _ => ∃ h, s.WriteHandle p fh h
      | .setattr _ a => a.size ≠ none → ∀ fh, a.fh = some fh → ∃ h, s.WriteHandle p fh h
      | .release _ fh => (∃ h, s.WriteHandle p fh h) → g.unflushed = false
      | _ => True
  | _ => True

/-- `S` is alone with `p`: whatever else happens neither overwrites the file at `p` nor moves it. -/
structure Alone (X : Ext) (S : ℕ) (p : Path) (s : DibsFs) (g : Notes) (c : Call) : Prop where
  own : Names s p c → OwnRequest S p s g c
  others : ¬ Names s p c → ∀ o, s.backing.fileAt p = some o → KeepsName s p c ∧ ¬ Hits X s o c

/-- Every write handle on `p` owns it. -/
def AllOwn (s : DibsFs) (p : Path) : Prop :=
  ∀ fh h, s.WriteHandle p fh h → s.casTable.owner p = some fh

/-- No write handle on `p` has a hash of its own. -/
def NoHash (s : DibsFs) (p : Path) : Prop := ∀ fh h, s.WriteHandle p fh h → h.hashAtOpen = none

/-- What a request about `p` has to keep to so that no hash outlives its content. If `S` has a receipt,
    it opens `O_WRONLY` only when no truncation is left unrecorded, and unlinks only when also no
    write is left unflushed; other requests than those of the write handle truncate only while that
    handle owns `p`; the file leaves `p` only while no write handle has a hash, and no other file is
    moved to `p`. -/
def Recorded (S : ℕ) (p : Path) (s : DibsFs) (g : Notes) : Call → Prop
  | .fuse os _ req =>
      match req with
      | .open_ _ flags =>
          (accessMode flags ≠ O_RDONLY → accessMode flags ≠ O_RDWR →
            s.casTable.getReaderHash S p ≠ none → g.truncated = false) ∧
          (hasFlag flags O_TRUNC = true → s.AllOwn p)
      | .create _ _ _ flags => hasFlag flags O_TRUNC = true → s.AllOwn p
      | .setattr _ a => a.size ≠ none → a.fh = none → s.AllOwn p
      | .unlink _ _ =>
          (s.casTable.getReaderHash S p ≠ none → g.truncated = false ∧ g.unflushed = false) ∧
          s.NoHash p
      | .rename parent name newparent newname _ =>
          ∀ b, s.backing.rename os (s.resolvePath parent name) (s.resolvePath newparent newname) =
              .ok b →
            s.resolvePath parent name = p ∧ s.resolvePath newparent newname ≠ p ∧ s.NoHash p
      | _ => True
  | _ => True

/-- `r` is the hash of the file at `p`. -/
def IsHash (X : Ext) (s : DibsFs) (p : Path) (r : Bytes) : Prop :=
  ∃ x, s.backing.content p = some x ∧ hashContent X x = r

/-- The receipt of `S` for `p`, if there is one, is the hash of the file. -/
def Fresh (X : Ext) (S : ℕ) (p : Path) (s : DibsFs) : Prop :=
  ∀ r, s.casTable.getReaderHash S p = some r → s.IsHash X p r

/-- The invariant: one write handle at a time, which alone can be the owner; the receipt is fresh unless
    a note says otherwise; and while nobody owns `p`, no hash is behind the content. -/
structure Settled (X : Ext) (S : ℕ) (p : Path) (s : DibsFs) (g : Notes) : Prop where
  sids : ∀ fh h, s.fileHandles.get fh = some h → h.path = p → h.sid = S
  one : ∀ fh fh' h h', s.WriteHandle p fh h → s.WriteHandle p fh' h' → fh = fh'
  owner : ∀ fh, s.casTable.owner p = some fh → ∃ h, s.WriteHandle p fh h
  fresh : g.truncated = false → g.unflushed = false → Fresh X S p s
  idle : s.casTable.owner p = none → ∀ fh h, s.WriteHandle p fh h →
    Fresh X S p s ∧ ∀ r, h.hashAtOpen = some r → s.IsHash X p r
  missing : s.backing.content p = none →
    s.casTable.getReaderHash S p = none ∧ s.NoHash p
  writing : g.unflushed = true → ∃ fh h, s.WriteHandle p fh h ∧ h.hasWritten = true

variable {X : Ext} {S : ℕ} {p : Path} {s : DibsFs} {g : Notes} {c : Call}

theorem settled_mount (b : Backing) (os : Os) (sc : Bool) (sid : Bytes) :
    Settled X S p (mount b os sc sid) {} where
  sids := fun fh h hh => by cases hh
  one := fun fh fh' h h' hw => by cases hw.live
  owner := fun fh ho => by simp [mount] at ho
  fresh := fun _ _ r hr => by cases hr
  idle := fun _ fh h hw => by cases hw.live
  missing := fun _ => ⟨rfl, fun fh h hw => by cases hw.live⟩
  writing := fun h => by cases h

/-! ### The file at `p` -/

/-- A file whose name is kept stays at `p`. -/
theorem step_fileAt (hk : s.KeepsName p c) {o : ℕ} (ho : s.backing.fileAt p = some o) :
    (s.step X c).backing.fileAt p = some o :=
  Backing.fileAt_iff_target.mpr (step_target hk (Backing.fileAt_iff_target.mp ho))

/-- A file that is neither moved nor hit keeps its content. -/
theorem step_content (hk : s.KeepsName p c)
    (hno : ∀ o, s.backing.fileAt p = some o → ¬ Hits X s o c) {x : Bytes}
    (hx : s.backing.content p = some x) : (s.step X c).backing.content p = some x := by
  obtain ⟨o, ho, rfl⟩ := Option.map_eq_some_iff.mp hx
  rw [Backing.content, step_fileAt hk ho, Option.map_some,
    step_data X c (Backing.fileAt_lt ho) (hno o ho)]

/-- A file whose name is kept does not vanish. -/
theorem content_of_step_none (hk : s.KeepsName p c)
    (hnone : (s.step X c).backing.content p = none) : s.backing.content p = none := by
  cases ho : s.backing.fileAt p with
  | none => rw [Backing.content, ho, Option.map_none]
  | some o =>
    rw [Backing.content, step_fileAt hk ho] at hnone
    cases hnone

/-- Nothing noted, nothing changed. -/
theorem content_of_unchanged (hch : s.changes X p c = false) {x : Bytes}
    (hx : s.backing.content p = some x) : (s.step X c).backing.content p = some x := by
  simp only [changes, hx, Option.isSome_some, Bool.true_and, decide_eq_false_iff_not,
    not_not] at hch
  exact hch

/-- The hash of the file is what `hash_file` returns. -/
theorem hashFile_of_content {b : Backing} {os : Os} (hread : os.unreadable p = false) :
    hashFile X b os p = (b.content p).map (hashContent X) := by
  simp [hashFile, hread]

theorem IsHash.eq_getD {os : Os} (hread : os.unreadable p = false) {r : Bytes}
    (hr : s.IsHash X p r) : r = (hashFile X s.backing os p).getD [] := by
  obtain ⟨x, hx, rfl⟩ := hr
  rw [hashFile_of_content hread, hx]
  rfl

/-! ### Events about other paths -/

/-- What matters about the tables for `p`: no handle, owner or receipt is new. -/
structure SameAt (S : ℕ) (p : Path) (s s' : DibsFs) : Prop where
  handles : ∀ fh h, h.path = p → (s'.fileHandles.get fh = some h ↔ s.fileHandles.get fh = some h)
  owner : s'.casTable.owner p = s.casTable.owner p
  receipt : ∀ r, s'.casTable.getReaderHash S p = some r → s.casTable.getReaderHash S p = some r

theorem SameAt.of_eq {s' : DibsFs} (hh : s'.fileHandles = s.fileHandles)
    (hc : s'.casTable = s.casTable) : SameAt S p s s' where
  handles := fun fh h _ => by rw [hh]
  owner := by rw [hc]
  receipt := fun r hr => by rw [hc] at hr; exact hr

/-- A new handle for another path. -/
theorem get_alloc_other {t : HandleTable} {fd : ℤ} {rel : Path} {flags : OpenFlags}
    {hash : Option Bytes} {sid fh : ℕ} {h : HandleState} (hne : rel ≠ p) (hp : h.path = p) :
    (t.alloc fd rel flags hash sid).1.get fh = some h ↔ t.get fh = some h := by
  rw [HandleTable.get_alloc]
  split
  · rename_i heq
    rw [heq, HandleTable.get_nextFh]
    constructor
    · intro hsome
      obtain rfl := Option.some.inj hsome
      exact absurd hp hne
    · intro hsome; cases hsome
  · rfl

/-- A change of a handle for another path. -/
theorem get_modify_other {t : HandleTable} {f : HandleState → HandleState} {fh₀ fh : ℕ}
    {h₀ h : HandleState} (hh₀ : t.get fh₀ = some h₀) (hf : (f h₀).path = h₀.path)
    (hne : h₀.path ≠ p) (hp : h.path = p) :
    (t.modify fh₀ f).get fh = some h ↔ t.get fh = some h := by
  rw [HandleTable.get_modify]
  split
  · rename_i heq
    rw [heq, hh₀, Option.map_some]
    constructor
    · intro hsome
      obtain rfl := Option.some.inj hsome
      exact absurd (hf.symm.trans hp) hne
    · intro hsome
      obtain rfl := Option.some.inj hsome
      exact absurd hp hne
  · rfl

theorem owner_releaseWrite_ne {t : CasTable} {path : Path} {fh : ℕ} (hne : path ≠ p) :
    (t.releaseWrite path fh).owner p = t.owner p := by
  rw [CasTable.owner_releaseWrite, if_neg fun h => hne h.1.symm]

theorem owner_of_grants_ne {t t' : CasTable} {path : Path} {fh sid : ℕ} {handles : HandleTable}
    {actual : Bytes} (hg : t.Grants t' path fh sid handles actual) (hne : path ≠ p) :
    t'.owner p = t.owner p := by
  rw [hg.owner, if_neg (Ne.symm hne)]

theorem getReaderHash_recordReader_ne {t : CasTable} {now : Time} {path : Path} {hash : Bytes}
    {sid : ℕ} (hne : path ≠ p) :
    (t.recordReader now path hash sid).getReaderHash S p = t.getReaderHash S p := by
  rw [CasTable.getReaderHash_recordReader, if_neg fun h => hne h.2.symm]

/-- The table a truncation elsewhere starts from. -/
theorem passed_other {os : Os} {rel : Path} {fh : Option ℕ} {cas : CasTable}
    (hpass : s.Passed X os rel fh cas) (hne : rel ≠ p) :
    cas.owner p = s.casTable.owner p ∧ cas.getReaderHash S p = s.casTable.getReaderHash S p := by
  rcases hpass with ⟨-, rfl⟩ | ⟨fh', -, hg⟩
  · exact ⟨rfl, rfl⟩
  · exact ⟨owner_of_grants_ne hg hne, CasTable.getReaderHash_congr hg.receipts S p⟩

/-- FRAME: an event that does not name `p` leaves all about `p` in the tables alone. -/
theorem step_unnamed (X : Ext) (hp : p ≠ VIRTUAL_PATH) (hn : ¬ Names s p c) :
    SameAt S p s (s.step X c) := by
  have hout := s.step_out X c
  rw [step]
  generalize s.out X c = out at hout
  cases hout with
  | passive hq =>
    exact .of_eq (s.handle_passive X _ hq _).handles (s.handle_passive X _ hq _).cas
  | openVirtual _ => exact ⟨fun _ _ hh => get_alloc_other (Ne.symm hp) hh, rfl, fun _ h => h⟩
  | openRead rel b fd hop _ =>
    have hne : rel ≠ p := fun heq => hn ⟨hop.real, by rw [← heq]; exact hop.path⟩
    refine ⟨fun _ _ hh => get_alloc_other hne hh, ?_, fun r hr => ?_⟩
    · simp only [openRead]
      split <;> rfl
    · simp only [openRead] at hr
      split at hr
      · rw [getReaderHash_recordReader_ne hne] at hr; exact hr
      · exact hr
  | openRejected rel b fd actual e hop _ _ _ =>
    refine ⟨fun _ _ _ => by rw [refusedOpen, opening, HandleTable.get_remove_alloc], ?_, ?_⟩
    · exact CasTable.owner_ensureEntry ..
    · exact fun r hr => (CasTable.getReaderHash_ensureEntry ..).symm.trans hr
  | @openGranted os pid ino flags rel b fd actual cas hop _ _ hg =>
    have hne : rel ≠ p := fun heq => hn ⟨hop.real, by rw [← heq]; exact hop.path⟩
    have hcas := CasTable.getReaderHash_congr hg.receipts S p
    have howner : cas.owner p = s.casTable.owner p := owner_of_grants_ne hg hne
    refine ⟨fun _ _ hh => get_alloc_other hne hh, ?_, fun r hr => ?_⟩
    · simp only [grantedOpen]
      split <;> exact howner
    · simp only [grantedOpen] at hr
      split at hr
      · rw [getReaderHash_recordReader_ne hne] at hr; exact hcas.symm.trans hr
      · exact hcas.symm.trans hr
  | openUnhashed rel b fd hop _ _ =>
    have hne : rel ≠ p := fun heq => hn ⟨hop.real, by rw [← heq]; exact hop.path⟩
    refine ⟨fun _ _ hh => get_alloc_other hne hh, CasTable.owner_ensureEntry .., ?_⟩
    exact fun r hr => (CasTable.getReaderHash_ensureEntry ..).symm.trans hr
  | truncateRejected rel fh size e _ _ _ =>
    refine ⟨fun _ _ _ => Iff.rfl, CasTable.owner_ensureEntry .., ?_⟩
    exact fun r hr => (CasTable.getReaderHash_ensureEntry ..).symm.trans hr
  | notTruncated rel size cas e ht hpass _ =>
    have hne : rel ≠ p := fun heq => hn (by rw [← heq]; exact ht.path)
    obtain ⟨howner, hreceipt⟩ := passed_other hpass hne
    exact ⟨fun _ _ _ => Iff.rfl, howner, fun r hr => hreceipt.symm.trans hr⟩
  | truncated rel size cas b b' r ht hpass _ _ =>
    have hne : rel ≠ p := fun heq => hn (by rw [← heq]; exact ht.path)
    obtain ⟨howner, hreceipt⟩ := passed_other hpass hne
    exact ⟨fun _ _ _ => Iff.rfl, howner, fun r hr => hreceipt.symm.trans hr⟩
  | writeRejected h e _ _ _ _ =>
    simp only [saveConflict]
    split <;> exact ⟨fun _ _ _ => Iff.rfl, CasTable.owner_ensureEntry ..,
      fun r hr => (CasTable.getReaderHash_ensureEntry ..).symm.trans hr⟩
  | @writeThrough os pid ino fh offset data h cas _ hh hg =>
    have hne : h.path ≠ p := fun heq => hn ⟨h, hh, heq⟩
    obtain ⟨b, hst, -⟩ := writeThrough_st { s with casTable := cas } os fh h offset data
    rw [hst]
    refine ⟨fun _ _ hq => get_modify_other hh rfl hne hq, ?_, fun r hr => ?_⟩
    · rcases hg with ⟨-, rfl⟩ | ⟨-, hg⟩
      · rfl
      · exact owner_of_grants_ne hg hne
    · rcases hg with ⟨-, rfl⟩ | ⟨-, hg⟩
      · exact hr
      · exact (CasTable.getReaderHash_congr hg.receipts S p).symm.trans hr
  | @flushed os pid ino fh h newHash _ hh _ _ =>
    have hne : h.path ≠ p := fun heq => hn ⟨h, hh, heq⟩
    refine ⟨fun _ _ hq => get_modify_other hh rfl hne hq, owner_releaseWrite_ne hne, fun r hr => ?_⟩
    rw [stored, CasTable.getReaderHash_releaseWrite, CasTable.getReaderHash_updateReader,
      if_neg fun h => hne h.2.symm] at hr
    exact hr
  | flushedUnhashed h _ hh _ _ =>
    have hne : h.path ≠ p := fun heq => hn ⟨h, hh, heq⟩
    refine ⟨fun _ _ _ => Iff.rfl, owner_releaseWrite_ne hne, fun r hr => ?_⟩
    exact (CasTable.getReaderHash_releaseWrite ..).symm.trans hr
  | @released os pid ino fh h hh =>
    have hne : h.path ≠ p := fun heq => hn ⟨h, hh, heq⟩
    refine ⟨fun k h' hq => ?_, owner_releaseWrite_ne hne, fun r hr => ?_⟩
    · rw [DibsFs.released, HandleTable.get_remove]
      split
      · rename_i heq
        rw [heq, hh]
        refine iff_of_false (by simp) fun hsome => ?_
        obtain rfl := Option.some.inj hsome
        exact hne hq
      · rfl
    · exact (CasTable.getReaderHash_releaseWrite ..).symm.trans hr
  | @created os pid parent name mode flags b fd attr _ _ =>
    have hne : s.resolvePath parent name ≠ p := hn
    refine ⟨fun _ _ hh => get_alloc_other hne hh, ?_, fun r hr => ?_⟩
    · simp [createdAt]
    · rw [createdAt, CasTable.getReaderHash_ensureEntry, getReaderHash_recordReader_ne hne] at hr
      exact hr
  | @unlinked os pid parent name b _ _ _ =>
    have hne : s.resolvePath parent name ≠ p := hn
    refine ⟨fun _ _ _ => Iff.rfl, ?_, fun r hr => ?_⟩
    · simp only [CasTable.owner_remove, if_neg (Ne.symm hne)]
    · simp only [CasTable.getReaderHash_remove, if_neg (Ne.symm hne)] at hr
      exact hr
  | @renamed os pid parent newparent fl name newname b _ _ _ _ _ =>
    obtain ⟨hold, hnew⟩ : s.resolvePath parent name ≠ p ∧ s.resolvePath newparent newname ≠ p :=
      not_or.mp hn
    refine ⟨fun _ _ _ => Iff.rfl, ?_, fun r hr => ?_⟩
    · simp only [CasTable.owner_rename, if_neg (Ne.symm hold), if_neg (Ne.symm hnew), ite_self]
    · simp only [CasTable.getReaderHash_rename, if_neg (Ne.symm hold), if_neg (Ne.symm hnew)] at hr
      exact hr
  | evict now seconds =>
    exact ⟨fun _ _ _ => Iff.rfl, CasTable.owner_evictOlderThan ..,
      fun r hr => CasTable.getReaderHash_evictOlderThan _ _ hr⟩
  | _ => exact .of_eq rfl rfl

/-- The invariant looks at the write handles, the owner, the receipt and the file of `p` only. With the
    same write handles and no new receipt it is kept, if the file is unchanged unless a truncation is
    noted, and unchanged in any case if nobody owns `p` although there is a write handle. -/
theorem Settled.transfer {s' : DibsFs} {g' : Notes} (hs : Settled X S p s g)
    (hsids : ∀ fh h, s'.fileHandles.get fh = some h → h.path = p → h.sid = S)
    (hwrite : ∀ fh h, s'.WriteHandle p fh h ↔ s.WriteHandle p fh h)
    (howner : ∀ fh, s'.casTable.owner p = some fh → ∃ h, s.WriteHandle p fh h)
    (hreceipt : ∀ r, s'.casTable.getReaderHash S p = some r →
      s.casTable.getReaderHash S p = some r)
    (htrunc : g'.truncated = false → g.truncated = false ∧
      ∀ x, s.backing.content p = some x → s'.backing.content p = some x)
    (hidle : s'.casTable.owner p = none → ∀ fh h, s.WriteHandle p fh h →
      s.casTable.owner p = none ∧
        ∀ x, s.backing.content p = some x → s'.backing.content p = some x)
    (hkept : s'.backing.content p = none → s.backing.content p = none)
    (hunfl : g'.unflushed = g.unflushed) : Settled X S p s' g' := by
  have hhash : (∀ x, s.backing.content p = some x → s'.backing.content p = some x) →
      ∀ {r}, s.IsHash X p r → s'.IsHash X p r := by
    rintro h r ⟨x, hx, hr⟩
    exact ⟨x, h x hx, hr⟩
  refine ⟨hsids, ?_, ?_, ?_, ?_, ?_, ?_⟩
  · intro fh fh' h h' hw hw'
    exact hs.one fh fh' h h' ((hwrite fh h).mp hw) ((hwrite fh' h').mp hw')
  · intro fh ho
    obtain ⟨h, hw⟩ := howner fh ho
    exact ⟨h, (hwrite fh h).mpr hw⟩
  · intro ht hu r hr
    rw [hunfl] at hu
    obtain ⟨hold, hsame⟩ := htrunc ht
    exact hhash hsame (hs.fresh hold hu r (hreceipt r hr))
  · intro ho fh h hw
    have hw' := (hwrite fh h).mp hw
    obtain ⟨hnone, hsame⟩ := hidle ho fh h hw'
    obtain ⟨hf, hown⟩ := hs.idle hnone fh h hw'
    exact ⟨fun r hr => hhash hsame (hf r (hreceipt r hr)), fun r hr => hhash hsame (hown r hr)⟩
  · intro hnone
    obtain ⟨hr, hno⟩ := hs.missing (hkept hnone)
    refine ⟨?_, fun fh h hw => hno fh h ((hwrite fh h).mp hw)⟩
    cases hr' : s'.casTable.getReaderHash S p with
    | none => rfl
    | some r => rw [hreceipt r hr'] at hr; cases hr
  · intro hu
    rw [hunfl] at hu
    obtain ⟨fh, h, hw, hwr⟩ := hs.writing hu
    exact ⟨fh, h, (hwrite fh h).mpr hw, hwr⟩

section
variable {s' : DibsFs} (hh : ∀ fh h, h.path = p →
  (s'.fileHandles.get fh = some h ↔ s.fileHandles.get fh = some h))
include hh

/-- The write handles are those of the live handles on `p`. -/
theorem writeHandle_congr (fh : ℕ) (h : HandleState) :
    s'.WriteHandle p fh h ↔ s.WriteHandle p fh h := by
  constructor
  · exact fun hw => ⟨(hh fh h hw.path).mp hw.live, hw.path, hw.mode⟩
  · exact fun hw => ⟨(hh fh h hw.path).mpr hw.live, hw.path, hw.mode⟩

theorem Settled.sids_congr (hs : Settled X S p s g) (fh : ℕ) (h : HandleState)
    (hlive : s'.fileHandles.get fh = some h) (hpath : h.path = p) : h.sid = S :=
  hs.sids fh h ((hh fh h hpath).mp hlive) hpath

end

/-- The same tables and the same file. -/
theorem Settled.sameAt {s' : DibsFs} {g' : Notes} (hs : Settled X S p s g) (hsame : SameAt S p s s')
    (hcontent : ∀ x, s.backing.content p = some x → s'.backing.content p = some x)
    (htrunc : g'.truncated = false → g.truncated = false) (hunfl : g'.unflushed = g.unflushed) :
    Settled X S p s' g' := by
  refine hs.transfer (hs.sids_congr hsame.handles) (writeHandle_congr hsame.handles) ?_ hsame.receipt
    (fun h => ⟨htrunc h, hcontent⟩) ?_ ?_ hunfl
  · intro fh ho
    rw [hsame.owner] at ho
    exact hs.owner fh ho
  · intro ho fh h _
    rw [hsame.owner] at ho
    exact ⟨ho, hcontent⟩
  · intro hnone
    cases hx : s.backing.content p with
    | none => rfl
    | some x => rw [hcontent x hx] at hnone; cases hnone

/-- Events that do not name `p` are not noted. -/
theorem note_unnamed (hn : ¬ Names s p c) : g.note X p s c = g := by
  cases c with
  | fuse os pid req =>
    cases req with
    | open_ ino flags => exact if_neg hn
    | create parent name mode flags => exact if_neg hn
    | setattr ino a => exact if_neg hn
    | write ino fh offset data =>
      simp only [Notes.note]
      cases hh : s.fileHandles.get fh with
      | none => rfl
      | some h => exact if_neg fun hcond => hn ⟨h, hh, hcond.2⟩
    | flush ino fh =>
      simp only [Notes.note]
      cases hh : s.fileHandles.get fh with
      | none => rfl
      | some h => exact if_neg fun hcond => hn ⟨h, hh, hcond.2⟩
    | _ => rfl
  | _ => rfl

theorem settled_unnamed (hp : p ≠ VIRTUAL_PATH) (hs : Settled X S p s g) (hc : Alone X S p s g c)
    (hn : ¬ Names s p c) : Settled X S p (s.step X c) (g.note X p s c) := by
  rw [note_unnamed hn]
  refine hs.sameAt (step_unnamed X hp hn) ?_ id rfl
  intro x hx
  obtain ⟨o, ho, -⟩ := Option.map_eq_some_iff.mp hx
  exact step_content (hc.others hn o ho).1 (fun o' ho' => (hc.others hn o' ho').2) hx

/-! ### The checks -/

theorem IsHash.hashFile {os : Os} (hread : os.unreadable p = false) {r : Bytes}
    (hr : s.IsHash X p r) : Dibs.hashFile X s.backing os p = some r := by
  obtain ⟨x, hx, rfl⟩ := hr
  rw [hashFile_of_content hread, hx, Option.map_some]

theorem Settled.unflushed_of_no_writer (hs : Settled X S p s g)
    (hno : ∀ fh h, ¬ s.WriteHandle p fh h) : g.unflushed = false := by
  cases hu : g.unflushed with
  | false => rfl
  | true =>
    obtain ⟨fh, h, hw, -⟩ := hs.writing hu
    exact absurd hw (hno fh h)

theorem Settled.owner_of_no_writer (hs : Settled X S p s g)
    (hno : ∀ fh h, ¬ s.WriteHandle p fh h) : s.casTable.owner p = none := by
  cases ho : s.casTable.owner p with
  | none => rfl
  | some fh =>
    obtain ⟨h, hw⟩ := hs.owner fh ho
    exact absurd hw (hno fh h)

/-- The owner, if there is one, is the write handle. -/
theorem Settled.owner_eq (hs : Settled X S p s g) {fh : ℕ} {h : HandleState}
    (hw : s.WriteHandle p fh h) :
    s.casTable.owner p = none ∨ s.casTable.owner p = some fh := by
  cases ho : s.casTable.owner p with
  | none => exact Or.inl rfl
  | some fh' =>
    obtain ⟨h', hw'⟩ := hs.owner fh' ho
    rw [hs.one fh fh' h h' hw hw']
    exact Or.inr rfl

/-- The check of a request on the write handle of `p` goes through. -/
theorem Settled.handle_passes (hs : Settled X S p s g) {os : Os} (hread : os.unreadable p = false)
    {fh : ℕ} {h : HandleState} (hw : s.WriteHandle p fh h) (e : CasError) :
    ¬ s.casTable.Refuses p fh S s.fileHandles ((Dibs.hashFile X s.backing os p).getD []) e := by
  rintro (⟨x, hne, hx, -⟩ | ⟨ho, hcheck⟩)
  · rcases hs.owner_eq hw with hnone | hown
    · rw [hnone] at hx; cases hx
    · rw [hown] at hx; exact hne (Option.some.inj hx).symm
  · obtain ⟨hfresh, hown⟩ := hs.idle ho fh h hw
    rw [(CasTable.casCheck_eq_none ..).mpr ?_] at hcheck
    · cases hcheck
    · intro r hr
      rw [CasTable.referenceHash, hw.live, Option.bind_some] at hr
      cases hh : h.hashAtOpen with
      | some r' =>
        rw [hh, Option.some_or] at hr
        exact (hown r (hh.trans hr)).eq_getD hread
      | none =>
        rw [hh, Option.none_or] at hr
        exact (hfresh r hr).eq_getD hread

/-- The check of a write-mode open of `p` goes through. -/
theorem Settled.open_passes (hs : Settled X S p s g) {os : Os} {pid ino : ℕ} {flags : OpenFlags}
    (hown : OwnRequest S p s g (.fuse os pid (.open_ ino flags)))
    (hrec : Recorded S p s g (.fuse os pid (.open_ ino flags))) (hm : accessMode flags ≠ O_RDONLY)
    {actual : Bytes} (hhash : Dibs.hashFile X s.backing os p = some actual) {fd : ℤ} (e : CasError) :
    ¬ s.casTable.Refuses p s.fileHandles.nextFh (getSid os pid)
        (s.opening (getSid os pid) p flags (some actual) fd) actual e := by
  obtain ⟨hsid, hread, hno⟩ := hown
  rintro (⟨x, -, hx, -⟩ | ⟨-, hcheck⟩)
  · rw [hs.owner_of_no_writer (hno hm)] at hx
    cases hx
  · rw [(CasTable.casCheck_eq_none ..).mpr ?_] at hcheck
    · cases hcheck
    · intro r hr
      rw [referenceHash_opening] at hr
      split at hr
      · exact (Option.some.inj hr).symm
      · rename_i hrdwr
        rw [hsid] at hr
        have htrunc := hrec.1 hm hrdwr (by rw [hr]; simp)
        have hfresh := hs.fresh htrunc (hs.unflushed_of_no_writer (hno hm))
        exact Option.some.inj (((hfresh r hr).hashFile hread).symm.trans hhash)

/-- The check of a truncation by handle goes through. -/
theorem Settled.setattr_passes (hs : Settled X S p s g) {os : Os} {pid ino fh size : ℕ}
    {a : SetattrArgs} (hown : OwnRequest S p s g (.fuse os pid (.setattr ino a)))
    (hsize : a.size = some size) (hfh : a.fh = some fh) (e : CasError) :
    ¬ s.casTable.Refuses p fh (((s.fileHandles.get fh).map (·.sid)).getD 0) s.fileHandles
        ((Dibs.hashFile X s.backing os p).getD []) e := by
  obtain ⟨-, hread, hcarry⟩ := hown
  obtain ⟨h, hw⟩ := hcarry (by rw [hsize]; simp) fh hfh
  rw [hw.live, Option.map_some, Option.getD_some, hs.sids fh h hw.live hw.path]
  exact hs.handle_passes hread hw e

/-- The check of an unlink goes through. -/
theorem Settled.unlink_passes (hs : Settled X S p s g) {os : Os} {pid parent : ℕ} {name : Name}
    (hown : OwnRequest S p s g (.fuse os pid (.unlink parent name)))
    (hrec : Recorded S p s g (.fuse os pid (.unlink parent name))) :
    s.staleReceipt X os (getSid os pid) p = false := by
  obtain ⟨hsid, hread, -⟩ := hown
  rw [staleReceipt, hsid]
  cases hr : s.casTable.getReaderHash S p with
  | none => rfl
  | some r =>
    obtain ⟨htrunc, hunfl⟩ := hrec.1 (by rw [hr]; simp)
    have hhash := (hs.fresh htrunc hunfl r hr).hashFile hread
    simp [hhash]

end Dibs.DibsFs
