import Dibs.Proofs.Transparency

/-! The digests are never looked at, only compared. Two mounts run side by side on the same events, with
    different digests. As long as both digests tell the same contents apart, among those that occur in
    the run, all replies are the same and so is the backing directory in the end
    (`digests_interchangeable`). Hashes of the two mounts are related by a partial bijection `R`; the
    tables are related entry by entry, and each handler keeps this. -/

namespace Dibs

/-- The same external code with other digests. -/
def Ext.withDigests (X : Ext) (sha256 : Bytes → Bytes) (xxh3_128 : Bytes → BitVec 128) : Ext :=
  { X with sha256 := sha256, xxh3_128 := xxh3_128 }

/-- Equal on one side just when equal on the other. -/
def Bijective (R : Bytes → Bytes → Prop) : Prop := ∀ ⦃a b a' b'⦄, R a a' → R b b' → (a = b ↔ a' = b')

/-! ### Tables -/

def ReaderEntry.Renamed (R : Bytes → Bytes → Prop) (e e' : ReaderEntry) : Prop :=
  R e.hash e'.hash ∧ e'.lastAccess = e.lastAccess

def HandleState.Renamed (R : Bytes → Bytes → Prop) (h h' : HandleState) : Prop :=
  ∃ hash, Option.Rel R h.hashAtOpen hash ∧ h' = { h with hashAtOpen := hash }

structure CasTable.Renamed (R : Bytes → Bytes → Prop) (t u : CasTable) : Prop where
  entries : u.entries = t.entries
  receipts : ∀ k, Option.Rel (ReaderEntry.Renamed R) (t.readerHashes.get k) (u.readerHashes.get k)

structure HandleTable.Renamed (R : Bytes → Bytes → Prop) (g g' : HandleTable) : Prop where
  nextFh : g'.nextFh = g.nextFh
  handles : ∀ fh, Option.Rel (HandleState.Renamed R) (g.get fh) (g'.get fh)

variable {R : Bytes → Bytes → Prop} {t u : CasTable} {g g' : HandleTable} {a a' : Bytes}

namespace CasTable.Renamed

theorem recordReader (h : t.Renamed R u) (hr : R a a') (now : Time) (path : Path) (sid : ℕ) :
    (t.recordReader now path a sid).Renamed R (u.recordReader now path a' sid) := by
  refine ⟨h.entries, fun k => ?_⟩
  simp only [CasTable.recordReader, FinMap.get_insert]
  split
  · exact .some ⟨hr, rfl⟩
  · exact h.receipts k

theorem ensureEntry (h : t.Renamed R u) (now : Time) (path : Path) :
    (t.ensureEntry now path).Renamed R (u.ensureEntry now path) := by
  rw [CasTable.ensureEntry, CasTable.ensureEntry, h.entries]
  cases t.entries.get path with
  | some e => exact h
  | none => exact ⟨rfl, h.receipts⟩

theorem releaseWrite (h : t.Renamed R u) (path : Path) (fh : ℕ) :
    (t.releaseWrite path fh).Renamed R (u.releaseWrite path fh) := by
  rw [CasTable.releaseWrite, CasTable.releaseWrite, h.entries]
  cases t.entries.get path with
  | none => exact h
  | some e =>
    by_cases ho : e.writeOwner = some fh
    · simp only [ho, if_true]
      exact ⟨rfl, h.receipts⟩
    · simp only [ho, if_false]
      exact h

theorem remove (h : t.Renamed R u) (path : Path) : (t.remove path).Renamed R (u.remove path) := by
  refine ⟨by rw [CasTable.remove, CasTable.remove, h.entries], ?_⟩
  rintro ⟨sid, p⟩
  rw [get_readerHashes_remove, get_readerHashes_remove]
  split
  · exact .none
  · exact h.receipts _

theorem rename (h : t.Renamed R u) (old new : Path) :
    (t.rename old new).Renamed R (u.rename old new) := by
  refine ⟨by simp only [CasTable.rename, h.entries], ?_⟩
  rintro ⟨sid, p⟩
  rw [get_readerHashes_rename, get_readerHashes_rename]
  split
  · have hold := h.receipts (sid, old)
    generalize t.readerHashes.get (sid, old) = x at hold
    generalize u.readerHashes.get (sid, old) = y at hold
    cases hold with
    | some hxy => exact .some hxy
    | none => exact h.receipts _
  · split
    · exact .none
    · exact h.receipts _

theorem evict (h : t.Renamed R u) (now : Time) (seconds : ℕ) :
    ((t.evictOlderThan now seconds).getD t).Renamed R ((u.evictOlderThan now seconds).getD u) := by
  rw [evictOlderThan, evictOlderThan, h.entries]
  split
  · exact h
  · refine ⟨rfl, fun k => ?_⟩
    simp only [Option.getD_some, FinMap.get_retain]
    have hk := h.receipts k
    generalize t.readerHashes.get k = x at hk
    generalize u.readerHashes.get k = y at hk
    cases hk with
    | none => exact .none
    | @some e e' he =>
      rw [Option.filter_some, Option.filter_some, he.2]
      split
      · exact .some he
      · exact .none

/-- The comparison fails for both or for none. -/
theorem casCheck (h : t.Renamed R u) (hR : Bijective R) (hg : g.Renamed R g') (hr : R a a')
    (path : Path) (fh sid : ℕ) :
    (t.casCheck path fh sid g a).isSome = (u.casCheck path fh sid g' a').isSome := by
  have hfh := hg.handles fh
  rw [CasTable.casCheck, CasTable.casCheck]
  generalize g.get fh = x at hfh
  generalize g'.get fh = y at hfh
  cases hfh with
  | none => rfl
  | @some x y hxy =>
    obtain ⟨hash, hrel, rfl⟩ := hxy
    simp only
    generalize x.hashAtOpen = k at hrel
    cases hrel with
    | @some b b' hb =>
      simp only [ne_eq, hR hb hr]
      split <;> rfl
    | none =>
      simp only
      have hk := h.receipts (sid, path)
      generalize t.readerHashes.get (sid, path) = e at hk
      generalize u.readerHashes.get (sid, path) = e' at hk
      cases hk with
      | none => rfl
      | some he =>
        simp only [ne_eq, hR he.1 hr]
        split <;> rfl

/-- SPEC: a check lets both through or none. -/
theorem check (h : t.Renamed R u) (hR : Bijective R) (hg : g.Renamed R g') (hr : R a a')
    (now : Time) (path : Path) (fh sid : ℕ) :
    (∃ t' u', t.checkAndAcquireWrite now path fh sid g a = (t', .ok ()) ∧
      u.checkAndAcquireWrite now path fh sid g' a' = (u', .ok ()) ∧ t'.Renamed R u') ∨
    ∃ t' u' e e', t.checkAndAcquireWrite now path fh sid g a = (t', .error e) ∧
      u.checkAndAcquireWrite now path fh sid g' a' = (u', .error e') ∧ t'.Renamed R u' := by
  have hens := h.ensureEntry now path
  have hcheck := hens.casCheck hR hg hr path fh sid
  have howner : (u.ensureEntry now path).entryOr now path = (t.ensureEntry now path).entryOr now path := by
    rw [entryOr, hens.entries, entryOr]
  have hgrant : CasTable.Renamed R
      { t.ensureEntry now path with
        entries := (t.ensureEntry now path).entries.insert path ⟨some fh, now⟩ }
      { u.ensureEntry now path with
        entries := (u.ensureEntry now path).entries.insert path ⟨some fh, now⟩ } :=
    ⟨by rw [hens.entries], hens.receipts⟩
  rw [checkAndAcquireWrite, checkAndAcquireWrite]
  simp only [howner]
  cases ((t.ensureEntry now path).entryOr now path).writeOwner with
  | some owner =>
    by_cases ho : owner = fh
    · simp only [ho, if_true]
      exact Or.inl ⟨_, _, rfl, rfl, hgrant⟩
    · simp only [ho, if_false]
      exact Or.inr ⟨_, _, _, _, rfl, rfl, hens⟩
  | none =>
    simp only
    cases ht : (t.ensureEntry now path).casCheck path fh sid g a with
    | none =>
      rw [ht] at hcheck
      have hu := Option.isNone_iff_eq_none.mp (Option.isSome_eq_false_iff.mp hcheck.symm)
      rw [hu]
      exact Or.inl ⟨_, _, rfl, rfl, hgrant⟩
    | some e =>
      rw [ht] at hcheck
      obtain ⟨e', he'⟩ := Option.isSome_iff_exists.mp hcheck.symm
      rw [he']
      exact Or.inr ⟨_, _, _, _, rfl, rfl, hens⟩

end CasTable.Renamed

namespace HandleTable.Renamed

theorem alloc (h : g.Renamed R g') {hash hash' : Option Bytes} (hr : Option.Rel R hash hash')
    (fd : ℤ) (path : Path) (flags : OpenFlags) (sid : ℕ) :
    (g.alloc fd path flags hash sid).1.Renamed R (g'.alloc fd path flags hash' sid).1 := by
  refine ⟨congrArg (· + 1) h.nextFh, fun fh => ?_⟩
  rw [get_alloc, get_alloc, h.nextFh]
  split
  · exact .some ⟨hash', hr, rfl⟩
  · exact h.handles fh

theorem modify (h : g.Renamed R g') (f f' : HandleState → HandleState)
    (hf : ∀ x y, HandleState.Renamed R x y → HandleState.Renamed R (f x) (f' y)) (fh : ℕ) :
    (g.modify fh f).Renamed R (g'.modify fh f') := by
  refine ⟨h.nextFh, fun k => ?_⟩
  rw [get_modify, get_modify]
  have hk := h.handles k
  split
  · generalize g.get k = x at hk
    generalize g'.get k = y at hk
    cases hk with
    | none => exact .none
    | some hxy => exact .some (hf _ _ hxy)
  · exact hk

theorem remove (h : g.Renamed R g') (fh : ℕ) : (g.remove fh).Renamed R (g'.remove fh) := by
  refine ⟨h.nextFh, fun k => ?_⟩
  rw [get_remove, get_remove]
  split
  · exact .none
  · exact h.handles k

/-- The descriptor, the path and the other fields of a handle, on both sides. -/
theorem get_cases (h : g.Renamed R g') (fh : ℕ) :
    (g.get fh = none ∧ g'.get fh = none) ∨ ∃ x hash, g.get fh = some x ∧
      g'.get fh = some { x with hashAtOpen := hash } ∧ Option.Rel R x.hashAtOpen hash := by
  have hfh := h.handles fh
  generalize g.get fh = x at hfh
  generalize g'.get fh = y at hfh
  cases hfh with
  | none => exact Or.inl ⟨rfl, rfl⟩
  | some hxy =>
    obtain ⟨hash, hrel, rfl⟩ := hxy
    exact Or.inr ⟨_, hash, rfl, rfl, hrel⟩

/-- A field of a handle is the same on both sides. -/
theorem get_map {α : Type} (h : g.Renamed R g') (fh : ℕ) (f : HandleState → α)
    (hf : ∀ x hash, f { x with hashAtOpen := hash } = f x) : (g'.get fh).map f = (g.get fh).map f := by
  rcases h.get_cases fh with ⟨hs, ht⟩ | ⟨x, hash, hs, ht, -⟩
  · rw [hs, ht]
  · rw [hs, ht, Option.map_some, hf, Option.map_some]

end HandleTable.Renamed

namespace DibsFs

/-- The state with other tables. -/
def withTables (s : DibsFs) (u : CasTable) (g : HandleTable) : DibsFs :=
  { s with casTable := u, fileHandles := g }

/-- Two mounts that differ in their hashes only. -/
def Renamed (R : Bytes → Bytes → Prop) (s s' : DibsFs) : Prop :=
  ∃ u g, s' = s.withTables u g ∧ s.casTable.Renamed R u ∧ s.fileHandles.Renamed R g

/-- Two outcomes that differ in their hashes only. -/
structure Same (R : Bytes → Bytes → Prop) (o o' : Out) : Prop where
  st : Renamed R o.st o'.st
  reply : o'.reply = o.reply

/-- `R` takes the hashes of one mount to those of the other, on the files of a directory; the empty hash
    stands for no hash. -/
structure Digests (R : Bytes → Bytes → Prop) (X Y : Ext) (b : Backing) : Prop where
  empty : R [] []
  content : ∀ p c, b.content p = some c → R (hashContent X c) (hashContent Y c)

variable {X Y : Ext} {s : DibsFs} {b : Backing}

theorem Digests.hashFile (h : Digests R X Y b) (os : Os) (p : Path) :
    Option.Rel R (Dibs.hashFile X b os p) (Dibs.hashFile Y b os p) := by
  rw [Dibs.hashFile, Dibs.hashFile]
  split
  · exact .none
  · cases hc : b.content p with
    | none => exact .none
    | some c => exact .some (h.content p c hc)

theorem Digests.getD (h : Digests R X Y b) (os : Os) (p : Path) :
    R ((Dibs.hashFile X b os p).getD []) ((Dibs.hashFile Y b os p).getD []) := by
  have hp := h.hashFile os p
  generalize Dibs.hashFile X b os p = x at hp
  generalize Dibs.hashFile Y b os p = y at hp
  cases hp with
  | none => exact h.empty
  | some hxy => exact hxy

/-! ### Handlers -/

theorem same_self (hu : s.casTable.Renamed R u) (hg : s.fileHandles.Renamed R g) (r : Reply)
    (w w' : Option Warning) :
    Same R ⟨s, r, w⟩ ⟨s.withTables u g, r, w'⟩ := ⟨⟨u, g, rfl, hu, hg⟩, rfl⟩

theorem statusJson_renamed (hu : s.casTable.Renamed R u) (X : Ext) (os : Os) :
    (s.withTables u g).statusJson X os = s.statusJson X os := by
  simp only [statusJson, withTables, CasTable.len, CasTable.activeWriters, hu.entries]

theorem locksJson_renamed (hu : s.casTable.Renamed R u) (X : Ext) :
    (s.withTables u g).locksJson X = s.locksJson X := by
  simp only [locksJson, withTables, CasTable.allEntries, hu.entries]

/-- The check of `unlink` and `rename`. -/
theorem staleReceipt_renamed (hu : s.casTable.Renamed R u) (hR : Bijective R)
    (hd : Digests R X Y s.backing) (os : Os) (sid : ℕ) (rel : Path) :
    (s.withTables u g).staleReceipt Y os sid rel = s.staleReceipt X os sid rel := by
  have hk := hu.receipts (sid, rel)
  have hp := hd.hashFile os rel
  simp only [staleReceipt, withTables, CasTable.getReaderHash]
  generalize s.casTable.readerHashes.get (sid, rel) = e at hk
  generalize u.readerHashes.get (sid, rel) = e' at hk
  generalize hashFile X s.backing os rel = x at hp
  generalize hashFile Y s.backing os rel = y at hp
  cases hk with
  | none => rfl
  | some he =>
    cases hp with
    | none => rfl
    | some hxy => simp only [Option.map_some, ne_eq, hR he.1 hxy]

/-- A passive request leaves everything but names and descriptors alone. -/
theorem passive_frame (s : DibsFs) (X : Ext) (os : Os) (sid : ℕ) {req : Request} (hp : passive req = true) :
    (s.handle X os sid req).st = { s with
      backing := (s.handle X os sid req).st.backing
      inodes := (s.handle X os sid req).st.inodes
      dirHandles := (s.handle X os sid req).st.dirHandles } := by
  have hout := (s.passive_out X os hp sid).1
  generalize (s.handle X os sid req).st = s' at hout
  cases hout <;> rfl

variable (X) (sha256 : Bytes → Bytes) (xxh3_128 : Bytes → BitVec 128)

/-- The two virtual texts are made from the entries, in which there are no hashes. -/
theorem textual_same (hu : s.casTable.Renamed R u) (os : Os) (sid : ℕ) {req : Request} (ht : textual req = true) :
    ((s.withTables u g).handle (X.withDigests sha256 xxh3_128) os sid req).reply =
      (s.handle X os sid req).reply := by
  have hstatus : (s.withTables u g).statusJson (X.withDigests sha256 xxh3_128) os = s.statusJson X os :=
    statusJson_renamed hu X os
  have hlocks : (s.withTables u g).locksJson (X.withDigests sha256 xxh3_128) = s.locksJson X :=
    locksJson_renamed hu X
  cases req with
  | lookup parent name =>
    simp only [textual, Bool.and_eq_true, beq_iff_eq, Bool.or_eq_true] at ht
    obtain ⟨rfl, rfl | rfl⟩ := ht
    · simp only [handle, lookup, hstatus]
      rfl
    · simp only [handle, lookup, hlocks]
      rfl
  | getattr ino =>
    simp only [textual, Bool.or_eq_true, beq_iff_eq] at ht
    obtain rfl | rfl := ht
    · simp only [handle, getattr, hstatus]
      rfl
    · simp only [handle, getattr, hlocks]
      rfl
  | read ino fh offset size =>
    simp only [textual, Bool.or_eq_true, beq_iff_eq] at ht
    obtain rfl | rfl := ht
    · simp only [handle, read, hstatus]
      rfl
    · simp only [handle, read, hlocks]
      rfl
  | _ => cases ht

theorem bare_inj {s s' : DibsFs} (h : s.bare = s'.bare) :
    s.backing = s'.backing ∧ s.inodes = s'.inodes ∧ s.dirHandles = s'.dirHandles := by
  have hback := congrArg backing h
  have hino := congrArg inodes h
  have hdirs := congrArg dirHandles h
  exact ⟨hback, hino, hdirs⟩

/-- No request of this kind hashes a file. -/
theorem names_digests (os : Os) (sid : ℕ) {req : Request} (hreq : byNames req = true) :
    s.handle (X.withDigests sha256 xxh3_128) os sid req = s.handle X os sid req := by
  cases req with
  | lookup parent name =>
    rw [handle, lookup, handle, lookup]
    rfl
  | getattr ino =>
    rw [handle, getattr, handle, getattr]
    rfl
  | opendir ino => rfl
  | readdir ino offset => rfl
  | releasedir d => rfl
  | mkdir parent name mode => rfl
  | rmdir parent name => rfl
  | symlink parent name target => rfl
  | readlink ino => rfl
  | link ino newparent newname => rfl
  | access ino => rfl
  | _ => cases hreq

theorem names_same (hu : s.casTable.Renamed R u) (hg : s.fileHandles.Renamed R g) (os : Os) (sid : ℕ)
    {req : Request} (hreq : byNames req = true) :
    Same R (s.handle X os sid req)
      ((s.withTables u g).handle (X.withDigests sha256 xxh3_128) os sid req) := by
  have hp : passive req = true := by cases req <;> first | rfl | cases hreq
  obtain ⟨hst, hreply⟩ := handle_bare (X := X) (s := s) os sid hreq
  obtain ⟨hst', hreply'⟩ := handle_bare (X := X) (s := s.withTables u g) os sid hreq
  have hbare := hst'.symm.trans hst
  rw [names_digests X sha256 xxh3_128 os sid hreq]
  refine ⟨⟨u, g, ?_, ?_, ?_⟩, ?_⟩
  · obtain ⟨hback, hino, hdirs⟩ := bare_inj hbare
    rw [(s.withTables u g).passive_frame X os sid hp, hback, hino, hdirs, s.passive_frame X os sid hp]
    rfl
  · rw [(s.handle_passive X os hp sid).cas]; exact hu
  · rw [(s.handle_passive X os hp sid).handles]; exact hg
  · cases ht : textual req with
    | true =>
      rw [← textual_same X sha256 xxh3_128 hu os sid ht, names_digests X sha256 xxh3_128 os sid hreq]
    | false => exact (hreply' ht).symm.trans (hreply ht)

theorem openRead_same (hu : s.casTable.Renamed R u) (hg : s.fileHandles.Renamed R g) {Y : Ext}
    (hd : Digests R X Y b) (os : Os) (sid : ℕ) (rel : Path) (flags : OpenFlags) (fd : ℤ) :
    Same R (s.openRead X os sid rel flags b fd) ((s.withTables u g).openRead Y os sid rel flags b fd) := by
  have hhash := hd.hashFile os rel
  rw [openRead, openRead]
  generalize hashFile X b os rel = x at hhash
  generalize hashFile Y b os rel = y at hhash
  have hreply : Reply.opened g.nextFh = .opened s.fileHandles.nextFh := by rw [hg.nextFh]
  have hhandles := hg.alloc hhash fd rel flags sid
  cases hhash with
  | none => exact ⟨⟨u, _, rfl, hu, hhandles⟩, hreply⟩
  | some hxy => exact ⟨⟨_, _, rfl, hu.recordReader hxy os.now rel sid, hhandles⟩, hreply⟩

theorem openWrite_same (hu : s.casTable.Renamed R u) (hg : s.fileHandles.Renamed R g)
    (hR : Bijective R) {pre pre' : Option Bytes} (hpre : Option.Rel R pre pre') (os : Os) (sid : ℕ)
    (rel : Path) (flags : OpenFlags) (fd : ℤ) :
    Same R (s.openWrite os sid rel flags pre b fd)
      ((s.withTables u g).openWrite os sid rel flags pre' b fd) := by
  have hhash : Option.Rel R (if accessMode flags = O_RDWR then pre else none)
      (if accessMode flags = O_RDWR then pre' else none) := by
    split
    · exact hpre
    · exact .none
  have hreply : Reply.opened g.nextFh = .opened s.fileHandles.nextFh := by rw [hg.nextFh]
  have hhandles := hg.alloc hhash fd rel flags sid
  rw [openWrite, openWrite]
  cases hpre with
  | none => exact ⟨⟨_, _, rfl, hu.ensureEntry os.now rel, hhandles⟩, hreply⟩
  | @some actual actual' hr =>
    simp only [withTables, HandleTable.alloc_snd, hg.nextFh]
    rcases hu.check hR hhandles hr os.now rel s.fileHandles.nextFh sid with
      ⟨t', u', ht, hu', hrel⟩ | ⟨t', u', e, e', ht, hu', hrel⟩
    · rw [ht, hu']
      refine ⟨⟨_, _, rfl, ?_, hhandles⟩, rfl⟩
      simp only
      split
      · exact hrel.recordReader hr os.now rel sid
      · exact hrel
    · rw [ht, hu']
      exact ⟨⟨_, _, rfl, hrel, hhandles.remove _⟩, rfl⟩

theorem open_same (hu : s.casTable.Renamed R u) (hg : s.fileHandles.Renamed R g) (hR : Bijective R)
    {Y : Ext} (hd : Digests R X Y s.backing) (os : Os) (sid ino : ℕ) (flags : OpenFlags)
    (hd' : Digests R X Y (s.open_ X os sid ino flags).st.backing) :
    Same R (s.open_ X os sid ino flags) ((s.withTables u g).open_ Y os sid ino flags) := by
  have hfail := fun e => same_self hu hg (.error e) none none
  rw [open_] at hd' ⊢
  rw [open_]
  split
  · refine ⟨⟨u, _, rfl, hu, hg.alloc .none (-1) VIRTUAL_PATH flags 0⟩, ?_⟩
    simp only [withTables, HandleTable.alloc_snd, hg.nextFh]
  · rename_i hv
    rw [if_neg hv] at hd'
    split
    · exact hfail _
    · rename_i hino
      rw [if_neg hino] at hd'
      have hinodes : (s.withTables u g).inodes = s.inodes := rfl
      rw [hinodes]
      cases hrel : s.inodes.getPath ino with
      | none => exact hfail _
      | some rel =>
        rw [hrel] at hd'
        simp only at hd' ⊢
        split
        · exact hfail _
        · rename_i hnul
          rw [if_neg hnul] at hd'
          simp only [withTables]
          cases hopen : s.backing.libcOpen os rel flags 0 with
          | error e => exact hfail e
          | ok r =>
            obtain ⟨b, fd⟩ := r
            rw [hopen] at hd'
            simp only at hd' ⊢
            by_cases hm : accessMode flags = O_RDONLY
            · rw [if_pos hm] at hd'
              rw [if_pos hm, if_pos hm]
              exact openRead_same X hu hg hd' os sid rel flags fd
            · rw [if_neg hm, if_neg hm, if_pos hm, if_pos hm]
              exact openWrite_same hu hg hR (hd.hashFile os rel) os sid rel flags fd

theorem read_same (hu : s.casTable.Renamed R u) (hg : s.fileHandles.Renamed R g) (os : Os)
    (ino fh offset size : ℕ) :
    Same R (s.read X os ino fh offset size)
      ((s.withTables u g).read (X.withDigests sha256 xxh3_128) os ino fh offset size) := by
  have hself := fun r => same_self hu hg r none none
  have hstatus : (s.withTables u g).statusJson (X.withDigests sha256 xxh3_128) os = s.statusJson X os :=
    statusJson_renamed hu X os
  have hlocks : (s.withTables u g).locksJson (X.withDigests sha256 xxh3_128) = s.locksJson X :=
    locksJson_renamed hu X
  rw [read, read, hstatus, hlocks]
  split
  · exact hself _
  · split
    · exact hself _
    · simp only [withTables]
      rcases hg.get_cases fh with ⟨hs, ht⟩ | ⟨x, hash, hs, ht, -⟩
      · rw [hs, ht]
        exact hself _
      · rw [hs, ht]
        simp only
        cases s.backing.pread os x.realFd offset size <;> exact hself _

theorem writeThrough_same (hu : s.casTable.Renamed R u) (hg : s.fileHandles.Renamed R g) (os : Os)
    (fh offset : ℕ) (x : HandleState) (hash : Option Bytes) (data : Bytes) :
    Same R (s.writeThrough os fh x offset data)
      ((s.withTables u g).writeThrough os fh { x with hashAtOpen := hash } offset data) := by
  have hhandles := hg.modify (fun h => { h with hasWritten := true })
    (fun h => { h with hasWritten := true }) (by rintro x y ⟨hash, hr, rfl⟩; exact ⟨hash, hr, rfl⟩) fh
  rw [writeThrough, writeThrough]
  simp only [withTables]
  cases s.backing.pwrite os x.realFd offset data with
  | error e => exact ⟨⟨u, _, rfl, hu, hhandles⟩, rfl⟩
  | ok r => exact ⟨⟨u, _, rfl, hu, hhandles⟩, rfl⟩

theorem write_same (hu : s.casTable.Renamed R u) (hg : s.fileHandles.Renamed R g) (hR : Bijective R)
    (hd : Digests R X (X.withDigests sha256 xxh3_128) s.backing) (os : Os) (ino fh offset : ℕ)
    (data : Bytes) :
    Same R (s.write X os ino fh offset data)
      ((s.withTables u g).write (X.withDigests sha256 xxh3_128) os ino fh offset data) := by
  have hself := fun r => same_self hu hg r none none
  rw [write, write]
  split
  · exact hself _
  · simp only [withTables]
    rcases hg.get_cases fh with ⟨hs, ht⟩ | ⟨x, hash, hs, ht, -⟩
    · rw [hs, ht]
      exact hself _
    · rw [hs, ht]
      simp only [writeGuard]
      have howned : u.hasActiveWriter x.path = s.casTable.hasActiveWriter x.path := by
        rw [CasTable.hasActiveWriter, hu.entries, CasTable.hasActiveWriter]
      rw [howned]
      by_cases ho : s.casTable.hasActiveWriter x.path = true
      · simp only [if_pos ho]
        exact writeThrough_same hu hg os fh offset x hash data
      · simp only [if_neg ho]
        rcases hu.check hR hg (hd.getD os x.path) os.now x.path fh x.sid with
          ⟨t', u', ht', hu', hrel⟩ | ⟨t', u', e, e', ht', hu', hrel⟩
        · rw [ht', hu']
          exact writeThrough_same (s := { s with casTable := t' }) hrel hg os fh offset x hash data
        · rw [ht', hu']
          simp only [saveConflict]
          cases s.conflictDir with
          | none => exact ⟨⟨u', g, rfl, hrel, hg⟩, rfl⟩
          | some dir => exact ⟨⟨u', g, rfl, hrel, hg⟩, rfl⟩

theorem flush_same (hu : s.casTable.Renamed R u) (hg : s.fileHandles.Renamed R g) {Y : Ext}
    (hd : Digests R X Y s.backing) (os : Os) (ino fh : ℕ) :
    Same R (s.flush X os ino fh) ((s.withTables u g).flush Y os ino fh) := by
  have hself := fun r => same_self hu hg r none none
  rw [flush, flush]
  split
  · exact hself _
  · simp only [withTables]
    rcases hg.get_cases fh with ⟨hs, ht⟩ | ⟨x, hash, hs, ht, -⟩
    · rw [hs, ht]
      exact hself _
    · rw [hs, ht]
      simp only [flushHash]
      split
      · have hhash := hd.hashFile os x.path
        generalize hashFile X s.backing os x.path = a at hhash
        generalize hashFile Y s.backing os x.path = a' at hhash
        cases hhash with
        | none => exact ⟨⟨_, g, rfl, hu.releaseWrite x.path fh, hg⟩, rfl⟩
        | @some a a' hr =>
          have hhandles := hg.modify
            (fun h => { h with hashAtOpen := some a, hasWritten := false })
            (fun h => { h with hashAtOpen := some a', hasWritten := false })
            (by rintro x y ⟨hash, -, rfl⟩; exact ⟨some a', .some hr, rfl⟩) fh
          exact ⟨⟨_, _, rfl, (hu.recordReader hr os.now x.path x.sid).releaseWrite x.path fh,
            hhandles⟩, rfl⟩
      · exact hself _

theorem release_same (hu : s.casTable.Renamed R u) (hg : s.fileHandles.Renamed R g) (fh : ℕ) :
    Same R (s.release fh) ((s.withTables u g).release fh) := by
  rw [release, release]
  simp only [withTables]
  rcases hg.get_cases fh with ⟨hs, ht⟩ | ⟨x, hash, hs, ht, -⟩
  · rw [hs, ht]
    exact same_self hu hg _ none none
  · rw [hs, ht]
    exact ⟨⟨_, _, rfl, hu.releaseWrite x.path fh, hg.remove fh⟩, rfl⟩

theorem create_same (hu : s.casTable.Renamed R u) (hg : s.fileHandles.Renamed R g) {Y : Ext} (os : Os)
    (sid parent : ℕ) (name : Name) (mode : ℕ) (flags : OpenFlags)
    (hd : Digests R X Y (s.create X os sid parent name mode flags).st.backing) :
    Same R (s.create X os sid parent name mode flags)
      ((s.withTables u g).create Y os sid parent name mode flags) := by
  have hself := fun r => same_self hu hg r none none
  have hres : (s.withTables u g).resolvePath parent name = s.resolvePath parent name := rfl
  have hback : (s.withTables u g).backing = s.backing := rfl
  rw [create] at hd ⊢
  rw [create]
  split
  · exact hself _
  · rename_i hdibs
    simp only [if_neg hdibs, hres, hback] at hd ⊢
    split
    · exact hself _
    · rename_i hnul
      rw [if_neg hnul] at hd
      cases hopen : s.backing.libcOpen os (s.resolvePath parent name) (flags ||| O_CREAT) mode with
      | error e => exact hself _
      | ok r =>
        obtain ⟨b, fd⟩ := r
        rw [hopen] at hd
        simp only at hd ⊢
        cases hstat : b.fstat os fd with
        | error e => exact ⟨⟨u, g, rfl, hu, hg⟩, rfl⟩
        | ok st =>
          rw [hstat] at hd
          have hr := Digests.getD hd os (s.resolvePath parent name)
          have hcas := (hu.recordReader hr os.now (s.resolvePath parent name) sid).ensureEntry os.now
            (s.resolvePath parent name)
          refine ⟨⟨_, _, rfl, hcas, hg.alloc (.some hr) fd _ flags sid⟩, ?_⟩
          simp only [withTables, HandleTable.alloc_snd, hg.nextFh]

theorem unlink_same (hu : s.casTable.Renamed R u) (hg : s.fileHandles.Renamed R g) (hR : Bijective R)
    {Y : Ext} (hd : Digests R X Y s.backing) (os : Os) (sid parent : ℕ) (name : Name) :
    Same R (s.unlink X os sid parent name) ((s.withTables u g).unlink Y os sid parent name) := by
  have hself := fun r w w' => same_self hu hg r w w'
  have hstale := fun rel => staleReceipt_renamed (g := g) hu hR hd os sid rel
  rw [unlink, unlink]
  split
  · exact hself _ none none
  · simp only [hstale]
    have hres : (s.withTables u g).resolvePath parent name = s.resolvePath parent name := rfl
    rw [hres]
    split
    · exact hself _ _ _
    · split
      · exact hself _ none none
      · simp only [withTables]
        cases s.backing.unlink os (s.resolvePath parent name) with
        | error e => exact hself _ none none
        | ok b => exact ⟨⟨_, g, rfl, hu.remove _, hg⟩, rfl⟩

theorem rename_same (hu : s.casTable.Renamed R u) (hg : s.fileHandles.Renamed R g) (hR : Bijective R)
    {Y : Ext} (hd : Digests R X Y s.backing) (os : Os) (sid parent : ℕ) (name : Name)
    (newparent : ℕ) (newname : Name) (flags : ℕ) :
    Same R (s.rename X os sid parent name newparent newname flags)
      ((s.withTables u g).rename Y os sid parent name newparent newname flags) := by
  have hself := fun r w w' => same_self hu hg r w w'
  have hstale := fun rel => staleReceipt_renamed (g := g) hu hR hd os sid rel
  have hold : (s.withTables u g).resolvePath parent name = s.resolvePath parent name := rfl
  have hnew : (s.withTables u g).resolvePath newparent newname = s.resolvePath newparent newname := rfl
  have hback : (s.withTables u g).backing = s.backing := rfl
  rw [rename, rename]
  split
  · exact hself _ none none
  · simp only [hstale, hold, hnew, hback]
    split
    · exact hself _ _ _
    · split
      · exact hself _ _ _
      · split
        · exact hself _ none none
        · cases s.backing.rename os (s.resolvePath parent name) (s.resolvePath newparent newname) with
          | error e => exact hself _ none none
          | ok b => exact ⟨⟨_, g, rfl, hu.rename _ _, hg⟩, rfl⟩

/-! ### setattr -/

theorem finishSetattr_same (hu : s.casTable.Renamed R u) (hg : s.fileHandles.Renamed R g) (os : Os)
    (rel : Path) (ino : ℕ) (a : SetattrArgs) :
    Same R (s.finishSetattr os rel ino a) ((s.withTables u g).finishSetattr os rel ino a) := by
  rw [finishSetattr, finishSetattr]
  simp only [withTables]
  cases (attrCalls os s.backing rel a).2 with
  | some e => exact ⟨⟨u, g, rfl, hu, hg⟩, rfl⟩
  | none =>
    simp only [replyAttr]
    cases (attrCalls os s.backing rel a).1.lstat os rel <;> exact ⟨⟨u, g, rfl, hu, hg⟩, rfl⟩

theorem truncateCall_renamed (hg : s.fileHandles.Renamed R g) (os : Os) (rel : Path) (fh : Option ℕ)
    (newSize : ℕ) :
    (s.withTables u g).truncateCall os rel fh newSize = s.truncateCall os rel fh newSize := by
  have hfd : (fh.bind g.get).map (·.realFd) = (fh.bind s.fileHandles.get).map (·.realFd) := by
    cases fh with
    | none => rfl
    | some k =>
      simp only [Option.bind_some]
      exact hg.get_map k (·.realFd) fun _ _ => rfl
  rw [truncateCall, truncateCall]
  simp only [withTables, hfd]

/-- What follows the check. -/
theorem truncated_same (hu : s.casTable.Renamed R u) (hg : s.fileHandles.Renamed R g) (os : Os)
    (rel : Path) (ino newSize : ℕ) (a : SetattrArgs) :
    Same R
      (match s.finishTruncate os rel a.fh newSize with
        | .error out => out
        | .ok s' => s'.finishSetattr os rel ino a)
      (match (s.withTables u g).finishTruncate os rel a.fh newSize with
        | .error out => out
        | .ok s' => s'.finishSetattr os rel ino a) := by
  rw [finishTruncate, finishTruncate, truncateCall_renamed hg]
  cases s.truncateCall os rel a.fh newSize with
  | error e => exact same_self hu hg _ none none
  | ok b => exact finishSetattr_same (s := { s with backing := b }) hu hg os rel ino a

theorem setattr_same (hu : s.casTable.Renamed R u) (hg : s.fileHandles.Renamed R g) (hR : Bijective R)
    {Y : Ext} (hd : Digests R X Y s.backing) (os : Os) (ino : ℕ) (a : SetattrArgs) :
    Same R (s.setattr X os ino a) ((s.withTables u g).setattr Y os ino a) := by
  have hself := fun r => same_self hu hg r none none
  have hino : (s.withTables u g).inodes = s.inodes := rfl
  rw [setattr, setattr]
  split
  · exact hself _
  · rw [hino]
    cases s.inodes.getPath ino with
    | none => exact hself _
    | some rel =>
      simp only
      split
      · exact hself _
      · cases hsize : a.size with
        | none => exact finishSetattr_same hu hg os rel ino a
        | some newSize =>
          simp only [setattrSize]
          cases hfh : a.fh with
          | none =>
            simp only
            rw [← hfh]
            exact truncated_same hu hg os rel ino newSize a
          | some k =>
            have hsid : (g.get k).map (·.sid) = (s.fileHandles.get k).map (·.sid) :=
              hg.get_map k (·.sid) fun _ _ => rfl
            simp only [withTables, hsid]
            rcases hu.check hR hg (hd.getD os rel) os.now rel k
              (((s.fileHandles.get k).map (·.sid)).getD 0) with
              ⟨t', u', ht', hu', hrel⟩ | ⟨t', u', e, e', ht', hu', hrel⟩
            · rw [ht', hu', ← hfh]
              exact truncated_same (s := { s with casTable := t' }) hrel hg os rel ino newSize a
            · rw [ht', hu']
              exact ⟨⟨u', g, rfl, hrel, hg⟩, rfl⟩

/-! ### Runs -/

/-- STEP: one event on both sides. -/
theorem out_same {s' : DibsFs} (hs : Renamed R s s') (hR : Bijective R) (c : Call)
    (hd : Digests R X (X.withDigests sha256 xxh3_128) s.backing)
    (hd' : Digests R X (X.withDigests sha256 xxh3_128) (s.step X c).backing) :
    Same R (s.out X c) (s'.out (X.withDigests sha256 xxh3_128) c) := by
  obtain ⟨u, g, rfl, hu, hg⟩ := hs
  cases c with
  | evict now seconds => exact ⟨⟨_, g, rfl, hu.evict now seconds, hg⟩, rfl⟩
  | outside b => exact ⟨⟨u, g, rfl, hu, hg⟩, rfl⟩
  | fuse os pid req =>
    by_cases hreq : byNames req = true
    · exact names_same X sha256 xxh3_128 hu hg os (getSid os pid) hreq
    cases req with
    | setattr ino a => exact setattr_same X hu hg hR hd os ino a
    | open_ ino flags => exact open_same X hu hg hR hd os (getSid os pid) ino flags hd'
    | read ino fh offset size => exact read_same X sha256 xxh3_128 hu hg os ino fh offset size
    | write ino fh offset data => exact write_same X sha256 xxh3_128 hu hg hR hd os ino fh offset data
    | flush ino fh => exact flush_same X hu hg hd os ino fh
    | release ino fh => exact release_same hu hg fh
    | create parent name mode flags =>
      exact create_same X hu hg os (getSid os pid) parent name mode flags hd'
    | unlink parent name => exact unlink_same X hu hg hR hd os (getSid os pid) parent name
    | rename parent name newparent newname flags =>
      exact rename_same X hu hg hR hd os (getSid os pid) parent name newparent newname flags
    | _ => exact absurd rfl hreq

/-- The reply to an event. -/
def replyTo (X : Ext) (s : DibsFs) (c : Call) : Reply := (s.out X c).reply

/-- RUN: both sides reply the same and stay alike. -/
theorem answers_same (hR : Bijective R) (calls : List Call) (s s' : DibsFs) (hs : Renamed R s s')
    (hd : ∀ pre, pre <+: calls →
      Digests R X (X.withDigests sha256 xxh3_128) (Run.exec (step X) s pre).backing) :
    Run.answers (step (X.withDigests sha256 xxh3_128)) (replyTo (X.withDigests sha256 xxh3_128)) s' calls =
        Run.answers (step X) (replyTo X) s calls ∧
      Renamed R (Run.exec (step X) s calls)
        (Run.exec (step (X.withDigests sha256 xxh3_128)) s' calls) := by
  induction calls generalizing s s' with
  | nil => exact ⟨by rw [Run.answers, Run.answers], hs⟩
  | cons c calls ih =>
    have hc := out_same X sha256 xxh3_128 hs hR c (hd [] List.nil_prefix) (hd [c] ⟨calls, rfl⟩)
    obtain ⟨hrest, hend⟩ := ih (s.step X c) (s'.step (X.withDigests sha256 xxh3_128) c) hc.st
      fun pre hpre => hd (c :: pre) (List.cons_prefix_cons.mpr ⟨rfl, hpre⟩)
    refine ⟨?_, hend⟩
    rw [Run.answers, Run.answers, hrest]
    exact congrArg (· :: _) hc.reply

/-- The contents that occur in a run: those of the files of the directory at any point of it; `none`
    stands for a file that cannot be hashed. -/
def Occurs (X : Ext) (s : DibsFs) (calls : List Call) : Option Bytes → Prop
  | none => True
  | some c => ∃ pre, pre <+: calls ∧ ∃ p, (Run.exec (step X) s pre).backing.content p = some c

/-- The hash of a content, empty without one. -/
def hashOr (X : Ext) (c : Option Bytes) : Bytes := (c.map (hashContent X)).getD []

/-- RUN: from a mount on, whatever the events, two digests give the same replies and the same backing
    directory if they tell the same contents apart, among those that occur in the run. -/
theorem digests_interchangeable (X : Ext) (sha256 : Bytes → Bytes) (xxh3_128 : Bytes → BitVec 128)
    (backing : Backing) (os : Os) (saveConflicts : Bool) (sessionId : Bytes) (calls : List Call)
    (h : ∀ c d, Occurs X (mount backing os saveConflicts sessionId) calls c →
      Occurs X (mount backing os saveConflicts sessionId) calls d →
      (hashOr X c = hashOr X d ↔
        hashOr (X.withDigests sha256 xxh3_128) c = hashOr (X.withDigests sha256 xxh3_128) d)) :
    let m := mount backing os saveConflicts sessionId
    let Y := X.withDigests sha256 xxh3_128
    Run.answers (step Y) (replyTo Y) m calls = Run.answers (step X) (replyTo X) m calls ∧
      (Run.exec (step Y) m calls).backing = (Run.exec (step X) m calls).backing := by
  intro m Y
  let R : Bytes → Bytes → Prop := fun a a' => ∃ c, Occurs X m calls c ∧ a = hashOr X c ∧ a' = hashOr Y c
  have hR : Bijective R := by
    rintro a b a' b' ⟨c, hc, rfl, rfl⟩ ⟨d, hd, rfl, rfl⟩
    exact h c d hc hd
  have hmount : Renamed R m m :=
    ⟨.new, .new, rfl, ⟨rfl, fun _ => .none⟩, ⟨rfl, fun _ => .none⟩⟩
  obtain ⟨hreplies, u, g, hend, -, -⟩ := answers_same X sha256 xxh3_128 hR calls m m hmount
    fun pre hpre => ⟨⟨none, trivial, rfl, rfl⟩, fun p c hc => ⟨some c, ⟨pre, hpre, p, hc⟩, rfl, rfl⟩⟩
  exact ⟨hreplies, by rw [hend]; rfl⟩

theorem content_mem {b : Backing} {p : Path} {c : Bytes} (h : b.content p = some c) :
    c ∈ [] :: b.data.iter.map (·.2) := by
  obtain ⟨o, -, rfl⟩ := Option.map_eq_some_iff.mp h
  rw [Backing.dataOf]
  cases hd : b.data.get o with
  | none => exact List.mem_cons_self ..
  | some d => exact List.mem_cons_of_mem _ (List.mem_map.mpr ⟨_, FinMap.mem_iter.mpr hd, rfl⟩)

/-- Session 8 writes `b`, and session 7, which has read `a`, is refused. -/
def staleCalls : List Call :=
  [.fuse {} 7 (.lookup 1 fName), .fuse {} 7 (.open_ 10 O_RDONLY),
    .fuse { fd := 4 } 8 (.open_ 10 O_WRONLY), .fuse {} 8 (.write 10 2 0 [0x62]),
    .fuse {} 8 (.flush 10 2), .fuse {} 8 (.release 10 2), .fuse { fd := 4 } 7 (.open_ 10 O_WRONLY)]

/-- A digest that puts a byte in front of the content does as well there. -/
theorem staleCalls_digests :
    Run.answers (step (sampleExt.withDigests (List.cons 0) fun _ => 0))
        (replyTo (sampleExt.withDigests (List.cons 0) fun _ => 0)) sampleMount staleCalls =
      Run.answers (step sampleExt) (replyTo sampleExt) sampleMount staleCalls := by
  have hocc : ∀ c, Occurs sampleExt sampleMount staleCalls c →
      c ∈ [none, some [], some [0x61], some [0x62]] := by
    intro c hc
    cases c with
    | none => exact List.mem_cons_self ..
    | some c =>
      obtain ⟨pre, hpre, p, hp⟩ := hc
      have hall : ∀ pre ∈ staleCalls.inits, ∀ c ∈ [] ::
          (Run.exec (step sampleExt) sampleMount pre).backing.data.iter.map (·.2),
          some c ∈ [none, some [], some [0x61], some [0x62]] := by decide +kernel
      exact hall pre ((List.mem_inits _ _).mpr hpre) c (content_mem hp)
  have hsame : ∀ c ∈ [none, some [], some [0x61], some [0x62]],
      ∀ d ∈ [none, some [], some [0x61], some [0x62]],
      (hashOr sampleExt c = hashOr sampleExt d ↔
        hashOr (sampleExt.withDigests (List.cons 0) fun _ => 0) c =
          hashOr (sampleExt.withDigests (List.cons 0) fun _ => 0) d) := by decide +kernel
  exact (digests_interchangeable sampleExt (List.cons 0) (fun _ => 0) sampleBacking {} false [] staleCalls
    fun c d hc hd => hsame c (hocc c hc) d (hocc d hd)).1

end DibsFs

end Dibs
