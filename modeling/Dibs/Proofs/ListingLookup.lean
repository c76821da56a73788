import Dibs.Os.Lossy
import Dibs.Proofs.Enumeration
import Dibs.Proofs.InodeSteps

/-! Listing a directory against looking its names up. `readdir` decodes each name, leaves
    `.dibs-conflicts` out and puts `.dibs` in at the root; `lookup` takes the name as it is and knows
    only the `.dibs` of the root. The two agree on every name exactly if no such name is in the
    directory and no two entries share an inode number, which one of them would lose. -/

namespace Dibs.DibsFs

/-- The whole listing: what `readdir` returns from the start if every entry has room. -/
def fullListing (s : DibsFs) (os : Os) (ino : ℕ) (names : List Name) : List DirEntry :=
  (s.readdir { os with room := names.length + 3 } ino 0).reply.entries

/-- The names compared: not `.`, not `..`, and not `.dibs-conflicts` at the root. -/
def Compared (ino : ℕ) (n : Name) : Prop :=
  n ≠ dot ∧ n ≠ Backing.dotdot ∧ ¬ (ino = 1 ∧ n = CONFLICTS_DIR)

/-- If the name is the virtual directory, no object has taken its reserved number so far. -/
def Pathless (s : DibsFs) (ino : ℕ) (n : Name) : Prop :=
  ino = 1 ∧ n = DIBS_DIR_NAME → s.inodes.getPath DIBS_DIR_INO = none

variable (X : Ext)

/-- Listing and lookup agree on every name. -/
structure ListingAgrees (s : DibsFs) (os : Os) (ino : ℕ) (names : List Name) : Prop where
  both : ∀ n, Compared ino n → (n ∈ (s.fullListing os ino names).map (·.name) ↔
    ∃ attr, (s.lookup X os ino n).reply = .entry attr)
  once : ∀ n attr, Compared ino n → (s.lookup X os ino n).reply = .entry attr →
    ((s.fullListing os ino names).filter (·.name = n)).map (fun e => (e.ino, e.kind)) =
      [(attr.ino, attr.kind)]
  mapping : ∀ n attr, Compared ino n → s.Pathless ino n →
    (s.lookup X os ino n).reply = .entry attr →
    (s.readdir os ino 0).st.inodes.getPath attr.ino =
      (s.lookup X os ino n).st.inodes.getPath attr.ino

variable (s : DibsFs) (os : Os)

/-- The entry `n` of the directory is there. -/
def Child (rel : Path) (n : Name) (st : Stat) : Prop := s.backing.lstat os (rel ++ [n]) = .ok st

/-- The directory has no name that one of the two treats in its own way, and every entry has an inode
    number of its own. -/
structure Ordinary (ino : ℕ) (rel : Path) (names : List Name) : Prop where
  utf8 : ∀ n ∈ names, ∀ st, s.Child os rel n st → toStringLossy n = n
  conflicts : ∀ st, s.Child os rel CONFLICTS_DIR st → ino = 1
  dibs : ∀ st, s.Child os rel DIBS_DIR_NAME st → ino ≠ 1
  numbers : ∀ n ∈ names, ∀ m ∈ names, ∀ st st', Compared ino n → Compared ino m →
    s.Child os rel n st → s.Child os rel m st' → st.attr.ino = st'.attr.ino → n = m
  reserved : ino = 1 → s.inodes.getPath DIBS_DIR_INO = none →
    ∀ n ∈ names, ∀ st, Compared ino n → s.Child os rel n st → st.attr.ino ≠ DIBS_DIR_INO

variable {X s os} {ino : ℕ} {rel : Path} {names : List Name} {n : Name}

/-! ### The two sides -/

theorem fullListing_eq (h : s.RealDir os ino rel names) :
    (s.fullListing os ino names).map (fun e => (e.ino, e.kind, e.name)) =
      s.listing os ino rel names := by
  have h' : s.RealDir { os with room := names.length + 3 } ino rel names := ⟨h.real, h.path, h.names⟩
  rw [fullListing, readdir_eq h', Reply.entries]
  refine map_page_all ?_
  have hle : (entriesOf os s.backing rel names).length ≤ names.length := List.length_filterMap_le ..
  have hdots : (s.dots ino rel).length ≤ 3 := by
    rw [dots]
    split_ifs <;> simp
  change (s.dots ino rel ++ entriesOf os s.backing rel names).length ≤ names.length + 3
  rw [List.length_append]
  omega

/-- SPEC: `lookup` in a real directory, for a name that is not virtual. -/
theorem lookup_child (h : s.RealDir os ino rel names) (hv : ¬ (ino = 1 ∧ n = DIBS_DIR_NAME)) :
    s.lookup X os ino n = match s.backing.lstat os (rel ++ [n]) with
      | .error e => s.fail e
      | .ok st => ⟨{ s with inodes := s.inodes.insert st.attr.ino (rel ++ [n]) },
          .entry (statToFileAttr st), none⟩ := by
  have hres : s.resolvePath ino n = rel ++ [n] := by
    have hpath := h.path
    rw [dirPathOf] at hpath
    rw [resolvePath]
    split_ifs at hpath ⊢ with hone
    · rw [← Option.some.inj hpath]
    · rw [hpath, Option.getD_some]
  rw [lookup, if_neg (by simpa [isDibsName] using hv), if_neg h.real.1, replyEntry,
    lookupAndRegister, hres]
  cases s.backing.lstat os (rel ++ [n]) with
  | error e => rfl
  | ok st =>
    simp only [List.append_eq_nil_iff, List.cons_ne_nil, and_false, if_false]
    rfl

/-- An entry that `lstat` finds is one of the names. -/
theorem Child.mem {st : Stat} (h : s.RealDir os ino rel names) (hn : n ≠ Backing.dotdot)
    (hc : s.Child os rel n st) : n ∈ names := by
  obtain ⟨q, o, hfind, hmem⟩ := Backing.readDir_mem h.names
  rw [hmem]
  rw [Child, Backing.lstat] at hc
  split at hc
  · cases hc
  · split at hc
    · cases hc
    · rw [Backing.find_entry_of_dir hn hfind] at hc
      cases hg : s.backing.tree.get (q ++ [n]) with
      | none => rw [hg] at hc; cases hc
      | some e => exact ⟨e, rfl⟩

/-- If the decoded name is there, so is the name. -/
theorem Child.of_lossy {st : Stat} (h : s.RealDir os ino rel names) (hn : n ∈ names)
    (hdd : n ≠ Backing.dotdot) (hc : s.Child os rel (toStringLossy n) st) :
    ∃ st', s.Child os rel n st' := by
  obtain ⟨q, o, hfind, hmem⟩ := Backing.readDir_mem h.names
  obtain ⟨e, he⟩ := (hmem n).mp hn
  rw [Child, Backing.lstat] at hc
  simp only [Child, Backing.lstat]
  split at hc
  · cases hc
  · rename_i hnul
    have hnul' : ¬ hasNul (rel ++ [n]) = true := by
      intro hn'
      refine hnul ?_
      simp only [hasNul, List.any_append, List.any_cons, List.any_nil, Bool.or_false,
        Bool.or_eq_true, List.contains_iff_mem] at hn' ⊢
      exact hn'.imp_right nul_mem_toStringLossy
    rw [if_neg hnul']
    split at hc
    · cases hc
    · rename_i hfault
      rw [Backing.find_entry_of_dir hdd hfind, he]
      exact ⟨_, rfl⟩

theorem entryOf_iff {raw : Name} {e : ℕ × FileType × Name} :
    entryOf os s.backing rel raw = some e ↔ toStringLossy raw ≠ CONFLICTS_DIR ∧
      ∃ st, s.Child os rel (toStringLossy raw) st ∧
        e = (st.attr.ino, fileType st.kind, toStringLossy raw) := by
  rw [entryOf]
  split_ifs with hc
  · simp [hc]
  · simp only [Child, ne_eq, hc, not_false_eq_true, true_and]
    cases s.backing.lstat os (rel ++ [toStringLossy raw]) with
    | error err => simp
    | ok st => simp [eq_comm]

theorem filter_dots (h₁ : n ≠ dot) (h₂ : n ≠ Backing.dotdot) :
    (s.dots ino rel).filter (·.2.2 = n) =
      if ino = 1 ∧ n = DIBS_DIR_NAME then [(DIBS_DIR_INO, .directory, DIBS_DIR_NAME)] else [] := by
  rw [dots]
  by_cases hino : ino = 1
  · by_cases hn : n = DIBS_DIR_NAME
    · rw [if_pos hino, if_pos ⟨hino, hn⟩, hn]
      rfl
    · simp [hino, hn, h₁.symm, h₂.symm, Ne.symm hn]
  · simp [hino, h₁.symm, h₂.symm]

theorem filter_name {es : List (ℕ × FileType × Name)} {e : ℕ × FileType × Name}
    (hname : (es.map (·.2.2)).Nodup) (he : e ∈ es) : es.filter (·.2.2 = e.2.2) = [e] := by
  induction es with
  | nil => cases he
  | cons a es ih =>
    rw [List.map_cons, List.nodup_cons] at hname
    rcases List.mem_cons.mp he with rfl | he
    · rw [List.filter_cons_of_pos (by simp), List.filter_eq_nil_iff.mpr]
      intro e' he' heq
      exact hname.1 (of_decide_eq_true heq ▸ List.mem_map_of_mem he')
    · rw [List.filter_cons_of_neg, ih hname.2 he]
      intro heq
      exact hname.1 (of_decide_eq_true heq ▸ List.mem_map_of_mem he)

/-- What occurs under a name in the whole listing. -/
theorem occurrences (h : s.RealDir os ino rel names) (hn : Compared ino n) :
    ((s.fullListing os ino names).filter (·.name = n)).map (fun e => (e.ino, e.kind)) =
      (if ino = 1 ∧ n = DIBS_DIR_NAME then [(DIBS_DIR_INO, .directory)] else []) ++
        ((entriesOf os s.backing rel names).filter (·.2.2 = n)).map (fun e => (e.1, e.2.1)) := by
  have hmap : ((s.fullListing os ino names).filter (·.name = n)).map (fun e => (e.ino, e.kind)) =
      ((s.listing os ino rel names).filter (·.2.2 = n)).map (fun e => (e.1, e.2.1)) := by
    rw [← fullListing_eq h, List.filter_map, List.map_map]
    rfl
  rw [hmap, listing, List.filter_append, filter_dots hn.1 hn.2.1, List.map_append]
  split_ifs <;> rfl

theorem mem_fullListing (h : s.RealDir os ino rel names) (hn : Compared ino n) :
    n ∈ (s.fullListing os ino names).map (·.name) ↔
      (ino = 1 ∧ n = DIBS_DIR_NAME) ∨ ∃ e ∈ entriesOf os s.backing rel names, e.2.2 = n := by
  have hnames : (s.fullListing os ino names).map (·.name) =
      (s.listing os ino rel names).map (·.2.2) := by
    rw [← fullListing_eq h, List.map_map]
    rfl
  have hdots : n ∈ dotNames ino ↔ ino = 1 ∧ n = DIBS_DIR_NAME := by
    rw [dotNames]
    split_ifs with hino <;> simp [hino, hn.1, hn.2.1]
  rw [hnames, listing, List.map_append, List.mem_append, map_name_dots, hdots, List.mem_map]

theorem lookup_entry_iff (h : s.RealDir os ino rel names) (hv : ¬ (ino = 1 ∧ n = DIBS_DIR_NAME))
    {attr : FileAttr} : (s.lookup X os ino n).reply = .entry attr ↔
      ∃ st, s.Child os rel n st ∧ attr = statToFileAttr st := by
  rw [lookup_child h hv]
  simp only [Child]
  cases s.backing.lstat os (rel ++ [n]) with
  | error e => simp [fail]
  | ok st => simp [eq_comm]

theorem getPath_lookup {st : Stat} (h : s.RealDir os ino rel names)
    (hv : ¬ (ino = 1 ∧ n = DIBS_DIR_NAME)) (hc : s.Child os rel n st) :
    (s.lookup X os ino n).st.inodes.getPath st.attr.ino = some (rel ++ [n]) := by
  rw [lookup_child h hv, hc]
  exact (InodeTable.getPath_insert_eq ..).trans (if_pos rfl)

/-! ### What agreement asks of the directory -/

section Agreement
variable (hdots : dot ∉ names ∧ Backing.dotdot ∉ names)
include hdots

theorem compared_of_mem (hn : n ∈ names) (hc : ¬ (ino = 1 ∧ n = CONFLICTS_DIR)) : Compared ino n :=
  ⟨fun heq => hdots.1 (heq ▸ hn), fun heq => hdots.2 (heq ▸ hn), hc⟩

variable (h : s.RealDir os ino rel names)
include h

theorem ListingAgrees.ordinary (ha : ListingAgrees X s os ino names) :
    s.Ordinary os ino rel names := by
  -- a name that `lookup` finds is virtual or the decoded name of an entry
  have hlisted : ∀ n st, Compared ino n → ¬ (ino = 1 ∧ n = DIBS_DIR_NAME) → s.Child os rel n st →
      ∃ raw ∈ names, toStringLossy raw = n ∧ n ≠ CONFLICTS_DIR := by
    intro n st hn hv hc
    have hmem := (ha.both n hn).mpr ⟨_, (lookup_entry_iff h hv).mpr ⟨st, hc, rfl⟩⟩
    rcases (mem_fullListing h hn).mp hmem with hvirt | ⟨e, he, rfl⟩
    · exact absurd hvirt hv
    · obtain ⟨raw, hraw, hentry⟩ := List.mem_filterMap.mp he
      obtain ⟨hne, st', -, rfl⟩ := entryOf_iff.mp hentry
      exact ⟨raw, hraw, rfl, hne⟩
  have hdibs : ∀ st, s.Child os rel DIBS_DIR_NAME st → ino ≠ 1 := by
    rintro st hc rfl
    have hn : Compared 1 DIBS_DIR_NAME := ⟨by decide, by decide, by decide⟩
    have honce := ha.once _ _ hn (by rw [lookup, if_pos ⟨rfl, rfl⟩])
    rw [occurrences h hn, if_pos ⟨rfl, rfl⟩, List.singleton_append, List.cons.injEq,
      List.map_eq_nil_iff, List.filter_eq_nil_iff] at honce
    refine honce.2 (st.attr.ino, fileType st.kind, DIBS_DIR_NAME) ?_ (by simp)
    exact List.mem_filterMap.mpr ⟨_, Child.mem h hn.2.1 hc, entryOf_iff.mpr ⟨by decide, st, hc, rfl⟩⟩
  -- the path left for the number of an entry is the entry's own
  have hpath : ∀ n st, Compared ino n → s.Child os rel n st →
      (s.readdir os ino 0).st.inodes.getPath st.attr.ino = some (rel ++ [n]) := by
    intro n st hn hc
    have hv : ¬ (ino = 1 ∧ n = DIBS_DIR_NAME) := by
      rintro ⟨hino, rfl⟩
      exact hdibs st hc hino
    have hsame := ha.mapping n _ hn (fun hvirt => absurd hvirt hv)
      ((lookup_entry_iff h hv).mpr ⟨st, hc, rfl⟩)
    exact hsame.trans (getPath_lookup h hv hc)
  refine ⟨fun n hn st hc => ?_, fun st hc => ?_, hdibs, ?_, ?_⟩
  · by_contra hne
    have hcmp : Compared ino n := compared_of_mem hdots hn fun hconf => hne (by rw [hconf.2]; decide)
    obtain ⟨raw, -, rfl, -⟩ := hlisted n st hcmp (fun hvirt => hne (by rw [hvirt.2]; decide)) hc
    exact hne (toStringLossy_idem raw)
  · by_contra hino
    obtain ⟨-, -, -, hne⟩ := hlisted CONFLICTS_DIR st
      ⟨by decide, by decide, fun hc => hino hc.1⟩ (fun hv => hino hv.1) hc
    exact hne rfl
  · intro n _ m _ st st' hn hm hc hc' hnum
    have heq := (hpath n st hn hc).symm.trans (hnum ▸ hpath m st' hm hc')
    simpa using heq
  · rintro rfl hnone n _ st hn hc hnum
    have hvirt : (s.lookup X os 1 DIBS_DIR_NAME).reply = .entry (dibsDirAttr os DIBS_DIR_INO) := by
      rw [lookup, if_pos ⟨rfl, rfl⟩]
    have hsame := ha.mapping DIBS_DIR_NAME _ ⟨by decide, by decide, by decide⟩ (fun _ => hnone) hvirt
    have hst : (s.lookup X os 1 DIBS_DIR_NAME).st = s := by rw [lookup, if_pos ⟨rfl, rfl⟩]
    rw [hst] at hsame
    have hnone' := (hpath n st hn hc).symm.trans (hnum ▸ hsame.trans hnone)
    cases hnone'

/-! ### And what it gives -/

theorem Ordinary.entryOf_iff (ho : s.Ordinary os ino rel names) (hn : n ∈ names)
    {e : ℕ × FileType × Name} : entryOf os s.backing rel n = some e ↔
      n ≠ CONFLICTS_DIR ∧ ∃ st, s.Child os rel n st ∧ e = (st.attr.ino, fileType st.kind, n) := by
  have hlossy : ∀ st, s.Child os rel (toStringLossy n) st → toStringLossy n = n := by
    intro st hc
    obtain ⟨st', hc'⟩ := hc.of_lossy h hn fun heq => hdots.2 (heq ▸ hn)
    exact ho.utf8 n hn st' hc'
  rw [DibsFs.entryOf_iff]
  constructor
  · rintro ⟨hne, st, hc, rfl⟩
    have heq := hlossy st hc
    rw [heq] at hne hc ⊢
    exact ⟨hne, st, hc, rfl⟩
  · rintro ⟨hne, st, hc, rfl⟩
    rw [ho.utf8 n hn st hc]
    exact ⟨hne, st, hc, rfl⟩

theorem Ordinary.mem_entries (ho : s.Ordinary os ino rel names) {e : ℕ × FileType × Name} :
    e ∈ entriesOf os s.backing rel names ↔ e.2.2 ∈ names ∧ e.2.2 ≠ CONFLICTS_DIR ∧
      ∃ st, s.Child os rel e.2.2 st ∧ e = (st.attr.ino, fileType st.kind, e.2.2) := by
  rw [entriesOf, List.mem_filterMap]
  constructor
  · rintro ⟨n, hn, he⟩
    obtain ⟨hne, st, hc, rfl⟩ := (ho.entryOf_iff hdots h hn).mp he
    exact ⟨hn, hne, st, hc, rfl⟩
  · rintro ⟨hn, hentry⟩
    exact ⟨e.2.2, hn, (ho.entryOf_iff hdots h hn).mpr hentry⟩

theorem Ordinary.nodup_names (ho : s.Ordinary os ino rel names) :
    ((entriesOf os s.backing rel names).map (·.2.2)).Nodup := by
  rw [map_name_entries fun n hn e he => ?_]
  · exact (Backing.readDir_nodup h.names).filter _
  · obtain ⟨-, st, -, rfl⟩ := (ho.entryOf_iff hdots h hn).mp he
    rfl

theorem Ordinary.nodup_numbers (ho : s.Ordinary os ino rel names) :
    ((entriesOf os s.backing rel names).map (·.1)).Nodup := by
  refine List.Nodup.map_on ?_ (ho.nodup_names hdots h).of_map
  intro e he e' he' hnum
  obtain ⟨hn, hne, st, hc, heq⟩ := (ho.mem_entries hdots h).mp he
  obtain ⟨hn', hne', st', hc', heq'⟩ := (ho.mem_entries hdots h).mp he'
  have hino : st.attr.ino = st'.attr.ino := by
    have h₁ := congrArg (·.1) heq
    have h₂ := congrArg (·.1) heq'
    exact h₁.symm.trans (hnum.trans h₂)
  have hname : e.2.2 = e'.2.2 := ho.numbers _ hn _ hn' st st'
    (compared_of_mem hdots hn fun hconf => hne hconf.2)
    (compared_of_mem hdots hn' fun hconf => hne' hconf.2) hc hc' hino
  have hst : st = st' := Except.ok.inj (hc.symm.trans (by rw [hname]; exact hc'))
  rw [heq, heq', hst, hname]

/-- REFINEMENT: what `lookup` finds under a name that is not virtual is an entry of the listing. -/
theorem Ordinary.mem_of_lookup (ho : s.Ordinary os ino rel names) (hn : Compared ino n)
    (hv : ¬ (ino = 1 ∧ n = DIBS_DIR_NAME)) {attr : FileAttr}
    (hl : (s.lookup X os ino n).reply = .entry attr) :
    (attr.ino, attr.kind, n) ∈ entriesOf os s.backing rel names := by
  obtain ⟨st, hc, rfl⟩ := (lookup_entry_iff h hv).mp hl
  refine (ho.mem_entries hdots h).mpr ⟨hc.mem h hn.2.1, ?_, st, hc, rfl⟩
  rintro rfl
  exact hn.2.2 ⟨ho.conflicts st hc, rfl⟩

theorem Ordinary.agrees (hs : Reachable X s) (ho : s.Ordinary os ino rel names) :
    ListingAgrees X s os ino names := by
  have hvirtual : ∀ n, ino = 1 ∧ n = DIBS_DIR_NAME →
      s.lookup X os ino n = ⟨s, .entry (dibsDirAttr os DIBS_DIR_INO), none⟩ := by
    rintro n ⟨rfl, rfl⟩
    rw [lookup, if_pos ⟨rfl, rfl⟩]
  refine ⟨fun n hn => ?_, fun n attr hn hl => ?_, fun n attr hn hpathless hl => ?_⟩
  · rw [mem_fullListing h hn]
    by_cases hv : ino = 1 ∧ n = DIBS_DIR_NAME
    · rw [hvirtual n hv]
      exact iff_of_true (.inl hv) ⟨_, rfl⟩
    · constructor
      · rintro (hv' | ⟨e, he, rfl⟩)
        · exact absurd hv' hv
        · obtain ⟨-, -, st, hc, -⟩ := (ho.mem_entries hdots h).mp he
          exact ⟨_, (lookup_entry_iff h hv).mpr ⟨st, hc, rfl⟩⟩
      · rintro ⟨attr, hl⟩
        exact .inr ⟨_, ho.mem_of_lookup hdots h hn hv hl, rfl⟩
  · rw [occurrences h hn]
    by_cases hv : ino = 1 ∧ n = DIBS_DIR_NAME
    · rw [hvirtual n hv] at hl
      obtain rfl := Reply.entry.inj hl
      rw [if_pos hv, List.filter_eq_nil_iff.mpr]
      · rfl
      · intro e he hname
        obtain ⟨-, -, st, hc, -⟩ := (ho.mem_entries hdots h).mp he
        rw [of_decide_eq_true hname, hv.2] at hc
        exact ho.dibs st hc hv.1
    · rw [if_neg hv, List.nil_append,
        filter_name (ho.nodup_names hdots h) (ho.mem_of_lookup hdots h hn hv hl)]
      rfl
  · rw [readdir_eq h]
    by_cases hv : ino = 1 ∧ n = DIBS_DIR_NAME
    · rw [hvirtual n hv] at hl ⊢
      obtain rfl := Reply.entry.inj hl
      have hnone := hpathless hv
      refine (getPath_register_none hnone fun e he hnum => ?_).trans hnone.symm
      obtain ⟨hmem, hne, st, hc, heq⟩ := (ho.mem_entries hdots h).mp he
      exact ho.reserved hv.1 hnone _ hmem st
        (compared_of_mem hdots hmem fun hconf => hne hconf.2) hc
        ((congrArg (·.1) heq).symm.trans hnum.symm)
    · have hmem := ho.mem_of_lookup hdots h hn hv hl
      have hreg : (register s.inodes rel (entriesOf os s.backing rel names)).getPath attr.ino =
          some (rel ++ [n]) :=
        getPath_register hs.forward (ho.nodup_numbers hdots h) (ho.nodup_names hdots h) hmem
      obtain ⟨st, hc, rfl⟩ := (lookup_entry_iff h hv).mp hl
      exact hreg.trans (getPath_lookup h hv hc).symm

end Agreement

/-- AGREE: in every reachable state and every real directory, listing and lookup agree on every name
    exactly if the directory is ordinary. (`read_dir` returns neither `.` nor `..`.) -/
theorem listing_agrees_iff (hs : Reachable X s) (h : s.RealDir os ino rel names)
    (hdots : dot ∉ names ∧ Backing.dotdot ∉ names) :
    ListingAgrees X s os ino names ↔ s.Ordinary os ino rel names :=
  ⟨fun ha => ha.ordinary hdots h, fun ho => ho.agrees hdots h hs⟩

theorem sampleMount_listing_agrees : ListingAgrees sampleExt sampleMount {} 1 [fName] := by
  have hdir : sampleMount.RealDir {} 1 [] [fName] := ⟨by decide, rfl, by decide +kernel⟩
  refine (listing_agrees_iff sampleMount_reachable hdir (by decide)).mpr ⟨?_, fun _ _ => rfl, ?_, ?_, ?_⟩
  · intro n hn st _
    obtain rfl := List.mem_singleton.mp hn
    decide
  · intro st hc
    have hnone : (sampleMount.backing.lstat {} [DIBS_DIR_NAME]).isOk = false := by decide +kernel
    rw [show sampleMount.backing.lstat {} [DIBS_DIR_NAME] = .ok st from hc] at hnone
    cases hnone
  · intro n hn m hm _ _ _ _ _ _ _
    rw [List.mem_singleton.mp hn, List.mem_singleton.mp hm]
  · intro _ _ n hn st _ hc
    obtain rfl := List.mem_singleton.mp hn
    have hnum : (sampleMount.backing.lstat {} [fName]).map (·.attr.ino) = .ok 10 := by decide +kernel
    rw [show sampleMount.backing.lstat {} [fName] = .ok st from hc] at hnum
    have hten : st.attr.ino = 10 := Except.ok.inj hnum
    rw [hten]
    decide

/-- A mount over one file, number 10, whose name is the single byte `0xFF`. -/
def rawName : DibsFs := mount (emptyBacking.newObject [[0xFF]] .file { ino := 10 }) {} false []

/-- `lookup` finds the file; the listing has neither its name nor the decoded one. -/
theorem undecodable_name_not_listed :
    Reachable sampleExt rawName ∧ rawName.RealDir {} 1 [] [[0xFF]] ∧
      (rawName.fullListing {} 1 [[0xFF]]).map (·.name) = [dot, Backing.dotdot, DIBS_DIR_NAME] ∧
      ¬ ListingAgrees sampleExt rawName {} 1 [[0xFF]] := by
  have hlist : (rawName.fullListing {} 1 [[0xFF]]).map (·.name) =
      [dot, Backing.dotdot, DIBS_DIR_NAME] := by decide +kernel
  refine ⟨.mount _ _ _ _ fun _ => rfl, ⟨by decide, rfl, by decide +kernel⟩, hlist, fun ha => ?_⟩
  have hboth := (ha.both [0xFF] ⟨by decide, by decide, by decide⟩).mpr
    ⟨{ ino := 10, size := 0, kind := .regularFile, perm := 0, uid := 0, gid := 0, flags := 0,
       atime := 0, mtime := 0 }, by decide +kernel⟩
  rw [hlist] at hboth
  exact absurd hboth (by decide)

end Dibs.DibsFs
