import Dibs.Fs.Listing
import Dibs.Lib.Slices

/-! Enumerating a directory page by page. A cookie is an index into the listing, and the listing is
    built anew for every page. The pages put together are the directory if, at each request, the
    entries before the cookie are those that were there at the request before. An entry created or
    removed before the cookie shifts the rest: an entry that was there all the time is skipped, or
    returned twice. -/

namespace Dibs

/-- The entries of a reply to `readdir`. -/
def Reply.entries : Reply → List DirEntry
  | .directory es => es
  | _ => []

namespace DibsFs
variable (X : Ext)

/-- A readdir request of a series, after the other events that come before it. -/
structure ListRequest where
  before : List Call := []
  os : Os
  pid : ℕ
  room_pos : 0 < os.room := by decide

/-- The replies to a series of requests, each starting at the cookie of the last entry before it. -/
def pages (ino : ℕ) : DibsFs → ℕ → List ListRequest → List (List DirEntry)
  | _, _, [] => []
  | s, cookie, r :: rest =>
    let t := Run.exec (step X) s r.before
    let c := Call.fuse r.os r.pid (.readdir ino cookie)
    let es := (t.out X c).reply.entries
    es :: pages ino (t.step X c) ((es.getLast?.map (·.cookie)).getD cookie) rest

/-- The states in which the requests are served, with the system's answers. -/
def served (ino : ℕ) : DibsFs → List ListRequest → List (DibsFs × Os)
  | _, [] => []
  | s, r :: rest =>
    let t := Run.exec (step X) s r.before
    (t, r.os) :: served ino (t.step X (.fuse r.os r.pid (.readdir ino 0))) rest

/-- The names in the directory, in the order of `read_dir`; none if it cannot be read. -/
def dirNames (ino : ℕ) (x : DibsFs × Os) : List Name :=
  match x.1.dirPathOf ino with
  | none => []
  | some rel =>
    match x.1.backing.readDir x.2 rel with
    | .ok names => names
    | .error _ => []

/-- The names a listing starts with. -/
def dotNames (ino : ℕ) : List Name :=
  [dot, Backing.dotdot] ++ if ino = 1 then [DIBS_DIR_NAME] else []

/-- Every entry that is there at each request is returned exactly once by the series, from the start
    of the directory on. -/
def EnumeratesAll (ino : ℕ) (s : DibsFs) (reqs : List ListRequest) : Prop :=
  ∀ n, n ∉ dotNames ino → (∀ x ∈ served X ino s reqs, n ∈ dirNames ino x) →
    ((pages X ino s 0 reqs).flatten.map (·.name)).count n = 1

/-- The directory can be read, and each of its names gets an entry of its own: it is UTF-8, is not kept
    from the listing, is none of the names every listing has, and `lstat` sees it. -/
structure Listable (ino : ℕ) (x : DibsFs × Os) : Prop where
  dir : ∃ rel names, x.1.RealDir x.2 ino rel names ∧
    ∀ n ∈ names, toStringLossy n = n ∧ n ≠ CONFLICTS_DIR ∧ n ∉ dotNames ino ∧
      (x.1.backing.lstat x.2 (rel ++ [n])).isOk = true

/-- What each request finds in the directory, in order, and how many entries it has room for. -/
def found (ino : ℕ) (s : DibsFs) (reqs : List ListRequest) : List (List Name × ℕ) :=
  (served X ino s reqs).map fun x => (dotNames ino ++ dirNames ino x, x.2.room)

variable {X} {s : DibsFs} {ino : ℕ}

theorem map_name_dots (rel : Path) : (s.dots ino rel).map (·.2.2) = dotNames ino := by
  rw [dots, dotNames, List.map_append]
  split <;> rfl

/-- The listing of such a directory has its names in their order. -/
theorem Listable.names {x : DibsFs × Os} (h : Listable ino x) (cookie : ℕ) :
    ((x.1.readdir x.2 ino cookie).reply.entries).map (·.name) =
      ((dotNames ino ++ dirNames ino x).drop cookie).take x.2.room := by
  obtain ⟨rel, names, hdir, hn⟩ := h.dir
  have hentries : (entriesOf x.2 x.1.backing rel names).map (·.2.2) = names := by
    have hentry : ∀ n ∈ names, ∃ st : Stat, entryOf x.2 x.1.backing rel n =
        some (st.attr.ino, fileType st.kind, n) := by
      intro n hmem
      obtain ⟨hlossy, hconf, -, hok⟩ := hn n hmem
      cases hst : x.1.backing.lstat x.2 (rel ++ [n]) with
      | error e => rw [hst] at hok; cases hok
      | ok st => exact ⟨st, by rw [entryOf, hlossy, if_neg hconf, hst]⟩
    rw [map_name_entries, List.filter_eq_self]
    · intro n hmem
      obtain ⟨st, hst⟩ := hentry n hmem
      rw [hst, Option.isSome_some]
    · intro n hmem e he
      obtain ⟨st, hst⟩ := hentry n hmem
      rw [← Option.some.inj (hst.symm.trans he)]
  have hnames : dirNames ino x = names := by
    rw [dirNames, hdir.path]
    simp only [hdir.names]
  rw [readdir_eq hdir, Reply.entries, map_name_page, listing, List.map_append, map_name_dots, hentries,
    hnames]

theorem Listable.nodup {x : DibsFs × Os} (h : Listable ino x) : (dirNames ino x).Nodup := by
  obtain ⟨rel, names, hdir, -⟩ := h.dir
  rw [dirNames, hdir.path]
  simp only [hdir.names]
  exact Backing.readDir_nodup hdir.names

/-- The cookie after a reply is the number of entries returned so far. -/
theorem Listable.cookie {x : DibsFs × Os} (h : Listable ino x) (cookie : ℕ) :
    ((x.1.readdir x.2 ino cookie).reply.entries.getLast?.map (·.cookie)).getD cookie =
      cookie + (((dotNames ino ++ dirNames ino x).drop cookie).take x.2.room).length := by
  rw [← h.names cookie, List.length_map]
  obtain ⟨rel, names, hdir, -⟩ := h.dir
  rw [readdir_eq hdir, Reply.entries]
  exact page_cookie ..

/-- REFINEMENT: the names of the pages are slices at consecutive offsets of what the requests find. -/
theorem map_name_pages (reqs : List ListRequest) (s : DibsFs) (cookie : ℕ)
    (h : ∀ x ∈ served X ino s reqs, Listable ino x) :
    (pages X ino s cookie reqs).map (·.map (·.name)) =
      Slices.answers cookie (found X ino s reqs) := by
  induction reqs generalizing s cookie with
  | nil => rfl
  | cons r rest ih =>
    have hhead : Listable ino (Run.exec (step X) s r.before, r.os) := h _ (List.mem_cons_self ..)
    have hstep : ∀ c, (Run.exec (step X) s r.before).step X (.fuse r.os r.pid (.readdir ino c)) =
        (Run.exec (step X) s r.before).step X (.fuse r.os r.pid (.readdir ino 0)) := by
      intro c
      exact readdir_st ..
    rw [pages, found, served, List.map_cons, List.map_cons, Slices.answers]
    simp only [hstep cookie]
    refine congrArg₂ _ (hhead.names cookie) ?_
    refine (ih _ _ fun x hx => h x (List.mem_cons_of_mem _ hx)).trans ?_
    exact congrArg (Slices.answers · _) (hhead.cookie cookie)

/-- CORRECT: if every name can be listed and nothing before the cookie changes between two requests, the
    series returns every lasting entry exactly once. -/
theorem enumerates_all {reqs : List ListRequest}
    (hend : (pages X ino s 0 reqs).getLast? = some [])
    (hlist : ∀ x ∈ served X ino s reqs, Listable ino x)
    (hagree : Slices.Agree [] 0 (found X ino s reqs)) : EnumeratesAll X ino s reqs := by
  intro n hdot hall
  have hnames := map_name_pages reqs s 0 hlist
  have hend' : (Slices.answers 0 (found X ino s reqs)).getLast? = some [] := by
    rw [← hnames, List.getLast?_map, hend]
    rfl
  have hpos : ∀ r ∈ found X ino s reqs, 0 < r.2 := by
    have hserved : ∀ (reqs : List ListRequest) (s : DibsFs), ∀ x ∈ served X ino s reqs,
        0 < x.2.room := by
      intro reqs
      induction reqs with
      | nil => intro s x hx; cases hx
      | cons r rest ih =>
        intro s x hx
        rcases List.mem_cons.mp hx with rfl | hx
        · exact r.room_pos
        · exact ih _ x hx
    intro r hr
    obtain ⟨x, hx, rfl⟩ := List.mem_map.mp hr
    exact hserved reqs s x hx
  cases hlast : (served X ino s reqs).getLast? with
  | none =>
    rw [found, List.getLast?_eq_none_iff.mp hlast] at hend'
    cases hend'
  | some x =>
    have hx := List.mem_of_getLast? hlast
    have hflat := @Slices.flatten_answers _ (dotNames ino ++ dirNames ino x) _ [] 0 hpos hagree hend'
      (by rw [found, List.getLast?_map, hlast]; rfl)
    rw [List.take_nil, List.nil_append, ← hnames, ← List.map_flatten] at hflat
    rw [hflat, List.count_append, List.count_eq_zero_of_not_mem hdot, Nat.zero_add]
    exact List.count_eq_one_of_mem (hlist x hx).nodup (hall x hx)

/-- A mount over three files `a`, `b` and `c`. -/
def threeFiles : DibsFs :=
  mount (((emptyBacking.newObject [[0x61]] .file { ino := 10 }).newObject [[0x62]] .file
    { ino := 11 }).newObject [[0x63]] .file { ino := 12 }) {} false []

/-- The system lists names in alphabetical order, four entries to a reply. -/
def fourAtATime : Os := { rank := fun n => (n.headD 0).toNat, room := 4 }

theorem threeFiles_enumerated :
    (pages sampleExt 1 threeFiles 0 (List.replicate 3 { os := fourAtATime, pid := 7 })).getLast? =
        some [] ∧
      EnumeratesAll sampleExt 1 threeFiles (List.replicate 3 { os := fourAtATime, pid := 7 }) := by
  have hend : (pages sampleExt 1 threeFiles 0
      (List.replicate 3 { os := fourAtATime, pid := 7 })).getLast? = some [] := by decide +kernel
  refine ⟨hend, enumerates_all hend (fun x hx => ?_) ?_⟩
  · simp only [List.replicate, served, List.mem_cons, List.not_mem_nil, or_false] at hx
    refine ⟨[], [[0x61], [0x62], [0x63]], ⟨by decide, rfl, ?_⟩, ?_⟩
    · rcases hx with rfl | rfl | rfl <;> decide +kernel
    · rcases hx with rfl | rfl | rfl <;> decide +kernel
  · decide +kernel

/-- `rm -r` by two: after the first page session 8 removes `a`, and the second page starts at `c`. -/
def removedBetween : List ListRequest :=
  [{ os := fourAtATime, pid := 7 },
    { before := [.fuse {} 8 (.unlink 1 [0x61])], os := fourAtATime, pid := 7 },
    { os := fourAtATime, pid := 7 }]

/-- The file `b` is there all the time and is not returned. -/
theorem removal_skips_entry :
    (pages sampleExt 1 threeFiles 0 removedBetween).getLast? = some [] ∧
      ¬ EnumeratesAll sampleExt 1 threeFiles removedBetween := by
  refine ⟨by decide +kernel, fun h => ?_⟩
  exact absurd (h [0x62] (by decide) (by decide +kernel)) (by decide +kernel)

end DibsFs

end Dibs
