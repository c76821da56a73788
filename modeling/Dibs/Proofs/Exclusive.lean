import Dibs.Fs.Transitions

/-! Exclusive writing. `write` only asks whether the path has *some* owner, so a handle that does
    not own its path writes through while another handle does. In every run without such a request
    (`NotForeign`) each `pwrite` is made by the owner, and a path changes under no handle but its
    owner's. -/

namespace Dibs.DibsFs

/-- A write request gets to its `pwrite`, in the state `s'`. -/
structure ReachesPwrite (X : Ext) (s : DibsFs) (os : Os) (ino fh : ℕ) (data : Bytes)
    (h : HandleState) (s' : DibsFs) : Prop where
  real : isDibsIno ino = false
  live : s.fileHandles.get fh = some h
  guard : s.writeGuard X os fh h data = .ok s'

/-- Every `pwrite` is made by the owner of the handle's path, and changes no path that another
    handle owns. -/
def ExclusiveWrite (X : Ext) (s : DibsFs) : Call → Prop
  | .fuse os pid (.write ino fh offset data) => ∀ h s',
      ReachesPwrite X s os ino fh data h s' →
      s'.casTable.owner h.path = some fh ∧
      ∀ fh' p, fh' ≠ fh → s.casTable.owner p = some fh' →
        (s.step X (.fuse os pid (.write ino fh offset data))).backing.content p =
          s.backing.content p
  | _ => True

/-- No write is sent on a handle while another handle owns its path, or owns another path of the
    file it has open. -/
def NotForeign (s : DibsFs) : Call → Prop
  | .fuse _ _ (.write _ fh _ _) => ∀ h p x, s.fileHandles.get fh = some h →
      s.casTable.owner p = some x →
      (p = h.path ∨ ∃ o, s.backing.fileAt p = some o ∧ s.openObj fh = some o) → x = fh
  | _ => True

variable {X : Ext} {s : DibsFs}

/-- The guard of `write` leaves the backing tree and the handles as they are. -/
theorem writeGuard_ok {os : Os} {fh : ℕ} {h : HandleState} {data : Bytes} {s' : DibsFs}
    (hg : s.writeGuard X os fh h data = .ok s') :
    ∃ cas, s' = { s with casTable := cas } ∧ s.Guarded X os fh h cas := by
  rcases s.writeGuard_cases X os fh h data with ⟨cas, heq, hcas⟩ | ⟨e, -, -, heq⟩
  · rw [heq] at hg
    exact ⟨cas, (Except.ok.inj hg).symm, hcas⟩
  · rw [heq] at hg; cases hg

/-- A write that reaches `pwrite` changes at most the file its handle has open. -/
theorem write_content {os : Os} {pid ino fh offset : ℕ} {data : Bytes} {h : HandleState}
    {s' : DibsFs} (hr : ReachesPwrite X s os ino fh data h s') (p : Path)
    (hp : ∀ o, s.backing.fileAt p = some o → s.openObj fh ≠ some o) :
    (s.step X (.fuse os pid (.write ino fh offset data))).backing.content p =
      s.backing.content p := by
  obtain ⟨cas, rfl, -⟩ := writeGuard_ok hr.guard
  have hstep : s.step X (.fuse os pid (.write ino fh offset data)) =
      (writeThrough { s with casTable := cas } os fh h offset data).st := by
    simp only [step, out, handle, write, hr.real, Bool.false_eq_true, if_false, hr.live, hr.guard]
  obtain ⟨b, hst, hb⟩ := writeThrough_st { s with casTable := cas } os fh h offset data
  rw [hstep, hst]
  rcases hb with rfl | ⟨f, d, hf, -, rfl⟩
  · rfl
  · refine Backing.content_congr (Backing.fileAt_setData ..) fun o ho => ?_
    rw [Backing.dataOf_setData, if_neg]
    rintro rfl
    refine hp f.obj ho ?_
    simp only at hf
    simp only [openObj, hr.live, Option.bind_some, hf, Option.map_some]

theorem write_exclusive {c : Call} (hc : s.NotForeign c) : ExclusiveWrite X s c := by
  unfold ExclusiveWrite
  split
  · rename_i os pid ino fh offset data
    intro h s' hr
    have hown : ∀ p x, s.casTable.owner p = some x →
        (p = h.path ∨ ∃ o, s.backing.fileAt p = some o ∧ s.openObj fh = some o) → x = fh :=
      fun p x => hc h p x hr.live
    constructor
    · obtain ⟨cas, rfl, hcas⟩ := writeGuard_ok hr.guard
      rcases hcas with ⟨hsome, rfl⟩ | ⟨-, hgrant⟩
      · -- the path has an owner, and the request is not foreign
        obtain ⟨x, hx⟩ := Option.ne_none_iff_exists'.mp hsome
        rw [← hown h.path x hx (Or.inl rfl)]
        exact hx
      · exact (hgrant.owner h.path).trans (if_pos rfl)
    · intro fh' p hne hp
      refine write_content hr p fun o ho hobj => hne ?_
      exact hown p fh' hp (Or.inr ⟨o, ho, hobj⟩)
  · trivial

/-- EXCLUSIVE WRITE: in every run in which no write is foreign, every `pwrite` is made by the owner
    of its path and no path changes under a handle that does not own it. -/
theorem runs_write_exclusively (X : Ext) (s : DibsFs) (calls : List Call)
    (h : Run.Along (step X) NotForeign s calls) : Run.Along (step X) (ExclusiveWrite X) s calls :=
  Run.along_of_inv (I := fun _ => True) (fun _ _ _ _ => trivial)
    (fun _ _ _ hc => write_exclusive hc) calls s trivial h

/-- Session 8 opens `f`, writes `b` and flushes, which releases the path; session 7 then opens it
    and becomes the owner. -/
def flushedThenTaken : List Call :=
  [.fuse {} 8 (.lookup 1 fName), .fuse {} 8 (.open_ 10 O_WRONLY), .fuse {} 8 (.write 10 1 0 [0x62]),
    .fuse {} 8 (.flush 10 1), .fuse { fd := 4 } 7 (.open_ 10 O_WRONLY)]

/-- Every write of that run is made by the owner. -/
theorem flushedThenTaken_exclusive :
    Run.Along (step sampleExt) (ExclusiveWrite sampleExt) sampleMount flushedThenTaken := by
  refine runs_write_exclusively _ _ _ ⟨trivial, trivial, ?_, trivial, trivial, trivial⟩
  -- only `f` is owned when handle 1 writes, and by handle 1
  intro h p x _ hx _
  have hentries : (step sampleExt (step sampleExt sampleMount (.fuse {} 8 (.lookup 1 fName)))
      (.fuse {} 8 (.open_ 10 O_WRONLY))).casTable.entries.iter = [([fName], ⟨some 1, 0⟩)] := by
    decide +kernel
  obtain ⟨e, he, hw⟩ := Option.bind_eq_some_iff.mp hx
  have hmem := FinMap.mem_iter.mpr he
  rw [hentries] at hmem
  obtain ⟨-, rfl⟩ := Prod.mk.inj (List.mem_singleton.mp hmem)
  exact (Option.some.inj hw).symm

/-- The flushed handle of session 8 writes again: handle 2 of session 7 owns `f`, the guard lets the
    write through, and the content session 7 is about to replace changes. -/
theorem flushed_handle_writes_through :
    Reachable sampleExt (Run.exec (step sampleExt) sampleMount flushedThenTaken) ∧
      ¬ ExclusiveWrite sampleExt (Run.exec (step sampleExt) sampleMount flushedThenTaken)
        (.fuse {} 8 (.write 10 1 0 [0x63])) ∧
      (Run.exec (step sampleExt) sampleMount flushedThenTaken).casTable.owner [fName] = some 2 ∧
      (Run.exec (step sampleExt) sampleMount flushedThenTaken).backing.content [fName] =
        some [0x62] ∧
      (step sampleExt (Run.exec (step sampleExt) sampleMount flushedThenTaken)
        (.fuse {} 8 (.write 10 1 0 [0x63]))).backing.content [fName] = some [0x63] := by
  refine ⟨sampleMount_reachable.exec (by decide +kernel), ?_, by decide +kernel, by decide +kernel,
    by decide +kernel⟩
  intro hex
  have hreach : ReachesPwrite sampleExt (Run.exec (step sampleExt) sampleMount flushedThenTaken) {}
      10 1 [0x63] ⟨1, 3, [fName], some (sampleSha256 [0x62]), O_WRONLY, false, 8⟩
      (Run.exec (step sampleExt) sampleMount flushedThenTaken) :=
    ⟨by decide +kernel, by decide +kernel, rfl⟩
  exact absurd (hex _ _ hreach).1 (by decide +kernel)

end Dibs.DibsFs
