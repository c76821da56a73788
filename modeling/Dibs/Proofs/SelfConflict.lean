import Dibs.Proofs.SettledSteps

/-! A session alone with a path. All requests about `p` come from the session `S`, which has one write
    handle on it at a time; a check against `S` itself should then never fail. It can: a receipt
    follows the content only at a flush after a write, so a truncation that no write follows leaves
    it behind (`open_after_truncation_refused`). `Recorded` keeps a run away from that and from the
    two other ways in which a hash outlives its content: a truncation around a write handle that
    does not own the path, and a path that loses its file under a handle with a hash. -/

namespace Dibs.DibsFs

/-- No check about `p` fails: every rejection by a content check logs a warning. The second path of a
    rename is not `p`, and what its check says is left open. -/
def Undisputed (X : Ext) (p : Path) (s : DibsFs) (c : Call) : Prop :=
  Names s p c → (∀ os pid parent name newparent newname flags,
    c ≠ .fuse os pid (.rename parent name newparent newname flags)) → (s.out X c).warn = none

variable {X : Ext} {S : ℕ} {p : Path} {s : DibsFs} {g : Notes} {c : Call}

/-- No check about `p` fails in a settled state. -/
theorem undisputed_of_settled (hs : Settled X S p s g) (hc : Alone X S p s g c)
    (hrec : Names s p c → Recorded S p s g c) : Undisputed X p s c := by
  intro hn hne
  have hown := hc.own hn
  have hrec := hrec hn
  have hout := s.step_out X c
  generalize s.out X c = out at hout
  cases hout with
  | @passive os pid req hp => exact (s.passive_out X os hp (getSid os pid)).2
  | openRejected rel b fd actual e hop hm hhash hr =>
    obtain rfl := Option.some.inj (hn.2.symm.trans hop.path)
    exact absurd hr (hs.open_passes hown hrec hm hhash e)
  | @truncateRejected os pid ino a rel fh size e ht hfh hr =>
    have hn' : s.inodes.getPath ino = some p := hn
    obtain rfl := Option.some.inj (hn'.symm.trans ht.path)
    exact absurd hr (hs.setattr_passes hown ht.size hfh e)
  | writeRejected h e _ hlive hnone hcheck =>
    obtain ⟨-, hread, h', hw⟩ := hown
    obtain rfl := Option.some.inj (hlive.symm.trans hw.live)
    rw [hw.path] at hnone hcheck
    rw [hs.sids _ h hw.live hw.path] at hcheck
    exact absurd (Or.inr ⟨hnone, hcheck⟩) (hs.handle_passes hread hw e)
  | writeThrough h cas _ _ _ =>
    simp only [writeThrough]
    split <;> rfl
  | @nameStale os pid req rel w hmem hstale =>
    cases req with
    | unlink parent name =>
      have hn' : s.resolvePath parent name = p := hn
      obtain rfl := List.mem_singleton.mp hmem
      rw [hn', hs.unlink_passes hown hrec] at hstale
      cases hstale
    | rename parent name newparent newname flags => exact absurd rfl (hne _ _ _ _ _ _ _)
    | _ => cases hmem
  | _ => rfl

/-- NO SELF-CONFLICT: in every run of a mount in which the session `S` is alone with `p` and leaves no
    hash behind, no check about `p` fails. -/
theorem own_path_undisputed (X : Ext) (S : ℕ) (p : Path) (hp : p ≠ VIRTUAL_PATH) (backing : Backing)
    (os : Os) (saveConflicts : Bool) (sessionId : Bytes) (calls : List Call)
    (hrun : Run.Along (observeAt X p)
      (fun w c => Alone X S p w.1 w.2 c ∧ (Names w.1 p c → Recorded S p w.1 w.2 c))
      (mount backing os saveConflicts sessionId, {}) calls) :
    Run.Along (observeAt X p) (fun w c => Undisputed X p w.1 c)
      (mount backing os saveConflicts sessionId, {}) calls :=
  Run.along_of_inv (I := fun w => Settled X S p w.1 w.2)
    (fun _ _ hs hc => settled_step hp hs hc.1 hc.2)
    (fun _ _ hs hc => undisputed_of_settled hs hc.1 hc.2) calls _
    (settled_mount backing os saveConflicts sessionId) hrun

theorem no_writer_of_empty {s : DibsFs} (h : s.fileHandles.handles.iter = []) (fh : ℕ)
    (hd : HandleState) : ¬ s.WriteHandle p fh hd := by
  intro hw
  have hmem := FinMap.mem_iter.mpr hw.live
  rw [h] at hmem
  cases hmem

theorem Alone.of_named (hn : Names s p c) (hown : OwnRequest S p s g c) : Alone X S p s g c :=
  ⟨fun _ => hown, fun h => absurd hn h⟩

theorem Alone.of_lookup (os : Os) (pid parent : ℕ) (name : Name) :
    Alone X S p s g (.fuse os pid (.lookup parent name)) :=
  ⟨fun hn => absurd hn id, fun _ _ _ => ⟨trivial, id⟩⟩

/-- Session 7 truncates `f` at open, writes `b`, flushes and releases, and opens `f` again. -/
def truncatedThenWritten : List Call :=
  [.fuse {} 7 (.lookup 1 fName), .fuse {} 7 (.open_ 10 (O_RDWR ||| O_TRUNC)),
    .fuse {} 7 (.write 10 1 0 [0x62]), .fuse {} 7 (.flush 10 1), .fuse {} 7 (.release 10 1),
    .fuse {} 7 (.open_ 10 O_WRONLY)]

theorem truncatedThenWritten_undisputed :
    Run.Along (observeAt sampleExt [fName]) (fun w c => Undisputed sampleExt [fName] w.1 c)
      (sampleMount, {}) truncatedThenWritten := by
  refine own_path_undisputed sampleExt 7 [fName] (by decide) sampleBacking {} false []
    truncatedThenWritten ⟨⟨.of_lookup .., fun hn => absurd hn id⟩, ⟨.of_named ?_ ?_, fun _ => ?_⟩,
      ⟨.of_named ?_ ?_, fun _ => trivial⟩, ⟨.of_named ?_ ?_, fun _ => trivial⟩,
      ⟨.of_named ?_ ?_, fun _ => trivial⟩, ⟨.of_named ?_ ?_, fun _ => ?_⟩, trivial⟩
  · exact ⟨by decide, by decide +kernel⟩
  · exact ⟨rfl, rfl, fun _ => no_writer_of_empty (by decide +kernel)⟩
  · exact ⟨fun _ hm => absurd (by decide) hm,
      fun _ fh h hw => absurd hw (no_writer_of_empty (by decide +kernel) fh h)⟩
  · exact ⟨⟨1, 3, [fName], some (sampleSha256 [0x61]), O_RDWR ||| O_TRUNC, false, 7⟩,
      by decide +kernel, rfl⟩
  · exact ⟨rfl, rfl, ⟨1, 3, [fName], some (sampleSha256 [0x61]), O_RDWR ||| O_TRUNC, false, 7⟩,
      by decide +kernel, rfl, by decide⟩
  · exact ⟨⟨1, 3, [fName], some (sampleSha256 [0x61]), O_RDWR ||| O_TRUNC, true, 7⟩,
      by decide +kernel, rfl⟩
  · exact ⟨rfl, rfl, trivial⟩
  · exact ⟨⟨1, 3, [fName], some (sampleSha256 [0x62]), O_RDWR ||| O_TRUNC, false, 7⟩,
      by decide +kernel, rfl⟩
  · exact ⟨rfl, rfl, fun _ => by decide +kernel⟩
  · exact ⟨by decide, by decide +kernel⟩
  · exact ⟨rfl, rfl, fun _ => no_writer_of_empty (by decide +kernel)⟩
  · exact ⟨fun _ _ _ => by decide +kernel, fun hf => absurd hf (by decide)⟩

/-- Session 7 reads `f`, truncates it with an open that writes nothing, and opens it to write; each
    handle is flushed and released before the next open. -/
def truncatedOnly : List Call :=
  [.fuse {} 7 (.lookup 1 fName), .fuse {} 7 (.open_ 10 O_RDONLY), .fuse {} 7 (.flush 10 1),
    .fuse {} 7 (.release 10 1), .fuse {} 7 (.open_ 10 (O_WRONLY ||| O_TRUNC)),
    .fuse {} 7 (.flush 10 2), .fuse {} 7 (.release 10 2)]

/-- The session is alone with `f`, and its last open is refused: the receipt is still the hash of the
    content it has itself truncated. -/
theorem open_after_truncation_refused :
    Reachable sampleExt (Run.exec (step sampleExt) sampleMount truncatedOnly) ∧
      Run.Along (observeAt sampleExt [fName])
        (fun w c => Alone sampleExt 7 [fName] w.1 w.2 c) (sampleMount, {})
        (truncatedOnly ++ [.fuse {} 7 (.open_ 10 O_WRONLY)]) ∧
      ((Run.exec (step sampleExt) sampleMount truncatedOnly).out sampleExt
        (.fuse {} 7 (.open_ 10 O_WRONLY))).reply = .error .eio ∧
      ¬ Undisputed sampleExt [fName] (Run.exec (step sampleExt) sampleMount truncatedOnly)
        (.fuse {} 7 (.open_ 10 O_WRONLY)) := by
  refine ⟨sampleMount_reachable.exec (by decide +kernel), ⟨.of_lookup .., .of_named ?_ ?_,
    .of_named ?_ ⟨rfl, rfl, trivial⟩, .of_named ?_ ?_, .of_named ?_ ?_,
    .of_named ?_ ⟨rfl, rfl, trivial⟩, .of_named ?_ ?_, .of_named ?_ ?_, trivial⟩,
    by decide +kernel, ?_⟩
  · exact ⟨by decide, by decide +kernel⟩
  · exact ⟨rfl, rfl, fun hm => absurd (by decide) hm⟩
  · exact ⟨⟨1, 3, [fName], some (sampleSha256 [0x61]), O_RDONLY, false, 7⟩, by decide +kernel, rfl⟩
  · exact ⟨⟨1, 3, [fName], some (sampleSha256 [0x61]), O_RDONLY, false, 7⟩, by decide +kernel, rfl⟩
  · exact ⟨rfl, rfl, fun _ => by decide +kernel⟩
  · exact ⟨by decide, by decide +kernel⟩
  · exact ⟨rfl, rfl, fun _ => no_writer_of_empty (by decide +kernel)⟩
  · exact ⟨⟨2, 3, [fName], none, O_WRONLY ||| O_TRUNC, false, 7⟩, by decide +kernel, rfl⟩
  · exact ⟨⟨2, 3, [fName], none, O_WRONLY ||| O_TRUNC, false, 7⟩, by decide +kernel, rfl⟩
  · exact ⟨rfl, rfl, fun _ => by decide +kernel⟩
  · exact ⟨by decide, by decide +kernel⟩
  · exact ⟨rfl, rfl, fun _ => no_writer_of_empty (by decide +kernel)⟩
  · intro hun
    have hnone := hun ⟨by decide, by decide +kernel⟩ (by simp)
    have hwarn : ((Run.exec (step sampleExt) sampleMount truncatedOnly).out sampleExt
        (.fuse {} 7 (.open_ 10 O_WRONLY))).warn.isSome = true := by decide +kernel
    rw [hnone] at hwarn
    cases hwarn

end Dibs.DibsFs
