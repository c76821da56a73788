import Dibs.Fs.Transitions

/-! What becomes of a failed hash. Where the comparison needs a hash and the file cannot be read, an
    empty byte string stands in for it; no file hashes to the empty string, so it matches nothing. But
    `create` stores the empty string as well, in the receipt and in the handle, if it cannot read back
    the file it opened, and then one failure matches the other. Everywhere else the hashes the daemon
    holds come from files that were read. -/

namespace Dibs.DibsFs
variable (X : Ext)

/-! ### Hashes the daemon holds -/

def HandleHash (t : HandleTable) (h : Bytes) : Prop :=
  ∃ fh hs, t.get fh = some hs ∧ hs.hashAtOpen = some h

def ReceiptHash (t : CasTable) (h : Bytes) : Prop := ∃ sid p, t.getReaderHash sid p = some h

/-- Some live handle or some session's receipt has this hash. -/
def Held (s : DibsFs) (h : Bytes) : Prop := HandleHash s.fileHandles h ∨ ReceiptHash s.casTable h

/-- `h` is the hash of a file: what `hash_file` returns for some path before the request is handled, or
    behind it. -/
def Produces (s : DibsFs) (c : Call) (h : Bytes) : Prop :=
  ∃ os pid req p, c = .fuse os pid req ∧
    (hashFile X s.backing os p = some h ∨ hashFile X (s.step X c).backing os p = some h)

/-- `h` was the hash of a file at one of the events. -/
def Genuine (s₀ : DibsFs) (calls : List Call) (h : Bytes) : Prop :=
  ∃ pre c, pre ++ [c] <+: calls ∧ Produces X (Run.exec (step X) s₀ pre) c h

/-! ### The checks -/

/-- One call of `check_and_acquire_write`, with the answer of `hash_file` before it. -/
structure HashCheck where
  now : Time
  path : Path
  fh : ℕ
  sid : ℕ
  handles : HandleTable
  hashed : Option Bytes

/-- The calls an event makes. -/
inductive Checks (s : DibsFs) : Call → HashCheck → Prop where
  | opening {os : Os} {pid ino : ℕ} {flags : OpenFlags} {rel : Path} {b : Backing} {fd : ℤ}
      {actual : Bytes} : s.Opening os ino flags rel b fd → accessMode flags ≠ O_RDONLY →
      hashFile X s.backing os rel = some actual →
      Checks s (.fuse os pid (.open_ ino flags)) ⟨os.now, rel, s.fileHandles.nextFh, getSid os pid,
        s.opening (getSid os pid) rel flags (some actual) fd, hashFile X s.backing os rel⟩
  | truncating {os : Os} {pid ino size fh : ℕ} {a : SetattrArgs} {rel : Path} :
      s.Truncating ino a rel size → a.fh = some fh →
      Checks s (.fuse os pid (.setattr ino a)) ⟨os.now, rel, fh,
        ((s.fileHandles.get fh).map (·.sid)).getD 0, s.fileHandles, hashFile X s.backing os rel⟩
  | writing {os : Os} {pid ino fh offset : ℕ} {data : Bytes} (h : HandleState) :
      isDibsIno ino = false → s.fileHandles.get fh = some h → s.casTable.owner h.path = none →
      Checks s (.fuse os pid (.write ino fh offset data)) ⟨os.now, h.path, fh, h.sid, s.fileHandles,
        hashFile X s.backing os h.path⟩

/-- The call gives the handle a path that nobody owned. -/
def HashCheck.acquires (k : HashCheck) (t : CasTable) : Prop :=
  t.owner k.path = none ∧
    (t.checkAndAcquireWrite k.now k.path k.fh k.sid k.handles (k.hashed.getD [])).2 = .ok ()

/-- In the run, an acquisition with a reference hash (the handle's own, else the session's receipt)
    goes with a successful hash that equals it, and every hash that is held came from a file. -/
structure FailedNeverMatches (s₀ : DibsFs) (calls : List Call) : Prop where
  acquired : ∀ pre c, pre ++ [c] <+: calls → ∀ k, Checks X (Run.exec (step X) s₀ pre) c k →
    k.acquires (Run.exec (step X) s₀ pre).casTable → ∀ h,
    (Run.exec (step X) s₀ pre).casTable.referenceHash k.path k.fh k.sid k.handles = some h →
    k.hashed = some h ∧ Genuine X s₀ (pre ++ [c]) h
  held : ∀ pre, pre <+: calls → ∀ h, Held (Run.exec (step X) s₀ pre) h → Genuine X s₀ pre h

/-- `create` opens a file that then cannot be hashed. -/
def UnhashedCreate (s : DibsFs) : Call → Prop
  | .fuse os _ (.create parent name mode flags) => isDibsIno parent = false ∧
      hasNul (s.resolvePath parent name) = false ∧ ∃ b fd st,
        s.backing.libcOpen os (s.resolvePath parent name) (flags ||| O_CREAT) mode = .ok (b, fd) ∧
        b.fstat os fd = .ok st ∧ hashFile X b os (s.resolvePath parent name) = none
  | _ => False

variable {X} {s : DibsFs} {h : Bytes}

/-! ### What an event adds to the hashes -/

theorem handleHash_alloc {t : HandleTable} {fd : ℤ} {rel : Path} {flags : OpenFlags}
    {hash : Option Bytes} {sid : ℕ} (hh : HandleHash (t.alloc fd rel flags hash sid).1 h) :
    hash = some h ∨ HandleHash t h := by
  obtain ⟨fh, hs, hget, heq⟩ := hh
  rw [HandleTable.get_alloc] at hget
  split at hget
  · rw [← Option.some.inj hget] at heq
    exact Or.inl heq
  · exact Or.inr ⟨fh, hs, hget, heq⟩

theorem handleHash_remove {t : HandleTable} {fh : ℕ} (hh : HandleHash (t.remove fh) h) :
    HandleHash t h := by
  obtain ⟨fh', hs, hget, heq⟩ := hh
  rw [HandleTable.get_remove] at hget
  split at hget
  · cases hget
  · exact ⟨fh', hs, hget, heq⟩

theorem handleHash_modify {t : HandleTable} {fh : ℕ} {f : HandleState → HandleState}
    (hh : HandleHash (t.modify fh f) h) :
    (∃ hs, t.get fh = some hs ∧ (f hs).hashAtOpen = some h) ∨ HandleHash t h := by
  obtain ⟨fh', hs, hget, heq⟩ := hh
  rw [HandleTable.get_modify] at hget
  split at hget
  · rename_i hfh
    obtain ⟨hs', hget', rfl⟩ := Option.map_eq_some_iff.mp hget
    rw [hfh] at hget'
    exact Or.inl ⟨hs', hget', heq⟩
  · exact Or.inr ⟨fh', hs, hget, heq⟩

theorem receiptHash_congr {t t' : CasTable} (heq : t'.readerHashes = t.readerHashes) :
    ReceiptHash t' h ↔ ReceiptHash t h := by
  simp only [ReceiptHash, CasTable.getReaderHash_congr heq]

theorem receiptHash_record {t : CasTable} {now : Time} {path : Path} {hash : Bytes} {sid : ℕ}
    (hr : ReceiptHash (t.recordReader now path hash sid) h) : hash = h ∨ ReceiptHash t h := by
  obtain ⟨sid', p, hg⟩ := hr
  rw [CasTable.getReaderHash_recordReader] at hg
  split at hg
  · exact Or.inl (Option.some.inj hg)
  · exact Or.inr ⟨sid', p, hg⟩

theorem receiptHash_passed {os : Os} {rel : Path} {fh : Option ℕ} {cas : CasTable}
    (hp : s.Passed X os rel fh cas) : ReceiptHash cas h ↔ ReceiptHash s.casTable h := by
  rcases hp with ⟨-, rfl⟩ | ⟨fh', -, hg⟩
  · rfl
  · exact receiptHash_congr hg.receipts

theorem receiptHash_guarded {os : Os} {fh : ℕ} {hs : HandleState} {cas : CasTable}
    (hg : s.Guarded X os fh hs cas) : ReceiptHash cas h ↔ ReceiptHash s.casTable h := by
  rcases hg with ⟨-, rfl⟩ | ⟨-, hg⟩
  · rfl
  · exact receiptHash_congr hg.receipts

theorem receiptHash_rename {t : CasTable} {old new : Path}
    (hr : ReceiptHash (t.rename old new) h) : ReceiptHash t h := by
  obtain ⟨sid, p, hg⟩ := hr
  rw [CasTable.getReaderHash_rename] at hg
  split at hg
  · cases hold : t.getReaderHash sid old with
    | none => rw [hold] at hg; exact ⟨sid, new, hg⟩
    | some r => rw [hold] at hg; exact ⟨sid, old, hold.trans hg⟩
  · split at hg
    · cases hg
    · exact ⟨sid, p, hg⟩

/-- `create` adds the hash of the file it opened, if it can read it. -/
theorem create_held {os : Os} {pid parent : ℕ} {name : Name} {mode : ℕ} {flags : OpenFlags}
    (hh : Held (s.step X (.fuse os pid (.create parent name mode flags))) h) :
    Held s h ∨ Produces X s (.fuse os pid (.create parent name mode flags)) h ∨
      UnhashedCreate X s (.fuse os pid (.create parent name mode flags)) := by
  rw [Produces]
  rw [step, out, handle, create] at hh ⊢
  split at hh
  · exact Or.inl hh
  · rename_i hd
    simp only at hh
    split at hh
    · exact Or.inl hh
    · rename_i hnul
      split at hh
      · exact Or.inl hh
      · rename_i b fd hopen
        split at hh
        · exact Or.inl hh
        · rename_i st hstat
          rw [if_neg hd]
          simp only [if_neg hnul, hopen, hstat]
          cases hhash : hashFile X b os (s.resolvePath parent name) with
          | none =>
            exact Or.inr (Or.inr ⟨by simpa using hd, by simpa using hnul, b, fd, st, hopen, hstat,
              hhash⟩)
          | some r =>
            simp only [hhash, Option.getD_some] at hh
            have hprod : r = h → Held s h ∨ (∃ os' pid' req p,
                Call.fuse os pid (.create parent name mode flags) = .fuse os' pid' req ∧
                  (hashFile X s.backing os' p = some h ∨ hashFile X b os' p = some h)) ∨
                UnhashedCreate X s (.fuse os pid (.create parent name mode flags)) := by
              rintro rfl
              exact Or.inr (Or.inl ⟨os, pid, _, s.resolvePath parent name, rfl, Or.inr hhash⟩)
            rcases hh with hh | hh
            · rcases handleHash_alloc hh with heq | hold
              · exact hprod (Option.some.inj heq)
              · exact Or.inl (Or.inl hold)
            · rw [receiptHash_congr (CasTable.readerHashes_ensureEntry ..)] at hh
              rcases receiptHash_record hh with heq | hold
              · exact hprod heq
              · exact Or.inl (Or.inr hold)

/-- STEP: a hash that is held after an event was held before or comes from a file, unless the event is
    a `create` that cannot read its file. -/
theorem held_step {c : Call} (hh : Held (s.step X c) h) :
    Held s h ∨ Produces X s c h ∨ UnhashedCreate X s c := by
  have hout := s.step_out X c
  have ho : s.step X c = (s.out X c).st := rfl
  generalize s.out X c = o at hout ho
  cases hout with
  | created b fd attr _ _ => exact create_held hh
  | passive hp =>
    rw [ho, Held, (s.handle_passive X _ hp _).cas, (s.handle_passive X _ hp _).handles] at hh
    exact Or.inl hh
  | failed e => rw [ho] at hh; exact Or.inl hh
  | openVirtual _ =>
    rw [ho] at hh
    rcases hh with hh | hh
    · rcases handleHash_alloc hh with heq | hold
      · cases heq
      · exact Or.inl (Or.inl hold)
    · exact Or.inl (Or.inr hh)
  | @openRead os pid ino flags rel b fd _ _ =>
    have hprod : hashFile X b os rel = some h → Produces X s (.fuse os pid (.open_ ino flags)) h := by
      intro hhash
      refine ⟨os, pid, _, rel, rfl, Or.inr ?_⟩
      rw [ho]
      exact hhash
    rw [ho] at hh
    rcases hh with hh | hh
    · rcases handleHash_alloc hh with heq | hold
      · exact Or.inr (Or.inl (hprod heq))
      · exact Or.inl (Or.inl hold)
    · simp only [openRead] at hh
      split at hh
      · rename_i r hr
        rcases receiptHash_record hh with rfl | hold
        · exact Or.inr (Or.inl (hprod hr))
        · exact Or.inl (Or.inr hold)
      · exact Or.inl (Or.inr hh)
  | openRejected rel b fd actual e _ _ _ _ =>
    rw [ho] at hh
    rcases hh with ⟨fh, hs, hget, heq⟩ | hh
    · rw [refusedOpen, opening, HandleTable.get_remove_alloc] at hget
      exact Or.inl (Or.inl ⟨fh, hs, hget, heq⟩)
    · exact Or.inl (Or.inr ((receiptHash_congr (CasTable.readerHashes_ensureEntry ..)).mp hh))
  | @openGranted os pid ino flags rel b fd actual cas _ _ hpre hg =>
    have hprod : actual = h → Produces X s (.fuse os pid (.open_ ino flags)) h := by
      rintro rfl
      exact ⟨os, pid, _, rel, rfl, Or.inl hpre⟩
    rw [ho] at hh
    rcases hh with hh | hh
    · rcases handleHash_alloc hh with heq | hold
      · split at heq
        · exact Or.inr (Or.inl (hprod (Option.some.inj heq)))
        · cases heq
      · exact Or.inl (Or.inl hold)
    · simp only [grantedOpen] at hh
      split at hh
      · rcases receiptHash_record hh with heq | hold
        · exact Or.inr (Or.inl (hprod heq))
        · exact Or.inl (Or.inr ((receiptHash_congr hg.receipts).mp hold))
      · exact Or.inl (Or.inr ((receiptHash_congr hg.receipts).mp hh))
  | openUnhashed rel b fd _ _ _ =>
    rw [ho] at hh
    rcases hh with hh | hh
    · rcases handleHash_alloc hh with heq | hold
      · rw [ite_self] at heq; cases heq
      · exact Or.inl (Or.inl hold)
    · exact Or.inl (Or.inr ((receiptHash_congr (CasTable.readerHashes_ensureEntry ..)).mp hh))
  | truncateRejected rel fh size e _ _ _ =>
    rw [ho] at hh
    exact Or.inl (hh.imp_right (receiptHash_congr (CasTable.readerHashes_ensureEntry ..)).mp)
  | notTruncated rel size cas e _ hp _ =>
    rw [ho] at hh
    exact Or.inl (hh.imp_right (receiptHash_passed hp).mp)
  | truncated rel size cas b b' r _ hp _ _ =>
    rw [ho] at hh
    exact Or.inl (hh.imp_right (receiptHash_passed hp).mp)
  | attributes b' r _ _ => rw [ho] at hh; exact Or.inl hh
  | writeRejected hs e _ _ _ _ =>
    rw [ho, saveConflict] at hh
    split at hh
    · exact Or.inl (hh.imp_right (receiptHash_congr (CasTable.readerHashes_ensureEntry ..)).mp)
    · exact Or.inl (hh.imp_right (receiptHash_congr (CasTable.readerHashes_ensureEntry ..)).mp)
  | @writeThrough os pid ino fh offset data hs cas _ _ hg =>
    obtain ⟨b, hst, -⟩ := writeThrough_st { s with casTable := cas } os fh hs offset data
    rw [ho, hst] at hh
    rcases hh with hh | hh
    · rcases handleHash_modify hh with ⟨hs', hget, heq⟩ | hold
      · exact Or.inl (Or.inl ⟨fh, hs', hget, heq⟩)
      · exact Or.inl (Or.inl hold)
    · exact Or.inl (Or.inr ((receiptHash_guarded hg).mp hh))
  | idle _ => rw [ho] at hh; exact Or.inl hh
  | @flushed os pid ino fh hs newHash _ _ _ hhash =>
    have hprod : newHash = h → Produces X s (.fuse os pid (.flush ino fh)) h := by
      rintro rfl
      exact ⟨os, pid, _, hs.path, rfl, Or.inl hhash⟩
    rw [ho] at hh
    rcases hh with hh | hh
    · rcases handleHash_modify hh with ⟨hs', hget, heq⟩ | hold
      · exact Or.inr (Or.inl (hprod (Option.some.inj heq)))
      · exact Or.inl (Or.inl hold)
    · rw [stored, receiptHash_congr (CasTable.readerHashes_releaseWrite ..)] at hh
      rcases receiptHash_record hh with heq | hold
      · exact Or.inr (Or.inl (hprod heq))
      · exact Or.inl (Or.inr hold)
  | flushedUnhashed hs _ _ _ _ =>
    rw [ho] at hh
    exact Or.inl (hh.imp_right (receiptHash_congr (CasTable.readerHashes_releaseWrite ..)).mp)
  | released hs _ =>
    rw [ho] at hh
    exact Or.inl (hh.imp handleHash_remove
      (receiptHash_congr (CasTable.readerHashes_releaseWrite ..)).mp)
  | createDropped b fd e _ _ => rw [ho] at hh; exact Or.inl hh
  | nameStale rel w _ _ => rw [ho] at hh; exact Or.inl hh
  | unlinked b _ _ _ =>
    rw [ho] at hh
    refine Or.inl (hh.imp_right ?_)
    rintro ⟨sid, p, hg⟩
    rw [CasTable.getReaderHash_remove] at hg
    split at hg
    · cases hg
    · exact ⟨sid, p, hg⟩
  | renamed b _ _ _ _ _ => rw [ho] at hh; exact Or.inl (hh.imp_right receiptHash_rename)
  | evict now seconds =>
    rw [ho] at hh
    refine Or.inl (hh.imp_right ?_)
    rintro ⟨sid, p, hg⟩
    exact ⟨sid, p, CasTable.getReaderHash_evictOlderThan _ _ hg⟩
  | outside b => rw [ho] at hh; exact Or.inl hh

/-- After such a `create` the empty string is held as a hash. -/
theorem unhashedCreate_held {c : Call} (hc : UnhashedCreate X s c) : Held (s.step X c) [] := by
  cases c with
  | evict now seconds => exact absurd hc id
  | outside b => exact absurd hc id
  | fuse os pid req =>
    cases req with
    | create parent name mode flags =>
      obtain ⟨hd, hnul, b, fd, st, hopen, hstat, hhash⟩ := hc
      refine Or.inl ⟨s.fileHandles.nextFh, ⟨s.fileHandles.nextFh, fd, s.resolvePath parent name,
        some [], flags, false, getSid os pid⟩, ?_, rfl⟩
      rw [step, out, handle, create, if_neg (by simp [hd])]
      simp only [hnul, Bool.false_eq_true, if_false, hopen, hstat, hhash, Option.getD_none]
      rw [HandleTable.get_alloc, if_pos rfl]
    | _ => exact absurd hc id

/-! ### The comparison -/

/-- No file hashes to the empty string. -/
theorem hashContent_ne_nil (hX : ∀ c, X.sha256 c ≠ []) (c : Bytes) : hashContent X c ≠ [] := by
  rw [hashContent]
  split
  · exact hX c
  · simp [toBeBytes]

theorem Produces.ne_nil (hX : ∀ c, X.sha256 c ≠ []) {c : Call} (hp : Produces X s c h) : h ≠ [] := by
  obtain ⟨os, pid, req, p, -, hhash | hhash⟩ := hp
  · obtain ⟨-, o, -, rfl⟩ := hashFile_eq_some.mp hhash
    exact hashContent_ne_nil hX _
  · obtain ⟨-, o, -, rfl⟩ := hashFile_eq_some.mp hhash
    exact hashContent_ne_nil hX _

theorem Genuine.ne_nil (hX : ∀ c, X.sha256 c ≠ []) {calls : List Call} (hg : Genuine X s calls h) :
    h ≠ [] := by
  obtain ⟨pre, c, -, hp⟩ := hg
  exact hp.ne_nil hX

theorem Genuine.mono {calls calls' : List Call} (hg : Genuine X s calls h) (hpre : calls <+: calls') :
    Genuine X s calls' h := by
  obtain ⟨pre, c, hc, hp⟩ := hg
  exact ⟨pre, c, hc.trans hpre, hp⟩

/-- An acquisition compared the reference hash with what `hash_file` returned, or with nothing. -/
theorem HashCheck.reference_eq {k : HashCheck} {t : CasTable} (hk : k.acquires t)
    (href : t.referenceHash k.path k.fh k.sid k.handles = some h) : h = k.hashed.getD [] := by
  obtain ⟨howner, hok⟩ := hk
  rw [CasTable.checkAndAcquireWrite_snd, howner] at hok
  cases hc : t.casCheck k.path k.fh k.sid k.handles (k.hashed.getD []) with
  | some e => rw [hc] at hok; cases hok
  | none => exact (t.casCheck_eq_none ..).mp hc h href

theorem held_of_reference {p : Path} {fh sid : ℕ}
    (href : s.casTable.referenceHash p fh sid s.fileHandles = some h) : Held s h := by
  obtain ⟨hs, hget, hor⟩ := Option.bind_eq_some_iff.mp href
  rcases Option.or_eq_some_iff.mp hor with hhash | ⟨-, hrec⟩
  · exact Or.inl ⟨fh, hs, hget, hhash⟩
  · exact Or.inr ⟨sid, p, hrec⟩

/-- If the empty string is not held, what an acquisition matched is the hash of the file. -/
theorem acquired_hash {c : Call} {k : HashCheck} (hc : Checks X s c k) (hk : k.acquires s.casTable)
    (href : s.casTable.referenceHash k.path k.fh k.sid k.handles = some h)
    (hne : Held s h → h ≠ []) : k.hashed = some h ∧ Produces X s c h := by
  have heq := HashCheck.reference_eq hk href
  have hsome : ∀ r : Option Bytes, h = r.getD [] → h ≠ [] → r = some h := by
    rintro (_ | r) heq hn
    · exact absurd heq hn
    · rw [heq, Option.getD_some]
  cases hc with
  | opening _ _ hhash =>
    simp only [hhash, Option.getD_some] at heq ⊢
    exact ⟨by rw [heq], _, _, _, _, rfl, Or.inl (heq ▸ hhash)⟩
  | truncating _ _ =>
    have hhash := hsome _ heq (hne (held_of_reference href))
    exact ⟨hhash, _, _, _, _, rfl, Or.inl hhash⟩
  | writing hs _ _ _ =>
    have hhash := hsome _ heq (hne (held_of_reference href))
    exact ⟨hhash, _, _, _, _, rfl, Or.inl hhash⟩

/-! ### Runs -/

theorem not_held_mount (backing : Backing) (os : Os) (saveConflicts : Bool) (sessionId : Bytes) :
    ¬ Held (mount backing os saveConflicts sessionId) h := by
  rintro (⟨fh, hs, hget, -⟩ | ⟨sid, p, hg⟩)
  · cases hget
  · cases hg

/-- RUN: without such a `create`, all that is held came from files. -/
theorem held_genuine {s₀ : DibsFs} (h₀ : ∀ h, ¬ Held s₀ h) {calls : List Call}
    (hrun : Run.Along (step X) (fun s c => ¬ UnhashedCreate X s c) s₀ calls) :
    ∀ pre, pre <+: calls → ∀ h, Held (Run.exec (step X) s₀ pre) h → Genuine X s₀ pre h := by
  intro pre
  induction pre using List.reverseRecOn with
  | nil => intro _ h hh; exact absurd hh (h₀ h)
  | append_singleton pre c ih =>
    intro hpre h hh
    have hlast : pre <+: pre ++ [c] := List.prefix_append ..
    rw [Run.exec_append] at hh
    rcases held_step hh with hold | hprod | hcreate
    · exact (ih (hlast.trans hpre) h hold).mono hlast
    · exact ⟨pre, c, List.prefix_refl _, hprod⟩
    · exact absurd hcreate ((Run.along_iff_beginnings calls s₀).mp hrun pre c hpre)

/-- CORRECT (exact): from a mount on, a failed hash never counts as a match exactly as long as no
    `create` fails to hash the file it opened. -/
theorem failedNeverMatches_iff (hX : ∀ c, X.sha256 c ≠ []) (backing : Backing) (os : Os)
    (saveConflicts : Bool) (sessionId : Bytes) (calls : List Call) :
    FailedNeverMatches X (mount backing os saveConflicts sessionId) calls ↔
      Run.Along (step X) (fun s c => ¬ UnhashedCreate X s c)
        (mount backing os saveConflicts sessionId) calls := by
  constructor
  · intro h
    refine (Run.along_iff_beginnings calls _).mpr fun pre c hpre hcreate => ?_
    have hheld := unhashedCreate_held hcreate
    have hgen := h.held (pre ++ [c]) hpre [] (by rw [Run.exec_append]; exact hheld)
    exact hgen.ne_nil hX rfl
  · intro hrun
    have hgen := held_genuine (fun h => not_held_mount (h := h) backing os saveConflicts sessionId) hrun
    refine ⟨fun pre c hpre k hc hk h href => ?_, hgen⟩
    have hlast : pre <+: calls := (List.prefix_append pre [c]).trans hpre
    obtain ⟨hhash, hprod⟩ := acquired_hash hc hk href fun hh => (hgen pre hlast h hh).ne_nil hX
    exact ⟨hhash, pre, c, List.prefix_refl _, hprod⟩

theorem sampleSha256_ne_nil (c : Bytes) : sampleSha256 c ≠ [] := by
  rw [sampleSha256]
  split
  · simp
  · split
    · simp
    · split
      · simp
      · split <;> simp

/-- Session 7 opens `f` for reading and writing. -/
theorem write_failedNeverMatches :
    FailedNeverMatches sampleExt sampleMount
        [.fuse {} 7 (.lookup 1 fName), .fuse {} 7 (.open_ 10 O_RDWR)] ↔
      Run.Along (step sampleExt) (fun s c => ¬ UnhashedCreate sampleExt s c) sampleMount
        [.fuse {} 7 (.lookup 1 fName), .fuse {} 7 (.open_ 10 O_RDWR)] :=
  failedNeverMatches_iff sampleSha256_ne_nil sampleBacking {} false [] _

/-- Session 7 creates `g` in a mode in which the daemon cannot read it, and then writes it. -/
def blindCreate : List Call :=
  [.fuse { unreadable := fun _ => true } 7 (.create 1 [0x67] 0o200 O_WRONLY),
    .fuse { unreadable := fun _ => true } 7 (.write 100 1 0 [0x62])]

/-- The hash that failed at the `create` matches the hash that fails at the write. -/
theorem blindCreate_matches : ¬ FailedNeverMatches sampleExt sampleMount blindCreate := by
  intro h
  have hget : (Run.exec (step sampleExt) sampleMount (blindCreate.take 1)).fileHandles.get 1 =
      some ⟨1, 3, [[0x67]], some [], O_WRONLY, false, 7⟩ := by decide +kernel
  have hcheck := @Checks.writing sampleExt _ { unreadable := fun _ => true } 7 100 1 0 [0x62] _
    (by decide) hget (by decide +kernel)
  have hacquired := h.acquired (blindCreate.take 1) _ (List.prefix_refl _) _ hcheck
    ⟨by decide +kernel, by decide +kernel⟩ [] (by decide +kernel)
  exact absurd hacquired.1 (by decide +kernel)

end Dibs.DibsFs
