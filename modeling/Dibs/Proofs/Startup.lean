import Dibs.Main

/-! Which table the eviction thread scans. It is handed the table of the filesystem that `main` tries to
    mount first. The retry would mount another one, but it asks for `AutoUnmount` too and fuser takes
    that only for a mount that others may use; so the thread serves whatever is mounted, and every
    completed pass leaves it without old receipts and without old ownerless entries. -/

namespace Dibs

namespace CasTable

/-- Nothing that eviction may drop is from before `cutoff`. -/
structure FreshSince (t : CasTable) (cutoff : Time) : Prop where
  entries : ∀ p e, t.entries.get p = some e → e.writeOwner = none → cutoff ≤ e.lastAccess
  receipts : ∀ k r, t.readerHashes.get k = some r → cutoff ≤ r.lastAccess

theorem chronoFromStd_le (seconds : ℕ) : chronoFromStd seconds ≤ (seconds : ℤ) * 10 ^ 9 := by
  rw [chronoFromStd]
  split
  · exact le_refl _
  · positivity

/-- A pass leaves nothing from before its window. -/
theorem freshSince_evict {t u : CasTable} {now : Time} {seconds : ℕ}
    (h : t.evictOlderThan now seconds = some u) : u.FreshSince (now - (seconds : ℤ) * 10 ^ 9) := by
  have hcut : now - (seconds : ℤ) * 10 ^ 9 ≤ now - chronoFromStd seconds :=
    sub_le_sub_left (chronoFromStd_le seconds) now
  constructor
  · intro p e he hown
    rw [get_entries_evict t now h, Option.filter_eq_some_iff] at he
    have hold := he.2
    simp only [hown, Option.isNone_none, Bool.true_and, Bool.not_eq_eq_eq_not, Bool.not_true,
      decide_eq_false_iff_not, not_lt] at hold
    exact hcut.trans hold
  · intro k r hr
    rw [get_readerHashes_evict t now h, Option.filter_eq_some_iff] at hr
    exact hcut.trans (of_decide_eq_true hr.2)

end CasTable

/-- fuser mounts with `AutoUnmount` only if users other than the owner are let in. -/
def RefusesAutoUnmount (spawnMount2 : FuseConfig → Except MountError Unit) : Prop :=
  ∀ config, .autoUnmount ∈ config.mountOptions → config.acl = .owner → ∃ e, spawnMount2 config = .error e

namespace Daemon
variable {X : Ext} {d : Daemon}

/-- The eviction thread scans the table of the mounted filesystem, and after each pass it completes,
    whatever was served before, that table has nothing from before the window. -/
structure EvictionServes (X : Ext) (d : Daemon) : Prop where
  same : d.scanned = d.casTable
  fresh : ∀ events now,
    let d' := Run.exec (step X) d events
    (d'.tables d'.scanned).evictOlderThan now (evictionSeconds d.evictionMinutes) ≠ none →
      (d'.step X (.pass now)).mounted.casTable.FreshSince
        (now - (d.evictionMinutes : ℤ) * 60 * 10 ^ 9)

/-- STEP: no event changes who holds which table. -/
theorem step_arcs (a : DaemonEvent) : (d.step X a).casTable = d.casTable ∧
    (d.step X a).scanned = d.scanned ∧ (d.step X a).evictionMinutes = d.evictionMinutes := by
  cases a <;> exact ⟨rfl, rfl, rfl⟩

theorem exec_arcs (events : List DaemonEvent) : (Run.exec (step X) d events).casTable = d.casTable ∧
    (Run.exec (step X) d events).scanned = d.scanned ∧
    (Run.exec (step X) d events).evictionMinutes = d.evictionMinutes := by
  induction events generalizing d with
  | nil => exact ⟨rfl, rfl, rfl⟩
  | cons a events ih =>
    obtain ⟨h₁, h₂, h₃⟩ := step_arcs (X := X) (d := d) a
    obtain ⟨k₁, k₂, k₃⟩ := ih (d := d.step X a)
    exact ⟨k₁.trans h₁, k₂.trans h₂, k₃.trans h₃⟩

theorem evictionSeconds_le (minutes : ℕ) : evictionSeconds minutes ≤ minutes * 60 :=
  Nat.mod_le ..

theorem evictionServes_of_same (hsame : d.scanned = d.casTable) : EvictionServes X d where
  same := hsame
  fresh := by
    intro events now d' hdone
    obtain ⟨harc, hscan, hminutes⟩ := exec_arcs (X := X) (d := d) events
    have hmin : d'.evictionMinutes = d.evictionMinutes := hminutes
    have heq : d'.scanned = d'.casTable := by rw [hscan, harc, hsame]
    obtain ⟨u, hu⟩ := Option.ne_none_iff_exists'.mp hdone
    have htable : (d'.step X (.pass now)).mounted.casTable = u := by
      rw [mounted, step]
      simp only [heq, Function.update_self]
      rw [← heq, hmin, hu, Option.getD_some]
    rw [htable]
    have hfresh := CasTable.freshSince_evict hu
    have hsec : ((evictionSeconds d.evictionMinutes : ℕ) : ℤ) ≤ (d.evictionMinutes : ℤ) * 60 := by
      exact_mod_cast evictionSeconds_le d.evictionMinutes
    have hcut : now - (d.evictionMinutes : ℤ) * 60 * 10 ^ 9 ≤
        now - ((evictionSeconds d.evictionMinutes : ℕ) : ℤ) * 10 ^ 9 := by
      refine sub_le_sub_left (mul_le_mul_of_nonneg_right hsec ?_) now
      positivity
    exact ⟨fun p e he ho => hcut.trans (hfresh.entries p e he ho),
      fun k r hr => hcut.trans (hfresh.receipts k r hr)⟩

end Daemon

/-- STARTUP: whatever the configuration and whatever fuser answers otherwise, in every run of the mount
    command that succeeds the eviction thread serves the mounted filesystem. -/
theorem eviction_serves_mounted (X : Ext) (config : DibsConfig) (os : Os)
    (spawnMount2 : FuseConfig → Except MountError Unit) (hfuser : RefusesAutoUnmount spawnMount2)
    (d : Daemon) (hd : mountCommand config os spawnMount2 = some d) : Daemon.EvictionServes X d := by
  refine Daemon.evictionServes_of_same ?_
  rw [mountCommand] at hd
  split at hd
  · obtain rfl := Option.some.inj hd; rfl
  · split at hd
    · -- the retry asks for `AutoUnmount` as well
      obtain ⟨e, he⟩ := hfuser { fuseConfig with acl := .owner } (by simp [fuseConfig]) rfl
      simp only [he, reduceCtorEq] at hd
    · cases hd

/-- fuser where every mount it does not refuse by itself is permitted. -/
def permittedMount (config : FuseConfig) : Except MountError Unit :=
  if .autoUnmount ∈ config.mountOptions ∧ config.acl = .owner then .error ⟨none, false⟩ else .ok ()

/-- Session 7 reads `f` at the epoch; a pass two hours later, with a window of one hour, leaves nothing
    from before the last hour in the mounted table. -/
theorem mounted_table_evicted :
    ∃ d, mountCommand ⟨DibsFs.sampleBacking, [], 60, false⟩ {} permittedMount = some d ∧
      d.scanned = d.casTable ∧
      (Run.exec (Daemon.step sampleExt) d [.serve {} 7 (.lookup 1 DibsFs.fName),
        .serve {} 7 (.open_ 10 O_RDONLY), .pass (7200 * 10 ^ 9)]).mounted.casTable.FreshSince
          (3600 * 10 ^ 9) := by
  have hfuser : RefusesAutoUnmount permittedMount :=
    fun config hauto howner => ⟨_, if_pos ⟨hauto, howner⟩⟩
  have hserves := eviction_serves_mounted sampleExt ⟨DibsFs.sampleBacking, [], 60, false⟩ {}
    permittedMount hfuser _ rfl
  exact ⟨_, rfl, hserves.same, hserves.fresh [.serve {} 7 (.lookup 1 DibsFs.fName),
    .serve {} 7 (.open_ 10 O_RDONLY)] (7200 * 10 ^ 9) (by decide +kernel)⟩

end Dibs
