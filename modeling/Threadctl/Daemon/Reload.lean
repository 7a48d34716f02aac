import Threadctl.Core.EngineRuns
import Threadctl.Core.PackageMatch

/-!
# Reloading the tracker

A reload keeps the processes whose package is one of the configured names.  The
rules themselves go by exact names and by patterns, so the two sets differ.
-/

namespace Threadctl.Daemon

open Threadctl.Core Threadctl.Support Threadctl.Support.StateRun

variable {κ : Type}

/-- The configured package names, patterns as they are written. -/
def pkgSet (cfg : ConfigSnapshot) : List String := cfg.rules.pkgs

/-- The tracker step of `do_reload`. -/
def retainConfigured (env : Env κ) (cfg : ConfigSnapshot) : Run κ Unit :=
  retainInterested env (pkgSet cfg)

theorem remove_procs (env : Env κ) (pid : Int) (s : System κ) :
    ((remove env pid).run s).2.tracker.procs = s.tracker.procs.erase pid := by
  have hspec : Triple (fun t => t = s) (remove env pid)
      fun _ t => t.tracker.procs = s.tracker.procs.erase pid := by
    apply Triple.get
    rintro t rfl
    split
    · rename_i hnone
      exact Triple.pure fun u hu => by rw [hu, RefCount.erase_of_none hnone]
    · rename_i state hstate
      apply Triple.modify_bind
      refine Triple.bind (Q := fun _ u => u.tracker.procs = t.tracker.procs.erase pid) ?_
        fun _ => Triple.pure fun _ hu => hu
      rintro u rfl
      exact frame_releaseState_procs env state _
  exact hspec s rfl

theorem lookup_removeAll (env : Env κ) (pids : List Int) (s : System κ) (pid : Int) :
    ((pids.forM fun pid => (do let _ ← remove env pid; pure () : Run κ Unit)).run
        s).2.tracker.procs.lookup pid =
      if pid ∈ pids then none else s.tracker.procs.lookup pid := by
  induction pids generalizing s with
  | nil => rfl
  | cons q pids ih =>
      have hstep := ih ((remove env q).run s).2
      refine hstep.trans ?_
      rw [remove_procs]
      by_cases hq : pid = q
      · subst hq
        rw [AList.lookup_erase, if_pos List.mem_cons_self, ite_self]
      · rw [AList.lookup_erase_ne hq]
        simp [hq]

/-- A process survives exactly when its package is in the set. -/
theorem lookup_retainInterested (env : Env κ) (set : List String) (s : System κ) (pid : Int) :
    ((retainInterested env set).run s).2.tracker.procs.lookup pid =
      (s.tracker.procs.lookup pid).filter fun p => p.pkg ∈ set := by
  refine (lookup_removeAll env _ _ pid).trans ?_
  have hstale : pid ∈ ((env.order s.kernel s.tracker.procs.entries).filter
        fun e => e.2.pkg ∉ set).map (·.1) ↔
      ∃ p, s.tracker.procs.lookup pid = some p ∧ p.pkg ∉ set := by
    rw [List.mem_map]
    constructor
    · rintro ⟨e, he, rfl⟩
      rw [List.mem_filter, (env.order_perm _ _).mem_iff] at he
      exact ⟨e.2, AList.mem_lookup_iff.mpr he.1, by simpa using he.2⟩
    · rintro ⟨p, hp, hset⟩
      refine ⟨⟨pid, p⟩, ?_, rfl⟩
      rw [List.mem_filter, (env.order_perm _ _).mem_iff]
      exact ⟨AList.mem_lookup_iff.mp hp, by simpa using hset⟩
  change (if pid ∈ _ then none else s.tracker.procs.lookup pid) = _
  rw [if_congr hstale rfl rfl]
  cases s.tracker.procs.lookup pid with
  | none => simp
  | some p =>
      by_cases hset : p.pkg ∈ set
      · simp [hset, Option.filter]
      · simp [hset, Option.filter]

section Interest

variable (fnmatch : String → String → Bool)

/-- Retention by configured names agrees with the rules on a package: no pattern
reaches it unless it is listed, and if it is itself listed as a pattern, some pattern
matches it. -/
def ListedAsWanted (rs : RuleSet) (pkg : String) : Prop :=
  (pkg ∈ rs.pkgs ∨ ∀ w ∈ rs.wildcards, w.isCandidate fnmatch pkg = false) ∧
    (pkg ∈ rs.pkgs → containsWildcard pkg = true →
      ∃ w ∈ rs.wildcards, w.isCandidate fnmatch pkg = true)

theorem mem_pkgs_iff_isInterested (rs : RuleSet) (pkg : String) :
    (pkg ∈ rs.pkgs ↔ rs.isInterested fnmatch pkg = true) ↔ ListedAsWanted fnmatch rs pkg := by
  rw [isInterested_iff, ListedAsWanted]
  have hnone : (∀ w ∈ rs.wildcards, w.isCandidate fnmatch pkg = false) ↔
      ¬∃ w ∈ rs.wildcards, w.isCandidate fnmatch pkg = true := by
    simp only [not_exists, not_and, Bool.not_eq_true]
  rw [hnone]
  by_cases hpkg : pkg ∈ rs.pkgs <;>
    by_cases hw : ∃ w ∈ rs.wildcards, w.isCandidate fnmatch pkg = true <;>
    cases hc : containsWildcard pkg <;> simp [hpkg, hw]

theorem contains_retainConfigured (env : Env κ) (cfg : ConfigSnapshot) (s : System κ) {pid : Int}
    {p : ProcessState} (hp : s.tracker.procs.lookup pid = some p) :
    ((retainConfigured env cfg).run s).2.tracker.contains pid = true ↔ p.pkg ∈ cfg.rules.pkgs := by
  rw [StateTracker.contains, retainConfigured, lookup_retainInterested, hp]
  by_cases hset : p.pkg ∈ cfg.rules.pkgs
  · simp [Option.filter, pkgSet, hset]
  · simp [Option.filter, pkgSet, hset]

/-- A reload treats a tracked process as the rules do exactly when its package is
listed as wanted. -/
theorem reload_keeps_wanted_iff (env : Env κ) (cfg : ConfigSnapshot) (s : System κ) (pid : Int)
    (p : ProcessState) (hp : s.tracker.procs.lookup pid = some p) :
    (((retainConfigured env cfg).run s).2.tracker.contains pid = true ↔
        cfg.rules.isInterested fnmatch p.pkg = true) ↔
      ListedAsWanted fnmatch cfg.rules p.pkg := by
  rw [contains_retainConfigured env cfg s hp]
  exact mem_pkgs_iff_isInterested fnmatch cfg.rules p.pkg

end Interest

/-- `com.*` on CPU 0. -/
def patternConfig : ConfigSnapshot where
  version := 1
  rules := (compile [.ofCpus "com.*" "" "0"] (.flat 4)).rules

def tracking (pid : Int) (pkg : String) : System Unit :=
  { System.init () with
    tracker := { StateTracker.new with procs := AList.singleton pid (.new pid 7 pkg 0) } }

theorem reload_keeps_wanted_at_com_a :
    (((retainConfigured .silent patternConfig).run (tracking 1 "com.a")).2.tracker.contains 1 =
          true ↔
        patternConfig.rules.isInterested glob "com.a" = true) ↔
      ListedAsWanted glob patternConfig.rules "com.a" :=
  reload_keeps_wanted_iff glob .silent patternConfig (tracking 1 "com.a") 1 (.new 1 7 "com.a" 0) rfl

/-- `com.a` is wanted through `com.*`, and a reload of the same configuration drops it. -/
theorem reload_drops_pattern_package :
    ¬∀ (env : Env Unit) (cfg : ConfigSnapshot) (s : System Unit) (pid : Int) (p : ProcessState),
      s.tracker.procs.lookup pid = some p →
        (((retainConfigured env cfg).run s).2.tracker.contains pid = true ↔
          cfg.rules.isInterested glob p.pkg = true) := by
  intro h
  have hcom := h .silent patternConfig (tracking 1 "com.a") 1 (.new 1 7 "com.a" 0) rfl
  have hwanted : patternConfig.rules.isInterested glob "com.a" = true := by decide +kernel
  have hlisted := (contains_retainConfigured .silent patternConfig _ rfl).mp (hcom.mpr hwanted)
  revert hlisted
  decide +kernel

end Threadctl.Daemon
