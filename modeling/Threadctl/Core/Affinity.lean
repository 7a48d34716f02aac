import Threadctl.Core.Apply

/-!
# The affinity of a thread over many policies

On Linux the allowed CPUs read before an affinity call are those the last call
wrote.  With such a backend every application works on the leavings of the one
before it: the mask of a thread never grows except by a policy that names it whole.
-/

namespace Threadctl.Core

open Threadctl.Support.StateRun

variable {κ : Type}

theorem isSet_foldl_clear (online : CpuSet) (is : List Nat) (cpus : CpuSet) (i : Nat) :
    (is.foldl (fun e j => if e.isSet j && !online.isSet j then e.clear j else e) cpus).isSet i =
      (cpus.isSet i && (!decide (i ∈ is) || online.isSet i)) := by
  induction is generalizing cpus with
  | nil => simp
  | cons j is ih =>
      rw [List.foldl_cons, ih]
      by_cases hij : i = j
      · subst hij
        cases hc : cpus.isSet i <;> cases ho : online.isSet i <;> simp [hc]
      · have hstep : (if cpus.isSet j && !online.isSet j then cpus.clear j else cpus).isSet i =
            cpus.isSet i := by
          split
          · simp [Ne.symm hij]
          · rfl
        rw [hstep]
        simp [hij]

theorem onlineFilter_eq {topo : CpuTopology} (h : 0 < topo.onlineCpus.count) (cpus : CpuSet) :
    onlineFilter topo cpus = cpus.and topo.onlineCpus := by
  apply CpuSet.ext_isSet
  intro i
  rw [onlineFilter, if_pos h, isSet_foldl_clear, CpuSet.isSet_and]
  by_cases hi : i < 1024
  · simp [hi]
  · simp [CpuSet.isSet_of_le _ (Nat.le_of_not_lt hi)]

/-! ## The backend -/

/-- Every affinity call succeeds, and both ways of reading a mask return the mask last set. -/
structure MaskBackend (env : Env κ) (mask : κ → Int → CpuSet) (tid : Int) : Prop where
  set_ok : ∀ cpus k, ((env.setAffinity tid cpus).run k).1 = .ok ()
  set_mask : ∀ cpus k, mask ((env.setAffinity tid cpus).run k).2 tid = cpus
  get_eq : ∀ k, ((env.getAffinity tid).run k).1 = some (mask k tid)
  get_mask : ∀ k, mask ((env.getAffinity tid).run k).2 tid = mask k tid
  allowed_eq : ∀ k, ((env.readAllowedMask tid).run k).1 = some (mask k tid)
  allowed_mask : ∀ k, mask ((env.readAllowedMask tid).run k).2 tid = mask k tid
  now_mask : ∀ k, mask ((env.nowSecs).run k).2 tid = mask k tid

/-- The cpuset channel is not used. -/
def CpuTopology.NoCpuset (topo : CpuTopology) : Prop :=
  (topo.cpusetEnabled && topo.baseCpusetFd != -1) = false

def nextMask (online before : CpuSet) (cpus : CpuSet) : CpuSet :=
  if before = cpus then before
  else if ((cpus.and online).and before).count = 0 then before
  else (cpus.and online).and before

section Step

variable {env : Env κ} {mask : κ → Int → CpuSet} {tid : Int}

def HasMask (mask : κ → Int → CpuSet) (tid : Int) (m : CpuSet) (s : System κ) : Prop :=
  mask s.kernel tid = m

theorem record_mask (laws : MaskBackend env mask tid) (m : CpuSet) (entry : AuditEntry) :
    Keeps (HasMask mask tid m) (record env entry) := by
  refine Keeps.ite (Keeps.bind ?_ fun now => Keeps.modify fun s hs => hs)
    (Keeps.modify fun s hs => hs)
  intro s hs
  exact (laws.now_mask s.kernel).trans hs

theorem record_pure_mask {α : Type} (laws : MaskBackend env mask tid) (m : CpuSet)
    (entry : AuditEntry) (a : α) : Keeps (HasMask mask tid m) (do record env entry; pure a) :=
  Keeps.bind (record_mask laws m entry) fun _ => Keeps.pure

theorem ask_setAffinity (laws : MaskBackend env mask tid) (m cpus : CpuSet) :
    Triple (HasMask mask tid m) (ask (env.setAffinity tid cpus))
      fun r s => r = .ok () ∧ HasMask mask tid cpus s :=
  fun s _ => ⟨laws.set_ok cpus s.kernel, laws.set_mask cpus s.kernel⟩

theorem setEffective_mask (laws : MaskBackend env mask tid) (m : CpuSet) (pkg requested : String)
    {effective : CpuSet} (h : effective.count ≠ 0) :
    Triple (HasMask mask tid m) (setEffective env tid pkg requested effective)
      fun _ => HasMask mask tid effective := by
  rw [setEffective, if_neg h]
  refine Triple.bind (ask_setAffinity laws m effective) fun r => ?_
  rintro s ⟨rfl, hs⟩
  exact record_pure_mask laws effective _ _ s hs

theorem setDowngraded_mask (laws : MaskBackend env mask tid) (m : CpuSet) (pkg before : String)
    (effective : CpuSet) :
    Triple (HasMask mask tid m) (setDowngraded env tid pkg before effective)
      fun _ => HasMask mask tid effective := by
  refine Triple.bind (ask_setAffinity laws m effective) fun r => ?_
  rintro s ⟨rfl, hs⟩
  exact record_pure_mask laws effective _ _ s hs

/-- The mask is cut to the CPUs that are also online and in the policy, if any are left. -/
theorem setAllowed_mask (laws : MaskBackend env mask tid) {topo : CpuTopology}
    (honline : 0 < topo.onlineCpus.count) (m : CpuSet) (pkg : String) (policy : Policy) :
    Triple (HasMask mask tid m) (setAllowed env tid pkg policy topo)
      fun _ => HasMask mask tid
        (if ((policy.cpus.and topo.onlineCpus).and m).count = 0 then m
          else (policy.cpus.and topo.onlineCpus).and m) := by
  refine Triple.bind (Q := fun allowed s => allowed = some m ∧ HasMask mask tid m s) ?_
    fun allowed => ?_
  · intro s hs
    exact ⟨(laws.allowed_eq s.kernel).trans (congrArg some hs),
      (laws.allowed_mask s.kernel).trans hs⟩
  · rintro s ⟨rfl, hs⟩
    dsimp only
    rw [onlineFilter_eq honline]
    by_cases hnone : ((policy.cpus.and topo.onlineCpus).and m).count = 0
    · rw [if_pos hnone, if_pos hnone]
      exact record_pure_mask laws m _ _ s hs
    · rw [if_neg hnone, if_neg hnone]
      exact Triple.ite (setDowngraded_mask laws m pkg _ _)
        (setEffective_mask laws m pkg _ hnone) s hs

theorem applyAffinity_mask (laws : MaskBackend env mask tid) {topo : CpuTopology}
    (hcpuset : topo.NoCpuset) (honline : 0 < topo.onlineCpus.count) (m : CpuSet) (pkg : String)
    {policy : Policy} (hcpus : policy.cpus.count ≠ 0) :
    Triple (HasMask mask tid m) (applyAffinity env tid pkg policy topo)
      fun _ => HasMask mask tid (nextMask topo.onlineCpus m policy.cpus) := by
  rw [applyAffinity, if_neg hcpus]
  refine Triple.bind (Q := fun _ => HasMask mask tid m) ?_ fun _ => ?_
  · rw [joinCpuset, if_neg (by simp [show _ = false from hcpuset])]
    exact Triple.pure fun _ hs => hs
  · refine Triple.bind (Q := fun curr s => curr = some m ∧ HasMask mask tid m s) ?_ fun curr => ?_
    · intro s hs
      exact ⟨(laws.get_eq s.kernel).trans (congrArg some hs), (laws.get_mask s.kernel).trans hs⟩
    · rintro s ⟨rfl, hs⟩
      by_cases hsame : m = policy.cpus
      · rw [if_pos (by rw [hsame]), nextMask, if_pos hsame]
        refine Keeps.bind (Keeps.modify ?_) (fun _ => record_pure_mask laws m _ _) s hs
        exact fun t ht => ht
      · rw [if_neg (by simpa using hsame), nextMask, if_neg hsame]
        exact setAllowed_mask laws honline m pkg policy s hs

end Step

/-! ## Sequences of policies -/

def applyAll (env : Env κ) (tid : Int) (pkg : String) (topo : CpuTopology)
    (policies : List Policy) : Run κ Unit :=
  policies.forM fun policy => do
    let _ ← applyAffinity env tid pkg policy topo
    pure ()

def maskAfter (env : Env κ) (mask : κ → Int → CpuSet) (tid : Int) (pkg : String)
    (topo : CpuTopology) (policies : List Policy) (s : System κ) : CpuSet :=
  mask ((applyAll env tid pkg topo policies).run s).2.kernel tid

theorem run_forM_concat {σ α : Type} (f : α → StateM σ Unit) (l : List α) (a : α) (s : σ) :
    (((l ++ [a]).forM f).run s).2 = ((f a).run ((l.forM f).run s).2).2 := by
  induction l generalizing s with
  | nil => rfl
  | cons b l ih => exact ih ((f b).run s).2

/-- The last policy gets its online CPUs exactly when the mask already had them all,
and a mask that is the policy's own has no other CPUs. -/
theorem nextMask_eq_iff {online before cpus : CpuSet} (h : 0 < (cpus.and online).count) :
    nextMask online before cpus = cpus.and online ↔
      (cpus.and online).within before ∧ (before = cpus → cpus.within online) := by
  unfold nextMask
  by_cases hsame : before = cpus
  · subst hsame
    rw [if_pos rfl, eq_comm, CpuSet.and_eq_left_iff]
    have hsub : (before.and online).within before := by
      intro i hi
      rw [CpuSet.isSet_and, Bool.and_eq_true] at hi
      exact hi.1
    exact ⟨fun hw => ⟨hsub, fun _ => hw⟩, fun hw => hw.2 rfl⟩
  · rw [if_neg hsame]
    have hcut : ((cpus.and online).and before = cpus.and online) ↔
        (cpus.and online).within before ∧ (before = cpus → cpus.within online) := by
      rw [CpuSet.and_eq_left_iff]
      exact ⟨fun hw => ⟨hw, fun heq => absurd heq hsame⟩, fun hw => hw.1⟩
    by_cases hnone : ((cpus.and online).and before).count = 0
    · -- blocked: the mask stays, and it misses every CPU of the target
      rw [if_pos hnone, ← hcut]
      constructor
      · intro heq
        rw [heq, CpuSet.and_eq_left_iff.mpr fun i hi => hi] at hnone
        omega
      · intro heq
        rw [heq] at hnone
        omega
    · rw [if_neg hnone, hcut]

theorem count_ne_zero_of_and {s t : CpuSet} (h : 0 < (s.and t).count) :
    s.count ≠ 0 ∧ 0 < t.count := by
  obtain ⟨i, hi⟩ := CpuSet.count_pos_iff.mp h
  rw [CpuSet.isSet_and, Bool.and_eq_true] at hi
  have hs := CpuSet.count_pos_iff.mpr ⟨i, hi.1⟩
  exact ⟨by omega, CpuSet.count_pos_iff.mpr ⟨i, hi.2⟩⟩

theorem maskAfter_concat {env : Env κ} {mask : κ → Int → CpuSet} {tid : Int}
    (laws : MaskBackend env mask tid) {topo : CpuTopology} (hcpuset : topo.NoCpuset) (pkg : String)
    (policies : List Policy) {policy : Policy}
    (hcpus : 0 < (policy.cpus.and topo.onlineCpus).count) (s : System κ) :
    maskAfter env mask tid pkg topo (policies ++ [policy]) s =
      nextMask topo.onlineCpus (maskAfter env mask tid pkg topo policies s) policy.cpus := by
  obtain ⟨hpolicy, honline⟩ := count_ne_zero_of_and hcpus
  rw [maskAfter, applyAll, run_forM_concat]
  exact applyAffinity_mask laws hcpuset honline _ pkg hpolicy _ rfl

/-- Whatever was applied before, the last policy wins exactly when the mask it finds
holds all its online CPUs and, if it finds its own mask, all its CPUs are online. -/
theorem last_policy_wins_iff (env : Env κ) (mask : κ → Int → CpuSet) (tid : Int)
    (laws : MaskBackend env mask tid) (topo : CpuTopology) (hcpuset : topo.NoCpuset) (pkg : String)
    (policies : List Policy) (policy : Policy)
    (hcpus : 0 < (policy.cpus.and topo.onlineCpus).count) (s : System κ) :
    maskAfter env mask tid pkg topo (policies ++ [policy]) s = policy.cpus.and topo.onlineCpus ↔
      (policy.cpus.and topo.onlineCpus).within (maskAfter env mask tid pkg topo policies s) ∧
        (maskAfter env mask tid pkg topo policies s = policy.cpus →
          policy.cpus.within topo.onlineCpus) := by
  rw [maskAfter_concat laws hcpuset pkg policies hcpus s]
  exact nextMask_eq_iff hcpus

/-! ## A kernel that keeps masks -/

/-- The kernel state is the mask of every thread. -/
def maskEnv : Env (Int → CpuSet) :=
  { Env.silent with
    getAffinity := fun tid => do
      let masks ← get
      pure (some (masks tid))
    setAffinity := fun tid cpus => do
      modify fun masks => Function.update masks tid cpus
      pure (.ok ())
    readAllowedMask := fun tid => do
      let masks ← get
      pure (some (masks tid)) }

theorem maskEnv_laws (tid : Int) : MaskBackend maskEnv (fun masks => masks) tid where
  set_ok _ _ := rfl
  set_mask cpus masks := show Function.update masks tid cpus tid = cpus by simp
  get_eq _ := rfl
  get_mask _ := rfl
  allowed_eq _ := rfl
  allowed_mask _ := rfl
  now_mask _ := rfl

def firstCpus (n : Nat) : Policy := ⟨.firstN n, "", none, none, none, none, none⟩

def fullMasks : System (Int → CpuSet) := .init fun _ => .firstN 4

theorem last_policy_wins_at_narrowing :
    maskAfter maskEnv (fun masks => masks) 7 "com.a" (.flat 4) ([firstCpus 2] ++ [firstCpus 1])
        fullMasks = (CpuSet.firstN 1).and (CpuTopology.flat 4).onlineCpus ↔
      ((CpuSet.firstN 1).and (CpuTopology.flat 4).onlineCpus).within
          (maskAfter maskEnv (fun masks => masks) 7 "com.a" (.flat 4) [firstCpus 2] fullMasks) ∧
        (maskAfter maskEnv (fun masks => masks) 7 "com.a" (.flat 4) [firstCpus 2] fullMasks =
            .firstN 1 →
          (CpuSet.firstN 1).within (CpuTopology.flat 4).onlineCpus) :=
  last_policy_wins_iff maskEnv (fun masks => masks) 7 (maskEnv_laws 7) (.flat 4) rfl "com.a"
    [firstCpus 2] (firstCpus 1) (by decide +kernel) fullMasks

/-- Widening is lost: after CPU 0 alone, a policy for CPUs 0 and 1 leaves CPU 0. -/
theorem widening_is_lost :
    ¬∀ (env : Env (Int → CpuSet)) (mask : (Int → CpuSet) → Int → CpuSet) (tid : Int)
      (topo : CpuTopology) (pkg : String) (policies : List Policy) (policy : Policy)
      (s : System (Int → CpuSet)), MaskBackend env mask tid → topo.NoCpuset →
      (∀ p ∈ policies ++ [policy], 0 < (p.cpus.and topo.onlineCpus).count) →
        maskAfter env mask tid pkg topo (policies ++ [policy]) s =
          policy.cpus.and topo.onlineCpus := by
  intro h
  have laws := maskEnv_laws 7
  have hcpuset : (CpuTopology.flat 4).NoCpuset := rfl
  have hcase := h maskEnv (fun masks => masks) 7 (.flat 4) "com.a" ([] ++ [firstCpus 1])
    (firstCpus 2) fullMasks laws hcpuset (by decide +kernel)
  rw [maskAfter_concat laws hcpuset _ _ (by decide +kernel),
    maskAfter_concat laws hcpuset _ _ (by decide +kernel)] at hcase
  have hmask : nextMask (CpuTopology.flat 4).onlineCpus
      (nextMask (CpuTopology.flat 4).onlineCpus (.firstN 4) (firstCpus 1).cpus) (firstCpus 2).cpus =
        .firstN 1 := by decide +kernel
  have hwant : CpuSet.firstN 1 = (firstCpus 2).cpus.and (CpuTopology.flat 4).onlineCpus :=
    hmask.symm.trans hcase
  revert hwant
  decide +kernel

end Threadctl.Core
