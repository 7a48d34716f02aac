import Threadctl.Core.Affinity
import Threadctl.Core.ApplyPaths
import Threadctl.Core.RangeText

/-!
# The masks that are set

`apply_affinity` hands at most one mask to the kernel.  The mask is never empty and never
leaves the policy, the online CPUs and the allowed CPUs, and the result tells whether the
allowed CPUs cut it down.
-/

namespace Threadctl.Core

open Threadctl.Support.EventLog

variable {κ : Type}

/-! ## Masks -/

theorem isSet_onlineFilter (topo : CpuTopology) (cpus : CpuSet) (i : Nat) :
    (onlineFilter topo cpus).isSet i = true ↔
      cpus.isSet i = true ∧ (0 < topo.onlineCpus.count → topo.onlineCpus.isSet i = true) := by
  by_cases h : 0 < topo.onlineCpus.count
  · rw [onlineFilter_eq h, CpuSet.isSet_and, Bool.and_eq_true]
    exact ⟨fun hi => ⟨hi.1, fun _ => hi.2⟩, fun hi => ⟨hi.1, hi.2 h⟩⟩
  · rw [onlineFilter, if_neg h]
    exact ⟨fun hi => ⟨hi, fun h' => absurd h' h⟩, fun hi => hi.1⟩

/-- The allowed CPUs lack a requested CPU that is online. -/
def Cuts (topo : CpuTopology) (cpus allowed : CpuSet) : Prop :=
  ∃ i, (cpus.isSet i = true ∧ (0 < topo.onlineCpus.count → topo.onlineCpus.isSet i = true)) ∧
    allowed.isSet i = false

theorem text_ne_iff_cuts (topo : CpuTopology) (cpus allowed : CpuSet) :
    (onlineFilter topo cpus).toRangeString ≠
        ((onlineFilter topo cpus).and allowed).toRangeString ↔ Cuts topo cpus allowed := by
  rw [toRangeString_injective.ne_iff, ne_comm, ne_eq, CpuSet.and_eq_left_iff]
  simp only [CpuSet.within, Cuts, ← isSet_onlineFilter, not_forall, Bool.not_eq_true,
    exists_prop]

/-- A mask that may be handed to the kernel when it has answered `allowed`. -/
structure LegalMask (policy : Policy) (topo : CpuTopology) (allowed : Option CpuSet)
    (mask : CpuSet) : Prop where
  nonempty : 0 < mask.count
  requested : mask.within policy.cpus
  online : 0 < topo.onlineCpus.count → mask.within topo.onlineCpus
  allowed : ∀ a, allowed = some a → mask.within a

theorem legalMask_online {policy : Policy} {topo : CpuTopology}
    (h : (onlineFilter topo policy.cpus).count ≠ 0) :
    LegalMask policy topo none (onlineFilter topo policy.cpus) where
  nonempty := Nat.pos_of_ne_zero h
  requested i hi := ((isSet_onlineFilter topo policy.cpus i).mp hi).1
  online hpos i hi := ((isSet_onlineFilter topo policy.cpus i).mp hi).2 hpos
  allowed := nofun

theorem legalMask_and {policy : Policy} {topo : CpuTopology} {a : CpuSet}
    (h : ((onlineFilter topo policy.cpus).and a).count ≠ 0) :
    LegalMask policy topo (some a) ((onlineFilter topo policy.cpus).and a) := by
  have hsplit : ∀ i, ((onlineFilter topo policy.cpus).and a).isSet i = true →
      (onlineFilter topo policy.cpus).isSet i = true ∧ a.isSet i = true := by
    intro i hi
    rwa [CpuSet.isSet_and, Bool.and_eq_true] at hi
  constructor
  · exact Nat.pos_of_ne_zero h
  · exact fun i hi => ((isSet_onlineFilter topo policy.cpus i).mp (hsplit i hi).1).1
  · exact fun hpos i hi => ((isSet_onlineFilter topo policy.cpus i).mp (hsplit i hi).1).2 hpos
  · rintro a' ⟨⟩ i hi
    exact (hsplit i hi).2

/-! ## The calls about masks -/

def ApplyOutcome.isSuccess (outcome : ApplyOutcome) : Bool :=
  outcome = .applied || outcome = .downgraded

/-- The calls that bring a thread into its cpuset. -/
def Call.isJoin : Call → Bool
  | .createCpusetDir .. => true
  | .appendTask .. => true
  | _ => false

def Call.isSetAffinity : Call → Bool
  | .setAffinity .. => true
  | _ => false

/-- The calls of `apply_affinity` about the masks of the thread. -/
inductive MaskCalls (tid : Int) (policy : Policy) (topo : CpuTopology) :
    List Call → ApplyOutcome → Prop where
  | untouched {outcome : ApplyOutcome} (h : outcome.isSuccess = false)
      (hgone : outcome ≠ .exited) : MaskCalls tid policy topo [] outcome
  | already : MaskCalls tid policy topo [.getAffinity tid (some policy.cpus)] .applied
  | unset {curr allowed : Option CpuSet} {outcome : ApplyOutcome}
      (h : outcome.isSuccess = false) (hgone : outcome ≠ .exited) :
      MaskCalls tid policy topo [.getAffinity tid curr, .readAllowedMask tid allowed] outcome
  | set {curr allowed : Option CpuSet} {mask : CpuSet}
      (hlegal : LegalMask policy topo allowed mask) {outcome : ApplyOutcome}
      (houtcome : outcome = .applied ∧ (∀ a, allowed = some a → ¬ Cuts topo policy.cpus a) ∨
        outcome = .downgraded ∧ ∃ a, allowed = some a ∧ Cuts topo policy.cpus a) :
      MaskCalls tid policy topo [.getAffinity tid curr, .readAllowedMask tid allowed,
        .setAffinity tid mask (.ok ())] outcome
  | refused {curr allowed : Option CpuSet} {mask : CpuSet}
      (hlegal : LegalMask policy topo allowed mask) (errno : Nat) {outcome : ApplyOutcome}
      (h : outcome.isSuccess = false) (hgone : outcome = .exited ↔ errno = ESRCH) :
      MaskCalls tid policy topo [.getAffinity tid curr, .readAllowedMask tid allowed,
        .setAffinity tid mask (.error errno)] outcome

theorem EnsurePath.calls {dir : String} {es : List Event} (h : EnsurePath dir es) :
    ∀ c ∈ callsOf es, c.isJoin = true := by
  cases h with
  | skipped => simp
  | asked created => simp [Call.isJoin]

theorem JoinPath.calls {tid : Int} {policy : Policy} {topo : CpuTopology} {es : List Event}
    (h : JoinPath tid policy topo es) : ∀ c ∈ callsOf es, c.isJoin = true := by
  cases h with
  | unused h => simp
  | joined h =>
      intro c hc
      rw [callsOf_append, List.mem_append] at hc
      rcases hc with hc | hc
      · exact h.calls c hc
      · rw [callsOf_call, callsOf_nil, List.mem_singleton] at hc
        rw [hc]
        rfl
  | refused h hentry =>
      intro c hc
      rw [callsOf_append, List.mem_append] at hc
      rcases hc with hc | hc
      · exact h.calls c hc
      · rw [callsOf_call, callsOf_record, callsOf_nil, List.mem_singleton] at hc
        rw [hc]
        rfl

theorem refusedAffinity_isSuccess (errno : Nat) : (refusedAffinity errno).isSuccess = false := by
  unfold refusedAffinity
  split
  · rfl
  · split
    · rfl
    · split
      · rfl
      · rfl

theorem refusedAffinity_exited (errno : Nat) :
    refusedAffinity errno = .exited ↔ errno = ESRCH := by
  unfold refusedAffinity
  split
  · rename_i h
    simp [h]
  · rename_i h
    split
    · simp [h]
    · split
      · simp [h]
      · simp [h]

theorem SetPath.maskCalls {tid : Int} {policy : Policy} {topo : CpuTopology} {mask : CpuSet}
    {es : List Event} {outcome : ApplyOutcome} (h : SetPath tid mask es outcome)
    (curr : Option CpuSet) {allowed : Option CpuSet}
    (hlegal : mask.count ≠ 0 → LegalMask policy topo allowed mask)
    (hkept : ∀ a, allowed = some a → ¬ Cuts topo policy.cpus a) :
    MaskCalls tid policy topo
      (.getAffinity tid curr :: .readAllowedMask tid allowed :: callsOf es) outcome := by
  cases h with
  | empty h => exact .unset rfl (by decide)
  | set h hentry => exact .set (hlegal h) (Or.inl ⟨rfl, hkept⟩)
  | refused h errno hentry =>
      exact .refused (hlegal h) errno (refusedAffinity_isSuccess errno)
        (refusedAffinity_exited errno)

theorem AllowedPath.maskCalls {tid : Int} {policy : Policy} {topo : CpuTopology} {es : List Event}
    {outcome : ApplyOutcome} (h : AllowedPath tid (onlineFilter topo policy.cpus) es outcome)
    (curr : Option CpuSet) :
    MaskCalls tid policy topo (.getAffinity tid curr :: callsOf es) outcome := by
  cases h with
  | unreadable h => exact h.maskCalls curr legalMask_online nofun
  | blocked h hentry => exact .unset rfl (by decide)
  | downgraded h hcut hes =>
      have hcuts := (text_ne_iff_cuts topo policy.cpus _).mp hcut
      cases hes with
      | set hentry => exact .set (legalMask_and h) (Or.inr ⟨rfl, _, rfl, hcuts⟩)
      | refused errno hentry =>
          refine .refused (legalMask_and h) errno ?_ ?_
          · split
            · rfl
            · rfl
          · split
            · rename_i hgone
              simp [hgone]
            · rename_i hgone
              simp [hgone]
  | kept h hsame hes =>
      refine hes.maskCalls curr legalMask_and ?_
      rintro a ⟨⟩ hcuts
      exact (text_ne_iff_cuts topo policy.cpus _).mpr hcuts hsame

theorem AffinityPath.maskCalls {tid : Int} {policy : Policy} {topo : CpuTopology}
    {es : List Event} {outcome : ApplyOutcome} (h : AffinityPath tid policy topo es outcome) :
    ∃ js cs, callsOf es = js ++ cs ∧ (∀ c ∈ js, c.isJoin = true) ∧
      MaskCalls tid policy topo cs outcome := by
  cases h with
  | noCpus h => exact ⟨[], [], rfl, nofun, .untouched rfl (by decide)⟩
  | already h hjoin hentry => exact ⟨_, _, callsOf_append _ _, hjoin.calls, .already⟩
  | other h hjoin hcurr hes =>
      exact ⟨_, _, callsOf_append _ _, hjoin.calls, hes.maskCalls _⟩

/-! ## The contract -/

section Contract

variable {tid : Int} {policy : Policy} {topo : CpuTopology} {cs : List Call}
  {outcome : ApplyOutcome} (h : MaskCalls tid policy topo cs outcome)

include h

theorem MaskCalls.countP_le : cs.countP Call.isSetAffinity ≤ 1 := by
  cases h with
  | untouched h hgone => simp
  | already => simp [Call.isSetAffinity]
  | unset h hgone => simp [Call.isSetAffinity]
  | set hlegal houtcome => simp [Call.isSetAffinity]
  | refused hlegal errno h hgone => simp [Call.isSetAffinity]

theorem MaskCalls.legal {tid' : Int} {mask : CpuSet} {answer : SysResult}
    (hmem : Call.setAffinity tid' mask answer ∈ cs) :
    tid' = tid ∧ (∃ allowed, Call.readAllowedMask tid allowed ∈ cs) ∧
      ∀ allowed, Call.readAllowedMask tid allowed ∈ cs → LegalMask policy topo allowed mask := by
  cases h with
  | untouched h hgone => simp at hmem
  | already => simp at hmem
  | unset h hgone => simp at hmem
  | set hlegal houtcome =>
      obtain ⟨rfl, rfl, rfl⟩ : tid' = tid ∧ mask = _ ∧ answer = .ok () := by simpa using hmem
      simpa using hlegal
  | refused hlegal errno h hgone =>
      obtain ⟨rfl, rfl, rfl⟩ : tid' = tid ∧ mask = _ ∧ answer = .error errno := by
        simpa using hmem
      simpa using hlegal

theorem MaskCalls.success (hsuccess : outcome = .applied ∨ outcome = .downgraded) :
    Call.getAffinity tid (some policy.cpus) ∈ cs ∨
      ∃ mask, Call.setAffinity tid mask (.ok ()) ∈ cs := by
  have hfail : outcome.isSuccess ≠ false := by
    rcases hsuccess with rfl | rfl <;> decide
  cases h with
  | untouched h hgone => exact absurd h hfail
  | already => exact Or.inl List.mem_cons_self
  | unset h hgone => exact absurd h hfail
  | @set curr allowed mask hlegal _ houtcome => exact Or.inr ⟨mask, by simp⟩
  | refused hlegal errno h hgone => exact absurd h hfail

theorem MaskCalls.downgraded_iff :
    outcome = .downgraded ↔
      ∃ allowed mask, Call.readAllowedMask tid (some allowed) ∈ cs ∧
        Cuts topo policy.cpus allowed ∧ Call.setAffinity tid mask (.ok ()) ∈ cs := by
  have hne : outcome.isSuccess = false → outcome ≠ .downgraded := by
    rintro h rfl
    exact absurd h (by decide)
  cases h with
  | untouched h hgone => simpa using hne h
  | already => simp
  | unset h hgone => simpa using hne h
  | @set curr allowed mask hlegal _ houtcome =>
      constructor
      · intro hdown
        rcases houtcome with ⟨rfl, -⟩ | ⟨-, a, rfl, hcuts⟩
        · exact absurd hdown (by decide)
        · exact ⟨a, mask, by simp, hcuts, by simp⟩
      · rintro ⟨a, mask, hread, hcuts, -⟩
        have ha : some a = allowed := by simpa using hread
        rcases houtcome with ⟨-, hkept⟩ | ⟨hdown, -⟩
        · exact absurd hcuts (hkept a ha.symm)
        · exact hdown
  | refused hlegal errno h hgone => simpa using hne h

end Contract

/-- Whatever the backend answers: at most one mask is set, it is a legal one, and the result
says what became of it. -/
theorem affinity_masks_legal (env : Env κ) (tid : Int) (pkg : String) (policy : Policy)
    (topo : CpuTopology) (s : System (Traced κ Call)) :
    let t := transcript (applyAffinity env.traced tid pkg policy topo) s
    t.calls.countP Call.isSetAffinity ≤ 1 ∧
      (∀ tid' mask answer, Call.setAffinity tid' mask answer ∈ t.calls →
        tid' = tid ∧ (∃ allowed, Call.readAllowedMask tid allowed ∈ t.calls) ∧
        ∀ allowed, Call.readAllowedMask tid allowed ∈ t.calls →
          LegalMask policy topo allowed mask) ∧
      (t.result = .applied ∨ t.result = .downgraded →
        Call.getAffinity tid (some policy.cpus) ∈ t.calls ∨
          ∃ mask, Call.setAffinity tid mask (.ok ()) ∈ t.calls) ∧
      (t.result = .downgraded ↔
        ∃ allowed mask, Call.readAllowedMask tid (some allowed) ∈ t.calls ∧
          Cuts topo policy.cpus allowed ∧ Call.setAffinity tid mask (.ok ()) ∈ t.calls) := by
  intro t
  obtain ⟨es, hpath, hcalls, -⟩ := transcript_of_traces s
    (traces_applyAffinity env.moves_unit tid pkg (trail _ s) policy topo)
  obtain ⟨js, cs, hes, hjoin, hmask⟩ := hpath.maskCalls
  have hsplit : t.calls = js ++ cs := hcalls.trans hes
  have hmem : ∀ c : Call, c.isJoin = false → (c ∈ t.calls ↔ c ∈ cs) := by
    intro c hc
    have hjs : c ∉ js := fun h => by simp [hjoin c h] at hc
    rw [hsplit, List.mem_append, or_iff_right hjs]
  have hcount : js.countP Call.isSetAffinity = 0 := by
    rw [List.countP_eq_zero]
    intro c hc hset
    have hboth := hjoin c hc
    cases c <;> simp_all [Call.isJoin, Call.isSetAffinity]
  refine ⟨?_, ?_, ?_, ?_⟩
  · rw [hsplit, List.countP_append, hcount, Nat.zero_add]
    exact hmask.countP_le
  · intro tid' mask answer hset
    obtain ⟨htid, ⟨allowed, hread⟩, hlegal⟩ := hmask.legal ((hmem _ rfl).mp hset)
    exact ⟨htid, ⟨allowed, (hmem _ rfl).mpr hread⟩, fun a ha => hlegal a ((hmem _ rfl).mp ha)⟩
  · intro hsuccess
    rcases hmask.success hsuccess with h | ⟨mask, h⟩
    · exact Or.inl ((hmem _ rfl).mpr h)
    · exact Or.inr ⟨mask, (hmem _ rfl).mpr h⟩
  · refine hmask.downgraded_iff.trans ?_
    refine exists_congr fun allowed => exists_congr fun mask => ?_
    rw [hmem _ rfl, hmem _ rfl]

end Threadctl.Core
