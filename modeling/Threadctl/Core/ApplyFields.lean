import Threadctl.Core.AffinityMasks

/-!
# Which fields of a policy reach the kernel

The calls of an application come in stages: affinity, scheduling policy, nice, uclamp.
The nice value is only set on the way through the scheduling policy, and a real-time
policy that is not allowed ends the application.
-/

namespace Threadctl.Core

open Threadctl.Support.EventLog

variable {κ : Type}

/-! ## Stages -/

inductive ApplyStage where
  | affinity
  | sched
  | nice
  | uclamp
  deriving DecidableEq

def Call.stage : Call → ApplyStage
  | .schedSetscheduler .. => .sched
  | .setpriority .. => .nice
  | .schedSetattr .. => .uclamp
  | .readUtilClampMax .. => .uclamp
  | _ => .affinity

def Call.succeeded : Call → Bool
  | .setAffinity _ _ answer => answer.isOk
  | .createCpusetDir _ _ _ created => created
  | .removeCpusetDir _ removed => removed
  | .appendTask _ _ written => written
  | .schedSetscheduler _ _ _ answer => answer.isOk
  | .setpriority _ _ answer => answer.isOk
  | .schedSetattr _ _ _ _ answer => answer.isOk
  | .readUtilClampMax limit => limit.any (0 < ·)
  | _ => true

theorem AffinityPath.stage {tid : Int} {policy : Policy} {topo : CpuTopology} {es : List Event}
    {outcome : ApplyOutcome} (h : AffinityPath tid policy topo es outcome) :
    ∀ c ∈ callsOf es, c.stage = .affinity := by
  obtain ⟨js, cs, hes, hjoin, hmask⟩ := h.maskCalls
  intro c hc
  rw [hes, List.mem_append] at hc
  rcases hc with hc | hc
  · have hj := hjoin c hc
    cases c <;> simp_all [Call.isJoin, Call.stage]
  · cases hmask with
    | untouched h hgone => simp at hc
    | already =>
        rw [List.mem_singleton.mp hc]
        rfl
    | unset h hgone =>
        rcases List.mem_pair.mp hc with rfl | rfl
        · rfl
        · rfl
    | set hlegal houtcome =>
        simp only [List.mem_cons, List.not_mem_nil, or_false] at hc
        rcases hc with rfl | rfl | rfl
        · rfl
        · rfl
        · rfl
    | refused hlegal errno h hgone =>
        simp only [List.mem_cons, List.not_mem_nil, or_false] at hc
        rcases hc with rfl | rfl | rfl
        · rfl
        · rfl
        · rfl

theorem NicePath.stage {tid : Int} {nice : Option Int} {es : List Event}
    (h : NicePath tid nice es) : ∀ c ∈ callsOf es, c.stage = .nice := by
  cases h with
  | unset => simp
  | set n => simp [Call.stage]
  | refused n errno hentry => simp [Call.stage]

theorem SupportPath.stage {support : Option Bool} {es : List Event} {supported : Bool}
    (h : SupportPath support es supported) : ∀ c ∈ callsOf es, c.stage = .uclamp := by
  cases h with
  | known supported => simp
  | asked limit => simp [Call.stage]

theorem UclampPath.stage {support : Option Bool} {tid : Int} {lo hi : Option Nat}
    {outcome outcome' : ApplyOutcome} {es : List Event}
    (h : UclampPath support tid lo hi outcome es outcome') :
    ∀ c ∈ callsOf es, c.stage = .uclamp := by
  have hset : ∀ {ps fs : List Event} {answer : SysResult}, SupportPath support ps true →
      callsOf fs = [setattrCall tid lo hi answer] →
      ∀ c ∈ callsOf (ps ++ fs), c.stage = .uclamp := by
    intro ps fs answer hps hfs c hc
    rw [callsOf_append, hfs, List.mem_append, List.mem_singleton] at hc
    rcases hc with hc | rfl
    · exact hps.stage c hc
    · rfl
  cases h with
  | unset h => simp
  | unsupported h hps => exact hps.stage
  | set h hps => exact hset hps rfl
  | gone h hps => exact hset hps rfl
  | refused h hps herrno hentry => exact hset hps rfl

theorem NicePath.calls_none {tid : Int} {es : List Event} (h : NicePath tid none es) :
    callsOf es = [] := by
  cases h with
  | unset => rfl

theorem NicePath.calls_some {tid n : Int} {es : List Event} (h : NicePath tid (some n) es) :
    ∃ answer, callsOf es = [.setpriority tid (clamp (-20) 19 n) answer] := by
  cases h with
  | set n => exact ⟨_, rfl⟩
  | refused n errno hentry => exact ⟨_, rfl⟩

theorem SchedPath.split {tid : Int} {pol : SchedPolicy} {prio nice : Option Int}
    {es : List Event} {failure : Option ApplyOutcome} (h : SchedPath tid pol prio nice es failure) :
    ∃ answer ns, NicePath tid nice ns ∧
      callsOf es = .schedSetscheduler tid pol (schedPriority pol prio) answer :: callsOf ns ∧
      (failure = some .exited ↔ answer = .error ESRCH) := by
  cases h with
  | set hnice => exact ⟨_, _, hnice, rfl, by simp⟩
  | gone hnice => exact ⟨_, _, hnice, rfl, by simp⟩
  | @refused errno herrno ns hnice entry hentry =>
      exact ⟨.error errno, ns, hnice, by simp, by simp [herrno]⟩

theorem SchedPath.reached {tid : Int} {pol : SchedPolicy} {prio nice : Option Int}
    {es : List Event} {failure : Option ApplyOutcome} (h : SchedPath tid pol prio nice es failure) :
    (∃ answer, Call.schedSetscheduler tid pol (schedPriority pol prio) answer ∈ callsOf es) ∧
      ∀ n, nice = some n →
        ∃ answer, Call.setpriority tid (clamp (-20) 19 n) answer ∈ callsOf es := by
  obtain ⟨answer, ns, hnice, hcalls, -⟩ := h.split
  rw [hcalls]
  refine ⟨⟨answer, List.mem_cons_self⟩, ?_⟩
  rintro n rfl
  obtain ⟨reply, hns⟩ := hnice.calls_some
  exact ⟨reply, by simp [hns]⟩

theorem UclampPath.reached {support : Option Bool} {tid : Int} {lo hi : Option Nat}
    {outcome outcome' : ApplyOutcome} {es : List Event}
    (h : UclampPath support tid lo hi outcome es outcome') (hsupport : support ≠ some false)
    (hok : ∀ c ∈ callsOf es, c.succeeded = true) (hgiven : ¬ (lo.isNone ∧ hi.isNone)) :
    ∃ answer, setattrCall tid lo hi answer ∈ callsOf es := by
  cases h with
  | unset h => exact absurd h hgiven
  | unsupported h hps =>
      generalize hfalse : false = supported at hps
      cases hps with
      | known supported => exact absurd (congrArg some hfalse.symm) hsupport
      | asked limit =>
          have hlimit := hok (.readUtilClampMax limit) (by simp)
          exact absurd (hfalse.trans hlimit) Bool.false_ne_true
  | set h hps => exact ⟨.ok (), by simp⟩
  | gone h hps => exact ⟨.error ESRCH, by simp⟩
  | @refused h ps hps errno herrno entry hentry => exact ⟨.error errno, by simp⟩

/-- The affinity ends with the thread gone only when the kernel has said so. -/
theorem AffinityPath.exited {tid : Int} {policy : Policy} {topo : CpuTopology}
    {es : List Event} (h : AffinityPath tid policy topo es .exited) :
    ∃ mask, Call.setAffinity tid mask (.error ESRCH) ∈ callsOf es := by
  obtain ⟨js, cs, hes, -, hmask⟩ := h.maskCalls
  rw [hes]
  generalize ho : ApplyOutcome.exited = outcome at hmask
  cases hmask with
  | untouched h hgone => exact absurd ho.symm hgone
  | already => exact absurd ho (by decide)
  | unset h hgone => exact absurd ho.symm hgone
  | set hlegal houtcome =>
      rcases houtcome with ⟨rfl, -⟩ | ⟨rfl, -⟩
      · exact absurd ho (by decide)
      · exact absurd ho (by decide)
  | @refused curr allowed mask hlegal errno _ h hgone =>
      refine ⟨mask, ?_⟩
      rw [hgone.mp ho.symm]
      simp

/-! ## The contract -/

/-- Every field that the policy sets was handed to the kernel. -/
structure FieldsApplied (tid : Int) (policy : Policy) (rtAllowed : Bool) (calls : List Call) :
    Prop where
  nice : ∀ n, policy.nice = some n →
    ∃ answer, Call.setpriority tid (clamp (-20) 19 n) answer ∈ calls
  uclamp : ¬ (policy.uclampMin.isNone ∧ policy.uclampMax.isNone) →
    ∃ answer, setattrCall tid policy.uclampMin policy.uclampMax answer ∈ calls
  sched : ∀ pol, policy.sched = some pol → (pol.isRt && !rtAllowed) = false →
    ∃ answer, Call.schedSetscheduler tid pol (schedPriority pol policy.schedPrio) answer ∈ calls

/-- No field depends on one that is left out: a nice value comes with a scheduling policy,
and a real-time policy that is refused comes alone. -/
structure FieldsReachable (policy : Policy) (rtAllowed : Bool) : Prop where
  nice : policy.nice.isSome = true → policy.sched.isSome = true
  refused : ∀ pol, policy.sched = some pol → (pol.isRt && !rtAllowed) = true →
    policy.nice = none ∧ policy.uclampMin.isNone ∧ policy.uclampMax.isNone

theorem fieldsApplied_nice {tid : Int} {policy : Policy} {rtAllowed : Bool} {calls : List Call}
    (h : FieldsApplied tid policy rtAllowed calls) (hstage : ∀ c ∈ calls, c.stage ≠ .nice) :
    policy.nice = none := by
  cases hnice : policy.nice with
  | none => rfl
  | some n =>
      obtain ⟨answer, hmem⟩ := h.nice n hnice
      exact absurd rfl (hstage _ hmem)

theorem fieldsApplied_uclamp {tid : Int} {policy : Policy} {rtAllowed : Bool} {calls : List Call}
    (h : FieldsApplied tid policy rtAllowed calls) (hstage : ∀ c ∈ calls, c.stage ≠ .uclamp) :
    policy.uclampMin.isNone ∧ policy.uclampMax.isNone := by
  by_contra hgiven
  obtain ⟨answer, hmem⟩ := h.uclamp hgiven
  exact absurd rfl (hstage _ hmem)

/-- When every call succeeds, every field of the policy is handed to the kernel exactly when
none of them depends on one that is left out. -/
theorem fields_applied_iff (env : Env κ) (tid : Int) (pkg : String) (policy : Policy)
    (topo : CpuTopology) (rtAllowed : Bool) (s : System (Traced κ Call))
    (hsupport : s.uclampSupport ≠ some false)
    (hok : ∀ c ∈ (transcript (applyThread env.traced tid pkg policy topo rtAllowed) s).calls,
      c.succeeded = true) :
    FieldsApplied tid policy rtAllowed
        (transcript (applyThread env.traced tid pkg policy topo rtAllowed) s).calls ↔
      FieldsReachable policy rtAllowed := by
  obtain ⟨es, hpath, hcalls, -⟩ := applyThread_transcript env tid pkg policy topo rtAllowed s
  rw [hcalls] at hok ⊢
  generalize (transcript (applyThread env.traced tid pkg policy topo rtAllowed) s).result = o
    at hpath
  cases hpath with
  | exited h =>
      obtain ⟨mask, hmem⟩ := h.exited
      exact absurd (hok _ hmem) (by simp [Call.succeeded, Except.isOk, Except.toBool])
  | @noSched as us outcome _ h hgone hsched hus =>
      rw [callsOf_append] at hok ⊢
      constructor
      · intro happlied
        have hnone := fieldsApplied_nice happlied fun c hc => by
          rcases List.mem_append.mp hc with hc | hc
          · simp [h.stage c hc]
          · simp [hus.stage c hc]
        exact ⟨fun hsome => by simp [hnone] at hsome, fun pol hpol => by simp [hsched] at hpol⟩
      · intro hreach
        have hnone : policy.nice = none := by
          simpa [hsched, Option.isSome_iff_ne_none] using hreach.nice
        constructor
        · exact fun n hn => by simp [hnone] at hn
        · intro hgiven
          obtain ⟨answer, hmem⟩ := hus.reached hsupport
            (fun c hc => hok c (List.mem_append_right _ hc)) hgiven
          exact ⟨answer, List.mem_append_right _ hmem⟩
        · exact fun pol hpol => by simp [hsched] at hpol
  | @rtRefused as outcome h hgone pol hsched hrt =>
      constructor
      · intro happlied
        have hnice := fieldsApplied_nice happlied fun c hc => by simp [h.stage c hc]
        have huclamp := fieldsApplied_uclamp happlied fun c hc => by simp [h.stage c hc]
        exact ⟨fun hsome => by simp [hnice] at hsome, fun _ _ _ => ⟨hnice, huclamp⟩⟩
      · intro hreach
        obtain ⟨hnice, huclamp⟩ := hreach.refused pol hsched hrt
        constructor
        · exact fun n hn => by simp [hnice] at hn
        · exact fun hgiven => absurd huclamp hgiven
        · intro pol' hpol' hallowed
          obtain rfl := Option.some.inj (hsched.symm.trans hpol')
          exact absurd (hrt.symm.trans hallowed) (by decide)
  | @sched as ss us outcome _ h hgone pol hsched hrt failure hss hus =>
      rw [callsOf_append, callsOf_append] at hok ⊢
      obtain ⟨⟨answer, hset⟩, hnice⟩ := hss.reached
      constructor
      · intro _
        refine ⟨fun _ => by simp [hsched], fun pol' hpol' hrefused => ?_⟩
        obtain rfl := Option.some.inj (hsched.symm.trans hpol')
        exact absurd (hrefused.symm.trans hrt) (by decide)
      · intro _
        constructor
        · intro n hn
          obtain ⟨answer', hmem⟩ := hnice n hn
          exact ⟨answer', List.mem_append_right _ (List.mem_append_left _ hmem)⟩
        · intro hgiven
          obtain ⟨answer', hmem⟩ := hus.reached hsupport
            (fun c hc => hok c (List.mem_append_right _ (List.mem_append_right _ hc))) hgiven
          exact ⟨answer', List.mem_append_right _ (List.mem_append_right _ hmem)⟩
        · intro pol' hpol' _
          obtain rfl := Option.some.inj (hsched.symm.trans hpol')
          exact ⟨answer, List.mem_append_right _ (List.mem_append_left _ hset)⟩

/-- A kernel with uclamp that accepts every call. -/
def Env.capable {κ : Type} : Env κ := { Env.silent with readUtilClampMax := pure (some 1024) }

/-- A policy that leaves the affinity alone. -/
def Policy.unset : Policy where
  cpus := .new
  cpusetDir := ""
  sched := none
  schedPrio := none
  nice := none
  uclampMin := none
  uclampMax := none

theorem fields_applied_batch :
    FieldsApplied 7 { Policy.unset with sched := some .batch, nice := some 30, uclampMin := some 5 }
      false (transcript (applyThread Env.capable.traced 7 "a"
        { Policy.unset with sched := some .batch, nice := some 30, uclampMin := some 5 }
        .default false) (System.init ⟨(), []⟩)).calls :=
  (fields_applied_iff Env.capable 7 "a"
    { Policy.unset with sched := some .batch, nice := some 30, uclampMin := some 5 } .default false
    (System.init ⟨(), []⟩) (by decide) (by decide +kernel)).mpr
    ⟨fun _ => rfl, fun pol hpol hrt => by
      obtain rfl : SchedPolicy.batch = pol := Option.some.inj hpol
      exact absurd hrt (by decide)⟩

/-- A nice value alone never reaches the kernel, although every call succeeds. -/
theorem nice_alone_not_applied :
    let calls := (transcript (applyThread Env.capable.traced 7 "a"
      { Policy.unset with nice := some 5 } .default true) (System.init ⟨(), []⟩)).calls
    (∀ c ∈ calls, c.succeeded = true) ∧
      ¬ FieldsApplied 7 { Policy.unset with nice := some 5 } true calls := by
  intro calls
  have hcalls : calls = [] := rfl
  rw [hcalls]
  refine ⟨nofun, fun h => ?_⟩
  obtain ⟨answer, hmem⟩ := h.nice 5 rfl
  exact List.not_mem_nil hmem

end Threadctl.Core
