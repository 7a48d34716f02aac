import Mathlib.Logic.Function.Basic
import Threadctl.Core.ApplyFields

/-!
# What uclamp does to the scheduling of a thread

`sched_setattr` takes a whole `sched_attr`.  The attribute that `set_uclamp` fills in is
zero but for the bounds, and without the keep flags the kernel installs all of it.
-/

namespace Threadctl.Core

open Threadctl.Support.EventLog

variable {κ : Type}

/-! ## The kernel -/

/-- How the kernel schedules a thread. -/
structure SchedState where
  policy : SchedPolicy
  priority : Int
  nice : Int
  utilMin : Nat
  utilMax : Nat

/-- `struct sched_attr`. -/
structure SchedAttr where
  size : Nat
  schedPolicy : SchedPolicy
  schedFlags : Nat
  schedNice : Int
  schedPriority : Int
  schedRuntime : Nat
  schedDeadline : Nat
  schedPeriod : Nat
  schedUtilMin : Nat
  schedUtilMax : Nat

/-- `std::mem::zeroed()`; policy zero is `SCHED_OTHER`. -/
def SchedAttr.zeroed : SchedAttr := ⟨0, .other, 0, 0, 0, 0, 0, 0, 0, 0⟩

/-- The attribute behind a call of `set_uclamp`. -/
def uclampAttr (flags lo hi : Nat) : SchedAttr :=
  { SchedAttr.zeroed with size := 56, schedFlags := flags, schedUtilMin := lo, schedUtilMax := hi }

/-- What `sched_setattr` leaves: bit 3 of the flags keeps the policy, bit 4 its parameters, and
each bound is only read when its own bit is set. -/
def SchedAttr.install (attr : SchedAttr) (st : SchedState) : SchedState where
  policy := if attr.schedFlags.testBit 3 then st.policy else attr.schedPolicy
  priority := if attr.schedFlags.testBit 4 then st.priority else attr.schedPriority
  nice := if attr.schedFlags.testBit 4 then st.nice else attr.schedNice
  utilMin := if attr.schedFlags.testBit 5 then attr.schedUtilMin else st.utilMin
  utilMax := if attr.schedFlags.testBit 6 then attr.schedUtilMax else st.utilMax

/-- What a call makes of the threads, if it succeeds. -/
def schedEffect (threads : Int → SchedState) : Call → Int → SchedState
  | .schedSetscheduler tid policy prio (.ok ()) =>
      Function.update threads tid { threads tid with policy := policy, priority := prio }
  | .setpriority tid nice (.ok ()) =>
      Function.update threads tid { threads tid with nice := nice }
  | .schedSetattr tid flags lo hi (.ok ()) =>
      Function.update threads tid ((uclampAttr flags lo hi).install (threads tid))
  | _ => threads

/-- The kernel schedules threads by the calls that succeed. -/
abbrev SchedKernel (env : Env κ) (sched : κ → Int → SchedState) : Prop :=
  env.Moves schedEffect sched

/-! ## Single calls -/

/-- Every thread is scheduled as before, its utilisation bounds apart. -/
def SameScheduling (before after : Int → SchedState) : Prop :=
  ∀ tid, (after tid).policy = (before tid).policy ∧
    (after tid).priority = (before tid).priority ∧ (after tid).nice = (before tid).nice

/-- A thread as `SCHED_OTHER` with nothing else set. -/
def SchedState.Default (st : SchedState) : Prop :=
  st.policy = .other ∧ st.priority = 0 ∧ st.nice = 0

theorem uclampFlags_keep (lo hi : Option Nat) :
    (uclampFlags lo hi).testBit 3 = false ∧ (uclampFlags lo hi).testBit 4 = false := by
  have hflags : ∀ a b : Bool,
      ((if a then 0x20 else 0) + if b then 0x40 else 0).testBit 3 = false ∧
        ((if a then 0x20 else 0) + if b then 0x40 else 0).testBit 4 = false := by decide
  exact hflags lo.isSome hi.isSome

/-- The call behind `set_uclamp` takes the thread back to the default. -/
theorem schedEffect_setattr (threads : Int → SchedState) (tid : Int) (lo hi : Option Nat) :
    (schedEffect threads (setattrCall tid lo hi (.ok ())) tid).Default ∧
      ∀ t, t ≠ tid → schedEffect threads (setattrCall tid lo hi (.ok ())) t = threads t := by
  obtain ⟨hpolicy, hparams⟩ := uclampFlags_keep lo hi
  constructor
  · have hself : schedEffect threads (setattrCall tid lo hi (.ok ())) tid =
        (uclampAttr (uclampFlags lo hi) (min (lo.getD 0) 1024)
          (min (hi.getD 1024) 1024)).install (threads tid) := Function.update_self ..
    rw [hself]
    refine ⟨?_, ?_, ?_⟩
    · simp [SchedAttr.install, uclampAttr, SchedAttr.zeroed, hpolicy]
    · simp [SchedAttr.install, uclampAttr, SchedAttr.zeroed, hparams]
    · simp [SchedAttr.install, uclampAttr, SchedAttr.zeroed, hparams]
  · exact fun t ht => Function.update_of_ne ht _ _

theorem sameScheduling_setattr (threads : Int → SchedState) (tid : Int) (lo hi : Option Nat) :
    SameScheduling threads (schedEffect threads (setattrCall tid lo hi (.ok ()))) ↔
      (threads tid).Default := by
  obtain ⟨⟨hpolicy, hprio, hnice⟩, hother⟩ := schedEffect_setattr threads tid lo hi
  constructor
  · intro h
    obtain ⟨h1, h2, h3⟩ := h tid
    exact ⟨h1.symm.trans hpolicy, h2.symm.trans hprio, h3.symm.trans hnice⟩
  · intro ⟨h1, h2, h3⟩ t
    by_cases ht : t = tid
    · subst ht
      exact ⟨hpolicy.trans h1.symm, hprio.trans h2.symm, hnice.trans h3.symm⟩
    · rw [hother t ht]
      exact ⟨rfl, rfl, rfl⟩

theorem foldl_schedEffect_affinity {calls : List Call} (h : ∀ c ∈ calls, c.stage = .affinity)
    (threads : Int → SchedState) : calls.foldl schedEffect threads = threads := by
  induction calls with
  | nil => rfl
  | cons c calls ih =>
      have hc : schedEffect threads c = threads := by
        have hstage := h c List.mem_cons_self
        cases c <;> first | rfl | simp [Call.stage] at hstage
      rw [List.foldl_cons, hc]
      exact ih fun d hd => h d (List.mem_cons_of_mem _ hd)

/-! ## Applications -/

/-- The thread is scheduled as the policy says. -/
structure Scheduled (p : Policy) (pol : SchedPolicy) (st : SchedState) : Prop where
  policy : st.policy = pol
  priority : st.priority = schedPriority pol p.schedPrio
  nice : ∀ n, p.nice = some n → st.nice = clamp (-20) 19 n

theorem eq_ok_of_isOk {answer : SysResult} (h : answer.isOk = true) : answer = .ok () := by
  cases answer with
  | ok u => rfl
  | error errno => simp [Except.isOk, Except.toBool] at h

theorem SchedPath.scheduled {tid : Int} {policy : Policy} {pol : SchedPolicy} {es : List Event}
    {failure : Option ApplyOutcome}
    (h : SchedPath tid pol policy.schedPrio policy.nice es failure)
    (hok : ∀ c ∈ callsOf es, c.succeeded = true) (threads : Int → SchedState) :
    Scheduled policy pol ((callsOf es).foldl schedEffect threads tid) := by
  obtain ⟨answer, ns, hnice, hcalls, -⟩ := h.split
  rw [hcalls] at hok ⊢
  obtain rfl := eq_ok_of_isOk (hok _ List.mem_cons_self)
  rw [List.foldl_cons]
  cases hn : policy.nice with
  | none =>
      rw [hn] at hnice
      rw [hnice.calls_none]
      constructor
      · simp [schedEffect]
      · simp [schedEffect]
      · simp [hn]
  | some n =>
      rw [hn] at hnice
      obtain ⟨reply, hns⟩ := hnice.calls_some
      rw [hns] at hok ⊢
      obtain rfl := eq_ok_of_isOk (hok (.setpriority tid (clamp (-20) 19 n) reply) (by simp))
      constructor
      · simp [schedEffect]
      · simp [schedEffect]
      · intro m hm
        obtain rfl := Option.some.inj (hn.symm.trans hm)
        simp [schedEffect]

/-- With bounds to set, the uclamp calls end with the one that sets them, unless uclamp is
known not to be there. -/
theorem UclampPath.scheduling {support : Option Bool} {tid : Int} {lo hi : Option Nat}
    {outcome outcome' : ApplyOutcome} {es : List Event}
    (h : UclampPath support tid lo hi outcome es outcome')
    (hok : ∀ c ∈ callsOf es, c.succeeded = true) (hgiven : ¬ (lo.isNone ∧ hi.isNone))
    (threads : Int → SchedState) :
    (support = some false ∧ callsOf es = []) ∨ (support ≠ some false ∧
      (callsOf es).foldl schedEffect threads =
        schedEffect threads (setattrCall tid lo hi (.ok ()))) := by
  have hrefused : ∀ {ps : List Event} {rest : List Event} {errno : Nat},
      es ≠ ps ++ .call (setattrCall tid lo hi (.error errno)) :: rest := by
    rintro ps rest errno rfl
    have hcall := hok (setattrCall tid lo hi (.error errno)) (by simp)
    simp [setattrCall, Call.succeeded, Except.isOk, Except.toBool] at hcall
  cases h with
  | unset h => exact absurd h hgiven
  | unsupported h hps =>
      generalize hfalse : false = supported at hps
      cases hps with
      | known supported => exact Or.inl ⟨by rw [← hfalse], rfl⟩
      | asked limit =>
          have hlimit := hok (.readUtilClampMax limit) (by simp)
          exact absurd (hfalse.trans hlimit) Bool.false_ne_true
  | set h hps =>
      generalize htrue : true = supported at hps
      cases hps with
      | known supported => exact Or.inr ⟨by simp [← htrue], rfl⟩
      | asked limit => exact Or.inr ⟨by simp, rfl⟩
  | gone h hps => exact absurd rfl hrefused
  | refused h hps herrno hentry => exact absurd rfl hrefused

theorem scheduled_default_iff {p : Policy} {pol : SchedPolicy} {st : SchedState}
    (hst : st.Default) :
    Scheduled p pol st ↔ pol = .other ∧ ∀ n, p.nice = some n → clamp (-20) 19 n = 0 := by
  obtain ⟨hpolicy, hprio, hnice⟩ := hst
  constructor
  · intro h
    exact ⟨h.policy.symm.trans hpolicy, fun n hn => (h.nice n hn).symm.trans hnice⟩
  · rintro ⟨rfl, hzero⟩
    exact ⟨hpolicy, hprio, fun n hn => hnice.trans (hzero n hn).symm⟩

/-- A successful `set_uclamp` leaves the scheduling alone only where there was none to lose,
and after an application it is the policy's only where the policy asks for the default. -/
theorem uclamp_scheduling_iff {env : Env κ} {sched : κ → Int → SchedState}
    (hkernel : SchedKernel env sched) :
    (∀ tid lo hi s, ((setUclamp env.traced tid lo hi).run s).1 = .ok () →
      (SameScheduling (sched s.kernel.kernel)
          (sched ((setUclamp env.traced tid lo hi).run s).2.kernel.kernel) ↔
        (lo.isNone ∧ hi.isNone) ∨ (sched s.kernel.kernel tid).Default)) ∧
    ∀ tid pkg p topo s pol, p.sched = some pol → ¬ (p.uclampMin.isNone ∧ p.uclampMax.isNone) →
      (∀ c ∈ (transcript (applyThread env.traced tid pkg p topo true) s).calls,
        c.succeeded = true) →
      (Scheduled p pol
          (sched ((applyThread env.traced tid pkg p topo true).run s).2.kernel.kernel tid) ↔
        s.uclampSupport = some false ∨
          pol = .other ∧ ∀ n, p.nice = some n → clamp (-20) 19 n = 0) := by
  constructor
  · intro tid lo hi s hok
    by_cases hgiven : lo.isNone ∧ hi.isNone
    · rw [setUclamp, if_pos hgiven]
      exact iff_of_true (fun t => ⟨rfl, rfl, rfl⟩) (Or.inl hgiven)
    · obtain ⟨es, hes, -, -, hworld⟩ := transcript_of_traces s
        (traces_setUclamp hkernel tid (trail sched s) hgiven)
      have hanswer : (transcript (setUclamp env.traced tid lo hi) s).result = .ok () := hok
      rw [hworld, hes, hanswer, or_iff_right hgiven]
      exact sameScheduling_setattr _ tid lo hi
  · intro tid pkg p topo s pol hsched hgiven hok
    obtain ⟨es, hpath, hcalls, -, hworld⟩ := transcript_of_traces s
      (traces_applyThread hkernel tid pkg p topo true (trail sched s))
    rw [hcalls] at hok
    rw [hworld]
    generalize (transcript (applyThread env.traced tid pkg p topo true) s).result = o at hpath
    cases hpath with
    | exited h =>
        obtain ⟨mask, hmem⟩ := h.exited
        exact absurd (hok _ hmem) (by simp [Call.succeeded, Except.isOk, Except.toBool])
    | noSched h hgone hnone hus => exact absurd (hnone.symm.trans hsched) (by simp)
    | rtRefused h hgone hpol hrt => exact absurd hrt (by simp)
    | @sched as ss us outcome _ h hgone pol' hpol hrt failure hss hus =>
        obtain rfl := Option.some.inj (hpol.symm.trans hsched)
        rw [callsOf_append, callsOf_append] at hok ⊢
        have hafter := hss.scheduled (fun c hc => hok c (by simp [hc])) (sched s.kernel.kernel)
        rw [List.foldl_append, foldl_schedEffect_affinity h.stage, List.foldl_append]
        rcases hus.scheduling (fun c hc => hok c (by simp [hc])) hgiven
          ((callsOf ss).foldl schedEffect (sched s.kernel.kernel)) with
          ⟨hsupport, hnone⟩ | ⟨hsupport, hset⟩
        · rw [hnone]
          exact iff_of_true hafter (Or.inl hsupport)
        · have hknown : s.uclampSupport ≠ some false := hsupport
          rw [hset, or_iff_right hknown]
          exact scheduled_default_iff (schedEffect_setattr _ tid _ _).1

/-- A kernel with uclamp that accepts every call and schedules threads by it. -/
def Env.scheduling : Env (Int → SchedState) :=
  { Env.silent with
    readUtilClampMax := pure (some 1024)
    schedSetscheduler := fun tid policy prio threads =>
      (.ok (), schedEffect threads (.schedSetscheduler tid policy prio (.ok ())))
    setpriority := fun tid nice threads =>
      (.ok (), schedEffect threads (.setpriority tid nice (.ok ())))
    schedSetattr := fun tid flags lo hi threads =>
      (.ok (), schedEffect threads (.schedSetattr tid flags lo hi (.ok ()))) }

theorem Env.scheduling_moves : SchedKernel Env.scheduling id where
  getAffinity _ _ := rfl
  setAffinity _ _ _ := rfl
  readAllowedMask _ _ := rfl
  createCpusetDir _ _ _ _ := rfl
  appendTask _ _ _ := rfl
  schedSetscheduler _ _ _ _ := rfl
  setpriority _ _ _ := rfl
  schedSetattr _ _ _ _ _ := rfl
  readUtilClampMax _ := rfl
  nowSecs _ := rfl

def batchThreads : Traced (Int → SchedState) Call := ⟨fun _ => ⟨.batch, 0, 3, 0, 1024⟩, []⟩

theorem uclamp_scheduling_default :
    Scheduled { Policy.unset with sched := some .other, nice := some 0, uclampMin := some 5 } .other
      (((applyThread Env.scheduling.traced 7 "a"
        { Policy.unset with sched := some .other, nice := some 0, uclampMin := some 5 }
        .default true).run (System.init batchThreads)).2.kernel.kernel 7) :=
  ((uclamp_scheduling_iff Env.scheduling_moves).2 7 "a"
    { Policy.unset with sched := some .other, nice := some 0, uclampMin := some 5 } .default
    (System.init batchThreads) .other rfl (by decide) (by decide +kernel)).mpr
    (Or.inr ⟨rfl, fun n hn => by
      obtain rfl : 0 = n := Option.some.inj hn
      decide⟩)

/-- `set_uclamp` alone turns a batch thread into an ordinary one, and an application that
succeeds in every call leaves the thread without the policy and the nice value it asked for. -/
theorem uclamp_resets_batch :
    ¬ SameScheduling batchThreads.kernel
        ((setUclamp Env.scheduling.traced 7 (some 5) none).run
          (System.init batchThreads)).2.kernel.kernel ∧
      let p := { Policy.unset with sched := some .batch, nice := some 5, uclampMin := some 5 }
      let x := applyThread Env.scheduling.traced 7 "a" p .default true
      (∀ c ∈ (transcript x (System.init batchThreads)).calls, c.succeeded = true) ∧
        ¬ Scheduled p .batch ((x.run (System.init batchThreads)).2.kernel.kernel 7) := by
  refine ⟨fun h => ?_, by decide +kernel, fun h => ?_⟩
  · exact absurd (h 7).1 (by decide)
  · exact absurd h.policy (by decide +kernel)

end Threadctl.Core
