import Threadctl.Core.ApplyFields
import Threadctl.Core.Engine
import Threadctl.Support.Runs

/-!
# Threads that are gone

Every one of the four setting calls may answer `ESRCH`.  Only the affinity call and the
uclamp call end the application there.
-/

namespace Threadctl.Core

open Threadctl.Support.EventLog Threadctl.Support.Runs

variable {κ : Type}

/-! ## Deaths -/

/-- A setting call that finds its thread gone. -/
def Call.isDeath : Call → Bool
  | .setAffinity _ _ (.error errno) => errno = ESRCH
  | .schedSetscheduler _ _ _ (.error errno) => errno = ESRCH
  | .setpriority _ _ (.error errno) => errno = ESRCH
  | .schedSetattr _ _ _ _ (.error errno) => errno = ESRCH
  | _ => false

def Call.tid? : Call → Option Int
  | .getAffinity tid _ => some tid
  | .setAffinity tid _ _ => some tid
  | .readAllowedMask tid _ => some tid
  | .appendTask _ tid _ => some tid
  | .schedSetscheduler tid _ _ _ => some tid
  | .setpriority tid _ _ => some tid
  | .schedSetattr tid _ _ _ _ => some tid
  | .createCpusetDir .. => none
  | .removeCpusetDir .. => none
  | .readUtilClampMax _ => none

/-- A death ends the application, and no further call is made for the thread. -/
def StopsAtDeath (tid : Int) (calls : List Call) (outcome : ApplyOutcome) : Prop :=
  ∀ before c after, calls = before ++ c :: after → c.isDeath = true →
    outcome = .exited ∧ ∀ d ∈ after, d.tid? ≠ some tid

theorem stopsAtDeath_nil (tid : Int) (outcome : ApplyOutcome) : StopsAtDeath tid [] outcome := by
  intro before c after hsplit
  simp at hsplit

theorem stopsAtDeath_cons {tid : Int} {c : Call} {calls : List Call} {outcome : ApplyOutcome} :
    StopsAtDeath tid (c :: calls) outcome ↔
      (c.isDeath = true → outcome = .exited ∧ ∀ d ∈ calls, d.tid? ≠ some tid) ∧
        StopsAtDeath tid calls outcome :=
  forall_split_cons_iff
    (P := fun _ (c : Call) after => c.isDeath = true →
      outcome = .exited ∧ ∀ d ∈ after, Call.tid? d ≠ some tid)

theorem stopsAtDeath_append {tid : Int} {before calls : List Call} {outcome : ApplyOutcome}
    (hbefore : ∀ c ∈ before, c.isDeath = false) :
    StopsAtDeath tid (before ++ calls) outcome ↔ StopsAtDeath tid calls outcome := by
  induction before with
  | nil => rfl
  | cons c before ih =>
      have hc := hbefore c List.mem_cons_self
      rw [List.cons_append, stopsAtDeath_cons, ih fun d hd => hbefore d (List.mem_cons_of_mem _ hd)]
      simp [hc]

theorem stopsAtDeath_of_alive {tid : Int} {calls : List Call} {outcome : ApplyOutcome}
    (h : ∀ c ∈ calls, c.isDeath = false) : StopsAtDeath tid calls outcome := by
  rw [← List.append_nil calls, stopsAtDeath_append h]
  exact stopsAtDeath_nil tid outcome

/-! ## Deaths by stage -/

theorem isDeath_of_isJoin {c : Call} (h : c.isJoin = true) : c.isDeath = false := by
  cases c <;> simp_all [Call.isJoin, Call.isDeath]

/-- The affinity stops at a death, and only the thread's death makes it say so. -/
theorem AffinityPath.death {tid : Int} {policy : Policy} {topo : CpuTopology} {es : List Event}
    {outcome : ApplyOutcome} (h : AffinityPath tid policy topo es outcome) :
    StopsAtDeath tid (callsOf es) outcome ∧
      (outcome ≠ .exited → ∀ c ∈ callsOf es, c.isDeath = false) := by
  obtain ⟨js, cs, hes, hjoin, hmask⟩ := h.maskCalls
  have hjs : ∀ c ∈ js, c.isDeath = false := fun c hc => isDeath_of_isJoin (hjoin c hc)
  rw [hes, stopsAtDeath_append hjs]
  have hsplit : (outcome ≠ .exited → ∀ c ∈ cs, c.isDeath = false) →
      outcome ≠ .exited → ∀ c ∈ js ++ cs, c.isDeath = false := by
    intro hcs hgone c hc
    rcases List.mem_append.mp hc with hc | hc
    · exact hjs c hc
    · exact hcs hgone c hc
  have halive : (∀ c ∈ cs, c.isDeath = false) → StopsAtDeath tid cs outcome ∧
      (outcome ≠ .exited → ∀ c ∈ js ++ cs, c.isDeath = false) :=
    fun hcs => ⟨stopsAtDeath_of_alive hcs, hsplit fun _ => hcs⟩
  cases hmask with
  | untouched h hgone => exact halive nofun
  | already => exact halive (by simp [Call.isDeath])
  | unset h hgone => exact halive (by simp [Call.isDeath])
  | set hlegal houtcome => exact halive (by simp [Call.isDeath])
  | refused hlegal errno h hgone =>
      refine ⟨?_, hsplit fun hne => ?_⟩
      · simp [stopsAtDeath_cons, stopsAtDeath_nil, Call.isDeath, hgone]
      · have herrno : errno ≠ ESRCH := fun heq => hne (hgone.mpr heq)
        simp [Call.isDeath, herrno]

theorem SupportPath.death {support : Option Bool} {es : List Event} {supported : Bool}
    (h : SupportPath support es supported) : ∀ c ∈ callsOf es, c.isDeath = false := by
  cases h with
  | known supported => simp
  | asked limit => simp [Call.isDeath]

theorem UclampPath.death {support : Option Bool} {tid : Int} {lo hi : Option Nat}
    {outcome outcome' : ApplyOutcome} {es : List Event}
    (h : UclampPath support tid lo hi outcome es outcome') :
    StopsAtDeath tid (callsOf es) outcome' := by
  cases h with
  | unset h => exact stopsAtDeath_nil _ _
  | unsupported h hps => exact stopsAtDeath_of_alive hps.death
  | set h hps =>
      rw [callsOf_append, stopsAtDeath_append hps.death]
      simp [stopsAtDeath_cons, stopsAtDeath_nil, setattrCall, Call.isDeath]
  | gone h hps =>
      rw [callsOf_append, stopsAtDeath_append hps.death]
      simp [stopsAtDeath_cons, stopsAtDeath_nil]
  | refused h hps herrno hentry =>
      rw [callsOf_append, stopsAtDeath_append hps.death]
      simp [stopsAtDeath_cons, stopsAtDeath_nil, setattrCall, Call.isDeath, herrno]

def LeavesAlone (tid : Int) (calls : List Call) : Prop := ∀ c ∈ calls, c.tid? ≠ some tid

theorem SupportPath.leavesAlone {support : Option Bool} {es : List Event} {supported : Bool}
    (h : SupportPath support es supported) (tid : Int) : LeavesAlone tid (callsOf es) := by
  cases h with
  | known supported => exact nofun
  | asked limit => simp [LeavesAlone, Call.tid?]

theorem SupportPath.answer {support : Option Bool} {es : List Event} {supported : Bool}
    (h : SupportPath support es supported) :
    (callsOf es).foldl noteSupport support = some supported := by
  cases h with
  | known supported => rfl
  | asked limit => rfl

/-- Uclamp leaves a thread alone when no bound is given or it is not there, and then it
leaves the outcome alone too. -/
theorem UclampPath.leavesAlone {support : Option Bool} {tid : Int} {lo hi : Option Nat}
    {outcome outcome' : ApplyOutcome} {es : List Event}
    (h : UclampPath support tid lo hi outcome es outcome') :
    (LeavesAlone tid (callsOf es) ↔
        (lo.isNone ∧ hi.isNone) ∨ (callsOf es).foldl noteSupport support = some false) ∧
      (LeavesAlone tid (callsOf es) → outcome' = outcome) := by
  have hset : ∀ (ps : List Event) (answer : SysResult), ¬ (lo.isNone ∧ hi.isNone) →
      SupportPath support ps true →
      ¬ LeavesAlone tid (callsOf ps ++ [setattrCall tid lo hi answer]) ∧
        ¬ ((lo.isNone ∧ hi.isNone) ∨
          (callsOf ps ++ [setattrCall tid lo hi answer]).foldl noteSupport support =
            some false) := by
    intro ps answer hgiven hps
    constructor
    · exact fun hnone => hnone (setattrCall tid lo hi answer) (by simp) rfl
    · rintro (hnone | hfalse)
      · exact hgiven hnone
      · rw [List.foldl_append, hps.answer] at hfalse
        exact absurd (Option.some.inj hfalse) (by decide)
  cases h with
  | unset h => exact ⟨⟨fun _ => Or.inl h, fun _ => nofun⟩, fun _ => rfl⟩
  | unsupported h hps =>
      exact ⟨⟨fun _ => Or.inr hps.answer, fun _ => hps.leavesAlone tid⟩, fun _ => rfl⟩
  | set h hps =>
      rw [callsOf_append]
      obtain ⟨halone, hidle⟩ := hset _ (.ok ()) h hps
      exact ⟨iff_of_false halone hidle, fun h' => absurd h' halone⟩
  | gone h hps =>
      rw [callsOf_append]
      obtain ⟨halone, hidle⟩ := hset _ (.error ESRCH) h hps
      exact ⟨iff_of_false halone hidle, fun h' => absurd h' halone⟩
  | @refused h ps hps errno herrno entry hentry =>
      rw [callsOf_append]
      obtain ⟨halone, hidle⟩ := hset _ (.error errno) h hps
      exact ⟨iff_of_false halone hidle, fun h' => absurd h' halone⟩

theorem UclampPath.exited {support : Option Bool} {tid : Int} {lo hi : Option Nat}
    {outcome' : ApplyOutcome} {es : List Event}
    (h : UclampPath support tid lo hi .exited es outcome') : outcome' = .exited := by
  cases h with
  | unset h => rfl
  | unsupported h hps => rfl
  | set h hps => rfl
  | gone h hps => rfl
  | refused h hps herrno hentry => rfl

/-- The deaths that the application heeds: none is found by the nice call, and where the
scheduling call finds one, nothing is left to be done for the thread. -/
structure DeathHeeded (tid : Int) (policy : Policy) (support : Option Bool) (calls : List Call) :
    Prop where
  nice : ∀ n, Call.setpriority tid n (.error ESRCH) ∉ calls
  sched : ∀ pol prio, Call.schedSetscheduler tid pol prio (.error ESRCH) ∈ calls →
    policy.nice = none ∧ ((policy.uclampMin.isNone ∧ policy.uclampMax.isNone) ∨
      calls.foldl noteSupport support = some false)

theorem deathHeeded_of_stage {tid : Int} {policy : Policy} {support : Option Bool}
    {calls : List Call} (h : ∀ c ∈ calls, c.stage = .affinity ∨ c.stage = .uclamp) :
    DeathHeeded tid policy support calls where
  nice n hmem := by simpa [Call.stage] using h _ hmem
  sched pol prio hmem := by simpa [Call.stage] using h _ hmem

/-- After the scheduling call: what follows a death found by it or by the nice call. -/
theorem stopsAtDeath_sched {support : Option Bool} {tid : Int} {pol : SchedPolicy} {prio : Int}
    {answer : SysResult} {nice : Option Int} {lo hi : Option Nat} {ns us : List Event}
    {failure : Option ApplyOutcome} {outcome outcome' : ApplyOutcome}
    (hnice : NicePath tid nice ns)
    (hus : UclampPath support tid lo hi (failure.getD outcome) us outcome')
    (hfailure : failure = some .exited ↔ answer = .error ESRCH) (hgone : outcome ≠ .exited) :
    (((Call.schedSetscheduler tid pol prio answer).isDeath = true →
        outcome' = .exited ∧ ∀ d ∈ callsOf ns ++ callsOf us, d.tid? ≠ some tid) ∧
      StopsAtDeath tid (callsOf ns ++ callsOf us) outcome') ↔
      (∀ n, Call.setpriority tid n (.error ESRCH) ∉ callsOf ns) ∧
        (answer = .error ESRCH → nice = none ∧ LeavesAlone tid (callsOf us)) := by
  have hdeath : (Call.schedSetscheduler tid pol prio answer).isDeath = true ↔
      answer = .error ESRCH := by
    cases answer with
    | ok u => simp [Call.isDeath]
    | error errno => simp [Call.isDeath]
  have hexited : answer = .error ESRCH → outcome' = .exited := by
    intro ha
    rw [hfailure.mpr ha] at hus
    exact hus.exited
  have hkept : LeavesAlone tid (callsOf us) → outcome' = .exited → answer = .error ESRCH := by
    intro halone ho
    rw [hus.leavesAlone.2 halone] at ho
    apply hfailure.mp
    cases failure with
    | none => exact absurd ho hgone
    | some o => exact congrArg some ho
  rw [hdeath]
  cases nice with
  | none =>
      rw [hnice.calls_none, List.nil_append]
      exact ⟨fun h => ⟨fun n => List.not_mem_nil, fun ha => ⟨rfl, (h.1 ha).2⟩⟩,
        fun h => ⟨fun ha => ⟨hexited ha, (h.2 ha).2⟩, hus.death⟩⟩
  | some n =>
      obtain ⟨reply, hns⟩ := hnice.calls_some
      rw [hns, List.singleton_append, stopsAtDeath_cons]
      have hcall : (Call.setpriority tid (clamp (-20) 19 n) reply).tid? = some tid := rfl
      by_cases hreply : reply = .error ESRCH
      · -- the nice call finds the thread gone: neither side can hold
        have hfalse : ¬ ∀ m, Call.setpriority tid m (.error ESRCH) ∉
            [Call.setpriority tid (clamp (-20) 19 n) reply] := by
          intro hnone
          exact hnone _ (List.mem_singleton.mpr (by rw [hreply]))
        refine iff_of_false (fun h => ?_) fun h => hfalse h.1
        obtain ⟨ho, halone⟩ := h.2.1 (by simp [hreply, Call.isDeath])
        exact (h.1 (hkept halone ho)).2 _ List.mem_cons_self hcall
      · have hnone : ∀ m, Call.setpriority tid m (.error ESRCH) ∉
            [Call.setpriority tid (clamp (-20) 19 n) reply] := by
          intro m hm
          exact hreply (Call.setpriority.inj (List.mem_singleton.mp hm)).2.2.symm
        have halive : (Call.setpriority tid (clamp (-20) 19 n) reply).isDeath = true →
            outcome' = .exited ∧ ∀ d ∈ callsOf us, d.tid? ≠ some tid := by
          intro hd
          cases reply with
          | ok u => exact absurd hd (by simp [Call.isDeath])
          | error errno => exact absurd (congrArg Except.error (of_decide_eq_true hd)) hreply
        constructor
        · exact fun h => ⟨hnone, fun ha => absurd hcall ((h.1 ha).2 _ List.mem_cons_self)⟩
        · exact fun h => ⟨fun ha => absurd (h.2 ha).1 (by simp), halive, hus.death⟩

theorem ThreadPath.stopsAtDeath_iff {support : Option Bool} {tid : Int} {policy : Policy}
    {topo : CpuTopology} {rtAllowed : Bool} {es : List Event} {outcome : ApplyOutcome}
    (h : ThreadPath support tid policy topo rtAllowed es outcome) :
    StopsAtDeath tid (callsOf es) outcome ↔ DeathHeeded tid policy support (callsOf es) := by
  cases h with
  | exited h =>
      exact iff_of_true h.death.1 (deathHeeded_of_stage fun c hc => Or.inl (h.stage c hc))
  | noSched h hgone hsched hus =>
      rw [callsOf_append, stopsAtDeath_append (h.death.2 hgone)]
      refine iff_of_true hus.death (deathHeeded_of_stage fun c hc => ?_)
      rcases List.mem_append.mp hc with hc | hc
      · exact Or.inl (h.stage c hc)
      · exact Or.inr (hus.stage c hc)
  | rtRefused h hgone hsched hrt =>
      exact iff_of_true h.death.1 (deathHeeded_of_stage fun c hc => Or.inl (h.stage c hc))
  | @sched as ss us outcome _ h hgone pol hsched hrt failure hss hus =>
      obtain ⟨answer, ns, hnice, hcalls, hfailure⟩ := hss.split
      have hsupport : (callsOf (as ++ (ss ++ us))).foldl noteSupport support =
          (callsOf us).foldl noteSupport support := by
        rw [callsOf_append, callsOf_append, List.foldl_append, List.foldl_append,
          h.unasked, hss.unasked]
      have hmem : ∀ c, c ∈ callsOf (as ++ (ss ++ us)) ↔ c ∈ callsOf as ∨
          (c = .schedSetscheduler tid pol (schedPriority pol policy.schedPrio) answer ∨
            c ∈ callsOf ns) ∨ c ∈ callsOf us := by
        intro c
        rw [callsOf_append, callsOf_append, hcalls, List.mem_append, List.mem_append,
          List.mem_cons]
      have hheeded : DeathHeeded tid policy support (callsOf (as ++ (ss ++ us))) ↔
          (∀ n, Call.setpriority tid n (.error ESRCH) ∉ callsOf ns) ∧
            (answer = .error ESRCH → policy.nice = none ∧ LeavesAlone tid (callsOf us)) := by
        rw [hus.leavesAlone.1, ← hsupport]
        constructor
        · intro hd
          refine ⟨fun n hn => hd.nice n ((hmem _).mpr (Or.inr (Or.inl (Or.inr hn)))), ?_⟩
          rintro rfl
          exact hd.sched pol _ ((hmem _).mpr (Or.inr (Or.inl (Or.inl rfl))))
        · intro ⟨hn, ha⟩
          constructor
          · intro n hc
            rcases (hmem _).mp hc with hc | (hc | hc) | hc
            · exact absurd (h.stage _ hc) (by simp [Call.stage])
            · exact absurd hc (by simp)
            · exact hn n hc
            · exact absurd (hus.stage _ hc) (by simp [Call.stage])
          · intro pol' prio' hc
            rcases (hmem _).mp hc with hc | (hc | hc) | hc
            · exact absurd (h.stage _ hc) (by simp [Call.stage])
            · exact ha (by simpa using (Call.schedSetscheduler.inj hc).2.2.2.symm)
            · exact absurd (hnice.stage _ hc) (by simp [Call.stage])
            · exact absurd (hus.stage _ hc) (by simp [Call.stage])
      rw [hheeded, callsOf_append, stopsAtDeath_append (h.death.2 hgone), callsOf_append, hcalls,
        List.cons_append, stopsAtDeath_cons]
      exact stopsAtDeath_sched hnice hus hfailure hgone

/-! ## Counting and recording -/

/-- What `applySingleTid` makes of an outcome. -/
def settleTid (pid tid : Int) (policy : Policy) (outcome : ApplyOutcome) : Run κ Nat := do
  match outcome with
  | .exited => pure 0
  | .skippedNoCpus => do
      insertAppliedTid pid tid
      pure 0
  | _ => do
      insertAppliedTid pid tid
      modifyTracker fun t => t.registerDirs pid [policy.cpusetDir]
      pure 1

/-- A death is the end of the application, and leaves no trace in the counts, the applied
threads and the directory references. -/
structure DeathSeen (κ : Type) (tid : Int) (policy : Policy) (t : Transcript ApplyOutcome) :
    Prop where
  stops : StopsAtDeath tid t.calls t.result
  uncounted : (∃ c ∈ t.calls, c.isDeath = true) → ∀ acc, countOutcome acc policy t.result = acc
  unsettled : (∃ c ∈ t.calls, c.isDeath = true) →
    ∀ pid, (settleTid pid tid policy t.result : Run (Traced κ Call) Nat) = pure 0

theorem deathSeen_of_stops {tid : Int} {policy : Policy} {t : Transcript ApplyOutcome}
    (h : StopsAtDeath tid t.calls t.result) : DeathSeen κ tid policy t := by
  have hexited : (∃ c ∈ t.calls, c.isDeath = true) → t.result = .exited := by
    intro ⟨c, hc, hdeath⟩
    obtain ⟨before, after, hsplit⟩ := List.append_of_mem hc
    exact (h before c after hsplit hdeath).1
  refine ⟨h, fun hd acc => ?_, fun hd pid => ?_⟩
  · rw [hexited hd]
    rfl
  · rw [hexited hd]
    rfl

/-- Thread death is seen exactly when the nice call finds none, and the scheduling call
only where it is the last call for the thread. -/
theorem thread_death_seen_iff (env : Env κ) (tid : Int) (pkg : String) (policy : Policy)
    (topo : CpuTopology) (rtAllowed : Bool) (s : System (Traced κ Call)) :
    DeathSeen κ tid policy (transcript (applyThread env.traced tid pkg policy topo rtAllowed) s) ↔
      DeathHeeded tid policy s.uclampSupport
        (transcript (applyThread env.traced tid pkg policy topo rtAllowed) s).calls := by
  obtain ⟨es, hpath, hcalls, -⟩ := applyThread_transcript env tid pkg policy topo rtAllowed s
  have hiff := hpath.stopsAtDeath_iff
  rw [← hcalls] at hiff
  exact ⟨fun h => hiff.mp h.stops, fun h => deathSeen_of_stops (hiff.mpr h)⟩

/-- A kernel where a thread is gone by the time its nice value is set. -/
def Env.goneAtNice {κ : Type} : Env κ :=
  { Env.silent with setpriority := fun _ _ => pure (.error ESRCH) }

/-- The thread dies before its nice value is set, and counts as applied. -/
theorem death_at_nice_counted :
    let policy := { Policy.unset with cpus := .firstN 1, sched := some .other, nice := some 0 }
    ¬ DeathSeen Unit 7 policy (transcript
      (applyThread Env.goneAtNice.traced 7 "a" policy .default true) (System.init ⟨(), []⟩)) := by
  intro policy h
  have hcalls : (transcript (applyThread Env.goneAtNice.traced 7 "a" policy .default true)
      (System.init ⟨(), []⟩)).calls = [.getAffinity 7 none, .readAllowedMask 7 none,
        .setAffinity 7 (.firstN 1) (.ok ()), .schedSetscheduler 7 .other 0 (.ok ()),
        .setpriority 7 0 (.error ESRCH)] := by decide +kernel
  have hresult : (transcript (applyThread Env.goneAtNice.traced 7 "a" policy .default true)
      (System.init ⟨(), []⟩)).result = .applied := by decide +kernel
  have hstop := h.stops [.getAffinity 7 none, .readAllowedMask 7 none,
    .setAffinity 7 (.firstN 1) (.ok ()), .schedSetscheduler 7 .other 0 (.ok ())] _ [] hcalls rfl
  rw [hresult] at hstop
  exact absurd hstop.1 (by decide)

end Threadctl.Core
