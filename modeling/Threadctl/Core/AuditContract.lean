import Mathlib.Algebra.Order.Field.Rat
import Mathlib.Tactic.NormNum
import Threadctl.Core.ThreadDeath
import Threadctl.Support.Runs

/-!
# What the audit log measures

`summary` counts the records in the log, and an application writes a record for every
failure on its way besides the one for the affinity.  A count of records is a count of
applications as long as each of them leaves a single record that agrees with its result.
-/

namespace Threadctl.Core

open Threadctl.Support.EventLog Threadctl.Support.Runs

variable {κ : Type}

/-! ## The summary -/

structure AuditSummary where
  totalAttempts : Nat
  success : Nat
  blockedByCgroup : Nat
  blockedByPerm : Nat
  downgraded : Nat
  esrch : Nat
  uclampFailed : Nat

def AuditSummary.count (s : AuditSummary) (entry : AuditEntry) : AuditSummary :=
  let s := if entry.success then { s with success := s.success + 1 } else s
  match entry.reason with
  | "cgroup" => { s with blockedByCgroup := s.blockedByCgroup + 1 }
  | "cpuset_write_failed" => { s with blockedByCgroup := s.blockedByCgroup + 1 }
  | "eperm" => { s with blockedByPerm := s.blockedByPerm + 1 }
  | "downgraded" => { s with downgraded := s.downgraded + 1 }
  | "nice_failed" => { s with downgraded := s.downgraded + 1 }
  | "sched_failed" => { s with downgraded := s.downgraded + 1 }
  | "esrch" => { s with esrch := s.esrch + 1 }
  | "uclamp_failed" => { s with uclampFailed := s.uclampFailed + 1 }
  | _ => s

def summarize (entries : List AuditEntry) : AuditSummary :=
  entries.foldl AuditSummary.count ⟨entries.length, 0, 0, 0, 0, 0, 0⟩

/-- The failures among the attempts; the source divides floating-point numbers. -/
def AuditSummary.failureRate (s : AuditSummary) : ℚ :=
  if s.totalAttempts = 0 then 0 else ((s.totalAttempts - s.success : ℕ) : ℚ) / s.totalAttempts

/-- `summary`: over the whole buffer. -/
def System.summary (s : System κ) : AuditSummary := summarize s.auditLog

theorem AuditSummary.count_totalAttempts (s : AuditSummary) (entry : AuditEntry) :
    (s.count entry).totalAttempts = s.totalAttempts := by
  unfold AuditSummary.count
  cases entry.success <;> dsimp only <;> split <;> rfl

theorem AuditSummary.count_success (s : AuditSummary) (entry : AuditEntry) :
    (s.count entry).success = s.success + if entry.success then 1 else 0 := by
  unfold AuditSummary.count
  cases entry.success <;> dsimp only <;> split <;> rfl

theorem summarize_totalAttempts (entries : List AuditEntry) :
    (summarize entries).totalAttempts = entries.length := by
  have hfold : ∀ (es : List AuditEntry) (s : AuditSummary),
      (es.foldl AuditSummary.count s).totalAttempts = s.totalAttempts := by
    intro es
    induction es with
    | nil => exact fun s => rfl
    | cons e es ih => exact fun s => (ih _).trans (s.count_totalAttempts e)
  exact hfold entries _

theorem summarize_success (entries : List AuditEntry) :
    (summarize entries).success = entries.countP AuditEntry.success := by
  have hfold : ∀ (es : List AuditEntry) (s : AuditSummary),
      (es.foldl AuditSummary.count s).success = s.success + es.countP AuditEntry.success := by
    intro es
    induction es with
    | nil => exact fun s => rfl
    | cons e es ih =>
        intro s
        rw [List.foldl_cons, ih, s.count_success, List.countP_cons, Nat.add_assoc, Nat.add_comm
          (if e.success then 1 else 0)]
  exact (hfold entries _).trans (Nat.zero_add _)

theorem length_foldl_pushAudit {log : List AuditEntry} (h : log.length ≤ auditLogMax)
    (entries : List AuditEntry) :
    (entries.foldl pushAudit log).length = min (log.length + entries.length) auditLogMax := by
  induction entries generalizing log with
  | nil => simpa using h
  | cons e entries ih =>
      rw [List.foldl_cons, ih (length_pushAudit_le h e), List.length_cons]
      unfold pushAudit auditLogMax at *
      split <;> simp <;> omega

theorem foldl_pushAudit {log entries : List AuditEntry}
    (h : log.length + entries.length ≤ auditLogMax) :
    entries.foldl pushAudit log = log ++ entries := by
  induction entries generalizing log with
  | nil => simp
  | cons e entries ih =>
      rw [List.length_cons] at h
      have hroom : pushAudit log e = log ++ [e] := by
        rw [pushAudit, if_neg (by omega)]
      rw [List.foldl_cons, hroom, ih (by rw [List.length_append, List.length_singleton]; omega),
        List.append_assoc, List.singleton_append]

/-! ## Records and answers -/

/-- An answer that leaves a record of its own. -/
def Call.isRefusal : Call → Bool
  | .appendTask _ _ written => !written
  | .setpriority _ _ answer => !answer.isOk
  | .schedSetscheduler _ _ _ (.error errno) => errno ≠ ESRCH
  | .schedSetattr _ _ _ _ (.error errno) => errno ≠ ESRCH
  | _ => false

/-- After this answer the thread has the mask it should have. -/
def Call.settlesMask (cpus : CpuSet) : Call → Bool
  | .getAffinity _ mask => mask = some cpus
  | .setAffinity _ _ answer => answer.isOk
  | _ => false

/-- The affinity is passed over without a record: no CPU is requested, or none is left to
set and the allowed CPUs are unknown. -/
def PassesOver (tid : Int) (policy : Policy) (topo : CpuTopology) (calls : List Call) : Bool :=
  policy.cpus.count = 0 ||
    ((onlineFilter topo policy.cpus).count = 0 && calls.contains (.readAllowedMask tid none))

/-- The answers make the application leave one record that agrees with its result. -/
structure AuditedOnce (tid : Int) (policy : Policy) (topo : CpuTopology) (calls : List Call) :
    Prop where
  refusals : calls.countP Call.isRefusal = if PassesOver tid policy topo calls then 1 else 0
  settled : (∃ c ∈ calls, c.settlesMask policy.cpus = true) → ∀ c ∈ calls, c.isDeath = false

/-- Every record is that of a refusal. -/
structure OnlyRefusals (es : List Event) : Prop where
  length : (recordsOf es).length = (callsOf es).countP Call.isRefusal
  failed : ∀ e ∈ recordsOf es, e.success = false

theorem OnlyRefusals.append {es fs : List Event} (hes : OnlyRefusals es) (hfs : OnlyRefusals fs) :
    OnlyRefusals (es ++ fs) := by
  constructor
  · rw [recordsOf_append, callsOf_append, List.length_append, List.countP_append, hes.length,
      hfs.length]
  · intro e he
    rw [recordsOf_append, List.mem_append] at he
    exact he.elim (hes.failed e) (hfs.failed e)

theorem onlyRefusals_calls {es : List Event} (hrecords : recordsOf es = [])
    (hcalls : ∀ c ∈ callsOf es, c.isRefusal = false) : OnlyRefusals es where
  length := by
    rw [hrecords, List.length_nil, eq_comm, List.countP_eq_zero]
    exact fun c hc => by simp [hcalls c hc]
  failed := by simp [hrecords]

theorem onlyRefusals_refused {c : Call} {entry : AuditEntry} (hc : c.isRefusal = true)
    (hentry : entry.success = false) : OnlyRefusals [.call c, .record entry] where
  length := by simp [hc]
  failed := by simp [hentry]

theorem EnsurePath.onlyRefusals {dir : String} {es : List Event} (h : EnsurePath dir es) :
    OnlyRefusals es := by
  cases h with
  | skipped => exact onlyRefusals_calls rfl nofun
  | asked created => exact onlyRefusals_calls rfl (by simp [Call.isRefusal])

theorem JoinPath.onlyRefusals {tid : Int} {policy : Policy} {topo : CpuTopology} {es : List Event}
    (h : JoinPath tid policy topo es) : OnlyRefusals es := by
  cases h with
  | unused h => exact onlyRefusals_calls rfl nofun
  | joined h => exact h.onlyRefusals.append (onlyRefusals_calls rfl (by simp [Call.isRefusal]))
  | refused h hentry => exact h.onlyRefusals.append (onlyRefusals_refused rfl hentry)

theorem NicePath.onlyRefusals {tid : Int} {nice : Option Int} {es : List Event}
    (h : NicePath tid nice es) : OnlyRefusals es := by
  cases h with
  | unset => exact onlyRefusals_calls rfl nofun
  | set n => exact onlyRefusals_calls rfl (by simp [Call.isRefusal, Except.isOk, Except.toBool])
  | refused n errno hentry => exact onlyRefusals_refused rfl hentry

theorem SchedPath.onlyRefusals {tid : Int} {pol : SchedPolicy} {prio nice : Option Int}
    {es : List Event} {failure : Option ApplyOutcome} (h : SchedPath tid pol prio nice es failure) :
    OnlyRefusals es := by
  cases h with
  | set hnice =>
      have hcall : OnlyRefusals
          [.call (.schedSetscheduler tid pol (schedPriority pol prio) (.ok ()))] :=
        onlyRefusals_calls rfl (by simp [Call.isRefusal])
      exact hcall.append hnice.onlyRefusals
  | gone hnice =>
      have hcall : OnlyRefusals
          [.call (.schedSetscheduler tid pol (schedPriority pol prio) (.error ESRCH))] :=
        onlyRefusals_calls rfl (by simp [Call.isRefusal])
      exact hcall.append hnice.onlyRefusals
  | @refused errno herrno ns hnice entry hentry =>
      constructor
      · simp [Call.isRefusal, herrno, hnice.onlyRefusals.length]
      · intro e he
        rcases List.mem_append.mp (recordsOf_append _ _ ▸ he) with he | he
        · exact hnice.onlyRefusals.failed e he
        · rwa [List.mem_singleton.mp he]

theorem SupportPath.onlyRefusals {support : Option Bool} {es : List Event} {supported : Bool}
    (h : SupportPath support es supported) : OnlyRefusals es := by
  cases h with
  | known supported => exact onlyRefusals_calls rfl nofun
  | asked limit => exact onlyRefusals_calls rfl (by simp [Call.isRefusal])

theorem UclampPath.onlyRefusals {support : Option Bool} {tid : Int} {lo hi : Option Nat}
    {outcome outcome' : ApplyOutcome} {es : List Event}
    (h : UclampPath support tid lo hi outcome es outcome') : OnlyRefusals es := by
  cases h with
  | unset h => exact onlyRefusals_calls rfl nofun
  | unsupported h hps => exact hps.onlyRefusals
  | set h hps =>
      exact hps.onlyRefusals.append
        (onlyRefusals_calls rfl (by simp [Call.isRefusal, setattrCall]))
  | gone h hps =>
      exact hps.onlyRefusals.append
        (onlyRefusals_calls rfl (by simp [Call.isRefusal, setattrCall]))
  | refused h hps herrno hentry =>
      exact hps.onlyRefusals.append
        (onlyRefusals_refused (by simp [Call.isRefusal, setattrCall, herrno]) hentry)

/-! ## The record of the affinity -/

/-- The events about the mask: one record, unless the mask is passed over, and it agrees with
the result, which is a success exactly when an answer settles the mask. -/
structure MaskTally (cpus : CpuSet) (passed : Bool) (es : List Event) (outcome : ApplyOutcome) :
    Prop where
  records : if passed then recordsOf es = [] ∧ outcome.isSuccess = false
    else ∃ e, recordsOf es = [e] ∧ e.success = outcome.isSuccess
  quiet : ∀ c ∈ callsOf es, c.isRefusal = false
  settled : outcome.isSuccess = true ↔ ∃ c ∈ callsOf es, c.settlesMask cpus = true
  alive : outcome.isSuccess = true → ∀ c ∈ callsOf es, c.isDeath = false

theorem MaskTally.cons {cpus : CpuSet} {passed : Bool} {es : List Event} {outcome : ApplyOutcome}
    (h : MaskTally cpus passed es outcome) {c : Call} (hrefusal : c.isRefusal = false)
    (hsettles : c.settlesMask cpus = false) (hdeath : c.isDeath = false) :
    MaskTally cpus passed (.call c :: es) outcome where
  records := h.records
  quiet := by simpa [hrefusal] using h.quiet
  settled := by simpa [hsettles] using h.settled
  alive hsuccess := by simpa [hdeath] using h.alive hsuccess

theorem maskTally_set (tid : Int) (cpus effective : CpuSet) {entry : AuditEntry}
    (hentry : entry.success = true) {outcome : ApplyOutcome} (houtcome : outcome.isSuccess = true) :
    MaskTally cpus false [.call (.setAffinity tid effective (.ok ())), .record entry] outcome where
  records := ⟨entry, rfl, hentry.trans houtcome.symm⟩
  quiet := by simp [Call.isRefusal]
  settled := by simp [houtcome, Call.settlesMask, Except.isOk, Except.toBool]
  alive _ := by simp [Call.isDeath]

theorem maskTally_refused (tid : Int) (cpus effective : CpuSet) (errno : Nat) {entry : AuditEntry}
    (hentry : entry.success = false) {outcome : ApplyOutcome}
    (houtcome : outcome.isSuccess = false) :
    MaskTally cpus false [.call (.setAffinity tid effective (.error errno)), .record entry]
      outcome where
  records := ⟨entry, rfl, hentry.trans houtcome.symm⟩
  quiet := by simp [Call.isRefusal]
  settled := by simp [houtcome, Call.settlesMask, Except.isOk, Except.toBool]
  alive hsuccess := absurd hsuccess (by simp [houtcome])

theorem SetPath.maskTally {tid : Int} {effective : CpuSet} {es : List Event}
    {outcome : ApplyOutcome} (h : SetPath tid effective es outcome) (cpus : CpuSet) :
    MaskTally cpus (effective.count = 0) es outcome := by
  cases h with
  | empty h =>
      rw [decide_eq_true h]
      exact ⟨⟨rfl, rfl⟩, nofun, by simp [ApplyOutcome.isSuccess], nofun⟩
  | set h hentry =>
      rw [decide_eq_false h]
      exact maskTally_set tid cpus effective hentry rfl
  | refused h errno hentry =>
      rw [decide_eq_false h]
      exact maskTally_refused tid cpus effective errno hentry (refusedAffinity_isSuccess errno)

theorem SetPath.not_asked {tid : Int} {effective : CpuSet} {es : List Event}
    {outcome : ApplyOutcome} (h : SetPath tid effective es outcome) :
    Call.readAllowedMask tid none ∉ callsOf es := by
  cases h with
  | empty h => simp
  | set h hentry => simp
  | refused h errno hentry => simp

theorem AllowedPath.maskTally {tid : Int} {online : CpuSet} {es : List Event}
    {outcome : ApplyOutcome} (h : AllowedPath tid online es outcome) (cpus : CpuSet) :
    MaskTally cpus
      (online.count = 0 && (callsOf es).contains (.readAllowedMask tid none)) es outcome := by
  cases h with
  | @unreadable es _ h =>
      have hpassed : (decide (online.count = 0) && (callsOf
          (.call (.readAllowedMask tid none) :: es)).contains (.readAllowedMask tid none)) =
            decide (online.count = 0) := by simp
      rw [hpassed]
      exact (h.maskTally cpus).cons rfl rfl rfl
  | @blocked allowed h entry hentry =>
      have hpassed : (decide (online.count = 0) && (callsOf
          [.call (.readAllowedMask tid (some allowed)), .record entry]).contains
            (.readAllowedMask tid none)) = false := by simp
      rw [hpassed]
      constructor
      · exact ⟨entry, rfl, hentry⟩
      · simp [Call.isRefusal]
      · simp [ApplyOutcome.isSuccess, Call.settlesMask]
      · exact nofun
  | @downgraded allowed h hcut es _ hes =>
      have hpassed : (decide (online.count = 0) && (callsOf
          (.call (.readAllowedMask tid (some allowed)) :: es)).contains
            (.readAllowedMask tid none)) = false := by
        cases hes <;> simp
      rw [hpassed]
      refine MaskTally.cons ?_ rfl rfl rfl
      cases hes with
      | set hentry => exact maskTally_set tid cpus _ hentry rfl
      | refused errno hentry =>
          refine maskTally_refused tid cpus _ errno hentry ?_
          split
          · rfl
          · rfl
  | @kept allowed h hsame es _ hes =>
      have hpassed : (decide (online.count = 0) && (callsOf
          (.call (.readAllowedMask tid (some allowed)) :: es)).contains
            (.readAllowedMask tid none)) = false := by
        simp [hes.not_asked]
      rw [hpassed]
      have htally := hes.maskTally cpus
      rw [decide_eq_false h] at htally
      exact htally.cons rfl rfl rfl

theorem AffinityPath.tally {tid : Int} {policy : Policy} {topo : CpuTopology} {es : List Event}
    {outcome : ApplyOutcome} (h : AffinityPath tid policy topo es outcome) :
    ∃ js ms, es = js ++ ms ∧ OnlyRefusals js ∧ (∀ c ∈ callsOf js, c.isJoin = true) ∧
      MaskTally policy.cpus (PassesOver tid policy topo (callsOf es)) ms outcome := by
  cases h with
  | noCpus h =>
      have hpassed : PassesOver tid policy topo (callsOf []) = true := by simp [PassesOver, h]
      refine ⟨[], [], rfl, onlyRefusals_calls rfl nofun, nofun, ?_⟩
      rw [hpassed]
      exact ⟨⟨rfl, rfl⟩, nofun, by simp [ApplyOutcome.isSuccess], nofun⟩
  | @already h js hjoin entry hentry =>
      have hjs : Call.readAllowedMask tid none ∉ callsOf js := fun hmem =>
        absurd (hjoin.calls _ hmem) (by simp [Call.isJoin])
      have hpassed : PassesOver tid policy topo
          (callsOf (js ++ [.call (.getAffinity tid (some policy.cpus)), .record entry])) =
            false := by simp [PassesOver, h, hjs]
      refine ⟨js, _, rfl, hjoin.onlyRefusals, hjoin.calls, ?_⟩
      rw [hpassed]
      exact ⟨⟨entry, rfl, hentry⟩, by simp [Call.isRefusal],
        by simp [ApplyOutcome.isSuccess, Call.settlesMask], by simp [Call.isDeath]⟩
  | @other h js hjoin curr hcurr es _ hes =>
      have hjs : Call.readAllowedMask tid none ∉ callsOf js := fun hmem =>
        absurd (hjoin.calls _ hmem) (by simp [Call.isJoin])
      have hpassed : PassesOver tid policy topo
          (callsOf (js ++ .call (.getAffinity tid curr) :: es)) =
            (decide ((onlineFilter topo policy.cpus).count = 0) &&
              (callsOf es).contains (.readAllowedMask tid none)) := by
        simp [PassesOver, h, hjs]
      refine ⟨js, _, rfl, hjoin.onlyRefusals, hjoin.calls, ?_⟩
      rw [hpassed]
      exact (hes.maskTally policy.cpus).cons rfl (decide_eq_false hcurr) rfl

/-! ## After the affinity -/

theorem NicePath.alive {tid : Int} {nice : Option Int} {es : List Event} (h : NicePath tid nice es)
    (hquiet : ∀ c ∈ callsOf es, c.isRefusal = false) : ∀ c ∈ callsOf es, c.isDeath = false := by
  cases h with
  | unset => simp
  | set n => simp [Call.isDeath]
  | refused n errno hentry =>
      have hrefused := hquiet _ List.mem_cons_self
      simp [Call.isRefusal, Except.isOk, Except.toBool] at hrefused

theorem SchedPath.isSuccess_le {tid : Int} {pol : SchedPolicy} {prio nice : Option Int}
    {es : List Event} {failure : Option ApplyOutcome} (h : SchedPath tid pol prio nice es failure)
    {outcome : ApplyOutcome} (hfail : outcome.isSuccess = false) :
    (failure.getD outcome).isSuccess = false := by
  cases h with
  | set hnice => exact hfail
  | gone hnice => rfl
  | refused herrno hnice hentry => rfl

/-- Without a refusal only the death of the thread takes the success away. -/
theorem SchedPath.isSuccess_iff {tid : Int} {pol : SchedPolicy} {prio nice : Option Int}
    {es : List Event} {failure : Option ApplyOutcome} (h : SchedPath tid pol prio nice es failure)
    (hquiet : ∀ c ∈ callsOf es, c.isRefusal = false) {outcome : ApplyOutcome}
    (hsuccess : outcome.isSuccess = true) :
    (failure.getD outcome).isSuccess = true ↔ ∀ c ∈ callsOf es, c.isDeath = false := by
  cases h with
  | set hnice =>
      have halive := hnice.alive fun c hc => hquiet c (List.mem_cons_of_mem _ hc)
      simpa [hsuccess, Call.isDeath] using halive
  | gone hnice => simp [Call.isDeath, ApplyOutcome.isSuccess]
  | @refused errno herrno ns hnice entry hentry =>
      have hrefused := hquiet _ List.mem_cons_self
      simp [Call.isRefusal, herrno] at hrefused

theorem SupportPath.alive {support : Option Bool} {es : List Event} {supported : Bool}
    (h : SupportPath support es supported) : ∀ c ∈ callsOf es, c.isDeath = false := by
  cases h with
  | known supported => simp
  | asked limit => simp [Call.isDeath]

theorem UclampPath.isSuccess_iff {support : Option Bool} {tid : Int} {lo hi : Option Nat}
    {outcome outcome' : ApplyOutcome} {es : List Event}
    (h : UclampPath support tid lo hi outcome es outcome') :
    outcome'.isSuccess = true ↔
      outcome.isSuccess = true ∧ ∀ c ∈ callsOf es, c.isDeath = false := by
  cases h with
  | unset h => simp
  | unsupported h hps => exact (and_iff_left hps.alive).symm
  | set h hps =>
      refine (and_iff_left fun c hc => ?_).symm
      rw [callsOf_append, List.mem_append] at hc
      rcases hc with hc | hc
      · exact hps.alive c hc
      · rw [List.mem_singleton.mp hc]
        rfl
  | gone h hps => simp [setattrCall, Call.isDeath, ApplyOutcome.isSuccess]
  | @refused _ ps hps errno herrno entry hentry =>
      refine (and_iff_left fun c hc => ?_).symm
      rw [callsOf_append, List.mem_append] at hc
      rcases hc with hc | hc
      · exact hps.alive c hc
      · rw [List.mem_singleton.mp hc]
        exact decide_eq_false herrno

/-! ## The record of an application -/

/-- What follows the affinity in an application that got as far as `outcome`. -/
structure LaterEvents (outcome : ApplyOutcome) (ls : List Event) (outcome' : ApplyOutcome) :
    Prop where
  records : OnlyRefusals ls
  stage : ∀ c ∈ callsOf ls, c.stage ≠ .affinity
  failed : outcome.isSuccess = false → outcome'.isSuccess = false
  kept : (∀ c ∈ callsOf ls, c.isRefusal = false) → outcome.isSuccess = true →
    (outcome'.isSuccess = true ↔ ∀ c ∈ callsOf ls, c.isDeath = false)

theorem laterEvents_nil (outcome : ApplyOutcome) : LaterEvents outcome [] outcome where
  records := onlyRefusals_calls rfl nofun
  stage := by simp
  failed := id
  kept _ h := by simp [h]

theorem UclampPath.laterEvents {support : Option Bool} {tid : Int} {lo hi : Option Nat}
    {outcome outcome' : ApplyOutcome} {es : List Event}
    (h : UclampPath support tid lo hi outcome es outcome') : LaterEvents outcome es outcome' where
  records := h.onlyRefusals
  stage c hc := by simp [h.stage c hc]
  failed hfail := by
    rw [← Bool.not_eq_true, h.isSuccess_iff]
    exact fun hboth => absurd hboth.1 (by simp [hfail])
  kept _ hsuccess := by rw [h.isSuccess_iff, and_iff_right hsuccess]

theorem SchedPath.laterEvents {support : Option Bool} {tid : Int} {pol : SchedPolicy}
    {prio nice : Option Int} {lo hi : Option Nat} {outcome outcome' : ApplyOutcome}
    {ss us : List Event} {failure : Option ApplyOutcome}
    (h : SchedPath tid pol prio nice ss failure)
    (hus : UclampPath support tid lo hi (failure.getD outcome) us outcome') :
    LaterEvents outcome (ss ++ us) outcome' where
  records := h.onlyRefusals.append hus.onlyRefusals
  stage c hc := by
    rw [callsOf_append, List.mem_append] at hc
    obtain ⟨answer, ns, hnice, hcalls, -⟩ := h.split
    rcases hc with hc | hc
    · rw [hcalls, List.mem_cons] at hc
      rcases hc with rfl | hc
      · simp [Call.stage]
      · simp [hnice.stage c hc]
    · simp [hus.stage c hc]
  failed hfail := hus.laterEvents.failed (h.isSuccess_le hfail)
  kept hquiet hsuccess := by
    have hss : ∀ c ∈ callsOf ss, c.isRefusal = false := fun c hc =>
      hquiet c (by rw [callsOf_append]; exact List.mem_append_left _ hc)
    rw [hus.isSuccess_iff, h.isSuccess_iff hss hsuccess, callsOf_append, List.forall_mem_append]

theorem ThreadPath.split {support : Option Bool} {tid : Int} {policy : Policy}
    {topo : CpuTopology} {rtAllowed : Bool} {es : List Event} {outcome' : ApplyOutcome}
    (h : ThreadPath support tid policy topo rtAllowed es outcome') :
    ∃ as ls outcome, es = as ++ ls ∧ AffinityPath tid policy topo as outcome ∧
      LaterEvents outcome ls outcome' := by
  cases h with
  | exited h => exact ⟨es, [], _, (List.append_nil es).symm, h, laterEvents_nil _⟩
  | noSched h hgone hsched hus => exact ⟨_, _, _, rfl, h, hus.laterEvents⟩
  | rtRefused h hgone hsched hrt =>
      exact ⟨es, [], _, (List.append_nil es).symm, h, laterEvents_nil _⟩
  | sched h hgone hsched hrt hss hus => exact ⟨_, _, _, rfl, h, hss.laterEvents hus⟩

def RecordsResult (es : List Event) (outcome : ApplyOutcome) : Prop :=
  (recordsOf es).length = 1 ∧
    (recordsOf es).countP AuditEntry.success = if outcome.isSuccess then 1 else 0

theorem OnlyRefusals.countP_success {es : List Event} (h : OnlyRefusals es) :
    (recordsOf es).countP AuditEntry.success = 0 := by
  rw [List.countP_eq_zero]
  exact fun e he => by simp [h.failed e he]

/-- The affinity succeeds exactly when an answer of the application settles the mask. -/
theorem settled_iff {cpus : CpuSet} {passed : Bool} {js ms ls : List Event}
    {outcome outcome' : ApplyOutcome} (hjoin : ∀ c ∈ callsOf js, c.isJoin = true)
    (hms : MaskTally cpus passed ms outcome) (hls : LaterEvents outcome ls outcome') :
    (∃ c ∈ callsOf (js ++ ms ++ ls), c.settlesMask cpus = true) ↔ outcome.isSuccess = true := by
  rw [hms.settled]
  constructor
  · rintro ⟨c, hc, hsettles⟩
    rw [callsOf_append, callsOf_append, List.mem_append, List.mem_append] at hc
    rcases hc with (hc | hc) | hc
    · have hj := hjoin c hc
      cases c <;> simp_all [Call.isJoin, Call.settlesMask]
    · exact ⟨c, hc, hsettles⟩
    · have hstage := hls.stage c hc
      cases c <;> simp_all [Call.stage, Call.settlesMask]
  · rintro ⟨c, hc, hsettles⟩
    refine ⟨c, ?_, hsettles⟩
    rw [callsOf_append, callsOf_append]
    exact List.mem_append_left _ (List.mem_append_right _ hc)

theorem MaskTally.length {cpus : CpuSet} {passed : Bool} {es : List Event}
    {outcome : ApplyOutcome} (h : MaskTally cpus passed es outcome) :
    (recordsOf es).length = if passed then 0 else 1 := by
  have hrecords := h.records
  cases passed with
  | true => rw [hrecords.1]; rfl
  | false =>
      obtain ⟨e, he, -⟩ := hrecords
      rw [he]
      rfl

theorem MaskTally.countP_success {cpus : CpuSet} {passed : Bool} {es : List Event}
    {outcome : ApplyOutcome} (h : MaskTally cpus passed es outcome) :
    (recordsOf es).countP AuditEntry.success = if outcome.isSuccess then 1 else 0 := by
  have hrecords := h.records
  cases passed with
  | true => rw [hrecords.1, hrecords.2]; rfl
  | false =>
      obtain ⟨e, he, hsuccess⟩ := hrecords
      rw [he, List.countP_singleton, hsuccess]

theorem kept_iff_alive {cpus : CpuSet} {passed : Bool} {js ms ls : List Event}
    {outcome outcome' : ApplyOutcome} (hjoin : ∀ c ∈ callsOf js, c.isJoin = true)
    (hms : MaskTally cpus passed ms outcome) (hls : LaterEvents outcome ls outcome')
    (hrefusals : (callsOf (js ++ ms ++ ls)).countP Call.isRefusal = if passed then 1 else 0)
    (hsuccess : outcome.isSuccess = true) :
    outcome'.isSuccess = true ↔ ∀ c ∈ callsOf (js ++ ms ++ ls), c.isDeath = false := by
  have hnever : passed = false := by
    cases passed with
    | false => rfl
    | true => exact absurd (hms.records.2.symm.trans hsuccess) (by decide)
  have hquiet : ∀ c ∈ callsOf (js ++ ms ++ ls), c.isRefusal = false := by
    rw [hnever] at hrefusals
    exact fun c hc => Bool.not_eq_true _ ▸ List.countP_eq_zero.mp hrefusals c hc
  have hjs : ∀ c ∈ callsOf js, c.isDeath = false := by
    intro c hc
    have hj := hjoin c hc
    cases c <;> simp_all [Call.isJoin, Call.isDeath]
  have hlater := hls.kept (fun c hc => hquiet c (by simp [hc])) hsuccess
  rw [hlater, callsOf_append, callsOf_append, List.forall_mem_append, List.forall_mem_append]
  exact (and_iff_right ⟨hjs, hms.alive hsuccess⟩).symm

/-- What decides whether the record of an application is a single one and a true one. -/
theorem ThreadPath.recordsResult_iff {support : Option Bool} {tid : Int} {policy : Policy}
    {topo : CpuTopology} {rtAllowed : Bool} {es : List Event} {outcome' : ApplyOutcome}
    (h : ThreadPath support tid policy topo rtAllowed es outcome') :
    RecordsResult es outcome' ↔ AuditedOnce tid policy topo (callsOf es) := by
  obtain ⟨as, ls, outcome, rfl, has, hls⟩ := h.split
  obtain ⟨js, ms, rfl, hjs, hjoin, hms⟩ := has.tally
  have hpassed : PassesOver tid policy topo (callsOf (js ++ ms ++ ls)) =
      PassesOver tid policy topo (callsOf (js ++ ms)) := by
    have hlater : Call.readAllowedMask tid none ∉ callsOf ls := fun hmem =>
      hls.stage _ hmem rfl
    simp [PassesOver, hlater]
  rw [← hpassed] at hms
  obtain ⟨passed, hp⟩ : ∃ p, PassesOver tid policy topo (callsOf (js ++ ms ++ ls)) = p := ⟨_, rfl⟩
  rw [hp] at hms
  have hrefusals : (callsOf (js ++ ms ++ ls)).countP Call.isRefusal =
      (recordsOf js).length + (recordsOf ls).length := by
    have hzero : (callsOf ms).countP Call.isRefusal = 0 :=
      List.countP_eq_zero.mpr fun c hc => by simp [hms.quiet c hc]
    rw [callsOf_append, callsOf_append, List.countP_append, List.countP_append, hzero, hjs.length,
      hls.records.length, Nat.add_zero]
  have hlength : (recordsOf (js ++ ms ++ ls)).length = 1 ↔
      (callsOf (js ++ ms ++ ls)).countP Call.isRefusal = if passed then 1 else 0 := by
    rw [recordsOf_append, recordsOf_append, List.length_append, List.length_append, hms.length,
      hrefusals]
    cases passed with
    | true => simp only [if_true]; omega
    | false => simp only [Bool.false_eq_true, if_false]; omega
  have hcount : (recordsOf (js ++ ms ++ ls)).countP AuditEntry.success =
      if outcome.isSuccess then 1 else 0 := by
    rw [recordsOf_append, recordsOf_append, List.countP_append, List.countP_append,
      hjs.countP_success, hls.records.countP_success, hms.countP_success, Nat.zero_add,
      Nat.add_zero]
  have hsettled := settled_iff hjoin hms hls
  unfold RecordsResult
  rw [hcount]
  constructor
  · rintro ⟨hone, hagree⟩
    have hcond := hlength.mp hone
    refine ⟨by rw [hp]; exact hcond, fun hsome => ?_⟩
    have hsuccess := hsettled.mp hsome
    refine (kept_iff_alive hjoin hms hls hcond hsuccess).mp ?_
    rw [if_pos hsuccess] at hagree
    by_contra hfail
    rw [if_neg hfail] at hagree
    exact one_ne_zero hagree
  · rintro ⟨hcond, hdeath⟩
    rw [hp] at hcond
    refine ⟨hlength.mpr hcond, ?_⟩
    cases hsuccess : outcome.isSuccess with
    | false => rw [hls.failed hsuccess]
    | true =>
        have halive := hdeath (hsettled.mpr hsuccess)
        rw [(kept_iff_alive hjoin hms hls hcond hsuccess).mpr halive]

/-! ## Runs of applications -/

/-- The arguments of a call of `apply_thread`. -/
structure Application where
  tid : Int
  pkg : String
  policy : Policy
  topo : CpuTopology
  rtAllowed : Bool

def Application.apply (env : Env κ) (a : Application) : Run κ ApplyOutcome :=
  applyThread env a.tid a.pkg a.policy a.topo a.rtAllowed

/-- The results so far, and the system they leave. -/
structure Tally (κ : Type) where
  outcomes : List ApplyOutcome
  system : System (Traced κ Call)

def Tally.step (env : Env κ) (t : Tally κ) (a : Application) : Tally κ :=
  let r := (a.apply env.traced).run t.system
  ⟨t.outcomes ++ [r.1], r.2⟩

def Tally.Measured (t : Tally κ) : Prop :=
  t.system.summary.totalAttempts = t.outcomes.length ∧
    t.system.summary.success = t.outcomes.countP ApplyOutcome.isSuccess

/-- The answers to a call make it leave one record that agrees with its result. -/
def Application.Audited (env : Env κ) (t : Tally κ) (a : Application) : Prop :=
  AuditedOnce a.tid a.policy a.topo (transcript (a.apply env.traced) t.system).calls

theorem Tally.measured_iff (t : Tally κ) :
    t.Measured ↔ t.system.auditLog.length = t.outcomes.length ∧
      t.system.auditLog.countP AuditEntry.success = t.outcomes.countP ApplyOutcome.isSuccess := by
  unfold Tally.Measured System.summary
  rw [summarize_totalAttempts, summarize_success]

theorem Tally.step_records (env : Env κ) (t : Tally κ) (a : Application) :
    ∃ es outcome, (RecordsResult es outcome ↔ a.Audited env t) ∧
      (t.step env a).outcomes = t.outcomes ++ [outcome] ∧
      (t.step env a).system.auditLog = (recordsOf es).foldl pushAudit t.system.auditLog := by
  obtain ⟨es, hpath, hcalls, hlog⟩ := applyThread_transcript env a.tid a.pkg a.policy a.topo
    a.rtAllowed t.system
  refine ⟨es, _, hpath.recordsResult_iff.trans ?_, rfl, hlog⟩
  exact iff_of_eq (congrArg (AuditedOnce a.tid a.policy a.topo) hcalls.symm)

theorem Tally.step_measured {env : Env κ} {t : Tally κ} {a : Application} (ht : t.Measured)
    (hroom : t.outcomes.length < auditLogMax) (ha : a.Audited env t) :
    (t.step env a).Measured := by
  obtain ⟨es, outcome, haudited, houtcomes, hlog⟩ := t.step_records env a
  rw [Tally.measured_iff] at ht ⊢
  replace ha := haudited.mpr ha
  have hfits : t.system.auditLog.length + (recordsOf es).length ≤ auditLogMax := by
    rw [ha.1, ht.1]
    exact hroom
  rw [hlog, houtcomes, foldl_pushAudit hfits, List.length_append, List.length_append,
    List.countP_append, List.countP_append, ht.1, ht.2, ha.1, ha.2, List.length_singleton,
    List.countP_singleton]
  exact ⟨rfl, rfl⟩

theorem Tally.audited_of_measured {env : Env κ} {t : Tally κ} {a : Application} (ht : t.Measured)
    (hroom : t.outcomes.length + 1 < auditLogMax) (hstep : (t.step env a).Measured) :
    a.Audited env t := by
  obtain ⟨es, outcome, haudited, houtcomes, hlog⟩ := t.step_records env a
  rw [Tally.measured_iff] at ht hstep
  rw [hlog, houtcomes] at hstep
  have hlength := hstep.1
  rw [length_foldl_pushAudit (by omega), List.length_append, List.length_singleton, ht.1]
    at hlength
  have hone : (recordsOf es).length = 1 := by omega
  have hsuccess := hstep.2
  rw [foldl_pushAudit (by omega), List.countP_append, List.countP_append, ht.2,
    List.countP_singleton] at hsuccess
  exact haudited.mp ⟨hone, Nat.add_left_cancel hsuccess⟩

def audited (env : Env κ) (s : System (Traced κ Call)) (calls : List Application) : Tally κ :=
  run (Tally.step env) ⟨[], s⟩ calls

theorem length_outcomes (env : Env κ) (s : System (Traced κ Call)) (calls : List Application) :
    (audited env s calls).outcomes.length = calls.length := by
  induction calls using List.reverseRecOn with
  | nil => rfl
  | append_singleton calls a ih =>
      have hstep : (audited env s (calls ++ [a])).outcomes.length =
          (audited env s calls).outcomes.length + 1 := by
        rw [audited, run_concat]
        exact List.length_append
      rw [hstep, ih, List.length_append, List.length_singleton]

/-- While every call so far is audited the summary measures the calls. -/
theorem measured_of_audited {env : Env κ} {s : System (Traced κ Call)} (hempty : s.auditLog = [])
    {calls : List Application} (hroom : calls.length ≤ auditLogMax)
    (haudited : AtEach (Tally.step env) (fun t a => a.Audited env t) ⟨[], s⟩ calls) :
    (audited env s calls).Measured := by
  induction calls using List.reverseRecOn with
  | nil =>
      rw [Tally.measured_iff]
      exact ⟨congrArg List.length hempty, congrArg (List.countP AuditEntry.success) hempty⟩
  | append_singleton calls a ih =>
      rw [List.length_append, List.length_singleton] at hroom
      have ht := ih (by omega) (atEach_left _ haudited)
      rw [audited, run_concat]
      have hlength := length_outcomes env s calls
      exact Tally.step_measured ht (hlength.trans_lt hroom) (haudited calls a [] rfl)

theorem failureRate_of_measured {t : Tally κ} (h : t.Measured) :
    t.system.summary.failureRate =
      (t.outcomes.countP fun o => !o.isSuccess : ℚ) / t.outcomes.length := by
  have hsplit := List.length_eq_countP_add_countP ApplyOutcome.isSuccess (l := t.outcomes)
  have hfailed : t.outcomes.length - t.outcomes.countP ApplyOutcome.isSuccess =
      t.outcomes.countP fun o => !o.isSuccess := by
    simp only [Bool.not_eq_true, Bool.decide_eq_false] at hsplit
    omega
  unfold AuditSummary.failureRate
  rw [h.1, h.2, hfailed]
  split
  · rename_i hzero
    rw [hzero, Nat.cast_zero, div_zero]
  · rfl

/-- Where every application leaves a single true record, the summary measures the calls and
the failure rate the failed ones among them; short of a full log it does so nowhere else. -/
theorem audit_measures_calls (env : Env κ) (s : System (Traced κ Call)) (hempty : s.auditLog = [])
    (calls : List Application) :
    (calls.length ≤ auditLogMax →
      AtEach (Tally.step env) (fun t a => a.Audited env t) ⟨[], s⟩ calls →
      Throughout (Tally.step env) Tally.Measured ⟨[], s⟩ calls ∧
        (audited env s calls).system.summary.failureRate =
          ((audited env s calls).outcomes.countP fun o => !o.isSuccess : ℚ) / calls.length ∧
        ((∀ o ∈ (audited env s calls).outcomes, o.isSuccess = true) →
          (audited env s calls).system.summary.failureRate ≤ 1 / 2)) ∧
    (calls.length < auditLogMax →
      Throughout (Tally.step env) Tally.Measured ⟨[], s⟩ calls →
      AtEach (Tally.step env) (fun t a => a.Audited env t) ⟨[], s⟩ calls) := by
  constructor
  · intro hroom haudited
    have hmeasured := measured_of_audited hempty hroom haudited
    have hrate := failureRate_of_measured hmeasured
    rw [length_outcomes] at hrate
    refine ⟨?_, hrate, fun hall => ?_⟩
    · rintro before after rfl
      rw [List.length_append] at hroom
      exact measured_of_audited hempty (by omega) (atEach_left _ haudited)
    · have hnone : (audited env s calls).outcomes.countP (fun o => !o.isSuccess) = 0 :=
        List.countP_eq_zero.mpr fun o ho => by simp [hall o ho]
      rw [hrate, hnone, Nat.cast_zero, zero_div]
      norm_num
  · rintro hroom hmeasured before a after rfl
    have hbefore := hmeasured before (a :: after) rfl
    have hstep := hmeasured (before ++ [a]) after (by simp)
    rw [run_concat] at hstep
    refine Tally.audited_of_measured hbefore ?_ hstep
    have hlength := length_outcomes env s before
    rw [List.length_append, List.length_cons] at hroom
    unfold audited at hlength
    omega

def pinning : Application := ⟨7, "a", { Policy.unset with cpus := .firstN 1 }, .default, true⟩

def Env.refusingEight {κ : Type} : Env κ :=
  { Env.silent with setAffinity := fun tid _ => pure (if tid = 8 then .error EPERM else .ok ()) }

/-- Of three calls the second one fails. -/
def pinnings : List Application := [pinning, { pinning with tid := 8 }, { pinning with tid := 9 }]

theorem audit_measures_pinning :
    let t := audited Env.refusingEight (System.init ⟨(), []⟩) pinnings
    t.outcomes = [.applied, .blockedByPerm, .applied] ∧
      Throughout (Tally.step Env.refusingEight) Tally.Measured ⟨[], System.init ⟨(), []⟩⟩ pinnings ∧
      t.system.summary.failureRate = 1 / 3 := by
  intro t
  have haudited : AtEach (Tally.step Env.refusingEight) (fun t a => a.Audited Env.refusingEight t)
      ⟨[], System.init ⟨(), []⟩⟩ pinnings :=
    atEach_cons _ ⟨by decide +kernel, by decide +kernel⟩
      (atEach_cons _ ⟨by decide +kernel, by decide +kernel⟩
        (atEach_cons _ ⟨by decide +kernel, by decide +kernel⟩ (atEach_nil _ _ _)))
  have houtcomes : t.outcomes = [.applied, .blockedByPerm, .applied] := by decide +kernel
  obtain ⟨hmeasured, hrate, -⟩ := (audit_measures_calls Env.refusingEight (System.init ⟨(), []⟩)
    rfl pinnings).1 (by decide) haudited
  refine ⟨houtcomes, hmeasured, hrate.trans ?_⟩
  have hfailed : t.outcomes.countP (fun o => !o.isSuccess) = 1 := by
    rw [houtcomes]
    decide
  show (t.outcomes.countP (fun o => !o.isSuccess) : ℚ) / _ = 1 / 3
  rw [hfailed]
  norm_num [pinnings]

/-- A kernel with uclamp that lets threads be placed and no more. -/
def Env.placing {κ : Type} : Env κ :=
  { Env.silent with
    setpriority := fun _ _ => pure (.error EPERM)
    schedSetattr := fun _ _ _ _ => pure (.error EPERM)
    readUtilClampMax := pure (some 1024) }

/-- One call that succeeds leaves three records, two of them of failures. -/
theorem success_audited_as_failure :
    let a : Application := { pinning with
      policy := { pinning.policy with sched := some .other, nice := some 0, uclampMin := some 5 } }
    let t := audited Env.placing (System.init ⟨(), []⟩) [a]
    t.outcomes = [.applied] ∧ ¬ t.Measured ∧ 1 / 2 < t.system.summary.failureRate := by
  intro a t
  have htotal : t.system.summary.totalAttempts = 3 := by decide +kernel
  have hsuccess : t.system.summary.success = 1 := by decide +kernel
  refine ⟨by decide +kernel, fun h => ?_, ?_⟩
  · have hone : t.outcomes.length = 1 := by decide +kernel
    exact absurd (htotal.symm.trans (h.1.trans hone)) (by decide)
  · rw [AuditSummary.failureRate, htotal, hsuccess]
    norm_num

end Threadctl.Core
