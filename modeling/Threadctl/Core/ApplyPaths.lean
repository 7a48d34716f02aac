import Threadctl.Core.Apply
import Threadctl.Support.EventLog

/-!
# The ways through `apply_thread`

`Env.traced` notes the system calls of an environment together with their answers.
Each function that applies a policy has its paths: the events it may emit, in order,
with the result they lead to and the test that leads there.
-/

namespace Threadctl.Core

open Threadctl.Support.EventLog

variable {κ : Type}

/-- A system call and its answer. -/
inductive Call where
  | getAffinity (tid : Int) (mask : Option CpuSet)
  | setAffinity (tid : Int) (cpus : CpuSet) (answer : SysResult)
  | readAllowedMask (tid : Int) (mask : Option CpuSet)
  | createCpusetDir (path cpus mems : String) (created : Bool)
  | removeCpusetDir (path : String) (removed : Bool)
  | appendTask (file : String) (tid : Int) (written : Bool)
  | schedSetscheduler (tid : Int) (policy : SchedPolicy) (prio : Int) (answer : SysResult)
  | setpriority (tid nice : Int) (answer : SysResult)
  | schedSetattr (tid : Int) (flags lo hi : Nat) (answer : SysResult)
  | readUtilClampMax (limit : Option Nat)
  deriving DecidableEq

def Env.traced (env : Env κ) : Env (Traced κ Call) where
  readProcDir := quietly env.readProcDir
  readStartTime pid := quietly (env.readStartTime pid)
  readCmdline pid := quietly (env.readCmdline pid)
  readThreadName tid := quietly (env.readThreadName tid)
  readTgid tid := quietly (env.readTgid tid)
  readOomAdj pid := quietly (env.readOomAdj pid)
  isAlive pid := quietly (env.isAlive pid)
  listTids pid := quietly (env.listTids pid)
  readCpuset pid := quietly (env.readCpuset pid)
  canRtSched := quietly env.canRtSched
  getAffinity tid := noting (.getAffinity tid) (env.getAffinity tid)
  setAffinity tid cpus := noting (.setAffinity tid cpus) (env.setAffinity tid cpus)
  readAllowedMask tid := noting (.readAllowedMask tid) (env.readAllowedMask tid)
  createCpusetDir path cpus mems :=
    noting (.createCpusetDir path cpus mems) (env.createCpusetDir path cpus mems)
  removeCpusetDir path := noting (.removeCpusetDir path) (env.removeCpusetDir path)
  appendTask file tid := noting (.appendTask file tid) (env.appendTask file tid)
  schedSetscheduler tid policy prio :=
    noting (.schedSetscheduler tid policy prio) (env.schedSetscheduler tid policy prio)
  setpriority tid nice := noting (.setpriority tid nice) (env.setpriority tid nice)
  schedSetattr tid flags lo hi :=
    noting (.schedSetattr tid flags lo hi) (env.schedSetattr tid flags lo hi)
  readUtilClampMax := noting .readUtilClampMax env.readUtilClampMax
  nowSecs := quietly env.nowSecs
  instantNow := quietly env.instantNow
  sleep n := quietly (env.sleep n)
  order t l := env.order t.kernel l
  order_perm t l := env.order_perm t.kernel l

/-! ## Events -/

/-- What an application does: it calls the kernel or writes to the audit log. -/
inductive Event where
  | call (c : Call)
  | record (entry : AuditEntry)

def Event.call? : Event → Option Call
  | .call c => some c
  | .record _ => none

def Event.record? : Event → Option AuditEntry
  | .call _ => none
  | .record entry => some entry

def callsOf (events : List Event) : List Call := events.filterMap Event.call?

def recordsOf (events : List Event) : List AuditEntry := events.filterMap Event.record?

@[simp] theorem callsOf_nil : callsOf [] = [] := rfl

@[simp] theorem callsOf_call (c : Call) (es : List Event) :
    callsOf (.call c :: es) = c :: callsOf es := rfl

@[simp] theorem callsOf_record (entry : AuditEntry) (es : List Event) :
    callsOf (.record entry :: es) = callsOf es := rfl

@[simp] theorem callsOf_append (es fs : List Event) :
    callsOf (es ++ fs) = callsOf es ++ callsOf fs :=
  List.filterMap_append

@[simp] theorem recordsOf_nil : recordsOf [] = [] := rfl

@[simp] theorem recordsOf_call (c : Call) (es : List Event) :
    recordsOf (.call c :: es) = recordsOf es := rfl

@[simp] theorem recordsOf_record (entry : AuditEntry) (es : List Event) :
    recordsOf (.record entry :: es) = entry :: recordsOf es := rfl

@[simp] theorem recordsOf_append (es fs : List Event) :
    recordsOf (es ++ fs) = recordsOf es ++ recordsOf fs := List.filterMap_append

def noteSupport (support : Option Bool) : Call → Option Bool
  | .readUtilClampMax limit => some (limit.any (0 < ·))
  | _ => support

/-! ## Trails -/

section Trails

variable {ω : Type}

/-- What events change: the logs, the answer kept from asking for uclamp, and a part of the
kernel's state that follows the calls. -/
structure Trail (ω : Type) where
  log : List Call
  auditLog : List AuditEntry
  uclampSupport : Option Bool
  world : ω

def trail (read : κ → ω) (s : System (Traced κ Call)) : Trail ω :=
  ⟨s.kernel.log, s.auditLog, s.uclampSupport, read s.kernel.kernel⟩

def Trail.step (effect : ω → Call → ω) (t : Trail ω) : Event → Trail ω
  | .call c =>
      { t with
        log := t.log ++ [c]
        uclampSupport := noteSupport t.uclampSupport c
        world := effect t.world c }
  | .record entry => { t with auditLog := pushAudit t.auditLog entry }

variable (effect : ω → Call → ω)

theorem foldl_step_log (es : List Event) (t : Trail ω) :
    (es.foldl (Trail.step effect) t).log = t.log ++ callsOf es := by
  induction es generalizing t with
  | nil => simp
  | cons e es ih =>
      rw [List.foldl_cons, ih]
      cases e with
      | call c => simp [Trail.step]
      | record entry => simp [Trail.step]

theorem foldl_step_auditLog (es : List Event) (t : Trail ω) :
    (es.foldl (Trail.step effect) t).auditLog = (recordsOf es).foldl pushAudit t.auditLog := by
  induction es generalizing t with
  | nil => rfl
  | cons e es ih =>
      rw [List.foldl_cons, ih]
      cases e with
      | call c => rfl
      | record entry => rfl

theorem foldl_step_uclampSupport (es : List Event) (t : Trail ω) :
    (es.foldl (Trail.step effect) t).uclampSupport =
      (callsOf es).foldl noteSupport t.uclampSupport := by
  induction es generalizing t with
  | nil => rfl
  | cons e es ih =>
      rw [List.foldl_cons, ih]
      cases e with
      | call c => rfl
      | record entry => rfl

theorem foldl_step_world (es : List Event) (t : Trail ω) :
    (es.foldl (Trail.step effect) t).world = (callsOf es).foldl effect t.world := by
  induction es generalizing t with
  | nil => rfl
  | cons e es ih =>
      rw [List.foldl_cons, ih]
      cases e with
      | call c => rfl
      | record entry => rfl

def Moves (read : κ → ω) {α : Type} (x : StateM κ α) (note : α → Call) : Prop :=
  ∀ k, read (x.run k).2 = effect (read k) (note (x.run k).1)

/-- The kernel follows `effect` in what is read of it. -/
structure Env.Moves (env : Env κ) (read : κ → ω) : Prop where
  getAffinity : ∀ tid, Core.Moves effect read (env.getAffinity tid) (.getAffinity tid)
  setAffinity : ∀ tid cpus,
    Core.Moves effect read (env.setAffinity tid cpus) (.setAffinity tid cpus)
  readAllowedMask : ∀ tid, Core.Moves effect read (env.readAllowedMask tid) (.readAllowedMask tid)
  createCpusetDir : ∀ path cpus mems,
    Core.Moves effect read (env.createCpusetDir path cpus mems) (.createCpusetDir path cpus mems)
  appendTask : ∀ file tid, Core.Moves effect read (env.appendTask file tid) (.appendTask file tid)
  schedSetscheduler : ∀ tid policy prio,
    Core.Moves effect read (env.schedSetscheduler tid policy prio)
      (.schedSetscheduler tid policy prio)
  setpriority : ∀ tid nice,
    Core.Moves effect read (env.setpriority tid nice) (.setpriority tid nice)
  schedSetattr : ∀ tid flags lo hi,
    Core.Moves effect read (env.schedSetattr tid flags lo hi) (.schedSetattr tid flags lo hi)
  readUtilClampMax : Core.Moves effect read env.readUtilClampMax .readUtilClampMax
  nowSecs : ∀ k, read (env.nowSecs.run k).2 = read k

theorem Env.moves_unit (env : Env κ) : env.Moves (fun (u : Unit) _ => u) fun _ => () where
  getAffinity _ _ := rfl
  setAffinity _ _ _ := rfl
  readAllowedMask _ _ := rfl
  createCpusetDir _ _ _ _ := rfl
  appendTask _ _ _ := rfl
  schedSetscheduler _ _ _ _ := rfl
  setpriority _ _ _ := rfl
  schedSetattr _ _ _ _ _ := rfl
  readUtilClampMax _ := rfl
  nowSecs _ := rfl

/-- Emitting from a known trail. -/
abbrev Traces {α : Type} (read : κ → ω) (v : Trail ω) (x : Run (Traced κ Call) α)
    (R : List Event → α → Prop) : Prop := Emits (Trail.step effect) (trail read) v x R

variable {effect} {read : κ → ω} {v : Trail ω}

theorem traces_ask {α : Type} {x : StateM κ α} {note : α → Call} (hx : Moves effect read x note)
    (hsupport : ∀ a, noteSupport v.uclampSupport (note a) = v.uclampSupport) :
    Traces effect read v (ask (noting note x)) fun es a => es = [.call (note a)] := by
  rintro s rfl
  refine ⟨_, ?_, rfl⟩
  have hworld := hx s.kernel.kernel
  have hkept := hsupport (x.run s.kernel.kernel).1
  exact Trail.mk.injEq _ _ _ _ _ _ _ _ |>.mpr ⟨rfl, rfl, hkept.symm, hworld⟩

theorem traces_record {env : Env κ} (hmoves : env.Moves effect read) (v : Trail ω)
    (entry : AuditEntry) :
    Traces effect read v (record env.traced entry) fun es _ =>
      ∃ e : AuditEntry, e.success = entry.success ∧ es = [.record e] := by
  rintro s rfl
  unfold record
  split
  · refine ⟨[.record { entry with timestamp := (env.nowSecs.run s.kernel.kernel).1 }], ?_,
      { entry with timestamp := (env.nowSecs.run s.kernel.kernel).1 }, rfl, rfl⟩
    exact Trail.mk.injEq _ _ _ _ _ _ _ _ |>.mpr
      ⟨rfl, rfl, rfl, hmoves.nowSecs s.kernel.kernel⟩
  · exact ⟨_, rfl, _, rfl, rfl⟩

theorem traces_record_pure {α : Type} {env : Env κ} (hmoves : env.Moves effect read)
    {entry : AuditEntry} {a : α} {R : List Event → α → Prop}
    (h : ∀ e : AuditEntry, e.success = entry.success → R [.record e] a) :
    Traces effect read v (do record env.traced entry; pure a) R := by
  refine Emits.bind (traces_record hmoves v entry) ?_
  rintro es _ ⟨e, he, rfl⟩
  exact Emits.pure (h e he)

end Trails

/-! ## Paths of the affinity -/

/-- The ways through `ensureDir`, for a directory that has a name. -/
inductive EnsurePath (dir : String) : List Event → Prop where
  | skipped : EnsurePath dir []
  | asked (created : Bool) :
      EnsurePath dir [.call (.createCpusetDir (baseCpuset ++ "/" ++ dir) dir "0" created)]

inductive JoinPath (tid : Int) (policy : Policy) (topo : CpuTopology) : List Event → Prop where
  | unused (h : (topo.cpusetEnabled && topo.baseCpusetFd != -1) = false) :
      JoinPath tid policy topo []
  | joined {es : List Event} (h : EnsurePath policy.cpusetDir es) :
      JoinPath tid policy topo
        (es ++ [.call (.appendTask (tasksFile policy.cpusetDir) tid true)])
  | refused {es : List Event} (h : EnsurePath policy.cpusetDir es) {entry : AuditEntry}
      (hentry : entry.success = false) :
      JoinPath tid policy topo
        (es ++ [.call (.appendTask (tasksFile policy.cpusetDir) tid false), .record entry])

def refusedAffinity (errno : Nat) : ApplyOutcome :=
  if errno = ESRCH then .exited
  else if errno = EINVAL then .einval
  else if errno = EPERM then .blockedByPerm
  else .failed

inductive SetPath (tid : Int) (effective : CpuSet) : List Event → ApplyOutcome → Prop where
  | empty (h : effective.count = 0) : SetPath tid effective [] .skippedNoCpus
  | set (h : effective.count ≠ 0) {entry : AuditEntry} (hentry : entry.success = true) :
      SetPath tid effective
        [.call (.setAffinity tid effective (.ok ())), .record entry] .applied
  | refused (h : effective.count ≠ 0) (errno : Nat) {entry : AuditEntry}
      (hentry : entry.success = false) :
      SetPath tid effective
        [.call (.setAffinity tid effective (.error errno)), .record entry]
        (refusedAffinity errno)

inductive DowngradePath (tid : Int) (effective : CpuSet) : List Event → ApplyOutcome → Prop where
  | set {entry : AuditEntry} (hentry : entry.success = true) :
      DowngradePath tid effective
        [.call (.setAffinity tid effective (.ok ())), .record entry] .downgraded
  | refused (errno : Nat) {entry : AuditEntry} (hentry : entry.success = false) :
      DowngradePath tid effective
        [.call (.setAffinity tid effective (.error errno)), .record entry]
        (if errno = ESRCH then .exited else .failed)

/-- The ways through `setAllowed`; `online` is the mask once it has passed the filter. -/
inductive AllowedPath (tid : Int) (online : CpuSet) : List Event → ApplyOutcome → Prop where
  | unreadable {es : List Event} {outcome : ApplyOutcome} (h : SetPath tid online es outcome) :
      AllowedPath tid online (.call (.readAllowedMask tid none) :: es) outcome
  | blocked {allowed : CpuSet} (h : (online.and allowed).count = 0) {entry : AuditEntry}
      (hentry : entry.success = false) :
      AllowedPath tid online
        [.call (.readAllowedMask tid (some allowed)), .record entry] .blockedByCgroup
  | downgraded {allowed : CpuSet} (h : (online.and allowed).count ≠ 0)
      (hcut : online.toRangeString ≠ (online.and allowed).toRangeString) {es : List Event}
      {outcome : ApplyOutcome} (hes : DowngradePath tid (online.and allowed) es outcome) :
      AllowedPath tid online (.call (.readAllowedMask tid (some allowed)) :: es) outcome
  | kept {allowed : CpuSet} (h : (online.and allowed).count ≠ 0)
      (hsame : online.toRangeString = (online.and allowed).toRangeString) {es : List Event}
      {outcome : ApplyOutcome} (hes : SetPath tid (online.and allowed) es outcome) :
      AllowedPath tid online (.call (.readAllowedMask tid (some allowed)) :: es) outcome

inductive AffinityPath (tid : Int) (policy : Policy) (topo : CpuTopology) :
    List Event → ApplyOutcome → Prop where
  | noCpus (h : policy.cpus.count = 0) : AffinityPath tid policy topo [] .skippedNoCpus
  | already (h : policy.cpus.count ≠ 0) {js : List Event} (hjoin : JoinPath tid policy topo js)
      {entry : AuditEntry} (hentry : entry.success = true) :
      AffinityPath tid policy topo
        (js ++ [.call (.getAffinity tid (some policy.cpus)), .record entry]) .applied
  | other (h : policy.cpus.count ≠ 0) {js : List Event} (hjoin : JoinPath tid policy topo js)
      {curr : Option CpuSet} (hcurr : curr ≠ some policy.cpus) {es : List Event}
      {outcome : ApplyOutcome}
      (hes : AllowedPath tid (onlineFilter topo policy.cpus) es outcome) :
      AffinityPath tid policy topo (js ++ .call (.getAffinity tid curr) :: es) outcome

/-! ## Paths of the scheduling policy and of uclamp -/

inductive NicePath (tid : Int) : Option Int → List Event → Prop where
  | unset : NicePath tid none []
  | set (n : Int) : NicePath tid (some n) [.call (.setpriority tid (clamp (-20) 19 n) (.ok ()))]
  | refused (n : Int) (errno : Nat) {entry : AuditEntry} (hentry : entry.success = false) :
      NicePath tid (some n)
        [.call (.setpriority tid (clamp (-20) 19 n) (.error errno)), .record entry]

def schedPriority (policy : SchedPolicy) (prio : Option Int) : Int :=
  if policy.isRt then clamp 1 99 (prio.getD 1) else 0

inductive SchedPath (tid : Int) (policy : SchedPolicy) (prio nice : Option Int) :
    List Event → Option ApplyOutcome → Prop where
  | set {ns : List Event} (hnice : NicePath tid nice ns) :
      SchedPath tid policy prio nice
        (.call (.schedSetscheduler tid policy (schedPriority policy prio) (.ok ())) :: ns) none
  | gone {ns : List Event} (hnice : NicePath tid nice ns) :
      SchedPath tid policy prio nice
        (.call (.schedSetscheduler tid policy (schedPriority policy prio) (.error ESRCH)) :: ns)
        (some .exited)
  | refused {errno : Nat} (herrno : errno ≠ ESRCH) {ns : List Event}
      (hnice : NicePath tid nice ns) {entry : AuditEntry} (hentry : entry.success = false) :
      SchedPath tid policy prio nice
        (.call (.schedSetscheduler tid policy (schedPriority policy prio) (.error errno)) ::
          ns ++ [.record entry])
        (some .blockedByPerm)

/-- The ways to the answer whether the kernel has uclamp. -/
inductive SupportPath : Option Bool → List Event → Bool → Prop where
  | known (supported : Bool) : SupportPath (some supported) [] supported
  | asked (limit : Option Nat) :
      SupportPath none [.call (.readUtilClampMax limit)] (limit.any (0 < ·))

def uclampFlags (lo hi : Option Nat) : Nat :=
  (if lo.isSome then 0x20 else 0) + if hi.isSome then 0x40 else 0

def setattrCall (tid : Int) (lo hi : Option Nat) (answer : SysResult) : Call :=
  .schedSetattr tid (uclampFlags lo hi) (min (lo.getD 0) 1024) (min (hi.getD 1024) 1024) answer

inductive UclampPath (support : Option Bool) (tid : Int) (lo hi : Option Nat)
    (outcome : ApplyOutcome) : List Event → ApplyOutcome → Prop where
  | unset (h : lo.isNone ∧ hi.isNone) : UclampPath support tid lo hi outcome [] outcome
  | unsupported (h : ¬ (lo.isNone ∧ hi.isNone)) {ps : List Event}
      (hps : SupportPath support ps false) : UclampPath support tid lo hi outcome ps outcome
  | set (h : ¬ (lo.isNone ∧ hi.isNone)) {ps : List Event} (hps : SupportPath support ps true) :
      UclampPath support tid lo hi outcome (ps ++ [.call (setattrCall tid lo hi (.ok ()))]) outcome
  | gone (h : ¬ (lo.isNone ∧ hi.isNone)) {ps : List Event} (hps : SupportPath support ps true) :
      UclampPath support tid lo hi outcome
        (ps ++ [.call (setattrCall tid lo hi (.error ESRCH))]) .exited
  | refused (h : ¬ (lo.isNone ∧ hi.isNone)) {ps : List Event} (hps : SupportPath support ps true)
      {errno : Nat} (herrno : errno ≠ ESRCH) {entry : AuditEntry}
      (hentry : entry.success = false) :
      UclampPath support tid lo hi outcome
        (ps ++ [.call (setattrCall tid lo hi (.error errno)), .record entry]) outcome

inductive ThreadPath (support : Option Bool) (tid : Int) (policy : Policy) (topo : CpuTopology)
    (rtAllowed : Bool) : List Event → ApplyOutcome → Prop where
  | exited {es : List Event} (h : AffinityPath tid policy topo es .exited) :
      ThreadPath support tid policy topo rtAllowed es .exited
  | noSched {es us : List Event} {outcome outcome' : ApplyOutcome}
      (h : AffinityPath tid policy topo es outcome) (hgone : outcome ≠ .exited)
      (hsched : policy.sched = none)
      (hus : UclampPath support tid policy.uclampMin policy.uclampMax outcome us outcome') :
      ThreadPath support tid policy topo rtAllowed (es ++ us) outcome'
  | rtRefused {es : List Event} {outcome : ApplyOutcome}
      (h : AffinityPath tid policy topo es outcome) (hgone : outcome ≠ .exited)
      {pol : SchedPolicy} (hsched : policy.sched = some pol)
      (hrt : (pol.isRt && !rtAllowed) = true) :
      ThreadPath support tid policy topo rtAllowed es outcome
  | sched {es ss us : List Event} {outcome outcome' : ApplyOutcome}
      (h : AffinityPath tid policy topo es outcome) (hgone : outcome ≠ .exited)
      {pol : SchedPolicy} (hsched : policy.sched = some pol)
      (hrt : (pol.isRt && !rtAllowed) = false) {failure : Option ApplyOutcome}
      (hss : SchedPath tid pol policy.schedPrio policy.nice ss failure)
      (hus : UclampPath support tid policy.uclampMin policy.uclampMax (failure.getD outcome) us
        outcome') :
      ThreadPath support tid policy topo rtAllowed (es ++ (ss ++ us)) outcome'

/-! ## The functions follow their paths -/

section Functions

variable {ω : Type} {effect : ω → Call → ω} {read : κ → ω} {env : Env κ}
  (hmoves : env.Moves effect read) (tid : Int) (pkg : String) (v : Trail ω)

include hmoves

theorem traces_ensureDir (name : String) :
    Traces effect read v (ensureDir env.traced name) fun es _ => EnsurePath name es := by
  refine Emits.get fun s _ => Emits.ite (fun _ => Emits.pure .skipped) fun _ => ?_
  refine Emits.modify_bind (fun _ => rfl)
    (Emits.bind (traces_ask (hmoves.createCpusetDir _ _ _) fun _ => rfl) ?_)
  rintro es created rfl
  exact Emits.pure (.asked created)

theorem traces_joinCpuset (policy : Policy) (topo : CpuTopology) :
    Traces effect read v (joinCpuset env.traced tid pkg policy topo) fun es _ =>
      JoinPath tid policy topo es := by
  refine Emits.ite (fun _ => ?_) fun h => Emits.pure (.unused (by simpa using h))
  refine Emits.bind (Q := fun es _ => EnsurePath policy.cpusetDir es) ?_ fun es _ hes => ?_
  · exact Emits.ite (fun _ => Emits.pure .skipped) fun _ => traces_ensureDir hmoves v _
  · refine Emits.bind (traces_ask (hmoves.appendTask _ tid) fun _ => rfl) ?_
    rintro fs written rfl
    cases written with
    | true => exact Emits.pure (by simpa using JoinPath.joined hes)
    | false =>
        rw [if_neg Bool.false_ne_true]
        refine (traces_record hmoves _ _).mono ?_
        rintro gs _ ⟨e, he, rfl⟩
        exact JoinPath.refused hes he

theorem traces_setEffective (requested : String) (effective : CpuSet) :
    Traces effect read v (setEffective env.traced tid pkg requested effective)
      (SetPath tid effective) := by
  refine Emits.ite (fun h => Emits.pure (.empty h)) fun h => ?_
  refine Emits.bind (traces_ask (hmoves.setAffinity tid _) fun _ => rfl) ?_
  rintro es r rfl
  cases r with
  | ok u => exact traces_record_pure hmoves fun e he => .set h he
  | error errno =>
      have hpath (e : AuditEntry) (he : e.success = false) : SetPath tid effective
          [.call (.setAffinity tid effective (.error errno)), .record e] (refusedAffinity errno) :=
        .refused h errno he
      unfold refusedAffinity at hpath
      refine Emits.ite (fun h1 => ?_) fun h1 => Emits.ite (fun h2 => ?_) fun h2 =>
        Emits.ite (fun h3 => ?_) fun h3 => ?_
      · rw [if_pos h1] at hpath
        exact traces_record_pure hmoves hpath
      · rw [if_neg h1, if_pos h2] at hpath
        exact traces_record_pure hmoves hpath
      · rw [if_neg h1, if_neg h2, if_pos h3] at hpath
        exact traces_record_pure hmoves hpath
      · rw [if_neg h1, if_neg h2, if_neg h3] at hpath
        exact traces_record_pure hmoves hpath

theorem traces_setDowngraded (before : String) (effective : CpuSet) :
    Traces effect read v (setDowngraded env.traced tid pkg before effective)
      (DowngradePath tid effective) := by
  refine Emits.bind (traces_ask (hmoves.setAffinity tid _) fun _ => rfl) ?_
  rintro es r rfl
  cases r with
  | ok u => exact traces_record_pure hmoves fun e he => .set he
  | error errno =>
      have hpath (e : AuditEntry) (he : e.success = false) : DowngradePath tid effective
          [.call (.setAffinity tid effective (.error errno)), .record e]
          (if errno = ESRCH then .exited else .failed) := .refused errno he
      refine Emits.ite (fun h1 => ?_) fun h1 => ?_
      · rw [if_pos h1] at hpath
        exact traces_record_pure hmoves hpath
      · rw [if_neg h1] at hpath
        exact traces_record_pure hmoves hpath

theorem traces_setAllowed (policy : Policy) (topo : CpuTopology) :
    Traces effect read v (setAllowed env.traced tid pkg policy topo)
      (AllowedPath tid (onlineFilter topo policy.cpus)) := by
  refine Emits.bind (traces_ask (hmoves.readAllowedMask tid) fun _ => rfl) ?_
  rintro es allowed rfl
  cases allowed with
  | none => exact (traces_setEffective hmoves tid pkg _ _ _).mono fun _ _ h => .unreadable h
  | some allowed =>
      refine Emits.ite (fun h => ?_) fun h => Emits.ite (fun hcut => ?_) fun hsame => ?_
      · exact traces_record_pure hmoves fun e he => .blocked h he
      · exact (traces_setDowngraded hmoves tid pkg _ _ _).mono fun _ _ hes => .downgraded h hcut hes
      · exact (traces_setEffective hmoves tid pkg _ _ _).mono fun _ _ hes =>
          .kept h (not_not.mp hsame) hes

theorem traces_applyAffinity (policy : Policy) (topo : CpuTopology) :
    Traces effect read v (applyAffinity env.traced tid pkg policy topo)
      (AffinityPath tid policy topo) := by
  refine Emits.ite (fun h => Emits.pure (.noCpus h)) fun h => ?_
  refine Emits.bind (traces_joinCpuset hmoves tid pkg v policy topo) fun js _ hjoin => ?_
  refine Emits.bind (traces_ask (hmoves.getAffinity tid) fun _ => rfl) ?_
  rintro es curr rfl
  refine Emits.ite (fun hcurr => ?_) fun hcurr => ?_
  · subst hcurr
    refine Emits.modify_bind (fun _ => rfl) (traces_record_pure hmoves fun e he => ?_)
    simpa using AffinityPath.already h hjoin he
  · refine (traces_setAllowed hmoves tid pkg _ policy topo).mono fun es outcome hes => ?_
    simpa using AffinityPath.other h hjoin hcurr hes

theorem traces_applyNice (nice : Option Int) :
    Traces effect read v (applyNice env.traced tid pkg nice) fun es _ => NicePath tid nice es := by
  cases nice with
  | none => exact Emits.pure .unset
  | some n =>
      refine Emits.bind (traces_ask (hmoves.setpriority tid _) fun _ => rfl) ?_
      rintro es r rfl
      cases r with
      | ok u => exact Emits.pure (.set n)
      | error errno =>
          refine (traces_record hmoves _ _).mono ?_
          rintro fs _ ⟨e, he, rfl⟩
          exact .refused n errno he

theorem traces_setScheduler (policy : SchedPolicy) (prio : Option Int) :
    Traces effect read v (setScheduler env.traced tid policy prio) fun es r =>
      es = [.call (.schedSetscheduler tid policy (schedPriority policy prio) r)] :=
  traces_ask (hmoves.schedSetscheduler tid _ _) fun _ => rfl

theorem traces_applySched (policy : SchedPolicy) (prio nice : Option Int) :
    Traces effect read v (applySched env.traced tid pkg policy prio nice)
      (SchedPath tid policy prio nice) := by
  refine Emits.bind (traces_setScheduler hmoves tid v policy prio) ?_
  rintro es r rfl
  refine Emits.bind (traces_applyNice hmoves tid pkg _ nice) fun ns _ hnice => ?_
  cases r with
  | ok u => exact Emits.pure (by simpa using SchedPath.set hnice)
  | error errno =>
      refine Emits.ite (fun h => ?_) fun h => ?_
      · subst h
        exact Emits.pure (by simpa using SchedPath.gone hnice)
      · exact traces_record_pure hmoves fun e he => by simpa using SchedPath.refused h hnice he

theorem traces_uclampSupported :
    Traces effect read v (uclampSupported env.traced) (SupportPath v.uclampSupport) := by
  refine Emits.get fun s hs => ?_
  have hsupport : s.uclampSupport = v.uclampSupport := congrArg Trail.uclampSupport hs
  rw [hsupport]
  cases hv : v.uclampSupport with
  | some supported => exact Emits.pure (.known supported)
  | none =>
      rintro t rfl
      refine ⟨[.call (.readUtilClampMax (env.readUtilClampMax.run t.kernel.kernel).1)], ?_,
        .asked (env.readUtilClampMax.run t.kernel.kernel).1⟩
      exact Trail.mk.injEq _ _ _ _ _ _ _ _ |>.mpr
        ⟨rfl, rfl, rfl, hmoves.readUtilClampMax t.kernel.kernel⟩

theorem traces_setUclamp {lo hi : Option Nat} (h : ¬ (lo.isNone ∧ hi.isNone)) :
    Traces effect read v (setUclamp env.traced tid lo hi) fun es r =>
      es = [.call (setattrCall tid lo hi r)] := by
  rw [setUclamp, if_neg h]
  exact traces_ask (hmoves.schedSetattr tid _ _ _) fun _ => rfl

theorem traces_applyUclamp (lo hi : Option Nat) (outcome : ApplyOutcome) :
    Traces effect read v (applyUclamp env.traced tid pkg lo hi outcome)
      (UclampPath v.uclampSupport tid lo hi outcome) := by
  refine Emits.ite (fun h => Emits.pure (.unset h)) fun h => ?_
  refine Emits.bind (traces_uclampSupported hmoves v) fun ps supported hps => ?_
  cases supported with
  | false => exact Emits.pure (by simpa using UclampPath.unsupported h hps)
  | true =>
      refine Emits.bind (traces_setUclamp hmoves tid _ h) ?_
      rintro es r rfl
      cases r with
      | ok u => exact Emits.pure (by simpa using UclampPath.set h hps)
      | error errno =>
          refine Emits.ite (fun hgone => ?_) fun hgone => ?_
          · subst hgone
            exact Emits.pure (by simpa using UclampPath.gone h hps)
          · exact traces_record_pure hmoves fun e he => UclampPath.refused h hps hgone he

end Functions

/-! ## Uclamp is asked for at its own place -/

def Unasked (es : List Event) : Prop :=
  ∀ support, (callsOf es).foldl noteSupport support = support

theorem Unasked.append {es fs : List Event} (hes : Unasked es) (hfs : Unasked fs) :
    Unasked (es ++ fs) := by
  intro support
  rw [callsOf_append, List.foldl_append, hes, hfs]

theorem EnsurePath.unasked {dir : String} {es : List Event} (h : EnsurePath dir es) :
    Unasked es := by
  cases h with
  | skipped => exact fun _ => rfl
  | asked created => exact fun _ => rfl

theorem JoinPath.unasked {tid : Int} {policy : Policy} {topo : CpuTopology} {es : List Event}
    (h : JoinPath tid policy topo es) : Unasked es := by
  cases h with
  | unused h => exact fun _ => rfl
  | joined h => exact h.unasked.append fun _ => rfl
  | refused h hentry => exact h.unasked.append fun _ => rfl

theorem SetPath.unasked {tid : Int} {effective : CpuSet} {es : List Event}
    {outcome : ApplyOutcome} (h : SetPath tid effective es outcome) : Unasked es := by
  cases h with
  | empty h => exact fun _ => rfl
  | set h hentry => exact fun _ => rfl
  | refused h errno hentry => exact fun _ => rfl

theorem AllowedPath.unasked {tid : Int} {online : CpuSet} {es : List Event}
    {outcome : ApplyOutcome} (h : AllowedPath tid online es outcome) : Unasked es := by
  cases h with
  | unreadable h => exact h.unasked
  | blocked h hentry => exact fun _ => rfl
  | downgraded h hcut hes =>
      cases hes with
      | set hentry => exact fun _ => rfl
      | refused errno hentry => exact fun _ => rfl
  | kept h hsame hes => exact hes.unasked

theorem AffinityPath.unasked {tid : Int} {policy : Policy} {topo : CpuTopology} {es : List Event}
    {outcome : ApplyOutcome} (h : AffinityPath tid policy topo es outcome) : Unasked es := by
  cases h with
  | noCpus h => exact fun _ => rfl
  | already h hjoin hentry => exact hjoin.unasked.append fun _ => rfl
  | other h hjoin hcurr hes => exact hjoin.unasked.append hes.unasked

theorem NicePath.unasked {tid : Int} {nice : Option Int} {es : List Event}
    (h : NicePath tid nice es) : Unasked es := by
  cases h with
  | unset => exact fun _ => rfl
  | set n => exact fun _ => rfl
  | refused n errno hentry => exact fun _ => rfl

theorem SchedPath.unasked {tid : Int} {policy : SchedPolicy} {prio nice : Option Int}
    {es : List Event} {failure : Option ApplyOutcome}
    (h : SchedPath tid policy prio nice es failure) : Unasked es := by
  cases h with
  | set hnice => exact hnice.unasked
  | gone hnice => exact hnice.unasked
  | refused herrno hnice hentry => exact hnice.unasked.append fun _ => rfl

theorem Unasked.uclampSupport {ω : Type} {effect : ω → Call → ω} {es : List Event}
    (h : Unasked es) (v : Trail ω) :
    (es.foldl (Trail.step effect) v).uclampSupport = v.uclampSupport := by
  rw [foldl_step_uclampSupport, h]

section Whole

variable {ω : Type} {effect : ω → Call → ω} {read : κ → ω} {env : Env κ}
  (hmoves : env.Moves effect read) (tid : Int) (pkg : String) (policy : Policy)
  (topo : CpuTopology) (rtAllowed : Bool)

include hmoves

theorem traces_applyThread (v : Trail ω) :
    Traces effect read v (applyThread env.traced tid pkg policy topo rtAllowed)
      (ThreadPath v.uclampSupport tid policy topo rtAllowed) := by
  refine Emits.modify_bind (fun _ => rfl) ?_
  refine Emits.bind (traces_applyAffinity hmoves tid pkg v policy topo) fun es outcome hes => ?_
  refine Emits.ite (fun h => ?_) fun hgone => ?_
  · subst h
    exact Emits.pure (by simpa using ThreadPath.exited hes)
  · have huclamp := fun ss (_ : Unasked ss) outcome' =>
      traces_applyUclamp hmoves tid pkg
        (ss.foldl (Trail.step effect) (es.foldl (Trail.step effect) v))
        policy.uclampMin policy.uclampMax outcome'
    cases hsched : policy.sched with
    | none =>
        refine (huclamp [] (fun _ => rfl) outcome).mono fun us outcome' hus => ?_
        rw [List.foldl_nil, hes.unasked.uclampSupport] at hus
        exact .noSched hes hgone hsched hus
    | some pol =>
        refine Emits.ite (fun hrt => ?_) fun hrt => ?_
        · exact Emits.pure (by simpa using ThreadPath.rtRefused hes hgone hsched hrt)
        · refine Emits.bind (traces_applySched hmoves tid pkg _ pol _ _) fun ss failure hss => ?_
          refine (huclamp ss hss.unasked _).mono fun us outcome' hus => ?_
          rw [hss.unasked.uclampSupport, hes.unasked.uclampSupport] at hus
          exact .sched hes hgone hsched (by simpa using hrt) hss hus

end Whole

/-- What a program returns, and the system calls it makes. -/
structure Transcript (α : Type) where
  result : α
  calls : List Call

def transcript {α : Type} (x : Run (Traced κ Call) α) (s : System (Traced κ Call)) : Transcript α :=
  ⟨(x.run s).1, (x.run s).2.kernel.log.drop s.kernel.log.length⟩

/-- The events behind a transcript, and all that they change. -/
theorem transcript_of_traces {α ω : Type} {effect : ω → Call → ω} {read : κ → ω}
    {x : Run (Traced κ Call) α} {R : List Event → α → Prop} (s : System (Traced κ Call))
    (hx : Traces effect read (trail read s) x R) :
    ∃ es, R es (transcript x s).result ∧ (transcript x s).calls = callsOf es ∧
      (x.run s).2.auditLog = (recordsOf es).foldl pushAudit s.auditLog ∧
      read (x.run s).2.kernel.kernel = (callsOf es).foldl effect (read s.kernel.kernel) := by
  obtain ⟨es, htrail, hR⟩ := hx s rfl
  refine ⟨es, hR, ?_, ?_, ?_⟩
  · have hlog := congrArg Trail.log htrail
    rw [foldl_step_log] at hlog
    change List.drop s.kernel.log.length (trail read _).log = callsOf es
    rw [hlog]
    exact List.drop_left
  · exact (congrArg Trail.auditLog htrail).trans (foldl_step_auditLog effect es _)
  · exact (congrArg Trail.world htrail).trans (foldl_step_world effect es _)

/-- A transcript of an application follows one of the paths. -/
theorem applyThread_transcript (env : Env κ) (tid : Int) (pkg : String) (policy : Policy)
    (topo : CpuTopology) (rtAllowed : Bool) (s : System (Traced κ Call)) :
    let x := applyThread env.traced tid pkg policy topo rtAllowed
    ∃ es, ThreadPath s.uclampSupport tid policy topo rtAllowed es (transcript x s).result ∧
      (transcript x s).calls = callsOf es ∧
      (x.run s).2.auditLog = (recordsOf es).foldl pushAudit s.auditLog := by
  obtain ⟨es, hpath, hcalls, hlog, -⟩ := transcript_of_traces s
    (traces_applyThread env.moves_unit tid pkg policy topo rtAllowed (trail _ s))
  exact ⟨es, hpath, hcalls, hlog⟩

end Threadctl.Core
