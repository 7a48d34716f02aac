import Threadctl.Core.Policy

/-!
# The environment

Everything the daemon asks of the kernel, as an oracle over an unspecified kernel
state: every call may answer anything and change that state.  A hash collection
is walked in whatever order the environment picks.
-/

namespace Threadctl.Core

def EPERM : Nat := 1
def ESRCH : Nat := 3
def EINVAL : Nat := 22

/-- `Result<(), i32>` of a system call. -/
abbrev SysResult := Except Nat Unit

/-! ## The oracle -/

def nanosPerMs : Nat := 1000000

def nanosPerSec : Nat := 1000000000

def baseCpuset : String := "/dev/cpuset/threadctl"

structure Env (κ : Type) where
  /-- The entry names of `/proc`. -/
  readProcDir : StateM κ (Option (List String))
  readStartTime : Int → StateM κ (Option Nat)
  readCmdline : Int → StateM κ (Option String)
  readThreadName : Int → StateM κ (Option String)
  readTgid : Int → StateM κ (Option Int)
  readOomAdj : Int → StateM κ Int
  isAlive : Int → StateM κ Bool
  listTids : Int → StateM κ (List Int)
  /-- The text of `/proc/<pid>/cpuset`. -/
  readCpuset : Int → StateM κ (Option String)
  canRtSched : StateM κ Bool
  getAffinity : Int → StateM κ (Option CpuSet)
  setAffinity : Int → CpuSet → StateM κ SysResult
  readAllowedMask : Int → StateM κ (Option CpuSet)
  createCpusetDir : String → String → String → StateM κ Bool
  removeCpusetDir : String → StateM κ Bool
  /-- Append a line to a `tasks` file. -/
  appendTask : String → Int → StateM κ Bool
  /-- `sched_setscheduler(tid, policy, priority)`. -/
  schedSetscheduler : Int → SchedPolicy → Int → StateM κ SysResult
  /-- `setpriority(PRIO_PROCESS, tid, nice)`. -/
  setpriority : Int → Int → StateM κ SysResult
  /-- `sched_setattr` with the uclamp flags, minimum and maximum. -/
  schedSetattr : Int → Nat → Nat → Nat → StateM κ SysResult
  /-- The parsed `/proc/sys/kernel/sched_util_clamp_max`. -/
  readUtilClampMax : StateM κ (Option Nat)
  nowSecs : StateM κ Nat
  /-- `Instant::now`, in nanoseconds. -/
  instantNow : StateM κ Nat
  sleep : Nat → StateM κ Unit
  /-- The order in which a hash collection is walked. -/
  order : {α : Type} → κ → List α → List α
  order_perm : ∀ {α : Type} (k : κ) (l : List α), (order k l).Perm l

/-- The kernel calls of a scan other than the move of a thread into a cpuset. -/
inductive Env.ScanCall {κ : Type} (env : Env κ) : {α : Type} → StateM κ α → Prop
  | listTids (pid : Int) : ScanCall env (env.listTids pid)
  | readStartTime (pid : Int) : ScanCall env (env.readStartTime pid)
  | readThreadName (tid : Int) : ScanCall env (env.readThreadName tid)
  | getAffinity (tid : Int) : ScanCall env (env.getAffinity tid)
  | setAffinity (tid : Int) (cpus : CpuSet) : ScanCall env (env.setAffinity tid cpus)
  | readAllowedMask (tid : Int) : ScanCall env (env.readAllowedMask tid)
  | createCpusetDir (path cpus mems : String) : ScanCall env (env.createCpusetDir path cpus mems)
  | removeCpusetDir (path : String) : ScanCall env (env.removeCpusetDir path)
  | schedSetscheduler (tid : Int) (policy : SchedPolicy) (prio : Int) :
      ScanCall env (env.schedSetscheduler tid policy prio)
  | setpriority (tid nice : Int) : ScanCall env (env.setpriority tid nice)
  | schedSetattr (tid : Int) (flags lo hi : Nat) : ScanCall env (env.schedSetattr tid flags lo hi)
  | readUtilClampMax : ScanCall env env.readUtilClampMax
  | nowSecs : ScanCall env env.nowSecs

/-- A kernel with no processes that accepts every call. -/
def Env.silent {κ : Type} : Env κ where
  readProcDir := pure none
  readStartTime _ := pure none
  readCmdline _ := pure none
  readThreadName _ := pure none
  readTgid _ := pure none
  readOomAdj _ := pure 0
  isAlive _ := pure false
  listTids _ := pure []
  readCpuset _ := pure none
  canRtSched := pure true
  getAffinity _ := pure none
  setAffinity _ _ := pure (.ok ())
  readAllowedMask _ := pure none
  createCpusetDir _ _ _ := pure true
  removeCpusetDir _ := pure true
  appendTask _ _ := pure true
  schedSetscheduler _ _ _ := pure (.ok ())
  setpriority _ _ := pure (.ok ())
  schedSetattr _ _ _ _ := pure (.ok ())
  readUtilClampMax := pure none
  nowSecs := pure 0
  instantNow := pure 0
  sleep _ := pure ()
  order _ l := l
  order_perm _ l := List.Perm.refl l

/-! ## Records kept in process-wide variables -/

structure AuditEntry where
  timestamp : Nat
  tid : Int
  pkg : String
  requestedCpus : String
  effectiveCpus : String
  success : Bool
  reason : String
  deriving DecidableEq

def auditLogMax : Nat := 1024

/-- The ring buffer: the oldest entry makes room. -/
def pushAudit (log : List AuditEntry) (entry : AuditEntry) : List AuditEntry :=
  (if auditLogMax ≤ log.length then log.drop 1 else log) ++ [entry]

theorem length_pushAudit_le {log : List AuditEntry} (h : log.length ≤ auditLogMax)
    (entry : AuditEntry) : (pushAudit log entry).length ≤ auditLogMax := by
  unfold pushAudit auditLogMax at *
  split <;> simp <;> omega

/-- Decisions of the relock gate so far. -/
structure RelockStats where
  allow : Nat
  skip : Nat
  degrade : Nat
  deriving DecidableEq

end Threadctl.Core
