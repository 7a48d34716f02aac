import Threadctl.Core.Erasure
import Threadctl.Daemon.EbpfSource

/-!
# Logs change nothing for the sources

Both event sources find over a kernel that keeps a log what they find over the bare one.
-/

namespace Threadctl.Daemon

open Threadctl.Core Threadctl.Support.EventLog Threadctl.Support.Simulation

variable {κ : Type}

def loggedEnv (env : Env κ) : Env (Traced κ Int) where
  readProcDir := quietly env.readProcDir
  readStartTime pid := quietly (env.readStartTime pid)
  readCmdline pid := noting (fun _ => pid) (env.readCmdline pid)
  readThreadName tid := quietly (env.readThreadName tid)
  readTgid tid := quietly (env.readTgid tid)
  readOomAdj pid := quietly (env.readOomAdj pid)
  isAlive pid := quietly (env.isAlive pid)
  listTids pid := quietly (env.listTids pid)
  readCpuset pid := quietly (env.readCpuset pid)
  canRtSched := quietly env.canRtSched
  getAffinity tid := quietly (env.getAffinity tid)
  setAffinity tid cpus := quietly (env.setAffinity tid cpus)
  readAllowedMask tid := quietly (env.readAllowedMask tid)
  createCpusetDir path cpus mems := quietly (env.createCpusetDir path cpus mems)
  removeCpusetDir path := quietly (env.removeCpusetDir path)
  appendTask file tid := quietly (env.appendTask file tid)
  schedSetscheduler tid policy prio := quietly (env.schedSetscheduler tid policy prio)
  setpriority tid nice := quietly (env.setpriority tid nice)
  schedSetattr tid flags lo hi := quietly (env.schedSetattr tid flags lo hi)
  readUtilClampMax := quietly env.readUtilClampMax
  nowSecs := quietly env.nowSecs
  instantNow := quietly env.instantNow
  sleep n := quietly (env.sleep n)
  order t l := env.order t.kernel l
  order_perm t l := env.order_perm t.kernel l

theorem loggedEnv_over (env : Env κ) : (loggedEnv env).Over Traced.kernel env where
  readProcDir := erases_quietly _
  readStartTime _ := erases_quietly _
  readCmdline _ := erases_noting _ _
  readThreadName _ := erases_quietly _
  readTgid _ := erases_quietly _
  readOomAdj _ := erases_quietly _
  isAlive _ := erases_quietly _
  listTids _ := erases_quietly _
  readCpuset _ := erases_quietly _
  canRtSched := erases_quietly _
  getAffinity _ := erases_quietly _
  setAffinity _ _ := erases_quietly _
  readAllowedMask _ := erases_quietly _
  createCpusetDir _ _ _ := erases_quietly _
  removeCpusetDir _ := erases_quietly _
  appendTask _ _ := erases_quietly _
  schedSetscheduler _ _ _ := erases_quietly _
  setpriority _ _ := erases_quietly _
  schedSetattr _ _ _ _ := erases_quietly _
  readUtilClampMax := erases_quietly _
  nowSecs := erases_quietly _
  instantNow := erases_quietly _
  sleep _ := erases_quietly _
  order _ _ := rfl

def startLog (s : System κ) : System (Traced κ Int) := s.under fun kernel => ⟨kernel, []⟩

theorem unlogged_result {α : Type} {x : Run (Traced κ Int) α} {y : Run κ α}
    (h : Erases (System.under Traced.kernel) x y) (s : System κ) :
    (x.run (startLog s)).1 = (y.run s).1 :=
  (congrArg Prod.fst (h (startLog s))).symm

section Sources

variable {κ' : Type} {f : κ' → κ} {env' : Env κ'} {env : Env κ} (hover : env'.Over f env)
  (fnmatch : String → String → Bool)

include hover

/-! ### The `/proc` source -/

theorem erases_flushProcess (rules : RuleSet) (now : Nat) (r : Round ProcSource)
    (p : PendingProcess) :
    Erases (System.under f) (flushProcess fnmatch env' rules now r p)
      (flushProcess fnmatch env rules now r p) := by
  refine Erases.ite Erases.pure (Erases.bind (erases_ask (hover.isAlive _)) fun alive => ?_)
  refine Erases.ite Erases.pure (Erases.bind (erases_ask (hover.readCmdline _)) fun read => ?_)
  cases read.filter (!·.isEmpty) with
  | none => exact Erases.ite Erases.pure Erases.pure
  | some pkg => exact Erases.ite Erases.pure Erases.pure

theorem erases_flushPending_proc (rules : RuleSet) (r : Round ProcSource) :
    Erases (System.under f) (ProcSource.flushPending fnmatch env' rules r)
      (ProcSource.flushPending fnmatch env rules r) := by
  refine Erases.ite Erases.pure (Erases.bind (erases_ask hover.instantNow) fun now => ?_)
  exact Erases.foldlM _ (erases_flushProcess hover fnmatch rules now) _

theorem erases_newTidsFor (pid : Int) :
    Erases (System.under f) (newTidsFor env' pid) (newTidsFor env pid) := by
  refine Erases.get fun s => ?_
  rw [System.under_tracker]
  cases s.tracker.procs.lookup pid with
  | none => exact Erases.pure
  | some state =>
      refine Erases.ite Erases.pure (Erases.bind (erases_ask (hover.listTids _)) fun tids => ?_)
      exact erases_walk hover _

theorem erases_enqueue (r : Round ProcSource) (pid : Int) :
    Erases (System.under f) (enqueue env' r pid) (enqueue env r pid) := by
  refine Erases.get fun s => ?_
  rw [System.under_tracker]
  exact Erases.ite (Erases.bind (erases_ask hover.instantNow) fun now => Erases.pure) Erases.pure

theorem erases_pushClones (r : Round ProcSource) (pid : Int) (pkg : String) :
    Erases (System.under f) (pushClones env' r pid pkg) (pushClones env r pid pkg) :=
  Erases.bind (erases_newTidsFor hover pid) fun _ => Erases.pure

theorem erases_scanProcess (rules : RuleSet) (r : Round ProcSource) (pid : Int) :
    Erases (System.under f) (scanProcess fnmatch env' rules r pid)
      (scanProcess fnmatch env rules r pid) := by
  refine Erases.bind (erases_ask (hover.readCmdline pid)) fun read => ?_
  cases read.filter (!·.isEmpty) with
  | none => exact erases_enqueue hover r pid
  | some pkg =>
      refine Erases.ite Erases.pure (Erases.get fun s => ?_)
      rw [System.under_tracker]
      exact Erases.ite (erases_pushClones hover r pid pkg) Erases.pure

theorem erases_checkProcess (rules : RuleSet) (acc : Round ProcSource × List Int) (pid : Int) :
    Erases (System.under f) (checkProcess fnmatch env' rules acc pid)
      (checkProcess fnmatch env rules acc pid) := by
  refine Erases.bind (erases_ask (hover.isAlive _)) fun alive => Erases.ite Erases.pure ?_
  refine Erases.bind (erases_ask (hover.readCmdline pid)) fun read => ?_
  cases read with
  | none => exact Erases.pure
  | some pkg =>
      refine Erases.ite Erases.pure ?_
      exact Erases.bind (erases_pushClones hover acc.1 pid pkg) fun _ => Erases.pure

theorem erases_pushExits (r : Round ProcSource) (current : List Int) :
    Erases (System.under f) (pushExits env' r current) (pushExits env r current) :=
  Erases.bind (erases_pids hover) fun _ => Erases.pure

theorem erases_countProcesses :
    Erases (System.under f) (countProcesses env') (countProcesses env) := by
  refine Erases.bind (erases_ask hover.readProcDir) fun dir => ?_
  cases dir with
  | none => exact Erases.pure
  | some names => exact Erases.pure

theorem erases_collect (src : ProcSource) :
    Erases (System.under f) (src.collect fnmatch env') (src.collect fnmatch env) := by
  unfold ProcSource.collect
  cases src.cfg with
  | none => exact Erases.pure
  | some cfg =>
      refine Erases.bind (erases_flushPending_proc hover fnmatch cfg.rules _) fun r => ?_
      refine Erases.bind (erases_countProcesses hover) fun procTotal => Erases.ite ?_ ?_
      · refine Erases.bind (erases_ask hover.readProcDir) fun dir => ?_
        cases dir with
        | none => exact Erases.pure
        | some names =>
            refine Erases.bind (Erases.foldlM _ (erases_scanProcess hover fnmatch cfg.rules) _) ?_
            exact fun r => erases_pushExits hover r _
      · refine Erases.bind (erases_pids hover) fun tracked => ?_
        refine Erases.bind (Erases.foldlM _ (erases_checkProcess hover fnmatch cfg.rules) _) ?_
        exact fun acc => erases_pushExits hover acc.1 acc.2

theorem erases_procPoll (src : ProcSource) (deadline : Nat) :
    Erases (System.under f) (src.poll fnmatch env' deadline) (src.poll fnmatch env deadline) := by
  refine Erases.bind (erases_collect hover fnmatch src) fun r => Erases.ite ?_ Erases.pure
  refine Erases.bind (erases_ask hover.instantNow) fun now => Erases.ite ?_ Erases.pure
  exact Erases.bind (erases_ask (hover.sleep _)) fun _ => Erases.pure

/-! ### The eBPF source -/

theorem erases_initialScanProcess (rules : RuleSet) (r : Round EbpfSource) (pid : Int) :
    Erases (System.under f) (initialScanProcess fnmatch env' rules r pid)
      (initialScanProcess fnmatch env rules r pid) := by
  refine Erases.bind (erases_ask (hover.readCmdline pid)) fun read => ?_
  cases read.filter (!·.isEmpty) with
  | none => exact Erases.pure
  | some pkg => exact Erases.ite Erases.pure Erases.pure

theorem erases_initialScan (r : Round EbpfSource) :
    Erases (System.under f) (initialScan fnmatch env' r) (initialScan fnmatch env r) := by
  unfold initialScan
  cases r.src.cfg with
  | none => exact Erases.pure
  | some cfg =>
      refine Erases.bind (erases_ask hover.readProcDir) fun dir => ?_
      cases dir with
      | none => exact Erases.pure
      | some names => exact Erases.foldlM _ (erases_initialScanProcess hover fnmatch cfg.rules) _

theorem erases_scanOnce (src : EbpfSource) :
    Erases (System.under f) (scanOnce fnmatch env' src) (scanOnce fnmatch env src) :=
  Erases.ite Erases.pure (Erases.bind (erases_initialScan hover fnmatch _) fun _ => Erases.pure)

theorem erases_handleFork (r : Round EbpfSource) (pid : Int) :
    Erases (System.under f) (handleFork env' r pid) (handleFork env r pid) := by
  refine Erases.ite Erases.pure (Erases.ite ?_ Erases.pure)
  exact Erases.bind (erases_ask hover.instantNow) fun now => Erases.pure

omit hover in
theorem erases_handleExit (r : Round EbpfSource) (ev : EbpfProcEvent) :
    Erases (System.under f) (handleExit r ev : Run κ' _) (handleExit r ev : Run κ _) := by
  refine Erases.get fun s => ?_
  rw [System.under_tracker]
  exact Erases.pure

theorem erases_handleRaw (r : Round EbpfSource) (ev : EbpfProcEvent) :
    Erases (System.under f) (handleRaw env' r ev) (handleRaw env r ev) := by
  refine Erases.ite (erases_handleFork hover r ev.pid) (Erases.ite Erases.pure ?_)
  exact Erases.ite (erases_handleExit r ev) Erases.pure

theorem erases_confirmFork (rules : RuleSet) (r : Round EbpfSource) (pid : Int) (pkg : String) :
    Erases (System.under f) (confirmFork fnmatch env' rules r pid pkg)
      (confirmFork fnmatch env rules r pid pkg) := by
  refine Erases.bind (erases_ask (hover.readTgid _)) fun read => Erases.ite ?_ ?_
  · exact Erases.ite Erases.pure Erases.pure
  · refine Erases.bind (erases_ask (hover.readCmdline _)) fun parent => ?_
    cases parent with
    | none => exact Erases.pure
    | some ppkg => exact Erases.ite Erases.pure Erases.pure

theorem erases_retryOrDrop (r : Round EbpfSource) (p : PendingProcess) :
    Erases (System.under f) (retryOrDrop env' r p) (retryOrDrop env r p) :=
  Erases.ite (Erases.bind (erases_ask hover.instantNow) fun _ => Erases.pure) Erases.pure

theorem erases_flushFork (rules : RuleSet) (now : Nat) (r : Round EbpfSource)
    (p : PendingProcess) :
    Erases (System.under f) (flushFork fnmatch env' rules now r p)
      (flushFork fnmatch env rules now r p) := by
  refine Erases.ite Erases.pure (Erases.bind (erases_ask (hover.isAlive _)) fun alive => ?_)
  refine Erases.ite Erases.pure (Erases.bind (erases_ask (hover.readCmdline _)) fun read => ?_)
  cases read.filter (!·.isEmpty) with
  | none => exact erases_retryOrDrop hover r p
  | some pkg => exact erases_confirmFork hover fnmatch rules r p.pid pkg

theorem erases_flushPending_ebpf (r : Round EbpfSource) :
    Erases (System.under f) (EbpfSource.flushPending fnmatch env' r)
      (EbpfSource.flushPending fnmatch env r) := by
  unfold EbpfSource.flushPending
  refine Erases.ite Erases.pure ?_
  cases r.src.cfg with
  | none => exact Erases.pure
  | some cfg =>
      refine Erases.bind (erases_ask hover.instantNow) fun now => ?_
      exact Erases.foldlM _ (erases_flushFork hover fnmatch cfg.rules now) _

theorem erases_drain (r : Round EbpfSource) :
    Erases (System.under f) (drain fnmatch env' r) (drain fnmatch env r) :=
  Erases.bind (Erases.foldlM _ (erases_handleRaw hover) _) fun r =>
    erases_flushPending_ebpf hover fnmatch r

theorem erases_periodicSync (src : EbpfSource) :
    Erases (System.under f) (periodicSync env' src) (periodicSync env src) := by
  refine Erases.bind (erases_ask hover.instantNow) fun now => Erases.ite ?_ Erases.pure
  refine Erases.bind (erases_pids hover) fun tracked => ?_
  exact Erases.bind (erases_ask hover.instantNow) fun _ => Erases.pure

theorem erases_sleepRound (r : Round EbpfSource) (deadline : Nat) :
    Erases (System.under f) (sleepRound env' r deadline) (sleepRound env r deadline) := by
  refine Erases.ite (Erases.bind (erases_ask hover.instantNow) fun now => ?_) Erases.pure
  exact Erases.ite (Erases.bind (erases_ask (hover.sleep _)) fun _ => Erases.pure) Erases.pure

theorem erases_ebpfPoll (src : EbpfSource) (deadline : Nat) :
    Erases (System.under f) (src.poll fnmatch env' deadline) (src.poll fnmatch env deadline) := by
  refine Erases.bind (erases_scanOnce hover fnmatch src) fun r => ?_
  refine Erases.bind (erases_drain hover fnmatch r) fun r => ?_
  refine Erases.bind (erases_periodicSync hover _) fun synced => ?_
  exact erases_sleepRound hover _ deadline

end Sources

end Threadctl.Daemon
