import Threadctl.Core.Beliefs
import Threadctl.Core.Erasure

/-!
# The journal of a kernel

`Env.journaled` keeps one record of what the kernel has answered and of the calls that were
made, in the order in which they came.  `told` is what a journal makes known.
-/

namespace Threadctl.Core

open Threadctl.Support.EventLog Threadctl.Support.Simulation

variable {κ : Type}

/-! ## Journals -/

/-- An answer that the engine or the main loop acts on. -/
inductive Answer where
  | cmdline (pid : Int) (read : Option String)
  | tids (pid : Int) (tids : List Int)
  | tgid (tid : Int) (read : Option Int)
  | threadName (tid : Int) (read : Option String)
  | canRtSched (allowed : Bool)
  | instant (now : Nat)
  deriving DecidableEq

inductive Entry where
  | answer (a : Answer)
  | call (c : Call)
  deriving DecidableEq

/-- The same environment with a journal. -/
def Env.journaled (env : Env κ) : Env (Traced κ Entry) where
  readProcDir := quietly env.readProcDir
  readStartTime pid := quietly (env.readStartTime pid)
  readCmdline pid := noting (fun read => .answer (.cmdline pid read)) (env.readCmdline pid)
  readThreadName tid := noting (fun read => .answer (.threadName tid read)) (env.readThreadName tid)
  readTgid tid := noting (fun read => .answer (.tgid tid read)) (env.readTgid tid)
  readOomAdj pid := quietly (env.readOomAdj pid)
  isAlive pid := quietly (env.isAlive pid)
  listTids pid := noting (fun tids => .answer (.tids pid tids)) (env.listTids pid)
  readCpuset pid := quietly (env.readCpuset pid)
  canRtSched := noting (fun allowed => .answer (.canRtSched allowed)) env.canRtSched
  getAffinity tid := noting (fun mask => .call (.getAffinity tid mask)) (env.getAffinity tid)
  setAffinity tid cpus :=
    noting (fun answer => .call (.setAffinity tid cpus answer)) (env.setAffinity tid cpus)
  readAllowedMask tid :=
    noting (fun mask => .call (.readAllowedMask tid mask)) (env.readAllowedMask tid)
  createCpusetDir path cpus mems :=
    noting (fun created => .call (.createCpusetDir path cpus mems created))
      (env.createCpusetDir path cpus mems)
  removeCpusetDir path :=
    noting (fun removed => .call (.removeCpusetDir path removed)) (env.removeCpusetDir path)
  appendTask file tid :=
    noting (fun written => .call (.appendTask file tid written)) (env.appendTask file tid)
  schedSetscheduler tid policy prio :=
    noting (fun answer => .call (.schedSetscheduler tid policy prio answer))
      (env.schedSetscheduler tid policy prio)
  setpriority tid nice :=
    noting (fun answer => .call (.setpriority tid nice answer)) (env.setpriority tid nice)
  schedSetattr tid flags lo hi :=
    noting (fun answer => .call (.schedSetattr tid flags lo hi answer))
      (env.schedSetattr tid flags lo hi)
  readUtilClampMax := noting (fun limit => .call (.readUtilClampMax limit)) env.readUtilClampMax
  nowSecs := quietly env.nowSecs
  instantNow := noting (fun now => .answer (.instant now)) env.instantNow
  sleep n := quietly (env.sleep n)
  order t l := env.order t.kernel l
  order_perm t l := env.order_perm t.kernel l

/-- What a journal makes known. -/
def told (journal : List Entry) : Beliefs where
  runs pid pkg := .answer (.cmdline pid (some pkg)) ∈ journal
  owns pid tid := (∃ tids, .answer (.tids pid tids) ∈ journal ∧ tid ∈ tids) ∨
    .answer (.tgid tid (some pid)) ∈ journal
  named tid name := ∃ read, .answer (.threadName tid read) ∈ journal ∧ read.getD "" = name
  permits allowed := .answer (.canRtSched allowed) ∈ journal

theorem told_mono {journal journal' : List Entry} (h : journal ⊆ journal') :
    told journal ≤ told journal' where
  runs hruns := h hruns
  owns howns := by
    rcases howns with ⟨tids, htids, htid⟩ | htgid
    · exact Or.inl ⟨tids, h htids, htid⟩
    · exact Or.inr (h htgid)
  named := fun ⟨read, hread, hname⟩ => ⟨read, h hread, hname⟩
  permits hallowed := h hallowed

abbrev recorded (k : Traced κ Entry) : Beliefs := told k.log

theorem recorded_quietly {α : Type} (x : StateM κ α) (k : Traced κ Entry) :
    recorded k ≤ recorded ((quietly x).run k).2 := le_refl _

theorem recorded_noting {α : Type} (note : α → Entry) (x : StateM κ α) (k : Traced κ Entry) :
    recorded k ≤ recorded ((noting note x).run k).2 :=
  told_mono (List.subset_append_left _ _)

theorem mem_noting {α : Type} (note : α → Entry) (x : StateM κ α) (k : Traced κ Entry) :
    note ((noting note x).run k).1 ∈ ((noting note x).run k).2.log :=
  List.mem_append_right _ List.mem_cons_self

theorem Env.journaled_informs (env : Env κ) : env.journaled.Informs recorded where
  grows hx k := by
    cases hx with
    | readProcDir | readStartTime | readOomAdj | isAlive | readCpuset | nowSecs | sleep =>
        exact recorded_quietly _ k
    | readCmdline | readThreadName | readTgid | listTids | canRtSched | instantNow =>
        exact recorded_noting _ _ k
  cmdline pid k pkg h := by
    show Entry.answer (.cmdline pid (some pkg)) ∈ ((env.journaled.readCmdline pid).run k).2.log
    rw [← h]
    exact mem_noting (fun read => .answer (.cmdline pid read)) (env.readCmdline pid) k
  tids pid k tid htid :=
    Or.inl ⟨_, mem_noting (fun tids => .answer (.tids pid tids)) (env.listTids pid) k, htid⟩
  tgid tid k pid h := by
    refine Or.inr ?_
    rw [← h]
    exact mem_noting (fun read => .answer (.tgid tid read)) (env.readTgid tid) k
  comm tid k :=
    ⟨_, mem_noting (fun read => .answer (.threadName tid read)) (env.readThreadName tid) k, rfl⟩
  canRt k := mem_noting (fun allowed => .answer (.canRtSched allowed)) env.canRtSched k

theorem Env.journaled_over (env : Env κ) : env.journaled.Over Traced.kernel env where
  readProcDir := erases_quietly _
  readStartTime _ := erases_quietly _
  readCmdline _ := erases_noting _ _
  readThreadName _ := erases_noting _ _
  readTgid _ := erases_noting _ _
  readOomAdj _ := erases_quietly _
  isAlive _ := erases_quietly _
  listTids _ := erases_noting _ _
  readCpuset _ := erases_quietly _
  canRtSched := erases_noting _ _
  getAffinity _ := erases_noting _ _
  setAffinity _ _ := erases_noting _ _
  readAllowedMask _ := erases_noting _ _
  createCpusetDir _ _ _ := erases_noting _ _
  removeCpusetDir _ := erases_noting _ _
  appendTask _ _ := erases_noting _ _
  schedSetscheduler _ _ _ := erases_noting _ _
  setpriority _ _ := erases_noting _ _
  schedSetattr _ _ _ _ := erases_noting _ _
  readUtilClampMax := erases_noting _ _
  nowSecs := erases_quietly _
  instantNow := erases_noting _ _
  sleep _ := erases_quietly _
  order _ _ := rfl

theorem Env.journaled_moves (env : Env κ) :
    env.journaled.Moves (fun journal c => journal ++ [Entry.call c]) Traced.log where
  getAffinity _ _ := rfl
  setAffinity _ _ _ := rfl
  readAllowedMask _ _ := rfl
  createCpusetDir _ _ _ _ := rfl
  appendTask _ _ _ := rfl
  schedSetscheduler _ _ _ _ := rfl
  setpriority _ _ _ := rfl
  schedSetattr _ _ _ _ _ := rfl
  readUtilClampMax _ := rfl
  nowSecs _ := rfl

/-- An application adds the calls of one of its paths to the journal. -/
theorem applyThread_journal (env : Env κ) (tid : Int) (pkg : String) (policy : Policy)
    (topo : CpuTopology) (rtAllowed : Bool) (s : System (Traced κ Entry)) :
    let x := (applyThread env.journaled tid pkg policy topo rtAllowed).run s
    ∃ es, ThreadPath s.uclampSupport tid policy topo rtAllowed es x.1 ∧
      x.2.kernel.log = s.kernel.log ++ (callsOf es).map .call := by
  intro x
  let s' : System (Traced (Traced κ Entry) Call) := s.under fun kernel => ⟨kernel, []⟩
  obtain ⟨es, hpath, -, -, hjournal⟩ := transcript_of_traces s'
    (traces_applyThread env.journaled_moves tid pkg policy topo rtAllowed (trail _ s'))
  have hsame := erases_applyThread env.journaled.traced_over tid pkg policy topo rtAllowed s'
  have hx : x = (((applyThread env.journaled.traced tid pkg policy topo rtAllowed).run s').1,
      ((applyThread env.journaled.traced tid pkg policy topo rtAllowed).run s').2.under
        Traced.kernel) := hsame
  refine ⟨es, ?_, ?_⟩
  · rw [hx]
    exact hpath
  · rw [hx]
    refine hjournal.trans ?_
    rw [List.foldl_append_eq_append, ← List.flatMap_def, ← List.map_eq_flatMap]
    rfl

end Threadctl.Core
