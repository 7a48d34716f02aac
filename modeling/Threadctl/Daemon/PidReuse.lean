import Threadctl.Core.ScanCalls
import Threadctl.Daemon.ProcSource
import Threadctl.Daemon.Reload
import Threadctl.Support.Runs

/-!
# Process ids that change hands

`relock_all` enters a tracked process under the package that the tracker has for it, so
`enter` never compares start times.  The calls of a pass are for the recorded processes
exactly when every pid that the pass scans still belongs to its process.
-/

namespace Threadctl.Daemon

open Threadctl.Core Threadctl.Support.StateRun Threadctl.Support.Runs

variable {κ : Type}

/-! ## The scans of a pass -/

def gate (view : ProcView) (rctx : RelockContext) (decision : DecisionEngine) (pid : Int) :
    Decision :=
  let intent := TaskIntent.fromOomAdj (view.oomAdj pid)
  decision.decideCtx ⟨rctx, intent, intent = .interactive⟩

section Pass

variable (fnmatch : String → String → Bool) (view : ProcView) (args : EngineArgs)
  (rctx : RelockContext) (decision : DecisionEngine)

/-- A pass scans `pid`, whose entry is `p`. -/
def Scans (known : Option ProcessState) (pid : Int) (p : ProcessState) : Prop :=
  known = some p ∧ view.alive pid = true ∧ ∃ reason, gate view rctx decision pid = .allow reason

def PassCalls (pid : Int) (known : Option ProcessState) (new : List ApplyCall) : Prop :=
  (∃ p tracker, Scans view rctx decision known pid p ∧ Holds pid p tracker.procMap ∧
      new = scanCalls fnmatch view args pid p.pkg p tracker) ∨
    ((∀ p, ¬ Scans view rctx decision known pid p) ∧ new = [])

/-- What a pass does at one pid: other entries stay, and the calls are those for the pid. -/
def PassStep (pid : Int) (P : Int → Option ProcessState) (calls : List ApplyCall)
    (s : System κ) : Prop :=
  ∃ P' new, (∀ q, q ≠ pid → P' q = P q) ∧
    PassCalls fnmatch view args rctx decision pid (P pid) new ∧ sight s = (P', calls ++ new)

variable {fnmatch view args rctx decision}

theorem passStep_quiet {pid : Int} {P : Int → Option ProcessState} {calls : List ApplyCall}
    {s : System κ} (hquiet : ∀ p, ¬ Scans view rctx decision (P pid) pid p)
    {q : Option ProcessState} (hs : sight s = (Function.update P pid q, calls)) :
    PassStep fnmatch view args rctx decision pid P calls s :=
  ⟨_, [], fun _ hq => Function.update_of_ne hq _ _, Or.inr ⟨hquiet, rfl⟩, by
    rw [hs, List.append_nil]⟩

theorem passStep_same {pid : Int} {P : Int → Option ProcessState} {calls : List ApplyCall}
    {s : System κ} (hquiet : ∀ p, ¬ Scans view rctx decision (P pid) pid p)
    (hs : sight s = (P, calls)) : PassStep fnmatch view args rctx decision pid P calls s := by
  apply passStep_quiet hquiet (q := P pid)
  rw [hs, Function.update_eq_self]

theorem bumpRelock_sight (f : RelockStats → RelockStats)
    (v : (Int → Option ProcessState) × List ApplyCall) :
    Triple (fun s => sight s = v) (bumpRelock (κ := κ) f) fun _ s => sight s = v :=
  fun _ hs => hs

theorem relockPid_passStep {env : Env κ} (hshows : env.Shows view) (applied : Nat) (pid : Int)
    (P : Int → Option ProcessState) (calls : List ApplyCall) :
    Triple (fun s => sight s = (P, calls)) (relockPid fnmatch env args rctx decision applied pid)
      fun _ s => PassStep fnmatch view args rctx decision pid P calls s := by
  refine Triple.peek fun s hs => ?_
  rw [lookup_of_sight hs pid]
  cases hp : P pid with
  | none =>
      refine Triple.pure fun t ht => passStep_same (fun p hscans => ?_) ht
      exact absurd (hp.symm.trans hscans.1) (by simp)
  | some p =>
      refine Triple.bind (sight_ask (hshows.alive pid) _) fun alive => Triple.pre fun h => ?_
      subst h
      cases hlive : view.alive pid with
      | false =>
          have hquiet : ∀ p, ¬ Scans view rctx decision (P pid) pid p := by
            intro p hscans
            rw [hscans.2.1] at hlive
            exact absurd hlive (by decide)
          refine Triple.bind (remove_sight env pid P calls) fun _ => Triple.pure fun t ht => ?_
          exact passStep_quiet hquiet ht
      | true =>
          refine Triple.bind (sight_ask (hshows.oomAdj pid) _) fun adj => ?_
          refine Triple.pre fun h => ?_
          subst h
          dsimp only
          have hgate : decision.decideCtx ⟨rctx, TaskIntent.fromOomAdj (view.oomAdj pid),
              TaskIntent.fromOomAdj (view.oomAdj pid) = .interactive⟩ =
                gate view rctx decision pid := rfl
          rw [hgate]
          have hnot : (∀ reason, gate view rctx decision pid ≠ .allow reason) →
              ∀ p, ¬ Scans view rctx decision (P pid) pid p :=
            fun hne p hscans => hscans.2.2.elim hne
          cases hdecide : gate view rctx decision pid with
          | skip reason =>
              refine Triple.bind (bumpRelock_sight _ _) fun _ => Triple.pure fun t ht => ?_
              exact passStep_same (hnot fun r h => by rw [hdecide] at h; cases h) ht
          | degrade level reason =>
              refine Triple.bind (bumpRelock_sight _ _) fun _ => Triple.pure fun t ht => ?_
              exact passStep_same (hnot fun r h => by rw [hdecide] at h; cases h) ht
          | allow reason =>
              refine Triple.bind (bumpRelock_sight _ _) fun _ => ?_
              -- the entry is found under its own package, whatever the process is now
              have hentered : entered view (P pid) pid p.pkg args.now = p := by
                rw [hp]
                exact entered_same view (Or.inl rfl)
              have hscan := refreshProcessRules_sight fnmatch hshows args pid p.pkg P calls
              rw [hentered] at hscan
              refine Triple.bind hscan fun scanned => ?_
              refine Triple.exists fun tracker => Triple.exists fun names => ?_
              refine Triple.pre fun hholds => ?_
              refine Triple.bind (registerDirs_sight pid _ _ _) fun _ => ?_
              refine Triple.exists fun dirs => ?_
              refine Triple.pure fun t ht => ⟨_, _, fun q hq => ?_, ?_, ht⟩
              · rw [Function.update_of_ne hq, Function.update_of_ne hq]
              · exact Or.inl ⟨p, tracker, ⟨hp, hlive, reason, hdecide⟩, hholds, rfl⟩

theorem foldlM_relockPid {env : Env κ} (hshows : env.Shows view) {pids : List Int}
    (hnodup : pids.Nodup) {P₀ P : Int → Option ProcessState} (hP : ∀ pid ∈ pids, P pid = P₀ pid)
    (applied : Nat) (calls : List ApplyCall) :
    Triple (fun s => sight s = (P, calls))
      (pids.foldlM (relockPid fnmatch env args rctx decision) applied) fun _ s =>
        ∃ part : Int → List ApplyCall, s.applyCalls = calls ++ pids.flatMap part ∧
          ∀ pid ∈ pids, PassCalls fnmatch view args rctx decision pid (P₀ pid) (part pid) := by
  induction pids generalizing P applied calls with
  | nil => exact Triple.pure fun s hs => ⟨fun _ => [], by simp [(Prod.mk.inj hs).2], by simp⟩
  | cons pid pids ih =>
      rw [List.foldlM_cons]
      obtain ⟨hnotin, hrest⟩ := List.nodup_cons.mp hnodup
      refine Triple.bind (relockPid_passStep hshows applied pid P calls) fun applied' => ?_
      refine Triple.exists fun P' => Triple.exists fun new => ?_
      refine Triple.pre fun hothers => Triple.pre fun hpass => ?_
      have hP' : ∀ q ∈ pids, P' q = P₀ q := by
        intro q hq
        rw [hothers q (fun heq => hnotin (heq ▸ hq))]
        exact hP q (List.mem_cons_of_mem pid hq)
      refine (ih hrest hP' applied' (calls ++ new)).mono (fun _ hs => hs) ?_
      intro _ s ⟨part, hcalls, hpart⟩
      have htail : pids.flatMap (Function.update part pid new) = pids.flatMap part :=
        List.flatMap_congr fun q hq =>
          Function.update_of_ne (fun heq : q = pid => hnotin (heq ▸ hq)) _ _
      refine ⟨Function.update part pid new, ?_, ?_⟩
      · rw [hcalls, List.flatMap_cons, Function.update_self, htail, List.append_assoc]
      · intro q hq
        by_cases heq : q = pid
        · subst heq
          rw [Function.update_self, ← hP q List.mem_cons_self]
          exact hpass
        · rw [Function.update_of_ne heq]
          exact hpart q (List.mem_of_ne_of_mem heq hq)

variable (fnmatch rctx decision) in
/-- What `relock_all` applies: for every tracked pid the calls of its pass. -/
theorem relockAll_calls {env : Env κ} (hshows : env.Shows view) (cfg : ConfigSnapshot)
    (topo : CpuTopology) (now : Int) (s : System κ) :
    ∃ (pids : List Int) (part : Int → List ApplyCall),
      (∀ pid, pid ∈ pids ↔ (s.tracker.procMap pid).isSome = true) ∧
      newCalls s ((relockAll fnmatch env cfg topo now rctx decision).run s).2 = pids.flatMap part ∧
      ∀ pid ∈ pids, PassCalls fnmatch view ⟨cfg, topo, now, true⟩ rctx decision pid
        (s.tracker.procMap pid) (part pid) := by
  have hrun : Triple (fun t => sight t = sight s ∧ t.tracker = s.tracker)
      (relockAll fnmatch env cfg topo now rctx decision) fun _ t =>
        ∃ (pids : List Int) (part : Int → List ApplyCall),
          (∀ pid, pid ∈ pids ↔ (s.tracker.procMap pid).isSome = true) ∧
          t.applyCalls = s.applyCalls ++ pids.flatMap part ∧
          ∀ pid ∈ pids, PassCalls fnmatch view ⟨cfg, topo, now, true⟩ rctx decision pid
            (s.tracker.procMap pid) (part pid) := by
    refine Triple.bind (Q := fun _ t => sight t = sight s ∧ t.tracker = s.tracker)
      (fun _ ht => ht) fun rtAllowed => ?_
    refine Triple.bind (Q := fun pids t => (pids.Nodup ∧ ∀ pid, pid ∈ pids ↔
      (s.tracker.procMap pid).isSome = true) ∧ sight t = sight s) ?_ fun pids => ?_
    · intro t ⟨ht, htracker⟩
      have hkeys := (env.order_perm t.kernel _).nodup_iff.mpr t.tracker.procs.keys_nodup
      refine ⟨⟨hkeys, fun pid => ?_⟩, ht⟩
      rw [← htracker]
      exact mem_order_keys env t pid
    refine Triple.pre fun ⟨hnodup, hmem⟩ => ?_
    refine (foldlM_relockPid hshows hnodup (fun _ _ => rfl) 0 s.applyCalls).mono
      (fun _ ht => ht) ?_
    intro _ t ⟨part, hcalls, hpart⟩
    exact ⟨pids, part, hmem, hcalls, hpart⟩
  obtain ⟨pids, part, hmem, hcalls, hpart⟩ := hrun s ⟨rfl, rfl⟩
  refine ⟨pids, part, hmem, ?_, hpart⟩
  rw [newCalls, hcalls, List.drop_left]

end Pass

/-! ## Whose threads -/

section Owners

variable (fnmatch : String → String → Bool) (cfg : ConfigSnapshot) (view : ProcView)

/-- No thread belongs to two processes. -/
def ThreadsApart : Prop :=
  ∀ pid pid' tid, tid ∈ view.tids pid → tid ∈ view.tids pid' → pid = pid'

/-- The process at `pid` started when it was recorded, and it is not a process of another
package that is not configured. -/
structure SameProcess (pid : Int) (startTime : Nat) (pkg : String) : Prop where
  startTime : view.startTime pid = some startTime
  notOther : ∀ name, view.cmdline pid = some name →
    cfg.rules.isInterested fnmatch name = false → pkg = name

/-- Every call is for a thread whose process is the one in the tracker at that moment. -/
def CallsOwn (calls : List ApplyCall) : Prop :=
  ∀ c ∈ calls, ∀ pid, c.tid ∈ view.tids pid →
    ∃ p, c.tracker.procMap pid = some p ∧ SameProcess fnmatch cfg view pid p.startTime c.pkg

/-- Every process that a pass scans and has a policy for is still the recorded one. -/
def EntriesCurrent (now : Int) (topo : CpuTopology) (rctx : RelockContext)
    (decision : DecisionEngine) (P : Int → Option ProcessState) : Prop :=
  ∀ pid p, Scans view rctx decision (P pid) pid p →
    (∃ tid ∈ view.tids pid,
      (policyFor fnmatch view ⟨cfg, topo, now, true⟩ p.pkg p.tidNames tid).isSome = true) →
    SameProcess fnmatch cfg view pid p.startTime p.pkg

variable {fnmatch cfg view}

theorem holds_startTime {pid : Int} {p q : ProcessState} {P : Int → Option ProcessState}
    (hholds : Holds pid p P) (hq : P pid = some q) : q.startTime = p.startTime := by
  obtain ⟨names, hp⟩ := hholds
  rw [hp] at hq
  rw [← Option.some.inj hq]

theorem relockAll_callsOwn_iff {env : Env κ} (hshows : env.Shows view) (hapart : ThreadsApart view)
    (topo : CpuTopology) (now : Int) (rctx : RelockContext) (decision : DecisionEngine)
    (s : System κ) :
    CallsOwn fnmatch cfg view
        (newCalls s ((relockAll fnmatch env cfg topo now rctx decision).run s).2) ↔
      EntriesCurrent fnmatch cfg view now topo rctx decision s.tracker.procMap := by
  obtain ⟨pids, part, hmem, hnew, hpart⟩ :=
    relockAll_calls fnmatch rctx decision hshows cfg topo now s
  rw [hnew]
  constructor
  · intro hown pid p hscans ⟨tid, htid, hpolicy⟩
    have hpid : pid ∈ pids := (hmem pid).mpr (by rw [hscans.1]; rfl)
    rcases hpart pid hpid with ⟨q, tracker, hq, hholds, hcalls⟩ | ⟨hnone, _⟩
    · have hqp : q = p := Option.some.inj (hq.1.symm.trans hscans.1)
      subst hqp
      obtain ⟨policy, hpolicy⟩ := Option.isSome_iff_exists.mp hpolicy
      have hcall : (⟨tid, q.pkg, policy, tracker⟩ : ApplyCall) ∈ pids.flatMap part := by
        refine List.mem_flatMap.mpr ⟨pid, hpid, ?_⟩
        rw [hcalls]
        exact (mem_scanCalls fnmatch).mpr ⟨⟨htid, hpolicy⟩, rfl, rfl⟩
      obtain ⟨q', hq', hsame⟩ := hown _ hcall pid htid
      rw [holds_startTime hholds hq'] at hsame
      exact hsame
    · exact absurd hscans (hnone p)
  · intro hcurrent c hc pid htid
    obtain ⟨pid', hpid', hcpart⟩ := List.mem_flatMap.mp hc
    rcases hpart pid' hpid' with ⟨q, tracker, hq, hholds, hcalls⟩ | ⟨_, hnil⟩
    · rw [hcalls] at hcpart
      obtain ⟨⟨htid', hpolicy⟩, hpkg, htracker⟩ := (mem_scanCalls fnmatch).mp hcpart
      have heq : pid' = pid := hapart pid' pid c.tid htid' htid
      subst heq
      have hsame := hcurrent pid' q hq ⟨c.tid, htid', by rw [hpolicy]; rfl⟩
      obtain ⟨names, hnames⟩ := hholds
      rw [htracker, hpkg]
      exact ⟨_, hnames, hsame⟩
    · rw [hnil] at hcpart
      exact absurd hcpart List.not_mem_nil

end Owners

/-! ## Runs -/

/-- What the main loop keeps between its steps. -/
structure Loop (κ : Type) where
  src : ProcSource
  cfg : ConfigSnapshot
  /-- The events of the last poll. -/
  events : List ProcessEvent
  sys : System κ

def Loop.init (cfg : ConfigSnapshot) (kernel : κ) : Loop κ where
  src := ProcSource.new.onConfigChanged cfg
  cfg := cfg
  events := []
  sys := .init kernel

/-- The steps of the main loop that reach the tracker. -/
inductive Task where
  | poll (deadline : Nat)
  | handle (topo : CpuTopology) (now : Int)
  | relock (topo : CpuTopology) (now : Int) (rctx : RelockContext) (decision : DecisionEngine)
  | cleanup
  | reload (cfg : ConfigSnapshot)

/-- A step and the processes there are during it; from one step to the next they change
at will. -/
structure Turn (κ : Type) where
  env : Env κ
  view : ProcView
  shows : env.Shows view
  apart : ThreadsApart view
  task : Task

section Runs

variable (fnmatch : String → String → Bool)

def Turn.step (l : Loop κ) (m : Turn κ) : Loop κ :=
  match m.task with
  | .poll deadline =>
      let polled := (l.src.poll fnmatch m.env deadline).run l.sys
      { l with src := polled.1.src, events := polled.1.events, sys := polled.2 }
  | .handle topo now =>
      { l with
        events := []
        sys := ((handleEvents fnmatch m.env l.events l.cfg topo now).run l.sys).2 }
  | .relock topo now rctx decision =>
      { l with sys := ((relockAll fnmatch m.env l.cfg topo now rctx decision).run l.sys).2 }
  | .cleanup => { l with sys := ((cleanupDead m.env).run l.sys).2 }
  | .reload cfg =>
      { l with
        src := l.src.onConfigChanged cfg
        cfg := cfg
        sys := ((retainConfigured m.env cfg).run l.sys).2 }

/-- A relock applies policies to the recorded processes only. -/
def RelockSafe (l : Loop κ) (m : Turn κ) : Prop :=
  match m.task with
  | .relock _ _ _ _ =>
      CallsOwn fnmatch l.cfg m.view (newCalls l.sys (Turn.step fnmatch l m).sys)
  | _ => True

/-- No pid that a relock has a policy for has changed hands. -/
def PidsKept (l : Loop κ) (m : Turn κ) : Prop :=
  match m.task with
  | .relock topo now rctx decision =>
      EntriesCurrent fnmatch l.cfg m.view now topo rctx decision l.sys.tracker.procMap
  | _ => True

variable {fnmatch}

theorem relockSafe_iff (l : Loop κ) (m : Turn κ) :
    RelockSafe fnmatch l m ↔ PidsKept fnmatch l m := by
  unfold RelockSafe PidsKept Turn.step
  cases m.task with
  | relock topo now rctx decision =>
      exact relockAll_callsOwn_iff m.shows m.apart topo now rctx decision l.sys
  | poll | handle | cleanup | reload => exact Iff.rfl

/-- In any run of the main loop, with processes that come and go between its steps: every
relock applies policies to the recorded processes only, exactly when at every relock no
pid with a policy has changed hands. -/
theorem relock_safe_run_iff (cfg : ConfigSnapshot) (kernel : κ) (turns : List (Turn κ)) :
    AtEach (Turn.step fnmatch) (RelockSafe fnmatch) (Loop.init cfg kernel) turns ↔
      AtEach (Turn.step fnmatch) (PidsKept fnmatch) (Loop.init cfg kernel) turns :=
  atEach_congr _ relockSafe_iff _ turns

end Runs

/-! ## A pid that is handed on -/

/-- Real-time scheduling for all threads of `com.a`. -/
def comARtConfig : ConfigSnapshot where
  version := 1
  rules := (compile [⟨"com.a", "", "", some "rr", none, none, none⟩] (.flat 4)).rules

/-- Pid 7 with one thread: a process of package `pkg`, started at `startTime`. -/
def pidSevenView (pkg : String) (startTime : Nat) : ProcView where
  tids pid := if pid = 7 then [7] else []
  comm _ := some "main"
  cmdline pid := if pid = 7 then some pkg else none
  startTime pid := if pid = 7 then some startTime else none
  alive pid := pid = 7
  oomAdj _ := 0

theorem pidSevenView_apart (pkg : String) (startTime : Nat) :
    ThreadsApart (pidSevenView pkg startTime) := by
  intro pid pid' tid h h'
  unfold pidSevenView at h h'
  by_cases hpid : pid = 7
  · by_cases hpid' : pid' = 7
    · rw [hpid, hpid']
    · simp [hpid'] at h'
  · simp [hpid] at h

/-- A step while pid 7 is a process of `pkg`. -/
def pidSevenTurn (pkg : String) (startTime : Nat) (task : Task) : Turn Unit where
  env := { (pidSevenView pkg startTime).env with readProcDir := pure (some ["7"]) }
  view := pidSevenView pkg startTime
  shows := ⟨fun _ _ => rfl, fun _ _ => rfl, fun _ _ => rfl, fun _ _ => rfl, fun _ _ => rfl,
    fun _ _ => rfl⟩
  apart := pidSevenView_apart pkg startTime
  task := task

/-- The gate is open for every process. -/
def openRelock (now : Int) : Task := .relock (.flat 4) now ⟨.normal, 0, 1, 0⟩ ⟨true, false⟩

/-- `com.a` is found and scanned; then pid 7 goes to `com.b`, and the source is polled. -/
def handedOn : List (Turn Unit) :=
  [pidSevenTurn "com.a" 5 (.poll 0), pidSevenTurn "com.a" 5 (.handle (.flat 4) 1),
    pidSevenTurn "com.b" 9 (.poll 0), pidSevenTurn "com.b" 9 (.handle (.flat 4) 3)]

/-- The relock gives `com.b`, which is not configured, the policy of `com.a`. -/
theorem relock_applies_to_new_owner :
    ¬∀ (cfg : ConfigSnapshot) (turns : List (Turn Unit)),
      AtEach (Turn.step glob) (RelockSafe glob) (Loop.init cfg ()) turns := by
  intro h
  have hsafe := h comARtConfig (handedOn ++ [pidSevenTurn "com.b" 9 (openRelock 4)])
    handedOn _ [] rfl
  have hkept := (relockSafe_iff _ _).mp hsafe
  have hentry : ((run (Turn.step glob) (Loop.init comARtConfig ()) handedOn).sys.tracker.procMap
      7).map (fun p => (p.startTime, (policyFor glob (pidSevenView "com.b" 9)
        ⟨comARtConfig, .flat 4, 4, true⟩ p.pkg p.tidNames 7).isSome)) = some (5, true) := by
    decide +kernel
  obtain ⟨p, hp, hfields⟩ := Option.map_eq_some_iff.mp hentry
  obtain ⟨hstart, hpolicy⟩ := Prod.mk.inj hfields
  have hsame := hkept 7 p ⟨hp, rfl, .forceAffinity, rfl⟩ ⟨7, by decide, hpolicy⟩
  rw [hstart] at hsame
  exact absurd hsame.startTime (by decide)

end Threadctl.Daemon
