import Threadctl.Core.Warrants
import Threadctl.Daemon.DaemonRule
import Threadctl.Daemon.JournaledRuns

/-!
# The daemon does what it was configured to do

Every system call that a step of the main loop makes is warranted by a configuration that
was loaded before and by the answers that the kernel has given before: the call touches a
thread only if the kernel has listed it for a process of a configured package, and then does
to it what the resolved policy says.
-/

namespace Threadctl.Daemon

open Threadctl.Core Threadctl.Support Threadctl.Support.EventLog Threadctl.Support.StateRun
open Threadctl.Support.Runs

variable {κ : Type}

section Runs

variable (b : Boot κ) {Loaded : RuleSet → Prop}

def DirsLoaded (b : Boot κ) (Loaded : RuleSet → Prop) (s : System (Traced κ Entry)) : Prop :=
  EachTracked (HoldsLoaded (recorded s.kernel) b.fnmatch Loaded) s

/-- The daemon works, over a journal. -/
abbrev Recording (b : Boot κ) (Loaded : RuleSet → Prop) (d : DaemonState (Traced κ Entry)) :
    Prop := Governed recorded Loaded (DirsLoaded b Loaded) d

/-- A step of the main loop makes warranted calls only. -/
theorem mainStep_confined {d : DaemonState (Traced κ Entry)} {a : Answers}
    (ha : ∀ c, a.loaded = some c → Loaded c.rules) (hd : Recording b Loaded d) :
    Governed recorded Loaded (Confined b.fnmatch b.topo Loaded d.sys.kernel.log)
      (b.journaled.mainStep a d) := by
  have hnow : Confined b.fnmatch b.topo Loaded d.sys.kernel.log d.sys :=
    ⟨le_refl _, supported_refl, hd.informed.1⟩
  have hgoverned : Governed recorded Loaded (Confined b.fnmatch b.topo Loaded d.sys.kernel.log) d :=
    ⟨hd.ready, hnow, hd.informed.2⟩
  exact hgoverned.mainStep (fun _ hrules => confined_engineInvariant hrules)
    b.env.journaled_informs ha

theorem journal_outside (d : DaemonState (Traced κ Entry)) {m : Move κ} (hm : ∀ a, m ≠ .main a) :
    (b.journaledStep d m).sys.kernel.log = d.sys.kernel.log := by
  cases m with
  | main a => exact absurd rfl (hm a)
  | request req =>
      obtain ⟨pending, -, hstep⟩ := step_pending b.journaled d req
      exact congrArg (fun d => d.sys.kernel.log) hstep
  | hotReload | kernelEvent | kernel => rfl

theorem Recording.step {d : DaemonState (Traced κ Entry)} (hd : Recording b Loaded d) {m : Move κ}
    (hm : ∀ c, m.loaded? = some c → Loaded c.rules) : Recording b Loaded (b.journaledStep d m) := by
  have hkernel : ∀ (s : System (Traced κ Entry)) k, recorded s.kernel ≤ recorded k →
      DirsLoaded b Loaded s → DirsLoaded b Loaded { s with kernel := k } := fun s k hle hs =>
    EachTracked.mono hs fun _ _ hp => hp.mono hle
  cases m with
  | main a =>
      have hstep := mainStep_confined b hm hd
      exact ⟨hstep.ready, hstep.informed.1.dirs, hstep.informed.2⟩
  | hotReload | request | kernelEvent =>
      exact hd.outside hkernel (fun _ h => nomatch h) hm fun _ h => nomatch h
  | kernel k =>
      refine hd.outside hkernel (fun _ h => nomatch h) hm ?_
      rintro _ ⟨⟩
      exact le_refl (recorded d.sys.kernel)

theorem journaledRun_recording (kernel : κ) (moves : List (Move κ))
    (hloaded : ∀ c, b.loads moves c → Loaded c.rules) :
    Recording b Loaded (b.journaledRun kernel moves) := by
  induction moves using List.reverseRecOn with
  | nil =>
      have hempty : ∀ k, DirsLoaded b Loaded (System.init k) := fun _ => eachTracked_init _
      have hinitial : Loaded b.initial.rules := hloaded _ (Or.inl rfl)
      exact start_governed (b := b.journaled) hempty hinitial ⟨kernel, []⟩
  | append_singleton moves m ih =>
      have hbefore : ∀ c, b.loads moves c → Loaded c.rules := by
        rintro c (hinitial | ⟨m', hm', hc⟩)
        · exact hloaded c (Or.inl hinitial)
        · exact hloaded c (Or.inr ⟨m', List.mem_append_left [m] hm', hc⟩)
      have hlast : m ∈ moves ++ [m] := List.mem_append_right moves List.mem_cons_self
      rw [journaledRun_concat]
      exact (ih hbefore).step b fun c hc => hloaded c (Or.inr ⟨m, hlast, hc⟩)

/-- Only a reload that is under way reads what the step has loaded. -/
theorem mainStep_forget {d : DaemonState κ} (a : Answers)
    (hpoint : ∀ point, d.point ≠ .reloading point) :
    b.mainStep { a with loaded := none } d = b.mainStep a d := by
  unfold Boot.mainStep
  cases h : d.point with
  | top => rfl
  | station stop =>
      cases stop with
      | ipc =>
          unfold Boot.station Boot.ipcStation
          dsimp only
          cases d.request with
          | none => rfl
          | some request => cases request <;> rfl
      | notices | coverage | periodic | cleanup | poll => rfl
  | reloading point => exact absurd h (hpoint point)
  | doReload next => rfl
  | relock now next => rfl
  | handle events => rfl
  | stopped => rfl

theorem reloadStep_sys (d : DaemonState κ) (a : Answers) (point : ReloadPoint) :
    (d.reloadStep a point).sys = d.sys := by
  unfold DaemonState.reloadStep
  dsimp only
  split
  · rfl
  · rfl
  · rfl

/-- What a step makes is warranted by what was loaded before it. -/
theorem journaledStep_supported {d : DaemonState (Traced κ Entry)} (hd : Recording b Loaded d)
    (m : Move κ) : Supported b.fnmatch b.topo Loaded d.sys.kernel.log
      (b.journaledStep d m).sys.kernel.log := by
  have houtside : ∀ m : Move κ, (∀ a, m ≠ .main a) → Supported b.fnmatch b.topo Loaded
      d.sys.kernel.log (b.journaledStep d m).sys.kernel.log := by
    intro m hm
    rw [journal_outside b d hm]
    exact supported_refl
  cases m with
  | main a =>
      show Supported _ _ _ _ (b.journaled.mainStep a d).sys.kernel.log
      by_cases hpoint : ∀ point, d.point ≠ .reloading point
      · have hstep := mainStep_confined b (a := { a with loaded := none }) nofun hd
        rw [mainStep_forget b.journaled a hpoint] at hstep
        exact hstep.informed.1.calls
      · simp only [ne_eq, not_forall, not_not] at hpoint
        obtain ⟨point, hpoint⟩ := hpoint
        have hstep : b.journaled.mainStep a d = d.reloadStep a point := by
          unfold Boot.mainStep
          rw [hpoint]
        rw [hstep, reloadStep_sys]
        exact supported_refl
  | hotReload | request | kernelEvent | kernel =>
      exact houtside _ fun _ h => nomatch h

theorem journal_supported (kernel : κ) (moves : List (Move κ)) (m : Move κ) :
    Supported b.fnmatch b.topo (b.loadedRules moves) (b.journal kernel moves)
      (b.journal kernel (moves ++ [m])) := by
  have hrun : Recording b (b.loadedRules moves) (b.journaledRun kernel moves) :=
    journaledRun_recording b kernel moves fun c hc => ⟨c, hc, rfl⟩
  unfold Boot.journal
  rw [journaledRun_concat]
  exact journaledStep_supported b hrun m

end Runs

/-- No loaded configuration wants a package that, by the answers so far, a process with this
thread runs. -/
def Boot.stranger (b : Boot κ) (moves : List (Move κ)) (journal : List Entry) (tid : Int) :
    Prop :=
  ∀ pid pkg, (told journal).owns pid tid → (told journal).runs pid pkg →
    ∀ c, b.loads moves c → c.rules.isInterested b.fnmatch pkg = false

/-- In every run of the daemon, whatever the kernel answers and in whatever order the other
thread, the commands and the kernel's events come in: each system call that a move adds to the
journal is warranted by a configuration that was loaded before the move and by the answers
before the call, and a thread that is a stranger by those answers is not touched. -/
theorem daemon_calls_warranted (b : Boot κ) (kernel : κ) (moves : List (Move κ)) (m : Move κ) :
    ∃ new, b.journal kernel (moves ++ [m]) = b.journal kernel moves ++ new ∧
      ∀ before c after, new = before ++ .call c :: after →
        let journal := b.journal kernel moves ++ before
        Warranted (told journal) b.fnmatch b.topo (b.loadedRules moves) c ∧
          ∀ tid, b.stranger moves journal tid → c.tid? ≠ some tid := by
  obtain ⟨new, hnew, hwarranted⟩ := journal_supported b kernel moves m
  refine ⟨new, hnew, fun before c after hsplit => ?_⟩
  have hc := hwarranted before c after hsplit
  refine ⟨hc, fun tid hstranger htid => ?_⟩
  obtain ⟨rules, pid, pkg, ⟨loaded, hloaded, rfl⟩, howns, hruns, hwanted⟩ := hc.wanted htid
  rw [hstranger pid pkg howns hruns loaded hloaded] at hwanted
  exact absurd hwanted Bool.false_ne_true

/-! ## Two applications -/

/-- `com.a` runs as process 7, and `com.b` as process 8 with thread 80. -/
def twoAppsEnv : Env Unit :=
  { Env.silent with
    readProcDir := pure (some ["7", "8"])
    readCmdline := fun pid => pure (some (if pid = 7 then "com.a" else "com.b"))
    readTgid := fun tid => pure (some (if tid = 80 then 8 else tid))
    isAlive := fun _ => pure true
    listTids := fun pid => pure [pid, 10 * pid] }

def comARules : Compiled := ⟨(compile [.ofCpus "com.a" "" "1"] (.flat 4)).rules, .default⟩

def twoAppsBoot : Boot Unit where
  fnmatch := glob
  env := twoAppsEnv
  topo := .default
  scanInterval := 2
  initial := comARules
  source := .ebpf (.tryNew (comARules.snapshot 1) 0 false false)

/-- The first iteration up to `handle_events`; thread 80 is cloned before it. -/
def firstPoll : List (Move Unit) :=
  [.kernelEvent ⟨80, 80, eventFork⟩, .main {}, .main {}, .main {}, .main {}, .main {}, .main {},
    .main {}]

/-- By this entry thread 80 belongs to process 8, and that to `com.b`, if to anything. -/
def entryOfComB : Entry → Bool
  | .answer (.tids _ tids) => 80 ∉ tids
  | .answer (.tgid tid (some pid)) => tid ≠ 80 || pid = 8
  | .answer (.cmdline pid (some pkg)) => pid ≠ 8 || pkg = "com.b"
  | _ => true

theorem stranger_of_comB {journal : List Entry} (h : ∀ e ∈ journal, entryOfComB e = true) :
    twoAppsBoot.stranger firstPoll journal 80 := by
  rintro pid pkg (⟨tids, htids, htid⟩ | htgid) hruns c hc
  · have hnot : 80 ∉ tids := by simpa [entryOfComB] using h _ htids
    exact absurd htid hnot
  · have hpid : pid = 8 := by simpa [entryOfComB] using h _ htgid
    have hpkg : pkg = "com.b" := by simpa [entryOfComB, hpid] using h _ hruns
    have hinitial : c = comARules := by
      rcases hc with hinitial | ⟨m, hm, hloaded⟩
      · exact hinitial
      · have hnone : ∀ m ∈ firstPoll, m.loaded? = none := by simp [firstPoll, Move.loaded?]
        rw [hnone m hm] at hloaded
        exact absurd hloaded nofun
    rw [hinitial, hpkg]
    show comARules.rules.isInterested glob "com.b" = false
    decide +kernel

def touched : Entry → Option Int
  | .answer _ => none
  | .call c => c.tid?

/-- The kernel shows thread 80, and the daemon leaves it alone as it sets up `com.a`. -/
theorem daemon_leaves_com_b :
    let journal := twoAppsBoot.journal () (firstPoll ++ [.main {}])
    ((told journal).owns 8 80 ∧ (told journal).runs 8 "com.b") ∧
      twoAppsBoot.stranger firstPoll journal 80 ∧
      (∃ e ∈ journal, touched e = some 70) ∧ ∀ e ∈ journal, touched e ≠ some 80 := by
  intro journal
  have hcomB : ∀ e ∈ journal, entryOfComB e = true := by decide +kernel
  have hquiet : ∀ e ∈ twoAppsBoot.journal () firstPoll, touched e = none := by decide +kernel
  have howns : Entry.answer (.tgid 80 (some 8)) ∈ journal := by decide +kernel
  have hruns : Entry.answer (.cmdline 8 (some "com.b")) ∈ journal := by decide +kernel
  have hcomA : ∃ e ∈ journal, touched e = some 70 := by decide +kernel
  refine ⟨⟨Or.inr howns, hruns⟩, stranger_of_comB hcomB, hcomA, fun e he => ?_⟩
  obtain ⟨new, hnew, hcalls⟩ := daemon_calls_warranted twoAppsBoot () firstPoll (.main {})
  have hsplit : journal = twoAppsBoot.journal () firstPoll ++ new := hnew
  rw [hsplit] at he
  rcases List.mem_append.mp he with hold | hadded
  · rw [hquiet e hold]
    exact nofun
  · obtain ⟨before, after, rfl⟩ := List.append_of_mem hadded
    cases e with
    | answer a => exact nofun
    | call c =>
        refine (hcalls before c after rfl).2 80 (stranger_of_comB fun e' he' => hcomB e' ?_)
        have hnow : journal =
            (twoAppsBoot.journal () firstPoll ++ before) ++ .call c :: after :=
          hnew.trans (List.append_assoc _ _ _).symm
        rw [hnow]
        exact List.mem_append_left _ he'

end Threadctl.Daemon
