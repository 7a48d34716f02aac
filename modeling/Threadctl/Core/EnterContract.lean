import Threadctl.Core.EngineRuns
import Threadctl.Core.ScanCalls

/-!
# What `enter` establishes

Whatever the kernel answers, `enter` writes one entry and leaves the others alone.  The
start time is compared for another package only, so an entry under the same package is
taken for the same process.
-/

namespace Threadctl.Core

open Threadctl.Support Threadctl.Support.StateRun

variable {κ : Type}

/-- What `read_start_time` answers at the moment, with 0 for a failure. -/
def startTimeNow (env : Env κ) (pid : Int) (s : System κ) : Nat :=
  ((env.readStartTime pid).run s.kernel).1.getD 0

/-- Nothing was applied for the process and no name was read. -/
structure ProcessState.Fresh (p : ProcessState) : Prop where
  tids : p.appliedTids = ∅
  dirs : p.dirs = []
  names : p.tidNames.names = ∅

theorem fresh_new (pid : Int) (startTime : Nat) (pkg : String) (now : Int) :
    (ProcessState.new pid startTime pkg now).Fresh := ⟨rfl, rfl, rfl⟩

/-- The ways from the entry before to the entry after `enter`, where `read` is the start
time of the moment. -/
inductive EnterStep (read : Nat) (pid : Int) (pkg : String) (now : Int) :
    Option ProcessState → ProcessState → Prop where
  | new : EnterStep read pid pkg now none (.new pid read pkg now)
  | same (ex : ProcessState) (h : ex.pkg = pkg ∨ ex.startTime = 0) :
      EnterStep read pid pkg now (some ex) ex
  | renamed (ex : ProcessState) (hpkg : ex.pkg ≠ pkg) (hknown : ex.startTime ≠ 0)
      (h : read = 0 ∨ read = ex.startTime) :
      EnterStep read pid pkg now (some ex) { ex with pkg := pkg }
  /-- The start time is read once more for the new entry. -/
  | reused (ex : ProcessState) (hpkg : ex.pkg ≠ pkg) (hknown : ex.startTime ≠ 0)
      (hread : read ≠ 0) (hdiff : read ≠ ex.startTime) (again : Nat) :
      EnterStep read pid pkg now (some ex) (.new pid again pkg now)

section Steps

variable (env : Env κ) (pid : Int) (pkg : String) (now : Int)

abbrev procsOf (s : System κ) : Int → Option ProcessState := s.tracker.procMap

omit pid pkg now in
theorem frame_releaseState_procMap (state : ProcessState) :
    Frame procsOf (releaseState env state) := by
  intro s
  funext q
  exact congrArg (AList.lookup q) (frame_releaseState_procs env state s)

theorem insertNew_step (P : Int → Option ProcessState) :
    Triple (fun s => procsOf s = P) (insertNew env pid pkg now) fun p s =>
      ∃ read, p = .new pid read pkg now ∧ procsOf s = Function.update P pid (some p) := by
  rintro s rfl
  exact ⟨_, rfl, StateTracker.procMap_insert ..⟩

theorem enter_step (s : System κ) :
    EnterStep (startTimeNow env pid s) pid pkg now (s.tracker.procMap pid)
        ((enter env pid pkg now).run s).1 ∧
      ((enter env pid pkg now).run s).2.tracker.procMap =
        Function.update s.tracker.procMap pid (some ((enter env pid pkg now).run s).1) := by
  have hspec : Triple (fun t => t = s) (enter env pid pkg now) fun p t =>
      EnterStep (startTimeNow env pid s) pid pkg now (s.tracker.procMap pid) p ∧
        procsOf t = Function.update s.tracker.procMap pid (some p) := by
    refine Triple.get fun t ht => ?_
    subst ht
    have hlookup : t.tracker.procs.lookup pid = t.tracker.procMap pid := rfl
    rw [hlookup]
    cases hknown : t.tracker.procMap pid with
    | none =>
        rintro t' rfl
        exact ⟨.new, StateTracker.procMap_insert ..⟩
    | some ex =>
        dsimp only
        refine Triple.ite_of (fun hsame => ?_) fun hother => ?_
        · refine Triple.pure fun t' ht' => ⟨.same ex hsame, ?_⟩
          rw [ht', Function.update_eq_self_iff.mpr hknown.symm]
        · rw [not_or] at hother
          have hask : Triple (fun t' => t' = t) (ask (env.readStartTime pid)) fun read t' =>
              read.getD 0 = startTimeNow env pid t ∧ procsOf t' = t.tracker.procMap := by
            rintro t' rfl
            exact ⟨rfl, rfl⟩
          refine Triple.bind hask fun read => Triple.pre fun hread => ?_
          rw [hread]
          refine Triple.ite_of (fun hst => ?_) fun hst => ?_
          · refine Triple.bind (Q := fun _ t' => procsOf t' =
              Function.update t.tracker.procMap pid (some { ex with pkg := pkg })) ?_ fun _ =>
                Triple.pure fun t' ht' => ⟨.renamed ex hother.1 hother.2 hst, ht'⟩
            rintro t' ht'
            have hbefore : t'.tracker.procMap = t.tracker.procMap := ht'
            rw [← hbefore]
            exact StateTracker.procMap_insert ..
          · rw [not_or] at hst
            refine Triple.bind (Q := fun _ t' => procsOf t' =
              Function.update t.tracker.procMap pid none) ?_ fun _ => ?_
            · rintro t' ht'
              have hbefore : t'.tracker.procMap = t.tracker.procMap := ht'
              rw [← hbefore]
              exact StateTracker.procMap_erase ..
            refine Triple.bind ((frame_releaseState_procMap env ex).keeps (· = _)) fun _ => ?_
            refine (insertNew_step env pid pkg now _).mono (fun _ h => h) ?_
            rintro p t' ⟨again, rfl, hprocs⟩
            rw [Function.update_idem] at hprocs
            exact ⟨.reused ex hother.1 hother.2 hst.1 hst.2 again, hprocs⟩
  exact hspec s rfl

end Steps

/-- After `enter` the process is tracked and no other entry is touched.  The entry has the
package unless it is known under another one without a start time, it starts afresh when
its package and its start time both changed, and an entry of the package stays as it is. -/
theorem enter_contract (env : Env κ) (pid : Int) (pkg : String) (now : Int) (s : System κ) :
    let s' := ((enter env pid pkg now).run s).2
    ∃ p, s'.tracker.procs.lookup pid = some p ∧
      (∀ q, q ≠ pid → s'.tracker.procs.lookup q = s.tracker.procs.lookup q) ∧
      ((∀ ex, s.tracker.procs.lookup pid = some ex → ex.pkg = pkg ∨ ex.startTime ≠ 0) →
        p.pkg = pkg) ∧
      (∀ ex, s.tracker.procs.lookup pid = some ex → ex.pkg ≠ pkg → ex.startTime ≠ 0 →
        startTimeNow env pid s ≠ 0 → startTimeNow env pid s ≠ ex.startTime → p.Fresh) ∧
      ∀ ex, s.tracker.procs.lookup pid = some ex → ex.pkg = pkg → p = ex := by
  intro s'
  obtain ⟨hstep, hprocs⟩ := enter_step env pid pkg now s
  generalize hp : ((enter env pid pkg now).run s).1 = p at hstep hprocs
  have hlookup : ∀ q,
      s'.tracker.procs.lookup q = Function.update s.tracker.procMap pid (some p) q :=
    congrFun hprocs
  refine ⟨p, ?_, fun q hq => ?_, ?_⟩
  · rw [hlookup, Function.update_self]
  · rw [hlookup, Function.update_of_ne hq]
    rfl
  · change EnterStep _ pid pkg now (s.tracker.procs.lookup pid) p at hstep
    generalize s.tracker.procs.lookup pid = known at hstep
    cases hstep with
    | new => simp [ProcessState.new]
    | same _ h =>
        refine ⟨fun hpkg => ?_, ?_, ?_⟩
        · rcases hpkg p rfl with heq | hknown
          · exact heq
          · exact h.resolve_right hknown
        · rintro _ ⟨⟩ hne hknown
          exact absurd h (not_or.mpr ⟨hne, hknown⟩)
        · rintro _ ⟨⟩ -
          rfl
    | renamed ex hpkg hknown h =>
        refine ⟨fun _ => rfl, ?_, ?_⟩
        · rintro _ ⟨⟩ - - hread hdiff
          exact absurd h (not_or.mpr ⟨hread, hdiff⟩)
        · rintro _ ⟨⟩ heq
          exact absurd heq hpkg
    | reused ex hpkg hknown hread hdiff again =>
        refine ⟨fun _ => rfl, fun _ _ _ _ _ _ => fresh_new .., ?_⟩
        rintro _ ⟨⟩ heq
        exact absurd heq hpkg

/-- A kernel that answers questions for the start time from a list. -/
def Env.startTimes : Env (List (Option Nat)) :=
  { Env.silent with readStartTime := fun _ answers => (answers.headD none, answers.tail) }

/-- A process of `com.a` with a recorded thread, whose pid went to another process of
`com.a`, and one of `com.b` that was first seen while its start time could not be read. -/
theorem enter_keeps_old_entry :
    let reused := after glob Env.startTimes [.enter 1 "com.a" 0, .recordAppliedTids 1 {7}]
      [some 5, some 9]
    let unread := after glob Env.startTimes [.enter 1 "com.a" 0] [none]
    startTimeNow Env.startTimes 1 reused = 9 ∧
      (reused.tracker.procs.lookup 1).map (·.startTime) = some 5 ∧
      ((((enter Env.startTimes 1 "com.a" 1).run reused).2.tracker.procs.lookup 1).map
        (·.appliedTids)) = some {7} ∧
      ((((enter Env.startTimes 1 "com.b" 1).run unread).2.tracker.procs.lookup 1).map
        (·.pkg)) = some "com.a" := by
  decide +kernel

end Threadctl.Core
