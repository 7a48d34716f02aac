import Threadctl.Core.EngineRuns
import Threadctl.Support.Runs

/-!
# Which processes are tracked

An event can bring at most its own process into the tracker, and only a fork, an exec
or a clone of a wanted package does.  The exit of a process takes it out.
-/

namespace Threadctl.Core

open Threadctl.Support Threadctl.Support.Runs Threadctl.Support.StateRun

variable {κ : Type}

/-! ## Trackers within a set -/

def TrackedIn (P : Int → Prop) (s : System κ) : Prop :=
  ∀ pid, s.tracker.contains pid = true → P pid

theorem TrackedIn.mono {P P' : Int → Prop} {s : System κ} (h : TrackedIn P s)
    (hP : ∀ pid, P pid → P' pid) : TrackedIn P' s := fun pid hpid => hP pid (h pid hpid)

theorem contains_insert (t : StateTracker) (pid q : Int) (p : ProcessState) :
    StateTracker.contains { t with procs := t.procs.insert pid p } q = true ↔
      q = pid ∨ t.contains q = true := by
  unfold StateTracker.contains
  by_cases hq : q = pid
  · subst hq
    simp
  · simp [AList.lookup_insert_ne hq, hq]

theorem contains_erase (t : StateTracker) (pid q : Int) :
    StateTracker.contains { t with procs := t.procs.erase pid } q = true ↔
      q ≠ pid ∧ t.contains q = true := by
  unfold StateTracker.contains
  by_cases hq : q = pid
  · subst hq
    simp
  · simp [AList.lookup_erase_ne hq, hq]

theorem contains_insert_tracked (t : StateTracker) {pid : Int} {p : ProcessState}
    (hp : t.procs.lookup pid = some p) (q : Int) (p' : ProcessState) :
    StateTracker.contains { t with procs := t.procs.insert pid p' } q = t.contains q := by
  rw [Bool.eq_iff_iff, contains_insert]
  constructor
  · rintro (rfl | hq)
    · simp [StateTracker.contains, hp]
    · exact hq
  · exact Or.inr

theorem contains_update (t : StateTracker) (pid q : Int) (f : ProcessState → ProcessState) :
    (t.update pid f).contains q = t.contains q := by
  unfold StateTracker.update
  cases hp : t.procs.lookup pid with
  | none => rfl
  | some p => exact contains_insert_tracked t hp q _

theorem contains_registerDirs (t : StateTracker) (pid q : Int) (dirs : List String) :
    (t.registerDirs pid dirs).contains q = t.contains q := by
  unfold StateTracker.registerDirs
  cases hp : t.procs.lookup pid with
  | none => rfl
  | some p => exact contains_insert_tracked t hp q _

/-! ## Operations of the tracker -/

section Operations

variable {P : Int → Prop} (env : Env κ)

theorem keeps_trackedIn {α : Type} {x : Run κ α} (hx : Frame ledger x) :
    Keeps (TrackedIn P) x := by
  intro s hs
  have hsame : (x.run s).2.tracker = s.tracker := congrArg Prod.fst (hx s)
  unfold TrackedIn
  rw [hsame]
  exact hs

theorem keeps_trackedIn_procs {α : Type} {x : Run κ α}
    (hx : Frame (fun s : System κ => s.tracker.procs) x) : Keeps (TrackedIn P) x := by
  intro s hs pid hpid
  unfold StateTracker.contains at hpid
  rw [show (x.run s).2.tracker.procs = s.tracker.procs from hx s] at hpid
  exact hs pid hpid

theorem trackedIn_modify {f : StateTracker → StateTracker}
    (hf : ∀ t pid, (f t).contains pid = true → t.contains pid = true ∨ P pid) :
    Keeps (TrackedIn (κ := κ) P) (modifyTracker f) := by
  apply Keeps.modify
  intro s hs pid hpid
  rcases hf s.tracker pid hpid with hold | hP
  · exact hs pid hold
  · exact hP

theorem trackedIn_update (pid : Int) (f : ProcessState → ProcessState) :
    Keeps (TrackedIn (κ := κ) P) (modifyTracker fun t => t.update pid f) := by
  apply trackedIn_modify
  intro t q hq
  rw [contains_update] at hq
  exact Or.inl hq

theorem trackedIn_registerDirs (pid : Int) (dirs : List String) :
    Keeps (TrackedIn (κ := κ) P) (modifyTracker fun t => t.registerDirs pid dirs) := by
  apply trackedIn_modify
  intro t q hq
  rw [contains_registerDirs] at hq
  exact Or.inl hq

theorem trackedIn_erase (pid : Int) :
    Keeps (TrackedIn (κ := κ) P)
      (modifyTracker fun t => { t with procs := t.procs.erase pid }) := by
  apply trackedIn_modify
  intro t q hq
  exact Or.inl ((contains_erase t pid q).mp hq).2

theorem trackedIn_insert {pid : Int} (hpid : P pid) (p : ProcessState) :
    Keeps (TrackedIn (κ := κ) P)
      (modifyTracker fun t => { t with procs := t.procs.insert pid p }) := by
  apply trackedIn_modify
  intro t q hq
  rcases (contains_insert t pid q p).mp hq with rfl | hold
  · exact Or.inr hpid
  · exact Or.inl hold

theorem remove_trackedIn (pid : Int) : Keeps (TrackedIn P) (remove env pid) :=
  keeps_remove (trackedIn_erase pid) fun state =>
    keeps_trackedIn_procs (frame_releaseState_procs env state)

theorem enter_trackedIn {pid : Int} (hpid : P pid) (pkg : String) (now : Int) :
    Keeps (TrackedIn P) (enter env pid pkg now) :=
  keeps_enter (keeps_trackedIn (frame_ask _)) (trackedIn_insert hpid) (trackedIn_erase pid)
    (fun state => keeps_trackedIn_procs (frame_releaseState_procs env state)) pkg now

theorem scanInvariant_trackedIn {pid : Int} (hpid : P pid) :
    ScanInvariant env pid (TrackedIn P) where
  frame := keeps_trackedIn
  enter := enter_trackedIn env hpid
  remove := remove_trackedIn env pid
  update := fun f _ => trackedIn_update pid f
  registerDirs := trackedIn_registerDirs pid

end Operations

section Events

variable (fnmatch : String → String → Bool) (env : Env κ) (args : EngineArgs)

theorem remove_untracks {P : Int → Prop} (pid : Int) :
    Triple (TrackedIn P) (remove env pid) fun _ => TrackedIn fun q => P q ∧ q ≠ pid := by
  apply Triple.get
  intro s hs
  cases hp : s.tracker.procs.lookup pid with
  | none =>
      apply Triple.pure
      rintro t rfl q hq
      refine ⟨hs q hq, ?_⟩
      rintro rfl
      simp [StateTracker.contains, hp] at hq
  | some state =>
      apply Triple.modify_bind
      have herased : ∀ t : System κ,
          t = { s with tracker := { s.tracker with procs := s.tracker.procs.erase pid } } →
            TrackedIn (fun q => P q ∧ q ≠ pid) t := by
        rintro t rfl q hq
        obtain ⟨hne, hold⟩ := (contains_erase s.tracker pid q).mp hq
        exact ⟨hs q hold, hne⟩
      refine Triple.bind ?_ fun _ => Triple.pure fun _ ht => ht
      exact Triple.mono (keeps_trackedIn_procs (frame_releaseState_procs env state)) herased
        fun _ _ ht => ht

/-- The event brings a process into the tracker: a fork, an exec or a clone of a wanted
package, of a process that is not tracked. -/
structure Enters (s : System κ) (ev : ProcessEvent) : Prop where
  spawn : ev.kind = .fork ∨ ev.kind = .exec ∨ ev.kind = .threadClone
  untracked : s.tracker.contains ev.pid = false
  named : ((eventPkg env ev).run s).1.isEmpty = false
  wanted : args.cfg.rules.isInterested fnmatch ((eventPkg env ev).run s).1 = true

theorem handleSpawn_tracked (s : System κ) {ev : ProcessEvent}
    (hspawn : ev.kind = .fork ∨ ev.kind = .exec ∨ ev.kind = .threadClone) :
    Triple (fun t => t = s) (handleSpawn fnmatch env args ev) fun _ =>
      TrackedIn fun pid => s.tracker.contains pid = true ∨
        (pid = ev.pid ∧ Enters fnmatch env args s ev) := by
  refine Triple.bind (Q := fun pkg t => pkg = ((eventPkg env ev).run s).1 ∧
      TrackedIn (fun pid => s.tracker.contains pid = true) t) ?_ fun pkg => Triple.pre ?_
  · rintro t rfl
    refine ⟨rfl, ?_⟩
    have hframe : Frame ledger (eventPkg env ev) := frame_eventPkg env ev
    exact keeps_trackedIn hframe t fun pid hpid => hpid
  · rintro rfl
    have hstays : ∀ t : System κ, TrackedIn (fun pid => s.tracker.contains pid = true) t →
        TrackedIn (fun pid => s.tracker.contains pid = true ∨
          (pid = ev.pid ∧ Enters fnmatch env args s ev)) t :=
      fun t ht => ht.mono fun _ hpid => Or.inl hpid
    apply Triple.ite_of
    · exact fun _ => Triple.pure hstays
    · intro hnamed
      apply Triple.ite_of
      · intro _
        refine Triple.peek fun t _ => ?_
        apply Triple.ite
        · refine Triple.bind (remove_trackedIn env ev.pid) fun _ => Triple.pure hstays
        · exact Triple.pure hstays
      · intro hwanted
        have hP : s.tracker.contains ev.pid = true ∨
            (ev.pid = ev.pid ∧ Enters fnmatch env args s ev) := by
          cases htracked : s.tracker.contains ev.pid with
          | true => exact Or.inl rfl
          | false =>
              exact Or.inr ⟨rfl, hspawn, htracked, by simpa using hnamed, by simpa using hwanted⟩
        have hI := scanInvariant_trackedIn env (P := fun pid => s.tracker.contains pid = true ∨
          (pid = ev.pid ∧ Enters fnmatch env args s ev)) hP
        exact (hI.handleWanted fnmatch args ev rfl _).mono hstays fun _ _ ht => ht

/-- What an event does to the set of tracked processes. -/
theorem handleEvent_tracked (s : System κ) (ev : ProcessEvent) :
    Triple (fun t => t = s) (handleEvent fnmatch env args ev) fun _ =>
      TrackedIn fun pid => (s.tracker.contains pid = true ∧
          ¬ (ev.kind = .exit ∧ ev.tid = ev.pid ∧ pid = ev.pid)) ∨
        (pid = ev.pid ∧ Enters fnmatch env args s ev) := by
  have hself : TrackedIn (fun pid => s.tracker.contains pid = true) s := fun pid hpid => hpid
  have hspawned (hspawn : ev.kind = .fork ∨ ev.kind = .exec ∨ ev.kind = .threadClone) :
      Triple (fun t => t = s) (handleSpawn fnmatch env args ev) fun _ =>
        TrackedIn fun pid => (s.tracker.contains pid = true ∧
            ¬ (ev.kind = .exit ∧ ev.tid = ev.pid ∧ pid = ev.pid)) ∨
          (pid = ev.pid ∧ Enters fnmatch env args s ev) := by
    refine (handleSpawn_tracked fnmatch env args s hspawn).mono (fun _ ht => ht) fun _ t ht => ?_
    refine ht.mono fun pid hpid => ?_
    rcases hpid with hold | hnew
    · refine Or.inl ⟨hold, ?_⟩
      rintro ⟨hexit, -⟩
      rw [hexit] at hspawn
      simp at hspawn
    · exact Or.inr hnew
  unfold handleEvent
  cases hkind : ev.kind with
  | exit =>
      apply Triple.ite_of
      · intro hthread
        refine Triple.bind (Q := fun _ => TrackedIn fun pid => s.tracker.contains pid = true) ?_
          fun _ => Triple.pure fun t ht => ht.mono fun pid hpid => Or.inl ⟨hpid, ?_⟩
        · rintro t rfl
          exact trackedIn_update ev.pid _ t hself
        · exact fun hexit => hthread hexit.2.1
      · intro hprocess
        refine Triple.bind (Q := fun _ => TrackedIn fun pid =>
          s.tracker.contains pid = true ∧ pid ≠ ev.pid) ?_
            fun _ => Triple.pure fun t ht => ht.mono fun pid hpid => Or.inl ⟨hpid.1, ?_⟩
        · rintro t rfl
          exact remove_untracks env ev.pid t hself
        · exact fun hexit => hpid.2 hexit.2.2
  | cpuMigrate =>
      apply Triple.pure
      rintro t rfl pid hpid
      exact Or.inl ⟨hpid, by simp⟩
  | fork | exec | threadClone =>
      rw [hkind] at hspawned
      exact hspawned (by decide)

def handled (s : System κ) (ev : ProcessEvent) : System κ :=
  ((handleEvent fnmatch env args ev).run s).2

theorem foldlM_handleEvent (events : List ProcessEvent) (applied : Nat) (s : System κ) :
    ((events.foldlM (fun applied ev => do
        let n ← handleEvent fnmatch env args ev
        pure (applied + n)) applied).run s).2 = run (handled fnmatch env args) s events := by
  induction events generalizing applied s with
  | nil => rfl
  | cons ev events ih =>
      rw [List.foldlM_cons]
      exact ih _ (handled fnmatch env args s ev)

theorem handleEvents_run (events : List ProcessEvent) (cfg : ConfigSnapshot) (topo : CpuTopology)
    (now : Int) (s : System κ) :
    let asked := (ask env.canRtSched : Run κ Bool).run s
    ((handleEvents fnmatch env events cfg topo now).run s).2 =
      run (handled fnmatch env ⟨cfg, topo, now, asked.1⟩) asked.2 events := by
  intro asked
  unfold handleEvents
  exact foldlM_handleEvent fnmatch env ⟨cfg, topo, now, asked.1⟩ events 0 asked.2

/-- After a batch only processes of `K` are tracked, if before it every tracked process is
in `K` or exits in the batch, and no other process enters. -/
theorem run_handled_trackedIn {K : Int → Prop} {events : List ProcessEvent} {s : System κ}
    (hstart : TrackedIn (fun pid => K pid ∨ ∃ ev ∈ events,
      ev.kind = .exit ∧ ev.tid = ev.pid ∧ ev.pid = pid) s)
    (henters : AtEach (handled fnmatch env args)
      (fun s ev => Enters fnmatch env args s ev → K ev.pid) s events) :
    TrackedIn K (run (handled fnmatch env args) s events) := by
  induction events generalizing s with
  | nil =>
      refine hstart.mono fun pid hpid => ?_
      rcases hpid with hK | ⟨ev, hev, -⟩
      · exact hK
      · exact absurd hev List.not_mem_nil
  | cons ev events ih =>
      obtain ⟨hfirst, hrest⟩ := (atEach_cons_iff _).mp henters
      refine ih (s := handled fnmatch env args s ev) (fun pid hpid => ?_) hrest
      rcases handleEvent_tracked fnmatch env args s ev s rfl pid hpid with
        ⟨hold, hstays⟩ | ⟨rfl, hnew⟩
      · rcases hstart pid hold with hK | ⟨exit, hmem, hexit, htid, hpid'⟩
        · exact Or.inl hK
        · rcases List.mem_cons.mp hmem with rfl | hmem
          · exact absurd ⟨hexit, htid, hpid'.symm⟩ hstays
          · exact Or.inr ⟨exit, hmem, hexit, htid, hpid'⟩
      · exact Or.inl (hfirst hnew)

end Events

end Threadctl.Core
