import Threadctl.Core.Store
import Threadctl.Support.Runs

/-!
# Two reloads at once

The hot-reload thread and the IPC thread may both be inside `ConfigStore::reload`
while the configuration file is written.  The version is read in the first step of a
call and the snapshot replaced in the last, with the lock released in between.
-/

namespace Threadctl.Core

open Threadctl.Support.Runs

/-! ## The steps of two calls -/

inductive Caller where
  | hotReload
  | ipc
  deriving DecidableEq

def Caller.other : Caller → Caller
  | .hotReload => .ipc
  | .ipc => .hotReload

inductive CallState where
  | idle
  | running (point : ReloadPoint)
  | ok
  | failed

def CallState.step (loaded : Option Compiled) (store : ConfigSnapshot) :
    CallState → ConfigSnapshot × CallState
  | .idle => (store, .running (beginReload store))
  | .running point =>
      let r := point.step loaded store
      match r.2 with
      | .running point => (r.1, .running point)
      | .ok => (r.1, .ok)
      | .failed => (r.1, .failed)
  | .ok => (store, .ok)
  | .failed => (store, .failed)

def CallState.readsNext : CallState → Bool
  | .running (.load _) => true
  | _ => false

structure Race where
  store : ConfigSnapshot
  /-- What loading the file would give now. -/
  file : Option Compiled
  call : Caller → CallState
  /-- What the latest successful read of the file gave. -/
  lastRead : Option Compiled

inductive RaceMove where
  | step (who : Caller)
  | write (content : Option Compiled)

def Race.step (s : Race) : RaceMove → Race
  | .write content => { s with file := content }
  | .step who =>
      let r := (s.call who).step s.file s.store
      { s with
        store := r.1
        call := Function.update s.call who r.2
        lastRead := if (s.call who).readsNext then s.file.or s.lastRead else s.lastRead }

def Race.start (store : ConfigSnapshot) (file : Option Compiled) : Race :=
  ⟨store, file, fun _ => .idle, none⟩

def CallState.isRunning : CallState → Bool
  | .running _ => true
  | _ => false

def Race.Overlap (s : Race) : Prop := ∀ who, (s.call who).isRunning = true

def Race.BothOk (s : Race) : Prop := ∀ who, s.call who = .ok

/-- If both calls succeed, the last file content that was read is in the store, two
versions on; and no step of a call that fails touches the store. -/
def LosesNothing (start : Race) (moves : List RaceMove) : Prop :=
  ((run Race.step start moves).BothOk →
      ∃ c, (run Race.step start moves).lastRead = some c ∧
        (run Race.step start moves).store = c.snapshot (start.store.version + 2)) ∧
    ∀ who, (run Race.step start moves).call who = .failed →
      ∀ before after, moves = before ++ .step who :: after →
        (run Race.step start (before ++ [.step who])).store = (run Race.step start before).store

/-! ## A step, by the state of the call -/

@[simp] theorem Caller.other_ne (who : Caller) : who.other ≠ who := by
  cases who <;> decide

theorem Caller.eq_or_other (who who' : Caller) : who' = who ∨ who' = who.other := by
  cases who <;> cases who' <;> decide

@[simp] theorem Race.step_call_self (s : Race) (who : Caller) :
    (s.step (.step who)).call who = ((s.call who).step s.file s.store).2 :=
  Function.update_self ..

@[simp] theorem Race.step_call_other (s : Race) (who : Caller) :
    (s.step (.step who)).call who.other = s.call who.other :=
  Function.update_of_ne who.other_ne ..

@[simp] theorem Race.step_store (s : Race) (who : Caller) :
    (s.step (.step who)).store = ((s.call who).step s.file s.store).1 := rfl

@[simp] theorem Race.step_lastRead (s : Race) (who : Caller) :
    (s.step (.step who)).lastRead =
      if (s.call who).readsNext then s.file.or s.lastRead else s.lastRead := rfl

/-- Everything a step of a call can do. -/
inductive StepCase (s : Race) (who : Caller) : Prop
  | begins (before : s.call who = .idle)
      (after : (s.step (.step who)).call who = .running (.load (s.store.version + 1)))
      (store : (s.step (.step who)).store = s.store)
      (lastRead : (s.step (.step who)).lastRead = s.lastRead)
  | reads (version : Nat) (c : Compiled) (before : s.call who = .running (.load version))
      (after : (s.step (.step who)).call who = .running (.install (c.snapshot version)))
      (store : (s.step (.step who)).store = s.store)
      (lastRead : (s.step (.step who)).lastRead = some c)
  | fails (version : Nat) (before : s.call who = .running (.load version))
      (after : (s.step (.step who)).call who = .failed)
      (store : (s.step (.step who)).store = s.store)
      (lastRead : (s.step (.step who)).lastRead = s.lastRead)
  | installs (snapshot : ConfigSnapshot) (before : s.call who = .running (.install snapshot))
      (after : (s.step (.step who)).call who = .ok)
      (store : (s.step (.step who)).store = snapshot)
      (lastRead : (s.step (.step who)).lastRead = s.lastRead)
  | rests (before : s.call who = .ok ∨ s.call who = .failed)
      (after : (s.step (.step who)).call who = s.call who)
      (store : (s.step (.step who)).store = s.store)
      (lastRead : (s.step (.step who)).lastRead = s.lastRead)

theorem step_cases (s : Race) (who : Caller) : StepCase s who := by
  cases hcall : s.call who with
  | idle =>
      apply StepCase.begins hcall
      · simp [hcall, CallState.step, beginReload]
      · simp [hcall, CallState.step]
      · simp [hcall, CallState.readsNext]
  | running point =>
      cases point with
      | load version =>
          cases hfile : s.file with
          | none =>
              apply StepCase.fails version hcall
              · simp [hcall, hfile, CallState.step, ReloadPoint.step]
              · simp [hcall, hfile, CallState.step, ReloadPoint.step]
              · simp [hcall, hfile, CallState.readsNext]
          | some c =>
              apply StepCase.reads version c hcall
              · simp [hcall, hfile, CallState.step, ReloadPoint.step]
              · simp [hcall, hfile, CallState.step, ReloadPoint.step]
              · simp [hcall, hfile, CallState.readsNext]
      | install snapshot =>
          apply StepCase.installs snapshot hcall
          · simp [hcall, CallState.step, ReloadPoint.step]
          · simp [hcall, CallState.step, ReloadPoint.step]
          · simp [hcall, CallState.readsNext]
  | ok =>
      apply StepCase.rests (Or.inl hcall)
      · simp [hcall, CallState.step]
      · simp [hcall, CallState.step]
      · simp [hcall, CallState.readsNext]
  | failed =>
      apply StepCase.rests (Or.inr hcall)
      · simp [hcall, CallState.step]
      · simp [hcall, CallState.step]
      · simp [hcall, CallState.readsNext]

theorem forall_call_step {s : Race} {who : Caller} {P : CallState → Prop}
    (hself : P ((s.step (.step who)).call who)) (hall : ∀ w, P (s.call w)) (w : Caller) :
    P ((s.step (.step who)).call w) := by
  rcases who.eq_or_other w with rfl | rfl
  · exact hself
  · rw [Race.step_call_other]
    exact hall _

/-! ## Versions are bounded by the successful calls -/

def CallState.done : CallState → Nat
  | .ok => 1
  | _ => 0

def Race.doneCount (s : Race) : Nat := (s.call .hotReload).done + (s.call .ipc).done

theorem Race.doneCount_eq (s : Race) (who : Caller) :
    s.doneCount = (s.call who).done + (s.call who.other).done := by
  cases who with
  | hotReload => rfl
  | ipc => exact Nat.add_comm ..

def CallState.version : CallState → Option Nat
  | .running (.load version) => some version
  | .running (.install snapshot) => some snapshot.version
  | _ => none

/-- A step keeps the store, or installs the version of its call and ends it; a new
version is one above that of the store, taken by a call that was idle. -/
theorem step_versions (s : Race) (who : Caller) :
    ((s.step (.step who)).store = s.store ∧
        ((s.step (.step who)).call who).done = (s.call who).done ∧
        ∀ v, ((s.step (.step who)).call who).version = some v →
          (s.call who = .idle ∧ v = s.store.version + 1) ∨ (s.call who).version = some v) ∨
      ((s.call who).version = some (s.step (.step who)).store.version ∧
        (s.call who).done = 0 ∧ (s.step (.step who)).call who = .ok) := by
  cases step_cases s who with
  | begins before after store =>
      refine Or.inl ⟨store, by rw [before, after]; rfl, ?_⟩
      rw [after]
      rintro v ⟨rfl⟩
      exact Or.inl ⟨before, rfl⟩
  | reads version c before after store =>
      refine Or.inl ⟨store, by rw [before, after]; rfl, ?_⟩
      rw [before, after]
      exact fun v hv => Or.inr hv
  | fails version before after store =>
      refine Or.inl ⟨store, by rw [before, after]; rfl, ?_⟩
      rw [after]
      exact nofun
  | installs snapshot before after store =>
      refine Or.inr ⟨?_, by rw [before]; rfl, after⟩
      rw [before, store]
      rfl
  | rests before after store =>
      refine Or.inl ⟨store, by rw [after], ?_⟩
      rw [after]
      exact fun v hv => Or.inr hv

theorem doneCount_step (s : Race) (who : Caller) :
    (s.step (.step who)).doneCount + (s.call who).done =
      s.doneCount + ((s.step (.step who)).call who).done := by
  have hbefore := s.doneCount_eq who
  have hafter := (s.step (.step who)).doneCount_eq who
  rw [Race.step_call_other] at hafter
  omega

/-- `base` is the version before both calls. -/
structure Race.Counted (base : Nat) (s : Race) : Prop where
  store_le : s.store.version ≤ base + s.doneCount
  call_le : ∀ who v, (s.call who).version = some v → v ≤ base + s.doneCount + 1

theorem counted_step {base : Nat} (s : Race) (m : RaceMove) (h : s.Counted base) :
    (s.step m).Counted base := by
  cases m with
  | write content => exact ⟨h.store_le, h.call_le⟩
  | step who =>
      have hcount := doneCount_step s who
      have hle := h.store_le
      rcases step_versions s who with ⟨hstore, hdone, hversions⟩ | ⟨hversion, hrunning, hok⟩
      · have hsame : (s.step (.step who)).doneCount = s.doneCount := by omega
        refine ⟨by rw [hstore, hsame]; exact hle, ?_⟩
        rw [hsame]
        apply forall_call_step (P := fun c => ∀ v, c.version = some v → v ≤ _) _ h.call_le
        intro v hv
        rcases hversions v hv with ⟨-, rfl⟩ | hkept
        · omega
        · exact h.call_le who v hkept
      · have hle' := h.call_le who _ hversion
        have hone : ((s.step (.step who)).call who).done = 1 := by rw [hok]; rfl
        refine ⟨by omega, ?_⟩
        apply forall_call_step (P := fun c => ∀ v, c.version = some v → v ≤ _)
        · rw [hok]
          exact nofun
        · intro w v hv
          have := h.call_le w v hv
          omega

/-- Both calls have begun, and no version is above `bound`. -/
structure Race.Capped (bound : Nat) (s : Race) : Prop where
  begun : ∀ who, s.call who ≠ .idle
  store_le : s.store.version ≤ bound
  call_le : ∀ who v, (s.call who).version = some v → v ≤ bound

theorem begun_step {s : Race} {who : Caller} (h : s.call who ≠ .idle) :
    (s.step (.step who)).call who ≠ .idle := by
  cases step_cases s who with
  | begins before => exact absurd before h
  | reads version c before after => rw [after]; exact nofun
  | fails version before after => rw [after]; exact nofun
  | installs snapshot before after => rw [after]; exact nofun
  | rests before after => rwa [after]

theorem capped_step {bound : Nat} (s : Race) (m : RaceMove) (h : s.Capped bound) :
    (s.step m).Capped bound := by
  cases m with
  | write content => exact ⟨h.begun, h.store_le, h.call_le⟩
  | step who =>
      have hbegun := forall_call_step (P := (· ≠ .idle)) (begun_step (h.begun who)) h.begun
      rcases step_versions s who with ⟨hstore, -, hversions⟩ | ⟨hversion, -, hok⟩
      · refine ⟨hbegun, hstore ▸ h.store_le, ?_⟩
        apply forall_call_step (P := fun c => ∀ v, c.version = some v → v ≤ bound) _ h.call_le
        intro v hv
        rcases hversions v hv with ⟨hidle, -⟩ | hkept
        · exact absurd hidle (h.begun who)
        · exact h.call_le who v hkept
      · refine ⟨hbegun, h.call_le who _ hversion, ?_⟩
        apply forall_call_step (P := fun c => ∀ v, c.version = some v → v ≤ bound) _ h.call_le
        rw [hok]
        exact nofun

/-- From the moment both calls are in progress, the version stays within one of the
version at the start. -/
theorem capped_of_overlap {base : Nat} {s : Race} (h : s.Counted base) (hoverlap : s.Overlap) :
    s.Capped (base + 1) := by
  have hdone : ∀ who, (s.call who).done = 0 := by
    intro who
    have := hoverlap who
    cases hcall : s.call who <;> simp [hcall, CallState.isRunning, CallState.done] at this ⊢
  have hcount : s.doneCount = 0 := by rw [s.doneCount_eq .ipc, hdone, hdone]
  have hstore := h.store_le
  refine ⟨?_, by omega, ?_⟩
  · intro who hidle
    have := hoverlap who
    simp [hidle, CallState.isRunning] at this
  · intro who v hv
    have := h.call_le who v hv
    omega

/-! ## Calls one after the other -/

/-- Nothing is lost so far: versions count the successful calls, a snapshot that waits
to be installed is the last file content read, and so is the store after a success. -/
structure Race.Serial (base : Nat) (s : Race) : Prop where
  store_eq : s.store.version = base + s.doneCount
  call_eq : ∀ who v, (s.call who).version = some v → v = base + s.doneCount + 1
  waiting : ∀ who snapshot, s.call who = .running (.install snapshot) →
    ∃ c, s.lastRead = some c ∧ snapshot = c.snapshot snapshot.version
  settled : 0 < s.doneCount → (∀ who snapshot, s.call who ≠ .running (.install snapshot)) →
    ∃ c, s.lastRead = some c ∧ s.store = c.snapshot s.store.version

theorem not_running_other {s : Race} (h : ¬ s.Overlap) (who : Caller)
    (hrunning : (s.call who).isRunning = true) : (s.call who.other).isRunning = false := by
  by_contra hother
  apply h
  intro w
  rcases who.eq_or_other w with rfl | rfl
  · exact hrunning
  · simpa using hother

theorem eq_of_running {s : Race} {who w : Caller} (hbefore : ¬ s.Overlap)
    (hrunning : (s.call who).isRunning = true)
    (hw : ((s.step (.step who)).call w).isRunning = true) : who = w := by
  rcases who.eq_or_other w with rfl | rfl
  · rfl
  · rw [Race.step_call_other, not_running_other hbefore who hrunning] at hw
    exact absurd hw Bool.false_ne_true

theorem running_of_version {c : CallState} {v : Nat} (h : c.version = some v) :
    c.isRunning = true := by
  cases c with
  | running point => rfl
  | idle => simp [CallState.version] at h
  | ok => simp [CallState.version] at h
  | failed => simp [CallState.version] at h

theorem serial_of_keeps {base : Nat} {s : Race} {who : Caller} (h : s.Serial base)
    (hstore : (s.step (.step who)).store = s.store)
    (hread : (s.step (.step who)).lastRead = s.lastRead)
    (hcount : (s.step (.step who)).doneCount = s.doneCount)
    (hversion : ∀ v, ((s.step (.step who)).call who).version = some v →
      v = base + s.doneCount + 1)
    (hinstall : ∀ snapshot, (s.step (.step who)).call who = .running (.install snapshot) ↔
      s.call who = .running (.install snapshot)) :
    (s.step (.step who)).Serial base := by
  have hinstalls : ∀ w snapshot, (s.step (.step who)).call w = .running (.install snapshot) ↔
      s.call w = .running (.install snapshot) := by
    intro w snapshot
    rcases who.eq_or_other w with rfl | rfl
    · exact hinstall snapshot
    · rw [Race.step_call_other]
  refine ⟨?_, ?_, ?_, ?_⟩
  · rw [hstore, hcount, h.store_eq]
  · rw [hcount]
    exact forall_call_step (P := fun c => ∀ v, c.version = some v → v = _) hversion h.call_eq
  · intro w snapshot hw
    rw [hread]
    exact h.waiting w snapshot ((hinstalls w snapshot).mp hw)
  · intro hpos hnone
    rw [hread, hstore]
    apply h.settled (hcount ▸ hpos)
    intro w snapshot hw
    exact hnone w snapshot ((hinstalls w snapshot).mpr hw)

theorem serial_step {base : Nat} (s : Race) (m : RaceMove) (hbefore : ¬ s.Overlap)
    (h : s.Serial base) : (s.step m).Serial base := by
  cases m with
  | write content => exact ⟨h.store_eq, h.call_eq, h.waiting, h.settled⟩
  | step who =>
      have hcount := doneCount_step s who
      cases step_cases s who with
      | begins before after store lastRead =>
          rw [before, after] at hcount
          apply serial_of_keeps h store lastRead hcount
          · rw [after]
            rintro v ⟨rfl⟩
            rw [h.store_eq]
          · rw [before, after]
            exact fun _ => ⟨nofun, nofun⟩
      | reads version c before after store lastRead =>
          have hrunning : (s.call who).isRunning = true := by
            rw [before]
            rfl
          have hversion := h.call_eq who version (by rw [before]; rfl)
          rw [before, after] at hcount
          have hsame : (s.step (.step who)).doneCount = s.doneCount := hcount
          refine ⟨?_, ?_, ?_, ?_⟩
          · rw [store, hsame, h.store_eq]
          · rw [hsame]
            apply forall_call_step (P := fun c => ∀ v, c.version = some v → v = _) _ h.call_eq
            rw [after]
            rintro v ⟨rfl⟩
            exact hversion
          · intro w snapshot hw
            obtain rfl := eq_of_running hbefore hrunning (by rw [hw]; rfl)
            rw [after] at hw
            cases hw
            exact ⟨c, lastRead, rfl⟩
          · intro _ hnone
            exact absurd after (hnone who _)
      | fails version before after store lastRead =>
          rw [before, after] at hcount
          apply serial_of_keeps h store lastRead hcount
          · rw [after]
            exact nofun
          · rw [before, after]
            exact fun _ => ⟨nofun, nofun⟩
      | installs snapshot before after store lastRead =>
          have hrunning : (s.call who).isRunning = true := by
            rw [before]
            rfl
          have hversion := h.call_eq who snapshot.version (by rw [before]; rfl)
          obtain ⟨c, hread, hsnapshot⟩ := h.waiting who snapshot before
          rw [before, after] at hcount
          have hmore : (s.step (.step who)).doneCount = s.doneCount + 1 := hcount
          refine ⟨?_, ?_, ?_, ?_⟩
          · rw [store, hmore, hversion, Nat.add_assoc]
          · intro w v hw
            obtain rfl := eq_of_running hbefore hrunning (running_of_version hw)
            rw [after] at hw
            exact absurd hw nofun
          · intro w other hw
            obtain rfl := eq_of_running hbefore hrunning (by rw [hw]; rfl)
            rw [after] at hw
            exact absurd hw nofun
          · intro _ _
            rw [lastRead, store]
            exact ⟨c, hread, hsnapshot⟩
      | rests before after store lastRead =>
          have hsame : (s.step (.step who)).doneCount = s.doneCount := by
            rw [after] at hcount
            omega
          apply serial_of_keeps h store lastRead hsame
          · rw [after]
            exact h.call_eq who
          · rw [after]
            exact fun _ => Iff.rfl

/-! ## Contract: concurrent reloads -/

theorem ok_step {s : Race} (m : RaceMove) {who : Caller} (h : s.call who = .ok) :
    (s.step m).call who = .ok := by
  cases m with
  | write content => exact h
  | step who' =>
      rcases who'.eq_or_other who with rfl | rfl
      · simp [h, CallState.step]
      · rw [Race.step_call_other, h]

theorem failed_keeps_store (start : Race) (moves : List RaceMove) (who : Caller)
    (hfailed : (run Race.step start moves).call who = .failed) (before after : List RaceMove)
    (hmoves : moves = before ++ .step who :: after) :
    (run Race.step start (before ++ [.step who])).store = (run Race.step start before).store := by
  have hrun : run Race.step start moves =
      run Race.step (run Race.step start (before ++ [.step who])) after := by
    rw [← run_append, hmoves, List.append_assoc, List.singleton_append]
  rw [run_concat] at hrun ⊢
  cases step_cases (run Race.step start before) who with
  | begins _ _ store => exact store
  | reads _ _ _ _ store => exact store
  | fails _ _ _ store => exact store
  | rests _ _ store => exact store
  | installs snapshot _ hok =>
      have hend : (run Race.step start moves).call who = .ok := by
        rw [hrun]
        exact run_invariant Race.step (Q := fun s => s.call who = .ok) (fun s m h => ok_step m h)
          hok after
      rw [hend] at hfailed
      exact absurd hfailed nofun

theorem counted_start (store : ConfigSnapshot) (file : Option Compiled) :
    (Race.start store file).Counted store.version :=
  ⟨Nat.le_add_right _ _, nofun⟩

theorem serial_start (store : ConfigSnapshot) (file : Option Compiled) :
    (Race.start store file).Serial store.version :=
  ⟨rfl, nofun, nofun, nofun⟩

theorem losesNothing_of_no_overlap {store : ConfigSnapshot} {file : Option Compiled}
    {moves : List RaceMove}
    (h : Throughout Race.step (fun s => ¬ s.Overlap) (Race.start store file) moves) :
    LosesNothing (Race.start store file) moves := by
  have hserial := run_invariant_throughout Race.step
    (fun s m hbefore _ hs => serial_step s m hbefore hs) (serial_start store file) h
  refine ⟨?_, failed_keeps_store _ moves⟩
  intro hok
  have hcount : (run Race.step (Race.start store file) moves).doneCount = 2 := by
    rw [Race.doneCount_eq _ .ipc, hok, hok]
    rfl
  obtain ⟨c, hread, hstore⟩ := hserial.settled (by omega) (by
    intro who snapshot hw
    rw [hok who] at hw
    exact absurd hw nofun)
  rw [hserial.store_eq, hcount] at hstore
  exact ⟨c, hread, hstore⟩

/-- Two reloads lose nothing exactly when, if both succeed, they are never in progress
at the same time. -/
theorem losesNothing_iff (store : ConfigSnapshot) (file : Option Compiled)
    (moves : List RaceMove) :
    LosesNothing (Race.start store file) moves ↔
      ((run Race.step (Race.start store file) moves).BothOk →
        Throughout Race.step (fun s => ¬ s.Overlap) (Race.start store file) moves) := by
  constructor
  · rintro ⟨hlater, -⟩ hok before after rfl hoverlap
    obtain ⟨c, -, hstore⟩ := hlater hok
    have hcounted := run_invariant Race.step counted_step
      (counted_start store file) before
    have hcapped := run_invariant Race.step capped_step
      (capped_of_overlap hcounted hoverlap) after
    have hle := hcapped.store_le
    rw [← run_append, hstore] at hle
    exact absurd hle (by simp [Compiled.snapshot, Race.start])
  · intro h
    by_cases hok : (run Race.step (Race.start store file) moves).BothOk
    · exact losesNothing_of_no_overlap (h hok)
    · exact ⟨fun hok' => absurd hok' hok, failed_keeps_store _ moves⟩

/-- The older of two file contents ends up in the store, under a version handed out
twice. -/
theorem reload_race_loses :
    let old : Compiled := ⟨(compile [.ofCpus "com.a" "" "0-3"] (.flat 8)).rules, .default⟩
    let new : Compiled := ⟨(compile [.ofCpus "com.b" "" "4-7"] (.flat 8)).rules, .default⟩
    let start : Race := .start (old.snapshot 1) (some old)
    let moves : List RaceMove :=
      [.step .hotReload, .step .hotReload, .write (some new), .step .ipc, .step .ipc, .step .ipc,
        .step .hotReload]
    (run Race.step start moves).store.rules.pkgs = ["com.a"] ∧
      (run Race.step start moves).lastRead.map (·.rules.pkgs) = some ["com.b"] ∧
      ¬ LosesNothing start moves := by
  intro old new start moves
  have hok : (run Race.step start moves).BothOk := by
    intro who
    cases who with
    | hotReload => rfl
    | ipc => rfl
  have hversion : (run Race.step start moves).store.version = 2 := rfl
  refine ⟨by decide +kernel, by decide +kernel, ?_⟩
  rintro ⟨hlater, -⟩
  obtain ⟨c, -, hstore⟩ := hlater hok
  have htwo : 1 + 2 = 2 := (congrArg ConfigSnapshot.version hstore).symm.trans hversion
  exact absurd htwo (by decide)

end Threadctl.Core
