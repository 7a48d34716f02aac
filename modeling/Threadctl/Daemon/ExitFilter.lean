import Threadctl.Core.TrackedPids
import Threadctl.Daemon.EbpfContract

/-!
# The filter of exits

The kernel drops the exit of a thread or process unless its process is a key of
`TRACKED_TGID_MAP`.  The source writes the map while it polls, and the tracker learns of
the processes only when the events of the poll are handled.
-/

namespace Threadctl.Daemon

open Threadctl.Core Threadctl.Support.Runs Threadctl.Support.StateRun

variable {κ : Type}

/-! ## Kernel maps -/

section Maps

variable {α : Type} [DecidableEq α]

def BpfMap.accepts (m : BpfMap α) (key : α) : Bool :=
  decide (key ∈ m.keys) || decide (m.keys.length < m.capacity)

def BpfMap.fits : BpfMap α → List α → Bool
  | _, [] => true
  | m, key :: keys => m.accepts key && (m.insert key).fits keys

theorem mem_insert_of_accepts {m : BpfMap α} {key : α} (h : m.accepts key = true) (k : α) :
    k ∈ (m.insert key).keys ↔ k ∈ m.keys ∨ k = key := by
  unfold BpfMap.insert
  split
  · rename_i hmem
    constructor
    · exact Or.inl
    · rintro (hk | rfl)
      · exact hk
      · exact hmem
  · rename_i hmem
    have hroom : m.keys.length < m.capacity := by simpa [BpfMap.accepts, hmem] using h
    rw [if_pos hroom]
    simp

theorem mem_foldl_insert {keys : List α} {m : BpfMap α} (h : m.fits keys = true) (k : α) :
    k ∈ (keys.foldl BpfMap.insert m).keys ↔ k ∈ m.keys ∨ k ∈ keys := by
  induction keys generalizing m with
  | nil => simp
  | cons key keys ih =>
      rw [BpfMap.fits, Bool.and_eq_true] at h
      rw [List.foldl_cons, ih h.2, mem_insert_of_accepts h.1, List.mem_cons, or_assoc]

theorem mem_foldl_remove (keys : List α) (m : BpfMap α) (k : α) :
    k ∈ (keys.foldl BpfMap.remove m).keys ↔ k ∈ m.keys ∧ k ∉ keys := by
  induction keys generalizing m with
  | nil => simp
  | cons key keys ih =>
      have hremove : k ∈ (m.remove key).keys ↔ k ∈ m.keys ∧ k ≠ key := by simp [BpfMap.remove]
      rw [List.foldl_cons, ih, hremove, List.mem_cons, not_or, and_assoc]

/-- After a sync whose insertions succeed the map holds exactly the tracked processes. -/
theorem mem_syncTracked {pids : List Int} {m : BpfMap Int} (h : m.fits pids = true) (k : Int) :
    k ∈ (syncTracked pids m).keys ↔ k ∈ pids := by
  unfold syncTracked
  dsimp only
  rw [mem_foldl_remove, List.mem_filter, mem_foldl_insert h]
  by_cases hk : k ∈ pids
  · simp [hk]
  · simp [hk]

end Maps

/-! ## What a poll does to the map -/

def processExits (evs : List EbpfProcEvent) : List Int :=
  (evs.filter fun ev => ev.eventType = eventExit ∧ ev.tid = ev.pid).map (·.pid)

def spawnedPids (events : List ProcessEvent) : List Int :=
  (events.filter fun ev => ev.kind = .fork ∨ ev.kind = .threadClone).map (·.pid)

section Poll

variable (fnmatch : String → String → Bool) (env : Env κ)

/-- A poll up to its sync. -/
def EbpfSource.collect (src : EbpfSource) : Run κ (Round EbpfSource) := do
  let r ← scanOnce fnmatch env src
  drain fnmatch env r

/-- The processes that `flush_pending` confirms: their forks and clones come after the
events of the scan. -/
def EbpfSource.confirmed (src : EbpfSource) (s : System κ) : List Int :=
  let scanned := (scanOnce fnmatch env src).run s
  let drained := (drain fnmatch env scanned.1).run scanned.2
  spawnedPids (drained.1.events.drop scanned.1.events.length)

/-- The time at which the poll looks whether a sync is due. -/
def EbpfSource.syncClock (src : EbpfSource) (s : System κ) : Nat × System κ :=
  (ask env.instantNow).run ((src.collect fnmatch env).run s).2

def EbpfSource.syncs (src : EbpfSource) (s : System κ) : Bool :=
  trackedSyncSecs ≤ ((src.syncClock fnmatch env s).1 - src.lastTrackedSync) / nanosPerSec

/-- The tracked processes in the order of a sync. -/
def EbpfSource.walked (src : EbpfSource) (s : System κ) : List Int :=
  ((pids env).run (src.syncClock fnmatch env s).2).1

/-- The map after the events of a poll, before its sync. -/
def EbpfSource.mapDrained (src : EbpfSource) (s : System κ) (m : BpfMap Int) : BpfMap Int :=
  (src.confirmed fnmatch env s).foldl BpfMap.insert
    ((processExits (src.eventRx.take drainMax)).foldl BpfMap.remove m)

def EbpfSource.mapPolled (src : EbpfSource) (s : System κ) (m : BpfMap Int) : BpfMap Int :=
  let m := src.mapDrained fnmatch env s m
  if src.syncs fnmatch env s then syncTracked (src.walked fnmatch env s) m else m

end Poll

/-! ## The parts of a poll -/

section Parts

variable (fnmatch : String → String → Bool) (env : Env κ) {tracker : StateTracker}

theorem ask_tracker {α : Type} (x : StateM κ α) (tracker : StateTracker) :
    Keeps (fun s => s.tracker = tracker) (ask x) := fun _ hs => hs

/-- The scan neither writes the map nor takes anything from the queue. -/
structure ScanEffect (src src' : EbpfSource) : Prop where
  map_eq : src'.trackedTgid = src.trackedTgid
  sync_eq : src'.lastTrackedSync = src.lastTrackedSync
  queue_eq : src'.eventRx = src.eventRx

theorem initialScanProcess_effect (rules : RuleSet) (src : EbpfSource) {r : Round EbpfSource}
    (hr : ScanEffect src r.src) (pid : Int) :
    Triple (fun s => s.tracker = tracker) (initialScanProcess fnmatch env rules r pid) fun r' s =>
      ScanEffect src r'.src ∧ s.tracker = tracker := by
  refine Triple.bind (ask_tracker _ tracker) fun read => ?_
  cases read.filter (!·.isEmpty) with
  | none => exact Triple.pure fun s hs => ⟨hr, hs⟩
  | some pkg =>
      apply Triple.ite
      · exact Triple.pure fun s hs => ⟨hr, hs⟩
      · exact Triple.pure fun s hs => ⟨⟨hr.map_eq, hr.sync_eq, hr.queue_eq⟩, hs⟩

theorem scanOnce_effect (src : EbpfSource) :
    Triple (fun s => s.tracker = tracker) (scanOnce fnmatch env src) fun r s =>
      ScanEffect src r.src ∧ s.tracker = tracker := by
  have hsame : ScanEffect src src := ⟨rfl, rfl, rfl⟩
  apply Triple.ite
  · exact Triple.pure fun s hs => ⟨hsame, hs⟩
  · refine Triple.bind (Q := fun r s => ScanEffect src r.src ∧ s.tracker = tracker) ?_ fun r =>
      Triple.pure fun s hs => ⟨⟨hs.1.map_eq, hs.1.sync_eq, hs.1.queue_eq⟩, hs.2⟩
    unfold initialScan
    cases src.cfg with
    | none => exact Triple.pure fun s hs => ⟨hsame, hs⟩
    | some cfg =>
        refine Triple.bind (ask_tracker _ tracker) fun dir => ?_
        cases dir with
        | none => exact Triple.pure fun s hs => ⟨hsame, hs⟩
        | some names =>
            refine (Triple.foldlM (I := fun _ r s => ScanEffect src r.src ∧ s.tracker = tracker)
              _ _ fun pid rest r => Triple.pre fun hr => ?_).mono (fun s hs => ⟨hsame, hs⟩)
                fun _ _ hs => hs
            exact initialScanProcess_effect fnmatch env cfg.rules src hr pid

/-- Raw events: the map loses the exiting processes, and each of them that is tracked is
reported. -/
structure RawEffect (tracker : StateTracker) (exits : List Int) (r r' : Round EbpfSource) :
    Prop where
  map_eq : r'.src.trackedTgid = r.src.trackedTgid.map fun m => exits.foldl BpfMap.remove m
  sync_eq : r'.src.lastTrackedSync = r.src.lastTrackedSync
  reported : ∃ new, r'.events = r.events ++ new ∧ spawnedPids new = [] ∧
    ∀ pid ∈ exits, tracker.contains pid = true → ProcessEvent.exit pid pid ∈ new

theorem RawEffect.trans {exits exits' : List Int} {r r' r'' : Round EbpfSource}
    (h : RawEffect tracker exits r r') (h' : RawEffect tracker exits' r' r'') :
    RawEffect tracker (exits ++ exits') r r'' := by
  obtain ⟨new, hnew, hspawned, hexits⟩ := h.reported
  obtain ⟨new', hnew', hspawned', hexits'⟩ := h'.reported
  refine ⟨?_, h'.sync_eq.trans h.sync_eq, new ++ new', ?_, ?_, ?_⟩
  · rw [h'.map_eq, h.map_eq, Option.map_map]
    simp only [Function.comp_def, List.foldl_append]
  · rw [hnew', hnew, List.append_assoc]
  · unfold spawnedPids at *
    rw [List.filter_append, List.map_append, hspawned, hspawned', List.append_nil]
  · intro pid hpid htracked
    rcases List.mem_append.mp hpid with hmem | hmem
    · exact List.mem_append_left _ (hexits pid hmem htracked)
    · exact List.mem_append_right _ (hexits' pid hmem htracked)

theorem rawEffect_none {r r' : Round EbpfSource}
    (hmap : r'.src.trackedTgid = r.src.trackedTgid)
    (hsync : r'.src.lastTrackedSync = r.src.lastTrackedSync) {new : List ProcessEvent}
    (hnew : r'.events = r.events ++ new) (hspawned : spawnedPids new = []) :
    RawEffect tracker [] r r' := by
  refine ⟨?_, hsync, new, hnew, hspawned, nofun⟩
  rw [hmap]
  cases r.src.trackedTgid with
  | none => rfl
  | some m => rfl

theorem handleFork_effect (r : Round EbpfSource) (pid : Int) :
    Triple (fun s => s.tracker = tracker) (handleFork env r pid) fun r' s =>
      RawEffect tracker [] r r' ∧ s.tracker = tracker := by
  have hsame : RawEffect tracker [] r r :=
    rawEffect_none rfl rfl (List.append_nil _).symm rfl
  apply Triple.ite
  · exact Triple.pure fun s hs => ⟨hsame, hs⟩
  · apply Triple.ite
    · refine Triple.bind (ask_tracker _ tracker) fun now => Triple.pure fun s hs => ⟨?_, hs⟩
      exact rawEffect_none rfl rfl (List.append_nil _).symm rfl
    · exact Triple.pure fun s hs => ⟨hsame, hs⟩

/-- The event that `handle_raw` makes of an exit. -/
def exitEvents (tracker : StateTracker) (ev : EbpfProcEvent) : List ProcessEvent :=
  if tracker.contains ev.pid then [ProcessEvent.exit ev.pid ev.tid] else []

theorem spawnedPids_exitEvents (tracker : StateTracker) (ev : EbpfProcEvent) :
    spawnedPids (exitEvents tracker ev) = [] := by
  unfold exitEvents
  split <;> rfl

theorem handleExit_effect (r : Round EbpfSource) (ev : EbpfProcEvent) :
    Triple (fun s => s.tracker = tracker) (handleExit r ev : Run κ (Round EbpfSource))
      fun r' s => RawEffect tracker (if ev.tid = ev.pid then [ev.pid] else []) r r' ∧
        s.tracker = tracker := by
  apply Triple.get
  rintro s rfl
  apply Triple.pure
  rintro t rfl
  refine ⟨?_, rfl⟩
  have hpushed : (if t.tracker.contains ev.pid then r.push (ProcessEvent.exit ev.pid ev.tid)
      else r) = { r with events := r.events ++ exitEvents t.tracker ev } := by
    unfold exitEvents
    split
    · rfl
    · rw [List.append_nil]
  rw [hpushed]
  have hspawned := spawnedPids_exitEvents t.tracker ev
  by_cases hprocess : ev.tid = ev.pid
  · rw [if_pos hprocess, if_pos hprocess]
    refine ⟨rfl, rfl, exitEvents t.tracker ev, rfl, hspawned, ?_⟩
    intro pid hpid htracked
    rw [List.mem_singleton.mp hpid] at htracked ⊢
    unfold exitEvents
    rw [if_pos htracked, hprocess]
    exact List.mem_cons_self
  · rw [if_neg hprocess, if_neg hprocess]
    exact rawEffect_none rfl rfl rfl hspawned

theorem handleRaw_effect (r : Round EbpfSource) (ev : EbpfProcEvent) :
    Triple (fun s => s.tracker = tracker) (handleRaw env r ev) fun r' s =>
      RawEffect tracker (processExits [ev]) r r' ∧ s.tracker = tracker := by
  have hnone (hev : ev.eventType ≠ eventExit) : processExits [ev] = [] := by
    simp [processExits, hev]
  apply Triple.ite_of
  · intro hfork
    rw [hnone (by rw [hfork]; decide)]
    exact handleFork_effect env r ev.pid
  · intro _
    apply Triple.ite_of
    · intro hexec
      rw [hnone (by rw [hexec]; decide)]
      exact Triple.pure fun s hs => ⟨rawEffect_none rfl rfl rfl rfl, hs⟩
    · intro _
      apply Triple.ite_of
      · intro hexit
        have hexits : processExits [ev] = if ev.tid = ev.pid then [ev.pid] else [] := by
          by_cases hprocess : ev.tid = ev.pid
          · simp [processExits, hexit, hprocess]
          · simp [processExits, hexit, hprocess]
        rw [hexits]
        exact handleExit_effect r ev
      · intro hother
        rw [hnone hother]
        exact Triple.pure fun s hs =>
          ⟨rawEffect_none rfl rfl (List.append_nil _).symm rfl, hs⟩

theorem foldlM_handleRaw_effect (evs : List EbpfProcEvent) (r : Round EbpfSource) :
    Triple (fun s => s.tracker = tracker) (evs.foldlM (handleRaw env) r) fun r' s =>
      RawEffect tracker (processExits evs) r r' ∧ s.tracker = tracker := by
  induction evs generalizing r with
  | nil =>
      exact Triple.pure fun s hs => ⟨rawEffect_none rfl rfl (List.append_nil _).symm rfl, hs⟩
  | cons ev evs ih =>
      rw [List.foldlM_cons]
      refine Triple.bind (handleRaw_effect env r ev) fun r' => Triple.pre fun hfirst => ?_
      refine (ih r').mono (fun _ hs => hs) fun r'' s hs => ⟨?_, hs.2⟩
      have hcons : processExits (ev :: evs) = processExits [ev] ++ processExits evs := by
        rw [processExits, ← List.singleton_append, List.filter_append, List.map_append]
        rfl
      rw [hcons]
      exact hfirst.trans hs.1

/-- Pending forks: every fork or clone that is reported is inserted. -/
structure FlushEffect (r r' : Round EbpfSource) : Prop where
  sync_eq : r'.src.lastTrackedSync = r.src.lastTrackedSync
  reported : ∃ new, r'.events = r.events ++ new ∧
    r'.src.trackedTgid = r.src.trackedTgid.map fun m => (spawnedPids new).foldl BpfMap.insert m

theorem flushEffect_none {r r' : Round EbpfSource}
    (hmap : r'.src.trackedTgid = r.src.trackedTgid)
    (hsync : r'.src.lastTrackedSync = r.src.lastTrackedSync) (hevents : r'.events = r.events) :
    FlushEffect r r' := by
  refine ⟨hsync, [], ?_, ?_⟩
  · rw [hevents, List.append_nil]
  · rw [hmap]
    cases r.src.trackedTgid with
    | none => rfl
    | some m => rfl

theorem FlushEffect.trans {r r' r'' : Round EbpfSource} (h : FlushEffect r r')
    (h' : FlushEffect r' r'') : FlushEffect r r'' := by
  obtain ⟨new, hnew, hmap⟩ := h.reported
  obtain ⟨new', hnew', hmap'⟩ := h'.reported
  refine ⟨h'.sync_eq.trans h.sync_eq, new ++ new', ?_, ?_⟩
  · rw [hnew', hnew, List.append_assoc]
  · rw [hmap', hmap, Option.map_map]
    simp only [Function.comp_def, spawnedPids, List.filter_append, List.map_append,
      List.foldl_append]

theorem flushEffect_insert (r : Round EbpfSource) {ev : ProcessEvent} {tgid : Int}
    (hkind : ev.kind = .fork ∨ ev.kind = .threadClone) (hpid : ev.pid = tgid) :
    FlushEffect r { r.push ev with src := r.src.trackedInsert tgid } := by
  refine ⟨rfl, [ev], rfl, ?_⟩
  have hspawned : spawnedPids [ev] = [tgid] := by
    simp [spawnedPids, hkind, hpid]
  rw [hspawned]
  rfl

theorem confirmFork_effect (rules : RuleSet) (r : Round EbpfSource) (pid : Int) (pkg : String) :
    Triple (fun s => s.tracker = tracker) (confirmFork fnmatch env rules r pid pkg) fun r' s =>
      FlushEffect r r' ∧ s.tracker = tracker := by
  have hsame : Triple (fun s => s.tracker = tracker) (pure r : Run κ (Round EbpfSource))
      fun r' s => FlushEffect r r' ∧ s.tracker = tracker :=
    Triple.pure fun s hs => ⟨flushEffect_none rfl rfl rfl, hs⟩
  refine Triple.bind (ask_tracker _ tracker) fun read => ?_
  apply Triple.ite_of
  · intro hprocess
    refine Triple.ite (Triple.pure fun s hs => ⟨?_, hs⟩) hsame
    exact flushEffect_insert r (Or.inl rfl) hprocess.symm
  · intro _
    refine Triple.bind (ask_tracker _ tracker) fun parent => ?_
    cases parent with
    | none => exact hsame
    | some ppkg =>
        refine Triple.ite (Triple.pure fun s hs => ⟨?_, hs⟩) hsame
        exact flushEffect_insert r (Or.inr rfl) rfl

theorem retryOrDrop_effect (r : Round EbpfSource) (p : PendingProcess) :
    Triple (fun s => s.tracker = tracker) (retryOrDrop env r p) fun r' s =>
      FlushEffect r r' ∧ s.tracker = tracker := by
  apply Triple.ite
  · refine Triple.bind (ask_tracker _ tracker) fun now => Triple.pure fun s hs => ⟨?_, hs⟩
    exact flushEffect_none rfl rfl rfl
  · exact Triple.pure fun s hs => ⟨flushEffect_none rfl rfl rfl, hs⟩

theorem flushFork_effect (rules : RuleSet) (now : Nat) (r : Round EbpfSource)
    (p : PendingProcess) :
    Triple (fun s => s.tracker = tracker) (flushFork fnmatch env rules now r p) fun r' s =>
      FlushEffect r r' ∧ s.tracker = tracker := by
  apply Triple.ite
  · exact Triple.pure fun s hs => ⟨flushEffect_none rfl rfl rfl, hs⟩
  · refine Triple.bind (ask_tracker _ tracker) fun alive => Triple.ite ?_ ?_
    · exact Triple.pure fun s hs => ⟨flushEffect_none rfl rfl rfl, hs⟩
    · refine Triple.bind (ask_tracker _ tracker) fun read => ?_
      cases read.filter (!·.isEmpty) with
      | some pkg => exact confirmFork_effect fnmatch env rules r p.pid pkg
      | none => exact retryOrDrop_effect env r p

theorem flushPending_effect (r : Round EbpfSource) :
    Triple (fun s => s.tracker = tracker) (EbpfSource.flushPending fnmatch env r) fun r' s =>
      FlushEffect r r' ∧ s.tracker = tracker := by
  have hsame : Triple (fun s => s.tracker = tracker) (pure r : Run κ (Round EbpfSource))
      fun r' s => FlushEffect r r' ∧ s.tracker = tracker :=
    Triple.pure fun s hs => ⟨flushEffect_none rfl rfl rfl, hs⟩
  apply Triple.ite hsame
  cases r.src.cfg with
  | none => exact hsame
  | some cfg =>
      refine Triple.bind (ask_tracker _ tracker) fun now => ?_
      refine (Triple.foldlM (I := fun _ r' s => FlushEffect r r' ∧ s.tracker = tracker)
        _ _ fun p rest r' => Triple.pre fun hr => ?_).mono
          (fun s hs => ⟨flushEffect_none rfl rfl rfl, hs⟩) fun _ _ hs => hs
      exact (flushFork_effect fnmatch env cfg.rules now r' p).mono (fun _ hs => hs)
        fun _ _ hs => ⟨hr.trans hs.1, hs.2⟩

/-- The queue and the pending forks: the map after them, and the exits reported. -/
structure DrainEffect (tracker : StateTracker) (exits : List Int) (r r' : Round EbpfSource) :
    Prop where
  sync_eq : r'.src.lastTrackedSync = r.src.lastTrackedSync
  map_eq : r'.src.trackedTgid = r.src.trackedTgid.map fun m =>
    (spawnedPids (r'.events.drop r.events.length)).foldl BpfMap.insert
      (exits.foldl BpfMap.remove m)
  exits_reported : ∀ pid ∈ exits, tracker.contains pid = true →
    ProcessEvent.exit pid pid ∈ r'.events

theorem drain_effect (r : Round EbpfSource) :
    Triple (fun s => s.tracker = tracker) (drain fnmatch env r) fun r' s =>
      DrainEffect tracker (processExits (r.src.eventRx.take drainMax)) r r' ∧
        s.tracker = tracker := by
  refine Triple.bind (foldlM_handleRaw_effect env _ _) fun r' => Triple.pre fun hraw => ?_
  refine (flushPending_effect fnmatch env r').mono (fun _ hs => hs) fun r'' s hs => ⟨?_, hs.2⟩
  obtain ⟨new, hnew, hspawned, hexits⟩ := hraw.reported
  obtain ⟨new', hnew', hmap⟩ := hs.1.reported
  have hevents : r''.events = r.events ++ (new ++ new') := by
    rw [hnew', hnew, List.append_assoc]
  refine ⟨hs.1.sync_eq.trans hraw.sync_eq, ?_, ?_⟩
  · have hpids : spawnedPids (r''.events.drop r.events.length) = spawnedPids new' := by
      rw [hevents, List.drop_left]
      unfold spawnedPids at *
      rw [List.filter_append, List.map_append, hspawned, List.nil_append]
    rw [hpids, hmap, hraw.map_eq, Option.map_map]
    rfl
  · intro pid hpid htracked
    rw [hevents]
    exact List.mem_append_right _ (List.mem_append_left _ (hexits pid hpid htracked))

theorem pids_tracker : Keeps (fun s => s.tracker = tracker) (pids env) := Keeps.get fun _ _ hs => hs

theorem periodicSync_effect (src : EbpfSource) (s : System κ) :
    Triple (fun t => t = s) (periodicSync env src) fun synced t =>
      synced.trackedTgid = src.trackedTgid.map (fun m =>
        let clock := (ask env.instantNow : Run κ Nat).run s
        if trackedSyncSecs ≤ (clock.1 - src.lastTrackedSync) / nanosPerSec then
          syncTracked ((pids env).run clock.2).1 m
        else m) ∧ t.tracker = s.tracker := by
  refine Triple.bind (Q := fun now t => (ask env.instantNow : Run κ Nat).run s = (now, t) ∧
    t.tracker = s.tracker) ?_ fun now => Triple.fix fun t => ?_
  · rintro t rfl
    exact ⟨rfl, rfl⟩
  · rintro ⟨hclock, htracker⟩
    simp only [hclock]
    apply Triple.ite_of
    · intro hdue
      refine Triple.bind (Q := fun tracked t' => tracked = ((pids env).run t).1 ∧
        t'.tracker = s.tracker) ?_ fun tracked => Triple.pre fun htracked => ?_
      · rintro t' rfl
        exact ⟨rfl, pids_tracker env t' htracker⟩
      · refine Triple.bind (ask_tracker _ s.tracker) fun done => Triple.pure fun t' ht' => ⟨?_, ht'⟩
        rw [htracked]
        simp only [if_pos hdue]
    · intro hdue
      apply Triple.pure
      rintro t' rfl
      refine ⟨?_, htracker⟩
      simp only [if_neg hdue]
      exact (Option.map_id' (x := src.trackedTgid)).symm

theorem sleepRound_effect (r : Round EbpfSource) (deadline : Nat) :
    Triple (fun s => s.tracker = tracker) (sleepRound env r deadline) fun r' s =>
      r' = r ∧ s.tracker = tracker := by
  have hsame : Triple (fun s => s.tracker = tracker) (pure r : Run κ (Round EbpfSource))
      fun r' s => r' = r ∧ s.tracker = tracker := Triple.pure fun s hs => ⟨rfl, hs⟩
  refine Triple.ite (Triple.bind (ask_tracker _ tracker) fun now => Triple.ite ?_ hsame) hsame
  exact Triple.bind (ask_tracker _ tracker) fun _ => hsame

/-- What a poll does to the map and to the tracker, and what it reports. -/
structure PollEffect (src : EbpfSource) (s : System κ) (r : Round EbpfSource) (s' : System κ) :
    Prop where
  map_eq : r.src.trackedTgid = src.trackedTgid.map (src.mapPolled fnmatch env s)
  tracker_eq : s'.tracker = s.tracker
  exits_reported : ∀ pid ∈ processExits (src.eventRx.take drainMax),
    s.tracker.contains pid = true → ProcessEvent.exit pid pid ∈ r.events

theorem poll_effect (src : EbpfSource) (s : System κ) (deadline : Nat) :
    PollEffect fnmatch env src s ((src.poll fnmatch env deadline).run s).1
      ((src.poll fnmatch env deadline).run s).2 := by
  obtain ⟨hscan, hscanTracker⟩ := scanOnce_effect fnmatch env src s rfl
  obtain ⟨hdrain, hdrainTracker⟩ :=
    drain_effect fnmatch env ((scanOnce fnmatch env src).run s).1 _ hscanTracker
  have hcollect : (src.collect fnmatch env).run s =
    (drain fnmatch env ((scanOnce fnmatch env src).run s).1).run
      ((scanOnce fnmatch env src).run s).2 := rfl
  rw [← hcollect] at hdrain hdrainTracker
  have hend : Triple (fun t => t = ((src.collect fnmatch env).run s).2)
      (do
        let synced ← periodicSync env
          { ((src.collect fnmatch env).run s).1.src with initialScanned := [] }
        sleepRound env ⟨synced, ((src.collect fnmatch env).run s).1.events⟩ deadline :
          Run κ (Round EbpfSource))
      fun r s' => PollEffect fnmatch env src s r s' := by
    refine Triple.bind (periodicSync_effect env _ _) fun synced => Triple.pre fun hmap => ?_
    refine (sleepRound_effect env _ deadline).mono (fun _ hs => hs) fun r s' hr => ?_
    obtain ⟨rfl, htracker⟩ := hr
    refine ⟨?_, htracker.trans hdrainTracker, ?_⟩
    · have hsync : ((src.collect fnmatch env).run s).1.src.lastTrackedSync =
          src.lastTrackedSync := hdrain.sync_eq.trans hscan.sync_eq
      rw [hscan.queue_eq] at hdrain
      calc
        _ = ((src.collect fnmatch env).run s).1.src.trackedTgid.map _ := hmap
        _ = (src.trackedTgid.map (src.mapDrained fnmatch env s)).map _ := by
          rw [hdrain.map_eq, hscan.map_eq]
          rfl
        _ = src.trackedTgid.map (src.mapPolled fnmatch env s) := by
          rw [Option.map_map]
          congr 1
          funext m
          simp only [Function.comp_apply, EbpfSource.mapPolled, EbpfSource.syncs, hsync,
            decide_eq_true_eq]
          rfl
    · intro pid hpid htracked
      rw [← hscan.queue_eq] at hpid
      exact hdrain.exits_reported pid hpid htracked
  exact hend _ rfl

end Parts

/-! ## Rounds -/

def EbpfSource.isKey (src : EbpfSource) (pid : Int) : Bool :=
  src.trackedTgid.any fun m => decide (pid ∈ m.keys)

/-- A tracepoint fires: `sched_process_exit` drops the exits of other processes. -/
def EbpfSource.tracepoint (src : EbpfSource) (ev : EbpfProcEvent) : EbpfSource :=
  if ev.eventType = eventExit ∧ src.isKey ev.pid = false then src
  else { src with eventRx := src.eventRx ++ [ev] }

structure FilterState (κ : Type) where
  src : EbpfSource
  sys : System κ

inductive FilterMove (κ : Type) where
  | tracepoint (ev : EbpfProcEvent)
  | kernel (k : κ)
  | configChanged (cfg : ConfigSnapshot)
  /-- `cleanup_dead`, a relock or a reload removes a process. -/
  | untrack (pid : Int)
  /-- `poll`, then `handle_events` with what it reports. -/
  | round (deadline : Nat) (cfg : ConfigSnapshot) (topo : CpuTopology) (now : Int)

section Rounds

variable (fnmatch : String → String → Bool) (env : Env κ)

def FilterState.step (st : FilterState κ) : FilterMove κ → FilterState κ
  | .tracepoint ev => { st with src := st.src.tracepoint ev }
  | .kernel k => { st with sys := { st.sys with kernel := k } }
  | .configChanged cfg => { st with src := st.src.onConfigChanged cfg }
  | .untrack pid => { st with sys := ((remove env pid).run st.sys).2 }
  | .round deadline cfg topo now =>
      let polled := (st.src.poll fnmatch env deadline).run st.sys
      ⟨polled.1.src, ((handleEvents fnmatch env polled.1.events cfg topo now).run polled.2).2⟩

def FilterState.start (cfg : ConfigSnapshot) (now : Nat) (hasTarget : Bool) (kernel : κ) :
    FilterState κ :=
  ⟨.tryNew cfg now hasTarget true, .init kernel⟩

/-- Every tracked process is a key of the map, so the kernel drops no exit of it. -/
def FilterState.Complete (st : FilterState κ) : Prop :=
  ∀ pid, st.sys.tracker.contains pid = true →
    st.src.isKey pid = true ∧
      ∀ tid, (st.src.tracepoint ⟨pid, tid, eventExit⟩).eventRx =
        st.src.eventRx ++ [⟨pid, tid, eventExit⟩]

/-- The insertions that a poll makes into the map succeed: those of the pending forks,
and those of its sync. -/
def FilterState.insertsSucceed (st : FilterState κ) : FilterMove κ → Bool
  | .round _ _ _ _ =>
      match st.src.trackedTgid with
      | none => false
      | some m =>
          ((processExits (st.src.eventRx.take drainMax)).foldl BpfMap.remove m).fits
              (st.src.confirmed fnmatch env st.sys) &&
            (!st.src.syncs fnmatch env st.sys ||
              (st.src.mapDrained fnmatch env st.sys m).fits (st.src.walked fnmatch env st.sys))
  | _ => true

/-- The map after the poll of a round has the process: the poll confirmed it, or it was a
key and its exit was not queued.  A poll that syncs leaves the processes tracked so far. -/
def FilterState.keptByPoll (st : FilterState κ) (pid : Int) : Prop :=
  if st.src.syncs fnmatch env st.sys then st.sys.tracker.contains pid = true
  else pid ∈ st.src.confirmed fnmatch env st.sys ∨
    (st.src.isKey pid = true ∧ pid ∉ processExits (st.src.eventRx.take drainMax))

/-- Only processes that the poll of a round keeps in the map enter the tracker in it. -/
def FilterState.EntersKept (st : FilterState κ) : FilterMove κ → Prop
  | .round deadline cfg topo now =>
      let polled := (st.src.poll fnmatch env deadline).run st.sys
      let asked := (ask env.canRtSched : Run κ Bool).run polled.2
      AtEach (handled fnmatch env ⟨cfg, topo, now, asked.1⟩)
        (fun s ev => Enters fnmatch env ⟨cfg, topo, now, asked.1⟩ s ev →
          st.keptByPoll fnmatch env ev.pid)
        asked.2 polled.1.events
  | _ => True

/-! ## One round -/

theorem tracepoint_of_isKey {src : EbpfSource} {pid : Int} (h : src.isKey pid = true) (tid : Int) :
    (src.tracepoint ⟨pid, tid, eventExit⟩).eventRx = src.eventRx ++ [⟨pid, tid, eventExit⟩] := by
  unfold EbpfSource.tracepoint
  rw [if_neg (by simp [h])]

theorem complete_iff (st : FilterState κ) :
    st.Complete ↔ TrackedIn (fun pid => st.src.isKey pid = true) st.sys := by
  constructor
  · intro h pid hpid
    exact (h pid hpid).1
  · intro h pid hpid
    exact ⟨h pid hpid, tracepoint_of_isKey (h pid hpid)⟩

theorem isKey_of_map_eq {src src' : EbpfSource} (h : src'.trackedTgid = src.trackedTgid)
    (pid : Int) : src'.isKey pid = src.isKey pid := by
  unfold EbpfSource.isKey
  rw [h]

theorem mem_walked (src : EbpfSource) (s : System κ) (pid : Int) :
    pid ∈ src.walked fnmatch env s ↔ s.tracker.contains pid = true := by
  have htracker : (src.syncClock fnmatch env s).2.tracker = s.tracker := by
    have hscan := (scanOnce_effect fnmatch env src s rfl).2
    exact (drain_effect fnmatch env _ _ hscan).2
  change pid ∈ env.order _ (src.syncClock fnmatch env s).2.tracker.procs.keys ↔ _
  rw [(env.order_perm _ _).mem_iff, htracker, StateTracker.contains, AList.lookup_isSome,
    AList.mem_keys]

theorem mem_mapPolled {st : FilterState κ} {m : BpfMap Int} (hmap : st.src.trackedTgid = some m)
    (hfits : ((processExits (st.src.eventRx.take drainMax)).foldl BpfMap.remove m).fits
      (st.src.confirmed fnmatch env st.sys) = true)
    (hsync : st.src.syncs fnmatch env st.sys = true →
      (st.src.mapDrained fnmatch env st.sys m).fits (st.src.walked fnmatch env st.sys) = true)
    (pid : Int) :
    pid ∈ (st.src.mapPolled fnmatch env st.sys m).keys ↔ st.keptByPoll fnmatch env pid := by
  have hkey : st.src.isKey pid = true ↔ pid ∈ m.keys := by
    rw [EbpfSource.isKey, hmap]
    exact decide_eq_true_iff
  unfold EbpfSource.mapPolled FilterState.keptByPoll
  cases hdue : st.src.syncs fnmatch env st.sys with
  | true =>
      simp only [if_true]
      rw [mem_syncTracked (hsync hdue), mem_walked]
  | false =>
      simp only [Bool.false_eq_true, if_false]
      unfold EbpfSource.mapDrained
      rw [mem_foldl_insert hfits, mem_foldl_remove, hkey, or_comm]

theorem keptByPoll_of_complete {st : FilterState κ} (h : st.Complete) {pid : Int}
    (hpid : st.sys.tracker.contains pid = true) :
    st.keptByPoll fnmatch env pid ∨ pid ∈ processExits (st.src.eventRx.take drainMax) := by
  unfold FilterState.keptByPoll
  split
  · exact Or.inl hpid
  · by_cases hexit : pid ∈ processExits (st.src.eventRx.take drainMax)
    · exact Or.inr hexit
    · exact Or.inl (Or.inr ⟨(h pid hpid).1, hexit⟩)

theorem fits_of_insertsSucceed {st : FilterState κ} {deadline : Nat} {cfg : ConfigSnapshot}
    {topo : CpuTopology} {now : Int}
    (h : st.insertsSucceed fnmatch env (.round deadline cfg topo now) = true) :
    ∃ m, st.src.trackedTgid = some m ∧
      ((processExits (st.src.eventRx.take drainMax)).foldl BpfMap.remove m).fits
        (st.src.confirmed fnmatch env st.sys) = true ∧
      (st.src.syncs fnmatch env st.sys = true →
        (st.src.mapDrained fnmatch env st.sys m).fits
          (st.src.walked fnmatch env st.sys) = true) := by
  unfold FilterState.insertsSucceed at h
  cases hmap : st.src.trackedTgid with
  | none => simp [hmap] at h
  | some m =>
      rw [hmap] at h
      obtain ⟨hfits, hsync⟩ := Bool.and_eq_true_iff.mp h
      refine ⟨m, rfl, hfits, fun hdue => ?_⟩
      simpa [hdue] using hsync

/-- A round ends complete exactly when its poll keeps whatever is tracked after it. -/
theorem complete_round_iff {st : FilterState κ} {deadline : Nat} {cfg : ConfigSnapshot}
    {topo : CpuTopology} {now : Int}
    (hinserts : st.insertsSucceed fnmatch env (.round deadline cfg topo now) = true) :
    (st.step fnmatch env (.round deadline cfg topo now)).Complete ↔
      TrackedIn (st.keptByPoll fnmatch env)
        (st.step fnmatch env (.round deadline cfg topo now)).sys := by
  obtain ⟨m, hmap, hfits, hsync⟩ := fits_of_insertsSucceed fnmatch env hinserts
  have hkeys (pid : Int) : (st.step fnmatch env (.round deadline cfg topo now)).src.isKey pid =
      true ↔ st.keptByPoll fnmatch env pid := by
    change ((st.src.poll fnmatch env deadline).run st.sys).1.src.isKey pid = true ↔ _
    rw [EbpfSource.isKey, (poll_effect fnmatch env st.src st.sys deadline).map_eq, hmap]
    exact decide_eq_true_iff.trans (mem_mapPolled fnmatch env hmap hfits hsync pid)
  rw [complete_iff]
  exact forall₂_congr fun pid _ => hkeys pid

theorem complete_round {st : FilterState κ} (h : st.Complete) (deadline : Nat)
    (cfg : ConfigSnapshot) (topo : CpuTopology) (now : Int)
    (hinserts : st.insertsSucceed fnmatch env (.round deadline cfg topo now) = true)
    (hkept : st.EntersKept fnmatch env (.round deadline cfg topo now)) :
    (st.step fnmatch env (.round deadline cfg topo now)).Complete := by
  have hpoll := poll_effect fnmatch env st.src st.sys deadline
  have hrun : (st.step fnmatch env (.round deadline cfg topo now)).sys = _ :=
    handleEvents_run fnmatch env _ cfg topo now _
  rw [complete_round_iff fnmatch env hinserts, hrun]
  apply run_handled_trackedIn
  · intro pid hpid
    have hbefore : st.sys.tracker.contains pid = true := by
      rw [← hpoll.tracker_eq]
      exact hpid
    rcases keptByPoll_of_complete fnmatch env h hbefore with hkey | hexit
    · exact Or.inl hkey
    · exact Or.inr ⟨_, hpoll.exits_reported pid hexit hbefore, rfl, rfl, rfl⟩
  · exact hkept

/-- The moves between the rounds neither take a key out nor track a process. -/
theorem complete_step {st : FilterState κ} (mv : FilterMove κ)
    (hinserts : st.insertsSucceed fnmatch env mv = true)
    (hkept : st.EntersKept fnmatch env mv) (h : st.Complete) :
    (st.step fnmatch env mv).Complete := by
  cases mv with
  | tracepoint ev =>
      rw [complete_iff] at h ⊢
      intro pid hpid
      have hmap : (st.src.tracepoint ev).trackedTgid = st.src.trackedTgid := by
        unfold EbpfSource.tracepoint
        split <;> rfl
      exact (isKey_of_map_eq hmap pid).trans (h pid hpid)
  | kernel k =>
      rw [complete_iff] at h ⊢
      exact h
  | configChanged cfg =>
      rw [complete_iff] at h ⊢
      intro pid hpid
      have hmap : (st.src.onConfigChanged cfg).trackedTgid = st.src.trackedTgid := by
        rw [EbpfSource.onConfigChanged_eq]
      exact (isKey_of_map_eq hmap pid).trans (h pid hpid)
  | untrack pid =>
      rw [complete_iff] at h ⊢
      exact remove_trackedIn env pid st.sys h
  | round deadline cfg topo now =>
      exact complete_round fnmatch env h deadline cfg topo now hinserts hkept

/-! ## Contract: no exit of a tracked process is dropped -/

/-- Given room in the map, it has every tracked process in every state of a run in which
only processes that the polls keep in it enter the tracker. -/
theorem tracked_exits_pass (cfg : ConfigSnapshot) (now : Nat) (hasTarget : Bool) (kernel : κ)
    (moves : List (FilterMove κ))
    (hinserts : AtEach (FilterState.step fnmatch env)
      (fun st mv => st.insertsSucceed fnmatch env mv = true)
      (.start cfg now hasTarget kernel) moves)
    (hkept : AtEach (FilterState.step fnmatch env) (FilterState.EntersKept fnmatch env)
      (.start cfg now hasTarget kernel) moves) :
    Throughout (FilterState.step fnmatch env) FilterState.Complete
      (.start cfg now hasTarget kernel) moves := by
  rintro before after rfl
  apply run_invariant_atEach (FilterState.step fnmatch env)
    (P := fun st mv => st.insertsSucceed fnmatch env mv = true ∧ st.EntersKept fnmatch env mv)
    (Q := FilterState.Complete)
  · intro st mv hmv hst
    exact complete_step fnmatch env mv hmv.1 hmv.2 hst
  · intro pid hpid
    exact absurd hpid nofun
  · intro before' mv after' hsplit
    exact ⟨atEach_left _ hinserts before' mv after' hsplit,
      atEach_left _ hkept before' mv after' hsplit⟩

theorem entersKept_of_all {st : FilterState κ} {deadline : Nat} {cfg : ConfigSnapshot}
    {topo : CpuTopology} {now : Int} (hsync : st.src.syncs fnmatch env st.sys = false)
    (h : (((st.src.poll fnmatch env deadline).run st.sys).1.events.all fun ev =>
      decide (ev.pid ∈ st.src.confirmed fnmatch env st.sys)) = true) :
    st.EntersKept fnmatch env (.round deadline cfg topo now) := by
  intro before ev after hsplit _
  have hmem : ev ∈ ((st.src.poll fnmatch env deadline).run st.sys).1.events := by
    rw [hsplit]
    exact List.mem_append_right _ List.mem_cons_self
  have hev := List.all_eq_true.mp h ev hmem
  rw [FilterState.keptByPoll, if_neg (by simp [hsync])]
  exact Or.inl (of_decide_eq_true hev)

end Rounds

/-! ## A process found by the scan -/

/-- The kernel in which pid 5 of `com.a` runs once the state is `true`. -/
def bornEnv : Env Bool :=
  { Env.silent with
    readProcDir := do
      let born ← get
      pure (some (if born then ["5"] else []))
    readCmdline := fun pid => do
      let born ← get
      pure (if born && pid == 5 then some "com.a" else none)
    isAlive := fun pid => do
      let born ← get
      pure (born && pid == 5) }

def comARound : FilterMove Bool := .round 0 comAConfig (.flat 4) 0

def loadedSource (born : Bool) : FilterState Bool := .start comAConfig 0 true born

/-- The process is forked after the first poll. -/
def forkedLater : List (FilterMove Bool) :=
  [.configChanged comAConfig, comARound, .kernel true, .tracepoint ⟨5, 5, eventFork⟩, comARound]

theorem tracked_exits_pass_forked :
    Throughout (FilterState.step glob bornEnv) FilterState.Complete (loadedSource false)
      forkedLater := by
  apply tracked_exits_pass glob bornEnv comAConfig 0 true false forkedLater
  · exact atEach_cons _ rfl (atEach_cons _ (by decide +kernel) (atEach_cons _ rfl
      (atEach_cons _ rfl (atEach_cons _ (by decide +kernel) (atEach_nil _ _ _)))))
  · exact atEach_cons _ trivial
      (atEach_cons _ (entersKept_of_all glob bornEnv (by decide +kernel) (by decide +kernel))
        (atEach_cons _ trivial (atEach_cons _ trivial
          (atEach_cons _ (entersKept_of_all glob bornEnv (by decide +kernel) (by decide +kernel))
            (atEach_nil _ _ _)))))

/-- The process runs before the first poll: the scan reports it, and the map never gets it. -/
theorem scanned_process_not_in_map :
    ¬∀ (cfg : ConfigSnapshot) (now : Nat) (hasTarget kernel : Bool)
      (moves : List (FilterMove Bool)),
      AtEach (FilterState.step glob bornEnv)
          (fun st mv => st.insertsSucceed glob bornEnv mv = true) (.start cfg now hasTarget kernel)
          moves →
        Throughout (FilterState.step glob bornEnv) FilterState.Complete
          (.start cfg now hasTarget kernel) moves := by
  intro h
  have hinserts : AtEach (FilterState.step glob bornEnv)
      (fun st mv => st.insertsSucceed glob bornEnv mv = true) (loadedSource true)
      [.configChanged comAConfig, comARound] :=
    atEach_cons _ rfl (atEach_cons _ (by decide +kernel) (atEach_nil _ _ _))
  have hcomplete := h comAConfig 0 true true _ hinserts [.configChanged comAConfig, comARound] []
    rfl
  have hkey := (hcomplete 5 (by decide +kernel)).1
  exact absurd hkey (by decide +kernel)

end Threadctl.Daemon
