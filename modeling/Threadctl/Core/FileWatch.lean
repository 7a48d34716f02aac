import Threadctl.Core.Store
import Threadctl.Support.Runs

/-!
# Watching the configuration file

`ConfigStore::new` loads the file in the main thread.  The thread started later by
`spawn_hot_reload` takes the modification time of that moment as its baseline and, while
polling, reloads when the time differs from the last one it saw.  The file may be written
between any two of these steps.
-/

namespace Threadctl.Core

open Threadctl.Support.Runs

structure SavedFile where
  /-- In nanoseconds since the epoch; negative for a time before it. -/
  modified : Int
  /-- What loading the file gives, if it parses. -/
  content : Option Compiled

/-- `file_mtime`: an `i64`, and -1 when there is nothing to read. -/
def fileMtime : Option SavedFile → Int
  | none => -1
  | some f => if f.modified < 0 then -1 else f.modified.bmod (2 ^ 64)

def loadFile (file : Option SavedFile) : Option Compiled := file.bind (·.content)

/-! ## The thread `ConfigLoader` -/

/-- What inotify reports: `dead` when no watch can be installed, or none can be kept. -/
inductive InotifyReport where
  | changed
  | quiet
  | dead
  deriving DecidableEq

structure ConfigLoader where
  inotifyActive : Bool
  lastMtime : Int
  point : HotReload

/-- The first steps of the thread: `InotifyWatch::init` and the baseline. -/
def ConfigLoader.init (report : InotifyReport) (file : Option SavedFile) : ConfigLoader where
  inotifyActive := report != .dead
  lastMtime := fileMtime file
  point := .waiting

/-- One look at the file: whether it is to be reloaded. -/
def ConfigLoader.look (report : InotifyReport) (file : Option SavedFile) (l : ConfigLoader) :
    Bool × ConfigLoader :=
  if l.inotifyActive then
    match report with
    | .changed => (true, l)
    | .quiet => (false, l)
    | .dead => (false, { l with inotifyActive := false, lastMtime := -1 })
  else
    let mt := fileMtime file
    if mt ≠ l.lastMtime then (mt ≠ -1, { l with lastMtime := mt }) else (false, l)

def ConfigLoader.step (report : InotifyReport) (file : Option SavedFile) (sh : Shared)
    (l : ConfigLoader) : Shared × ConfigLoader :=
  match l.point with
  | .waiting =>
      let (changed, l) := l.look report file
      let r := HotReload.waiting.step changed (loadFile file) sh
      (r.1, { l with point := r.2 })
  | point =>
      let r := point.step false (loadFile file) sh
      (r.1, { l with point := r.2 })

def ConfigLoader.readsNext (l : ConfigLoader) : Bool :=
  match l.point with
  | .reloading (.load _) => true
  | _ => false

/-! ## Start-up, and the file under it -/

inductive Stage where
  /-- `ConfigStore::new` comes next. -/
  | starting
  | exited
  /-- Between `ConfigStore::new` and `spawn_hot_reload`. -/
  | loaded (store : ConfigSnapshot)
  /-- The thread runs: `loader` is `none` until it has its baseline.  `ipc` is a reload
  asked for over the socket. -/
  | spawned (sh : Shared) (ipc : Option ReloadPoint) (loader : Option ConfigLoader)

structure WatchState where
  file : Option SavedFile
  stage : Stage
  /-- The file holds a content written after the last read, by whichever thread. -/
  unread : Bool
  /-- What `file_mtime` may have returned so far. -/
  mtimes : List Int

inductive WatchMove where
  | write (f : SavedFile)
  | remove
  /-- The next step of the main thread that concerns the store. -/
  | main
  | loader (report : InotifyReport)

/-- A reload in the main thread: the store, and where the call stands after the step. -/
def ipcStep (loaded : Option Compiled) (store : ConfigSnapshot) :
    Option ReloadPoint → ConfigSnapshot × Option ReloadPoint
  | none => (store, some (beginReload store))
  | some point =>
      let r := point.step loaded store
      match r.2 with
      | .running point => (r.1, some point)
      | .ok => (r.1, none)
      | .failed => (r.1, none)

def ipcReadsNext : Option ReloadPoint → Bool
  | some (.load _) => true
  | _ => false

def WatchState.mainStep (s : WatchState) : WatchState :=
  match s.stage with
  | .starting =>
      match loadFile s.file with
      | none => { s with stage := .exited }
      | some c => { s with stage := .loaded (c.snapshot 1), unread := false }
  | .exited => s
  | .loaded store => { s with stage := .spawned ⟨store, []⟩ none none }
  | .spawned sh ipc loader =>
      let r := ipcStep (loadFile s.file) sh.store ipc
      { s with
        stage := .spawned { sh with store := r.1 } r.2 loader
        unread := s.unread && !ipcReadsNext ipc }

def WatchState.loaderStep (report : InotifyReport) (s : WatchState) : WatchState :=
  match s.stage with
  | .spawned sh ipc none =>
      { s with stage := .spawned sh ipc (some (.init report s.file)) }
  | .spawned sh ipc (some l) =>
      let r := l.step report s.file sh
      { s with stage := .spawned r.1 ipc (some r.2), unread := s.unread && !l.readsNext }
  | _ => s

def WatchState.step (s : WatchState) : WatchMove → WatchState
  | .write f =>
      { s with file := some f, unread := true, mtimes := fileMtime (some f) :: s.mtimes }
  | .remove => { s with file := none, unread := false }
  | .main => s.mainStep
  | .loader report => s.loaderStep report

def WatchState.start (file : Option SavedFile) : WatchState :=
  ⟨file, .starting, false, [fileMtime none, fileMtime file]⟩

/-- Every write gives the file a modification time that is new. -/
def FreshWrite (s : WatchState) : WatchMove → Prop
  | .write f => fileMtime (some f) ∉ s.mtimes
  | _ => True

instance (s : WatchState) (m : WatchMove) : Decidable (FreshWrite s m) :=
  match m with
  | .write f => inferInstanceAs (Decidable (fileMtime (some f) ∉ s.mtimes))
  | .remove => .isTrue trivial
  | .main => .isTrue trivial
  | .loader _ => .isTrue trivial

/-- While the loop polls: the last time it saw is not that of a file whose content nobody
has read, unless the loop is about to read it; so its next look begins a reload. -/
def WatchState.NotMissed (s : WatchState) : Prop :=
  ∀ sh ipc l, s.stage = .spawned sh ipc (some l) → l.inotifyActive = false →
    s.unread = true → l.readsNext = false →
      l.lastMtime ≠ fileMtime s.file ∧
        (l.point = .waiting → ∀ report, (l.step report s.file sh).2.readsNext = true)

/-- A thread that is going to poll takes its baseline from a file whose content was read. -/
def BaselineRead (s : WatchState) (m : WatchMove) : Prop :=
  ∀ sh ipc, s.stage = .spawned sh ipc none → m = .loader .dead → s.unread = false

/-! ## One step of the thread -/

theorem look_polling {l : ConfigLoader} (h : l.inotifyActive = false) (report : InotifyReport)
    (file : Option SavedFile) :
    l.look report file =
      (decide (fileMtime file ≠ l.lastMtime ∧ fileMtime file ≠ -1),
        { l with lastMtime := fileMtime file }) := by
  unfold ConfigLoader.look
  rw [if_neg (by rw [h]; decide)]
  by_cases hsame : fileMtime file = l.lastMtime
  · rw [if_neg (not_not.mpr hsame), hsame]
    simp
  · rw [if_pos hsame]
    simp [hsame]

/-- A thread that listens to inotify goes on with it, or polls from -1. -/
theorem look_inotify {l : ConfigLoader} (h : l.inotifyActive = true) (report : InotifyReport)
    (file : Option SavedFile) :
    (l.look report file).2 = l ∨
      (l.look report file).2 = { l with inotifyActive := false, lastMtime := -1 } := by
  unfold ConfigLoader.look
  rw [if_pos h]
  cases report with
  | changed => exact Or.inl rfl
  | quiet => exact Or.inl rfl
  | dead => exact Or.inr rfl

theorem step_of_waiting {l : ConfigLoader} (h : l.point = .waiting) (report : InotifyReport)
    (file : Option SavedFile) (sh : Shared) :
    (l.step report file sh).2 =
      { (l.look report file).2 with
        point := if (l.look report file).1 then .reloading (beginReload sh.store)
          else .waiting } := by
  unfold ConfigLoader.step
  rw [h]
  cases hlook : l.look report file with
  | mk changed l' => cases changed <;> rfl

theorem step_of_not_waiting {l : ConfigLoader} (h : l.point ≠ .waiting) (report : InotifyReport)
    (file : Option SavedFile) (sh : Shared) :
    (l.step report file sh).2.inotifyActive = l.inotifyActive ∧
      (l.step report file sh).2.lastMtime = l.lastMtime := by
  unfold ConfigLoader.step
  cases hpoint : l.point with
  | waiting => exact absurd hpoint h
  | reloading point => exact ⟨rfl, rfl⟩
  | reloaded => exact ⟨rfl, rfl⟩
  | sending version => exact ⟨rfl, rfl⟩

theorem lastMtime_step (l : ConfigLoader) (report : InotifyReport) (file : Option SavedFile)
    (sh : Shared) :
    (l.step report file sh).2.lastMtime ∈ [l.lastMtime, fileMtime none, fileMtime file] := by
  by_cases hwaiting : l.point = .waiting
  · rw [step_of_waiting hwaiting]
    cases hactive : l.inotifyActive with
    | false =>
        rw [look_polling hactive]
        simp
    | true =>
        rcases look_inotify hactive report file with hlook | hlook
        · simp [hlook]
        · simp [hlook, fileMtime]
  · simp [(step_of_not_waiting hwaiting report file sh).2]

/-- A polling thread that is going to notice a file last written at `mtime`, or is about to
read it. -/
def ConfigLoader.Notices (mtime : Int) (l : ConfigLoader) : Prop :=
  l.inotifyActive = false → l.readsNext = false → l.lastMtime ≠ mtime

theorem readsNext_of_differs {l : ConfigLoader} (hactive : l.inotifyActive = false)
    (hwaiting : l.point = .waiting) {file : Option SavedFile} (hfile : fileMtime file ≠ -1)
    (hdiffers : l.lastMtime ≠ fileMtime file) (report : InotifyReport) (sh : Shared) :
    (l.step report file sh).2.readsNext = true := by
  have hchanged : (l.look report file).1 = true := by
    rw [look_polling hactive]
    exact decide_eq_true ⟨hdiffers.symm, hfile⟩
  rw [step_of_waiting hwaiting, hchanged]
  rfl

theorem notices_step {l : ConfigLoader} {file : Option SavedFile} (hfile : fileMtime file ≠ -1)
    (hread : l.readsNext = false) (h : l.Notices (fileMtime file)) (report : InotifyReport)
    (sh : Shared) : (l.step report file sh).2.Notices (fileMtime file) := by
  intro hactive' hread'
  by_cases hwaiting : l.point = .waiting
  · cases hactive : l.inotifyActive with
    | false =>
        have hbegins := readsNext_of_differs hactive hwaiting hfile (h hactive hread) report sh
        rw [hbegins] at hread'
        exact absurd hread' nofun
    | true =>
        rw [step_of_waiting hwaiting] at hactive' ⊢
        rcases look_inotify hactive report file with hlook | hlook
        · rw [hlook, hactive] at hactive'
          exact absurd hactive' nofun
        · rw [hlook]
          exact hfile.symm
  · obtain ⟨hsameActive, hsameLast⟩ := step_of_not_waiting hwaiting report file sh
    rw [hsameActive] at hactive'
    rw [hsameLast]
    exact h hactive' hread

/-! ## Invariants of the whole -/

/-- Every modification time in sight is one `file_mtime` may have returned. -/
structure WatchState.Known (s : WatchState) : Prop where
  none_mem : fileMtime none ∈ s.mtimes
  file_mem : fileMtime s.file ∈ s.mtimes
  last_mem : ∀ sh ipc l, s.stage = .spawned sh ipc (some l) → l.lastMtime ∈ s.mtimes
  unread_ne : s.unread = true → fileMtime s.file ≠ -1

def WatchState.Noticed (s : WatchState) : Prop :=
  ∀ sh ipc l, s.stage = .spawned sh ipc (some l) → s.unread = true →
    l.Notices (fileMtime s.file)

theorem known_start (file : Option SavedFile) : (WatchState.start file).Known where
  none_mem := by simp only [WatchState.start, List.mem_cons, true_or]
  file_mem := by simp only [WatchState.start, List.mem_cons, true_or, or_true]
  last_mem sh ipc l h := by cases h
  unread_ne h := by cases h

theorem noticed_start (file : Option SavedFile) : (WatchState.start file).Noticed := by
  intro sh ipc l h
  cases h

theorem mainStep_frame (s : WatchState) :
    s.mainStep.file = s.file ∧ s.mainStep.mtimes = s.mtimes ∧
      (s.mainStep.unread = true → s.unread = true) ∧
      ∀ sh ipc l, s.mainStep.stage = .spawned sh ipc (some l) →
        ∃ sh' ipc', s.stage = .spawned sh' ipc' (some l) := by
  unfold WatchState.mainStep
  cases hstage : s.stage with
  | starting =>
      cases hload : loadFile s.file with
      | none =>
          refine ⟨rfl, rfl, id, ?_⟩
          intro sh ipc l h
          cases h
      | some c =>
          refine ⟨rfl, rfl, ?_, ?_⟩
          · intro h
            cases h
          · intro sh ipc l h
            cases h
  | exited =>
      refine ⟨rfl, rfl, id, ?_⟩
      intro sh ipc l h
      rw [hstage] at h
      cases h
  | loaded store =>
      refine ⟨rfl, rfl, id, ?_⟩
      intro sh ipc l h
      cases h
  | spawned sh ipc loader =>
      refine ⟨rfl, rfl, ?_, ?_⟩
      · intro h
        exact (Bool.and_eq_true_iff.mp h).1
      · intro sh' ipc' l h
        cases h
        exact ⟨sh, ipc, rfl⟩

theorem known_main {s : WatchState} (h : s.Known) : s.mainStep.Known := by
  obtain ⟨hfile, hmtimes, hunread, hstage⟩ := mainStep_frame s
  refine ⟨?_, ?_, ?_, ?_⟩
  · rw [hmtimes]
    exact h.none_mem
  · rw [hfile, hmtimes]
    exact h.file_mem
  · intro sh ipc l hl
    obtain ⟨sh', ipc', hl'⟩ := hstage sh ipc l hl
    rw [hmtimes]
    exact h.last_mem sh' ipc' l hl'
  · intro hu
    rw [hfile]
    exact h.unread_ne (hunread hu)

theorem noticed_main {s : WatchState} (h : s.Noticed) : s.mainStep.Noticed := by
  obtain ⟨hfile, -, hunread, hstage⟩ := mainStep_frame s
  intro sh ipc l hl hu
  obtain ⟨sh', ipc', hl'⟩ := hstage sh ipc l hl
  rw [hfile]
  exact h sh' ipc' l hl' (hunread hu)

theorem loaderStep_of_some {s : WatchState} {sh : Shared} {ipc : Option ReloadPoint}
    {l : ConfigLoader} (h : s.stage = .spawned sh ipc (some l)) (report : InotifyReport) :
    s.loaderStep report =
      { s with
        stage := .spawned (l.step report s.file sh).1 ipc (some (l.step report s.file sh).2)
        unread := s.unread && !l.readsNext } := by
  unfold WatchState.loaderStep
  rw [h]

theorem loaderStep_of_none {s : WatchState} {sh : Shared} {ipc : Option ReloadPoint}
    (h : s.stage = .spawned sh ipc none) (report : InotifyReport) :
    s.loaderStep report =
      { s with stage := .spawned sh ipc (some (.init report s.file)) } := by
  unfold WatchState.loaderStep
  rw [h]

theorem loaderStep_cases (s : WatchState) (report : InotifyReport) :
    (∃ sh ipc l, s.stage = .spawned sh ipc (some l)) ∨ (∃ sh ipc, s.stage = .spawned sh ipc none) ∨
      s.loaderStep report = s := by
  unfold WatchState.loaderStep
  cases hstage : s.stage with
  | starting => exact Or.inr (Or.inr rfl)
  | exited => exact Or.inr (Or.inr rfl)
  | loaded store => exact Or.inr (Or.inr rfl)
  | spawned sh ipc loader =>
      cases loader with
      | none => exact Or.inr (Or.inl ⟨sh, ipc, rfl⟩)
      | some l => exact Or.inl ⟨sh, ipc, l, rfl⟩

theorem known_loader {s : WatchState} (h : s.Known) (report : InotifyReport) :
    (s.loaderStep report).Known := by
  rcases loaderStep_cases s report with ⟨sh, ipc, l, hl⟩ | ⟨sh, ipc, hnone⟩ | hsame
  · rw [loaderStep_of_some hl]
    refine ⟨h.none_mem, h.file_mem, ?_, ?_⟩
    · intro sh' ipc' l' hl'
      cases hl'
      have hlast := lastMtime_step l report s.file sh
      simp only [List.mem_cons, List.not_mem_nil, or_false] at hlast
      rcases hlast with hlast | hlast | hlast
      · exact hlast ▸ h.last_mem sh ipc l hl
      · exact hlast ▸ h.none_mem
      · exact hlast ▸ h.file_mem
    · intro hu
      exact h.unread_ne (Bool.and_eq_true_iff.mp hu).1
  · rw [loaderStep_of_none hnone]
    refine ⟨h.none_mem, h.file_mem, ?_, h.unread_ne⟩
    intro sh' ipc' l' hl'
    cases hl'
    exact h.file_mem
  · rw [hsame]
    exact h

theorem noticed_loader {s : WatchState} (hknown : s.Known) (h : s.Noticed)
    {report : InotifyReport} (hbaseline : BaselineRead s (.loader report)) :
    (s.loaderStep report).Noticed := by
  rcases loaderStep_cases s report with ⟨sh, ipc, l, hl⟩ | ⟨sh, ipc, hnone⟩ | hsame
  · rw [loaderStep_of_some hl]
    intro sh' ipc' l' hl' hu
    cases hl'
    obtain ⟨hunread, hread⟩ := Bool.and_eq_true_iff.mp hu
    rw [Bool.not_eq_true'] at hread
    exact notices_step (hknown.unread_ne hunread) hread (h sh ipc l hl hunread) report sh
  · rw [loaderStep_of_none hnone]
    intro sh' ipc' l' hl' hu hactive
    cases hl'
    have hdead : report = .dead := by simpa [ConfigLoader.init] using hactive
    have hread := hbaseline sh ipc hnone (by rw [hdead])
    rw [hread] at hu
    exact absurd hu nofun
  · rw [hsame]
    exact h

theorem known_step {s : WatchState} (m : WatchMove) (hfresh : FreshWrite s m) (h : s.Known) :
    (s.step m).Known := by
  cases m with
  | write f =>
      refine ⟨List.mem_cons_of_mem _ h.none_mem, List.mem_cons_self, ?_, ?_⟩
      · intro sh ipc l hl
        exact List.mem_cons_of_mem _ (h.last_mem sh ipc l hl)
      · intro _ hmissing
        have hnew : fileMtime (some f) = fileMtime none := hmissing
        exact hfresh (hnew ▸ h.none_mem)
  | remove =>
      refine ⟨h.none_mem, h.none_mem, h.last_mem, ?_⟩
      intro hu
      cases hu
  | main => exact known_main h
  | loader report => exact known_loader h report

theorem noticed_step {s : WatchState} (m : WatchMove) (hfresh : FreshWrite s m)
    (hbaseline : BaselineRead s m) (hknown : s.Known) (h : s.Noticed) : (s.step m).Noticed := by
  cases m with
  | write f =>
      intro sh ipc l hl _ _ _ hlast
      have hnew : l.lastMtime = fileMtime (some f) := hlast
      exact hfresh (hnew ▸ hknown.last_mem sh ipc l hl)
  | remove =>
      intro sh ipc l _ hu
      cases hu
  | main => exact noticed_main h
  | loader report => exact noticed_loader hknown h hbaseline

theorem notMissed_of_noticed {s : WatchState} (hknown : s.Known) (h : s.Noticed) :
    s.NotMissed := by
  intro sh ipc l hl hactive hunread hread
  have hdiffers := h sh ipc l hl hunread hactive hread
  refine ⟨hdiffers, ?_⟩
  intro hwaiting report
  exact readsNext_of_differs hactive hwaiting (hknown.unread_ne hunread) hdiffers report sh

/-! ## Contract: no write is missed -/

theorem notMissed_run {file : Option SavedFile} {moves : List WatchMove}
    (hfresh : AtEach WatchState.step FreshWrite (.start file) moves)
    (hbaseline : AtEach WatchState.step BaselineRead (.start file) moves) :
    (run WatchState.step (.start file) moves).NotMissed := by
  have hboth := run_invariant_atEach WatchState.step
    (P := fun s m => FreshWrite s m ∧ BaselineRead s m) (Q := fun s => s.Known ∧ s.Noticed)
    (fun s m hm hs => ⟨known_step m hm.1 hs.1, noticed_step m hm.1 hm.2 hs.1 hs.2⟩)
    ⟨known_start file, noticed_start file⟩
    (fun before m after hsplit =>
      ⟨hfresh before m after hsplit, hbaseline before m after hsplit⟩)
  exact notMissed_of_noticed hboth.1 hboth.2

/-- The baseline is the time of a file that nobody has read. -/
theorem missed_of_baseline {s : WatchState} {sh : Shared} {ipc : Option ReloadPoint}
    (hstage : s.stage = .spawned sh ipc none) (hunread : s.unread = true) :
    ¬ (s.step (.loader .dead)).NotMissed := by
  intro h
  have hstep : s.step (.loader .dead) = _ := loaderStep_of_none hstage .dead
  rw [hstep] at h
  exact (h sh ipc (.init .dead s.file) rfl rfl hunread rfl).1 rfl

/-- A polling loop misses no write of a run exactly when no thread that is going to poll takes
its baseline from a file that was written after `ConfigStore::new` read it.  A thread that
listens to inotify compares no times. -/
theorem no_write_missed_iff (file : Option SavedFile) (moves : List WatchMove)
    (hfresh : AtEach WatchState.step FreshWrite (.start file) moves) :
    Throughout WatchState.step WatchState.NotMissed (.start file) moves ↔
      AtEach WatchState.step BaselineRead (.start file) moves := by
  constructor
  · rintro hall before m after rfl sh ipc hstage rfl
    by_contra hunread
    rw [Bool.not_eq_false] at hunread
    have hnext := hall (before ++ [.loader .dead]) after (List.append_cons ..)
    rw [run_concat] at hnext
    exact missed_of_baseline hstage hunread hnext
  · rintro hbaseline before after rfl
    exact notMissed_run (atEach_left _ hfresh) (atEach_left _ hbaseline)

def compiledFor (pkg : String) : Compiled where
  rules := (compile [.ofCpus pkg "" "0-3"] (.flat 8)).rules
  engine := .default

def savedFor (pkg : String) (modified : Int) : SavedFile := ⟨modified, some (compiledFor pkg)⟩

/-- The write comes after the baseline, and the next look finds it. -/
theorem no_write_missed_after_baseline :
    Throughout WatchState.step WatchState.NotMissed (.start (some (savedFor "com.a" 1)))
        [.main, .main, .loader .dead, .write (savedFor "com.b" 2), .loader .quiet] ↔
      AtEach WatchState.step BaselineRead (.start (some (savedFor "com.a" 1)))
        [.main, .main, .loader .dead, .write (savedFor "com.b" 2), .loader .quiet] :=
  no_write_missed_iff (some (savedFor "com.a" 1)) _
    (atEach_cons _ trivial (atEach_cons _ trivial (atEach_cons _ trivial
      (atEach_cons _ (by decide +kernel) (atEach_cons _ trivial (atEach_nil _ _ _))))))

/-- The file is written before the thread starts: it polls from then on without ever loading
the new content. -/
theorem write_at_start_up_missed :
    ¬ ∀ (file : Option SavedFile) (moves : List WatchMove),
      AtEach WatchState.step FreshWrite (.start file) moves →
        Throughout WatchState.step WatchState.NotMissed (.start file) moves := by
  intro h
  let before : List WatchMove := [.main, .write (savedFor "com.b" 2), .main]
  have hfresh : AtEach WatchState.step FreshWrite (.start (some (savedFor "com.a" 1)))
      (before ++ [.loader .dead]) :=
    atEach_cons _ trivial (atEach_cons _ (by decide +kernel) (atEach_cons _ trivial
      (atEach_cons _ trivial (atEach_nil _ _ _))))
  have hmissed := h _ _ hfresh (before ++ [.loader .dead]) [] (List.append_nil _).symm
  rw [run_concat] at hmissed
  have hstage : (run WatchState.step (.start (some (savedFor "com.a" 1))) before).stage =
      .spawned ⟨(compiledFor "com.a").snapshot 1, []⟩ none none := rfl
  exact missed_of_baseline hstage rfl hmissed

end Threadctl.Core
