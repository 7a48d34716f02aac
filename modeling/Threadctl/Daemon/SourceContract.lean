import Threadctl.Daemon.EbpfSource

/-!
# The contract of an event source

After a configuration change the next poll has to report every live process that
the new rules want and the tracker does not hold.  The `/proc` source does; the eBPF
source scans only once in its life and afterwards reports only what its queue holds.
-/

namespace Threadctl.Daemon

open Threadctl.Core Threadctl.Support.Indexing Threadctl.Support.StateRun
open Threadctl.Support.Text

variable {κ : Type}

/-! ## The processes that are running -/

/-- What `/proc` says about each pid. -/
structure ProcTable where
  cmdline : Int → Option String
  alive : Int → Bool
  tgid : Int → Option Int

/-- A process, as opposed to one of its threads. -/
def ProcTable.Live (proc : ProcTable) (pid : Int) : Prop :=
  proc.alive pid = true ∧ proc.tgid pid = some pid

/-- The processes do not change: `At t k` holds of the kernel states of the round
whose clock is at least `t`. -/
structure Frozen (env : Env κ) (proc : ProcTable) (At : Nat → κ → Prop) : Prop where
  cmdline_eq : ∀ {t k} (pid : Int), At t k → ((env.readCmdline pid).run k).1 = proc.cmdline pid
  cmdline_at : ∀ {t k} (pid : Int), At t k → At t ((env.readCmdline pid).run k).2
  alive_eq : ∀ {t k} (pid : Int), At t k → ((env.isAlive pid).run k).1 = proc.alive pid
  alive_at : ∀ {t k} (pid : Int), At t k → At t ((env.isAlive pid).run k).2
  tgid_eq : ∀ {t k} (pid : Int), At t k → ((env.readTgid pid).run k).1 = proc.tgid pid
  tgid_at : ∀ {t k} (pid : Int), At t k → At t ((env.readTgid pid).run k).2
  /-- Every live process has an entry in `/proc`. -/
  dir_lists : ∀ {t k} (pid : Int), At t k → proc.Live pid →
    ∃ names, (env.readProcDir.run k).1 = some names ∧ pid ∈ names.filterMap parseI32
  dir_at : ∀ {t k}, At t k → At t (env.readProcDir.run k).2
  tids_at : ∀ {t k} (pid : Int), At t k → At t ((env.listTids pid).run k).2
  now_le : ∀ {t k}, At t k → t ≤ (env.instantNow.run k).1
  now_at : ∀ {t k}, At t k → At (env.instantNow.run k).1 (env.instantNow.run k).2
  sleep_at : ∀ {t k} (n : Nat), At t k → At t ((env.sleep n).run k).2

/-- A live process that the rules want and the tracker does not hold. -/
structure Wanted (fnmatch : String → String → Bool) (cfg : ConfigSnapshot) (proc : ProcTable)
    (tracker : StateTracker) (pid : Int) : Prop where
  live : proc.Live pid
  interested : ∃ pkg, proc.cmdline pid = some pkg ∧ pkg.isEmpty = false ∧
    cfg.rules.isInterested fnmatch pkg = true
  untracked : tracker.contains pid = false

/-- The events report a fork of `pid`. -/
def Forks (events : List ProcessEvent) (pid : Int) : Prop :=
  ∃ ev ∈ events, ev.kind = .fork ∧ ev.pid = pid

theorem Forks.mono {events events' : List ProcessEvent} {pid : Int} (h : Forks events pid)
    (hsub : events ⊆ events') : Forks events' pid := by
  obtain ⟨ev, hev, hfork⟩ := h
  exact ⟨ev, hsub hev, hfork⟩

theorem forks_push {σ : Type} (r : Round σ) (pid : Int) (pkg : String) :
    Forks (r.push ((ProcessEvent.fork pid pid).withPkg pkg)).events pid :=
  ⟨_, List.mem_append_right _ (List.mem_singleton_self _), rfl, rfl⟩

theorem subset_push {σ : Type} (r : Round σ) (ev : ProcessEvent) :
    r.events ⊆ (r.push ev).events := List.subset_append_left _ _

/-! ## Questions in a frozen round -/

/-- The kernel is in the round, at time `t` or later, and the tracker is `tracker`. -/
def Still (At : Nat → κ → Prop) (tracker : StateTracker) (t : Nat) (s : System κ) : Prop :=
  At t s.kernel ∧ s.tracker = tracker

/-- The same at some time. -/
def Steady (At : Nat → κ → Prop) (tracker : StateTracker) (s : System κ) : Prop :=
  ∃ t, Still At tracker t s

section Contract

variable {env : Env κ} {proc : ProcTable} {At : Nat → κ → Prop} {tracker : StateTracker}

theorem ask_still {α : Type} {x : StateM κ α} (hx : ∀ {t k}, At t k → At t (x.run k).2) (t : Nat) :
    Keeps (Still At tracker t) (ask x) := fun _ hs => ⟨hx hs.1, hs.2⟩

theorem ask_steady {α : Type} {x : StateM κ α} (hx : ∀ {t k}, At t k → At t (x.run k).2) :
    Keeps (Steady At tracker) (ask x) := fun _ ⟨t, hs⟩ => ⟨t, ask_still hx t _ hs⟩

theorem ask_answer {α : Type} {x : StateM κ α} {a : α}
    (heq : ∀ {t k}, At t k → (x.run k).1 = a) (hx : ∀ {t k}, At t k → At t (x.run k).2) :
    Triple (Steady At tracker) (ask x) fun b s => b = a ∧ Steady At tracker s :=
  fun s hs => ⟨heq hs.choose_spec.1, ask_steady hx s hs⟩

theorem ask_now (h : Frozen env proc At) (t : Nat) :
    Triple (Still At tracker t) (ask env.instantNow)
      fun now s => t ≤ now ∧ Still At tracker now s :=
  fun _ hs => ⟨h.now_le hs.1, h.now_at hs.1, hs.2⟩

theorem now_steady (h : Frozen env proc At) : Keeps (Steady At tracker) (ask env.instantNow) :=
  fun _ ⟨_, hs⟩ => ⟨_, h.now_at hs.1, hs.2⟩

theorem walk_keeps {α : Type} {I : System κ → Prop} (l : List α) : Keeps I (walk env l) :=
  Keeps.get fun _ => Keeps.pure

theorem pids_keeps {I : System κ → Prop} : Keeps I (pids env) := Keeps.get fun _ => walk_keeps _

variable {fnmatch : String → String → Bool} {cfg : ConfigSnapshot}

theorem Wanted.read {pid : Int} (h : Wanted fnmatch cfg proc tracker pid) :
    ∃ pkg, (proc.cmdline pid).filter (!·.isEmpty) = some pkg ∧
      cfg.rules.isInterested fnmatch pkg = true := by
  obtain ⟨pkg, hread, hne, hint⟩ := h.interested
  exact ⟨pkg, by rw [hread]; simp [Option.filter, hne], hint⟩

theorem Wanted.interested_of_read {pid : Int} (h : Wanted fnmatch cfg proc tracker pid)
    {pkg : String}
    (hread : (proc.cmdline pid).filter (!·.isEmpty) = some pkg) :
    cfg.rules.isInterested fnmatch pkg = true := by
  obtain ⟨pkg', hpkg, hint⟩ := h.read
  rw [hread, Option.some.injEq] at hpkg
  rw [hpkg]
  exact hint

/-! ## The `/proc` source -/

theorem newTidsFor_keeps (h : Frozen env proc At) (pid : Int) :
    Keeps (Steady At tracker) (newTidsFor env pid) := by
  refine Keeps.get fun s => ?_
  cases s.tracker.procs.lookup pid with
  | none => exact Keeps.pure
  | some state =>
      refine Keeps.ite Keeps.pure (Keeps.bind (ask_steady fun hk => h.tids_at pid hk) fun _ => ?_)
      exact walk_keeps _

/-- What one step of a scan over processes promises. -/
def ScanStep (At : Nat → κ → Prop) (tracker : StateTracker) (Q : Int → Prop) {σ : Type}
    (r : Round σ) (pid : Int) (r' : Round σ) (s : System κ) : Prop :=
  Steady At tracker s ∧ r.events ⊆ r'.events ∧ (Q pid → Forks r'.events pid)

theorem enqueue_spec (h : Frozen env proc At) (r : Round ProcSource) (pid : Int) :
    Triple (Steady At tracker) (enqueue env r pid)
      fun r' s => Steady At tracker s ∧ r.events ⊆ r'.events := by
  refine Triple.get fun s hs => Triple.ite ?_ ?_
  · refine Triple.bind (Q := fun _ => Steady At tracker) ?_ fun now => ?_
    · exact fun t ht => now_steady h t (ht ▸ hs)
    · exact Triple.pure fun t ht => ⟨ht, fun _ hev => hev⟩
  · exact Triple.pure fun t ht => ⟨ht ▸ hs, fun _ hev => hev⟩

theorem pushClones_spec (h : Frozen env proc At) (r : Round ProcSource) (pid : Int) (pkg : String) :
    Triple (Steady At tracker) (pushClones env r pid pkg)
      fun r' s => Steady At tracker s ∧ r.events ⊆ r'.events :=
  Triple.bind (newTidsFor_keeps h pid) fun _ =>
    Triple.pure fun _ hs => ⟨hs, List.subset_append_left _ _⟩

/-- A scan reads the package of a process: an unread process and one of another package are
not wanted. -/
theorem readProcess_spec {σ : Type} (h : Frozen env proc At) (r : Round σ) (pid : Int)
    {unread : Run κ (Round σ)} {wanted : String → Run κ (Round σ)}
    (hunread : Triple (Steady At tracker) unread
      fun r' s => Steady At tracker s ∧ r.events ⊆ r'.events)
    (hwanted : ∀ pkg, Triple (Steady At tracker) (wanted pkg)
      (ScanStep At tracker (Wanted fnmatch cfg proc tracker) r pid)) :
    Triple (Steady At tracker)
      (do
        let read ← ask (env.readCmdline pid)
        match read.filter (!·.isEmpty) with
        | none => unread
        | some pkg => if !cfg.rules.isInterested fnmatch pkg then pure r else wanted pkg)
      (ScanStep At tracker (Wanted fnmatch cfg proc tracker) r pid) := by
  refine Triple.bind (ask_answer (fun hk => h.cmdline_eq pid hk) fun hk => h.cmdline_at pid hk)
    fun read => Triple.pre ?_
  rintro rfl
  cases hread : (proc.cmdline pid).filter (!·.isEmpty) with
  | none =>
      refine hunread.mono (fun _ hs => hs) fun _ _ hs => ⟨hs.1, hs.2, fun hw => ?_⟩
      obtain ⟨pkg, hpkg, -⟩ := hw.read
      rw [hread] at hpkg
      exact absurd hpkg (by simp)
  | some pkg =>
      dsimp only
      cases hint : cfg.rules.isInterested fnmatch pkg with
      | false =>
          rw [if_pos Bool.not_false]
          refine Triple.pure fun s hs => ⟨hs, fun _ hev => hev, fun hw => ?_⟩
          exact absurd (hw.interested_of_read hread) (by simp [hint])
      | true =>
          rw [if_neg (by simp)]
          exact hwanted pkg

theorem scanProcess_spec (h : Frozen env proc At) (r : Round ProcSource) (pid : Int) :
    Triple (Steady At tracker) (scanProcess fnmatch env cfg.rules r pid)
      (ScanStep At tracker (Wanted fnmatch cfg proc tracker) r pid) := by
  refine readProcess_spec h r pid (enqueue_spec h r pid) fun pkg => ?_
  refine Triple.get fun s hs => ?_
  have htracker : s.tracker = tracker := hs.choose_spec.2
  cases htracked : s.tracker.contains pid with
  | true =>
      rw [if_pos rfl]
      refine (pushClones_spec h r pid pkg).mono (fun t ht => ht ▸ hs) fun _ _ hs' =>
        ⟨hs'.1, hs'.2, fun hw => ?_⟩
      have huntracked := hw.untracked
      rw [← htracker, htracked] at huntracked
      exact Bool.noConfusion huntracked
  | false =>
      rw [if_neg (by simp)]
      exact Triple.pure fun t ht => ⟨ht ▸ hs, subset_push r _, fun _ => forks_push r pid pkg⟩

theorem foldlM_scanStep {σ : Type} {Q : Int → Prop} {f : Round σ → Int → Run κ (Round σ)}
    (hf : ∀ r pid, Triple (Steady At tracker) (f r pid) (ScanStep At tracker Q r pid))
    (pids : List Int) (r : Round σ) :
    Triple (Steady At tracker) (pids.foldlM f r) fun r' s =>
      Steady At tracker s ∧ r.events ⊆ r'.events ∧ ∀ pid ∈ pids, Q pid → Forks r'.events pid := by
  let I : List Int → Round σ → System κ → Prop := fun rest r' s =>
    Steady At tracker s ∧ r.events ⊆ r'.events ∧
      ∀ pid ∈ pids, Q pid → pid ∈ rest ∨ Forks r'.events pid
  have hloop : Triple (I pids r) (pids.foldlM f r) (I []) := by
    refine Triple.foldlM pids r fun pid rest b => ?_
    rintro s ⟨hs, hsub, hcover⟩
    obtain ⟨hs', hsub', hfork⟩ := hf b pid s hs
    refine ⟨hs', List.Subset.trans hsub hsub', fun q hq hQ => ?_⟩
    rcases hcover q hq hQ with hmem | hdone
    · rcases List.mem_cons.mp hmem with rfl | hrest
      · exact Or.inr (hfork hQ)
      · exact Or.inl hrest
    · exact Or.inr (hdone.mono hsub')
  refine hloop.mono (fun s hs => ⟨hs, fun _ hev => hev, fun q hq _ => Or.inl hq⟩) ?_
  rintro r' s ⟨hs, hsub, hcover⟩
  refine ⟨hs, hsub, fun q hq hQ => ?_⟩
  rcases hcover q hq hQ with hmem | hdone
  · exact absurd hmem List.not_mem_nil
  · exact hdone

/-- Flushing the queue leaves the request for a full scan standing. -/
theorem flushProcess_scanAll (h : Frozen env proc At) (rules : RuleSet) (now : Nat)
    (r : Round ProcSource) (p : PendingProcess) :
    Triple (Steady At tracker) (flushProcess fnmatch env rules now r p)
      fun r' s => r'.src.scanAll = r.src.scanAll ∧ Steady At tracker s := by
  have hdone : ∀ r' : Round ProcSource, r'.src.scanAll = r.src.scanAll →
      Triple (Steady At tracker) (pure r' : Run κ (Round ProcSource))
        fun r' s => r'.src.scanAll = r.src.scanAll ∧ Steady At tracker s := fun r' hr' =>
    Triple.pure fun s hs => ⟨hr', hs⟩
  refine Triple.ite (hdone _ rfl) ?_
  refine Triple.bind (ask_steady fun hk => h.alive_at p.pid hk) fun alive => ?_
  refine Triple.ite (hdone _ rfl) ?_
  refine Triple.bind (ask_steady fun hk => h.cmdline_at p.pid hk) fun read => ?_
  cases read.filter (!·.isEmpty) with
  | some pkg => exact Triple.ite (hdone _ rfl) (hdone _ rfl)
  | none => exact Triple.ite (hdone _ rfl) (hdone _ rfl)

theorem flushPending_scanAll (h : Frozen env proc At) (rules : RuleSet) (r : Round ProcSource) :
    Triple (Steady At tracker) (ProcSource.flushPending fnmatch env rules r)
      fun r' s => r'.src.scanAll = r.src.scanAll ∧ Steady At tracker s := by
  refine Triple.ite (Triple.pure fun s hs => ⟨rfl, hs⟩) ?_
  refine Triple.bind (now_steady h) fun now => ?_
  refine (Triple.foldlM (I := fun _ r' s => r'.src.scanAll = r.src.scanAll ∧ Steady At tracker s)
    r.src.pending _ fun p rest b => ?_).mono (fun s hs => ⟨rfl, hs⟩) fun _ _ hs => hs
  refine Triple.pre fun hscan => ?_
  exact (flushProcess_scanAll h rules now b p).mono (fun _ hs => hs) fun _ _ hs =>
    ⟨hs.1.trans hscan, hs.2⟩

theorem countProcesses_keeps (h : Frozen env proc At) :
    Keeps (Steady At tracker) (countProcesses env) := by
  refine Keeps.bind (ask_steady fun hk => h.dir_at hk) fun dir => ?_
  cases dir with
  | none => exact Keeps.pure
  | some names => exact Keeps.pure

theorem pushExits_spec (r : Round ProcSource) (current : List Int) :
    Triple (Steady At tracker) (pushExits env r current)
      fun r' s => r.events ⊆ r'.events ∧ Steady At tracker s :=
  Triple.bind pids_keeps fun _ => Triple.pure fun _ hs => ⟨List.subset_append_left _ _, hs⟩

theorem ask_dir (h : Frozen env proc At) :
    Triple (Steady At tracker) (ask env.readProcDir) fun dir s =>
      (∀ pid, proc.Live pid → ∃ names, dir = some names ∧ pid ∈ names.filterMap parseI32) ∧
        Steady At tracker s :=
  fun s hs => ⟨fun pid hlive => h.dir_lists pid hs.choose_spec.1 hlive,
    ask_steady (fun hk => h.dir_at hk) s hs⟩

/-- The events report every process that is wanted. -/
def ForksWanted (fnmatch : String → String → Bool) (cfg : ConfigSnapshot) (proc : ProcTable)
    (tracker : StateTracker) (events : List ProcessEvent) : Prop :=
  ∀ pid, Wanted fnmatch cfg proc tracker pid → Forks events pid

/-- A scan of the process directory: a wanted process is live, so the directory can be read
and lists it. -/
theorem scanDir_spec {σ : Type} (h : Frozen env proc At) {unread : Run κ (Round σ)}
    {scan : List String → Run κ (Round σ)} (hunread : Keeps (Steady At tracker) unread)
    (hscan : ∀ names, Triple (Steady At tracker) (scan names) fun r s =>
      (∀ pid ∈ names.filterMap parseI32, Wanted fnmatch cfg proc tracker pid →
        Forks r.events pid) ∧ Steady At tracker s) :
    Triple (Steady At tracker)
      (do
        let dir ← ask env.readProcDir
        match dir with
        | none => unread
        | some names => scan names)
      fun r s => ForksWanted fnmatch cfg proc tracker r.events ∧ Steady At tracker s := by
  refine Triple.bind (ask_dir h) fun dir => Triple.pre fun hlists => ?_
  cases dir with
  | none =>
      refine hunread.mono (fun _ hs => hs) fun r s hs => ⟨fun pid hw => ?_, hs⟩
      obtain ⟨names, hnone, -⟩ := hlists pid hw.live
      exact absurd hnone (by simp)
  | some names =>
      refine (hscan names).mono (fun _ hs => hs) ?_
      rintro r s ⟨hforks, hs⟩
      refine ⟨fun pid hw => ?_, hs⟩
      obtain ⟨names', heq, hmem⟩ := hlists pid hw.live
      rw [← Option.some.inj heq] at hmem
      exact hforks pid hmem hw

theorem collect_forksWanted (h : Frozen env proc At) (src : ProcSource) :
    Triple (Steady At tracker) ((src.onConfigChanged cfg).collect fnmatch env)
      fun r s => ForksWanted fnmatch cfg proc tracker r.events ∧ Steady At tracker s := by
  refine Triple.bind (flushPending_scanAll h cfg.rules _) fun r => Triple.pre fun hscan => ?_
  refine Triple.bind (countProcesses_keeps h) fun procTotal => ?_
  have hfull : r.src.needFull procTotal = true := by
    rw [ProcSource.needFull, hscan]
    rfl
  dsimp only
  rw [if_pos hfull]
  refine scanDir_spec h Keeps.pure fun names => ?_
  refine Triple.bind (foldlM_scanStep (fun r pid => scanProcess_spec h r pid) _ _) fun r' => ?_
  rintro s ⟨hs, -, hforks⟩
  obtain ⟨hsub, hs'⟩ := pushExits_spec r' (names.filterMap parseI32) s hs
  exact ⟨fun pid hmem hw => (hforks pid hmem hw).mono hsub, hs'⟩

theorem procSource_forksWanted (h : Frozen env proc At) (src : ProcSource) (deadline : Nat) :
    Triple (Steady At tracker) ((src.onConfigChanged cfg).poll fnmatch env deadline)
      fun r s => ForksWanted fnmatch cfg proc tracker r.events ∧ Steady At tracker s := by
  refine Triple.bind (collect_forksWanted h src) fun r => Triple.pre fun hforks => ?_
  have hdone : Triple (Steady At tracker) (pure r : Run κ (Round ProcSource))
      fun r s => ForksWanted fnmatch cfg proc tracker r.events ∧ Steady At tracker s :=
    Triple.pure fun s hs => ⟨hforks, hs⟩
  refine Triple.ite (Triple.bind (now_steady h) fun now => Triple.ite ?_ hdone) hdone
  exact Triple.bind (ask_steady fun hk => h.sleep_at _ hk) fun _ => hdone

end Contract

end Threadctl.Daemon
