import Threadctl.Daemon.SourceContract

/-!
# The contract of the eBPF source

A poll of the eBPF source reports the forks at the head of its queue.  Only the
first poll of its life also scans the processes that are running.
-/

namespace Threadctl.Daemon

open Threadctl.Core Threadctl.Support.Indexing Threadctl.Support.StateRun
open Threadctl.Support.Text

variable {κ : Type}

/-! ## Reachable sources -/

/-- The states of the source between two calls of the main loop. -/
inductive EbpfSource.Reachable (fnmatch : String → String → Bool) : EbpfSource → Prop where
  | loaded (cfg : ConfigSnapshot) (now : Nat) (hasTarget hasTracked : Bool) :
      Reachable fnmatch (.tryNew cfg now hasTarget hasTracked)
  | arrived {src : EbpfSource} (ev : EbpfProcEvent) :
      Reachable fnmatch src → Reachable fnmatch { src with eventRx := src.eventRx ++ [ev] }
  | configChanged {src : EbpfSource} (cfg : ConfigSnapshot) :
      Reachable fnmatch src → Reachable fnmatch (src.onConfigChanged cfg)
  | polled {src : EbpfSource} {κ : Type} (env : Env κ) (deadline : Nat) (s : System κ) :
      Reachable fnmatch src → Reachable fnmatch ((src.poll fnmatch env deadline).run s).1.src

theorem EbpfSource.updateWhitelist_eq (src : EbpfSource) (cfg : ConfigSnapshot) :
    src.updateWhitelist cfg =
      { src with targetComm := (src.updateWhitelist cfg).targetComm } := by
  unfold EbpfSource.updateWhitelist
  split <;> rfl

theorem EbpfSource.onConfigChanged_eq (src : EbpfSource) (cfg : ConfigSnapshot) :
    src.onConfigChanged cfg = { src with
      cfg := some cfg, pending := [], targetComm := (src.onConfigChanged cfg).targetComm } := by
  rw [EbpfSource.onConfigChanged, EbpfSource.updateWhitelist_eq]

theorem periodicSync_spec (env : Env κ) (src : EbpfSource) :
    Triple (fun _ => True) (periodicSync env src) fun synced _ => ∃ tracked last,
      synced = { src with trackedTgid := tracked, lastTrackedSync := last } := by
  refine Triple.bind_any fun now => Triple.ite ?_ (Triple.pure fun _ _ => ⟨_, _, rfl⟩)
  exact Triple.bind_any fun tracked => Triple.bind_any fun done =>
    Triple.pure fun _ _ => ⟨_, _, rfl⟩

theorem sleepRound_spec (env : Env κ) (r : Round EbpfSource) (deadline : Nat) :
    Triple (fun _ => True) (sleepRound env r deadline) fun r' _ => r' = r := by
  have hdone : Triple (fun _ => True) (pure r : Run κ (Round EbpfSource)) fun r' _ => r' = r :=
    Triple.pure fun _ _ => rfl
  refine Triple.ite (Triple.bind_any fun now => Triple.ite ?_ hdone) hdone
  exact Triple.bind_any fun _ => hdone

theorem poll_end (env : Env κ) (r : Round EbpfSource) (deadline : Nat) :
    Triple (fun _ => True)
      (do
        let synced ← periodicSync env { r.src with initialScanned := [] }
        sleepRound env ⟨synced, r.events⟩ deadline : Run κ (Round EbpfSource))
      fun r' _ => r'.events = r.events ∧ r'.src.initialScanned = [] ∧
        r'.src.pending = r.src.pending := by
  refine Triple.bind (periodicSync_spec env _) fun synced s hsynced => ?_
  obtain ⟨tracked, last, hsynced⟩ := hsynced
  rw [sleepRound_spec env ⟨synced, r.events⟩ deadline s trivial, hsynced]
  exact ⟨rfl, rfl, rfl⟩

theorem EbpfSource.Reachable.initialScanned_eq {fnmatch : String → String → Bool}
    {src : EbpfSource} (h : EbpfSource.Reachable fnmatch src) : src.initialScanned = [] := by
  induction h with
  | loaded cfg now hasTarget hasTracked => rfl
  | arrived ev _ ih => exact ih
  | configChanged cfg _ ih =>
      rw [EbpfSource.onConfigChanged_eq]
      exact ih
  | polled env deadline s _ ih =>
      rename_i src κ _
      have hpoll : Triple (fun _ => True) (src.poll fnmatch env deadline)
          fun r _ => r.src.initialScanned = [] := by
        refine Triple.bind (Q := fun _ _ => True) (fun _ _ => trivial) fun r => ?_
        refine Triple.bind (Q := fun _ _ => True) (fun _ _ => trivial) fun r => ?_
        exact (poll_end env r deadline).mono (fun _ h => h) fun _ _ h => h.2.1
      exact hpoll s trivial

/-- The pids waiting after one more raw event. -/
def queueFork (pids : List Int) (ev : EbpfProcEvent) : List Int :=
  if ev.eventType = eventFork ∧ pids.length < ebpfPendingMax ∧ ev.pid ∉ pids then pids ++ [ev.pid]
  else pids

/-- The forks one poll takes from its queue: among the first 256 raw events, the
first 128 distinct pids. -/
def firstForks (queue : List EbpfProcEvent) : List Int :=
  (distinct (((queue.take drainMax).filter fun ev => ev.eventType = eventFork).map (·.pid))).take
    ebpfPendingMax

theorem foldl_queueFork (evs : List EbpfProcEvent) :
    evs.foldl queueFork [] =
      (distinct ((evs.filter fun ev => ev.eventType = eventFork).map (·.pid))).take
        ebpfPendingMax := by
  induction evs using List.reverseRecOn with
  | nil => rfl
  | append_singleton evs ev ih =>
      rw [List.foldl_append, ih, List.filter_append, List.map_append]
      set pids := distinct ((evs.filter fun ev => ev.eventType = eventFork).map (·.pid))
      by_cases hfork : ev.eventType = eventFork
      · have hfilter : ([ev].filter fun ev => ev.eventType = eventFork).map (·.pid) = [ev.pid] := by
          simp [hfork]
        rw [hfilter, distinct_concat]
        change queueFork (pids.take ebpfPendingMax) ev = (pushNew pids ev.pid).take ebpfPendingMax
        unfold queueFork pushNew
        by_cases hroom : pids.length < ebpfPendingMax
        · rw [List.take_of_length_le (Nat.le_of_lt hroom)]
          by_cases hmem : ev.pid ∈ pids
          · rw [if_neg (by simp [hmem]), if_pos hmem, List.take_of_length_le (Nat.le_of_lt hroom)]
          · rw [if_pos ⟨hfork, hroom, hmem⟩, if_neg hmem, List.take_of_length_le (by simp; omega)]
        · have hfull : ¬(pids.take ebpfPendingMax).length < ebpfPendingMax := by
            rw [List.length_take]
            omega
          rw [if_neg (by tauto)]
          split
          · rfl
          · rw [List.take_append_of_le_length (by omega)]
      · have hfilter : ([ev].filter fun ev => ev.eventType = eventFork).map (·.pid) = [] := by
          simp [hfork]
        rw [hfilter, List.append_nil]
        change queueFork (pids.take ebpfPendingMax) ev = pids.take ebpfPendingMax
        rw [queueFork, if_neg (by tauto)]

section Contract

variable {env : Env κ} {proc : ProcTable} {At : Nat → κ → Prop} {tracker : StateTracker}
variable {fnmatch : String → String → Bool} {cfg : ConfigSnapshot}

theorem initialScanProcess_spec (h : Frozen env proc At) (r : Round EbpfSource) (pid : Int) :
    Triple (Steady At tracker) (initialScanProcess fnmatch env cfg.rules r pid)
      (ScanStep At tracker (Wanted fnmatch cfg proc tracker) r pid) := by
  refine readProcess_spec h r pid (Triple.pure fun s hs => ⟨hs, fun _ hev => hev⟩) fun pkg => ?_
  exact Triple.pure fun s hs => ⟨hs, subset_push r _, fun _ => forks_push r pid pkg⟩

theorem initialScan_spec (h : Frozen env proc At) (src : EbpfSource) (hcfg : src.cfg = some cfg) :
    Triple (Steady At tracker) (initialScan fnmatch env ⟨src, []⟩)
      fun r s => ForksWanted fnmatch cfg proc tracker r.events ∧ Steady At tracker s := by
  unfold initialScan
  dsimp only
  rw [hcfg]
  refine scanDir_spec h Keeps.pure fun names => ?_
  refine (foldlM_scanStep (fun r pid => initialScanProcess_spec h r pid) _ _).mono
    (fun s hs => hs) ?_
  rintro r s ⟨hs, -, hforks⟩
  exact ⟨hforks, hs⟩

/-! ## The raw events -/

theorem not_forks_push {σ : Type} {r : Round σ} {pid : Int} {ev : ProcessEvent}
    (hev : ev.kind ≠ .fork)
    (h : ¬Forks r.events pid) : ¬Forks (r.push ev).events pid := by
  rintro ⟨ev', hmem, hfork⟩
  rcases List.mem_append.mp hmem with hold | hnew
  · exact h ⟨ev', hold, hfork⟩
  · rw [List.mem_singleton.mp hnew] at hfork
    exact hev hfork.1

/-- A round in the middle of a batch: `pids` wait and are due, and no fork is out yet. -/
structure Queued (cfg : ConfigSnapshot) (t : Nat) (pids : List Int) (r : Round EbpfSource) :
    Prop where
  cfg_eq : r.src.cfg = some cfg
  scanned : r.src.initialScanned = []
  pids_eq : r.src.pending.map (·.pid) = pids
  due : ∀ p ∈ r.src.pending, p.nextRetry ≤ t
  no_forks : ∀ pid, ¬Forks r.events pid

theorem handleFork_queued (h : Frozen env proc At) {t : Nat} {pids : List Int}
    {r : Round EbpfSource} (hr : Queued cfg t pids r) {ev : EbpfProcEvent}
    (hfork : ev.eventType = eventFork) :
    Triple (Still At tracker t) (handleFork env r ev.pid) fun r' s =>
      ∃ t', Queued cfg t' (queueFork pids ev) r' ∧ Still At tracker t' s := by
  have hroom : (r.src.pending.length < ebpfPendingMax ∧ r.src.pending.all (·.pid ≠ ev.pid) = true) ↔
      (pids.length < ebpfPendingMax ∧ ev.pid ∉ pids) := by
    rw [← hr.pids_eq, List.length_map]
    refine and_congr Iff.rfl ?_
    simp only [List.all_eq_true, decide_eq_true_eq, List.mem_map, not_exists, not_and]
  rw [handleFork, if_neg (by rw [hr.scanned]; exact List.not_mem_nil), queueFork]
  by_cases hok : pids.length < ebpfPendingMax ∧ ev.pid ∉ pids
  · rw [if_pos (hroom.mpr hok), if_pos ⟨hfork, hok⟩]
    refine Triple.bind (ask_now h t) fun now => Triple.pre fun hnow => ?_
    refine Triple.pure fun s hs => ⟨now, ⟨hr.cfg_eq, hr.scanned, ?_, ?_, hr.no_forks⟩, hs⟩
    · rw [List.map_append, hr.pids_eq]
      rfl
    · intro p hp
      rcases List.mem_append.mp hp with hold | hnew
      · exact (hr.due p hold).trans hnow
      · rw [List.mem_singleton.mp hnew]
  · rw [if_neg fun hyes => hok (hroom.mp hyes), if_neg fun hyes => hok hyes.2]
    exact Triple.pure fun s hs => ⟨t, hr, hs⟩

theorem queueFork_other {pids : List Int} {ev : EbpfProcEvent} (h : ev.eventType ≠ eventFork) :
    queueFork pids ev = pids := if_neg fun hyes => h hyes.1

theorem Queued.push {t : Nat} {pids : List Int} {r : Round EbpfSource} (hr : Queued cfg t pids r)
    {ev : ProcessEvent} (hev : ev.kind ≠ .fork) : Queued cfg t pids (r.push ev) :=
  ⟨hr.cfg_eq, hr.scanned, hr.pids_eq, hr.due, fun pid => not_forks_push hev (hr.no_forks pid)⟩

theorem handleRaw_queued (h : Frozen env proc At) {t : Nat} {pids : List Int}
    {r : Round EbpfSource} (hr : Queued cfg t pids r) (ev : EbpfProcEvent) :
    Triple (Still At tracker t) (handleRaw env r ev) fun r' s =>
      ∃ t', Queued cfg t' (queueFork pids ev) r' ∧ Still At tracker t' s := by
  unfold handleRaw
  by_cases hfork : ev.eventType = eventFork
  · rw [if_pos hfork]
    exact handleFork_queued h hr hfork
  · rw [if_neg hfork, queueFork_other hfork]
    refine Triple.ite ?_ (Triple.ite ?_ ?_)
    · exact Triple.pure fun s hs => ⟨t, hr.push (by simp [ProcessEvent.exec]), hs⟩
    · refine Triple.get fun s hs => Triple.pure fun s' hs' => ⟨t, ?_, hs' ▸ hs⟩
      have hexit : Queued cfg t pids
          (if s.tracker.contains ev.pid then r.push (ProcessEvent.exit ev.pid ev.tid) else r) := by
        split
        · exact hr.push (by simp [ProcessEvent.exit])
        · exact hr
      split
      · exact ⟨hexit.cfg_eq, hexit.scanned, hexit.pids_eq, hexit.due, hexit.no_forks⟩
      · exact hexit
    · exact Triple.pure fun s hs => ⟨t, hr, hs⟩

/-- After the batch the first forks of the queue wait. -/
theorem foldlM_handleRaw_queued (h : Frozen env proc At) (evs : List EbpfProcEvent) {t : Nat}
    {r : Round EbpfSource} (hr : Queued cfg t [] r) :
    Triple (Still At tracker t) (evs.foldlM (handleRaw env) r) fun r' s =>
      ∃ t', Queued cfg t' (evs.foldl queueFork []) r' ∧ Still At tracker t' s := by
  refine (Triple.foldlM (I := fun rest r' s => ∃ t' pids, Queued cfg t' pids r' ∧
      rest.foldl queueFork pids = evs.foldl queueFork [] ∧ Still At tracker t' s)
    evs r fun ev rest r' => ?_).mono (fun s hs => ⟨t, [], hr, rfl, hs⟩) ?_
  · rintro s ⟨t', pids, hr', hpids, hs⟩
    obtain ⟨t'', hr'', hs'⟩ := handleRaw_queued h hr' ev s hs
    exact ⟨t'', queueFork pids ev, hr'', hpids, hs'⟩
  · rintro r' s ⟨t', pids, hr', hpids, hs⟩
    exact ⟨t', hpids ▸ hr', hs⟩

theorem handleRaw_grows (h : Frozen env proc At) (r : Round EbpfSource) (ev : EbpfProcEvent) :
    Triple (Steady At tracker) (handleRaw env r ev) fun r' s =>
      r.events ⊆ r'.events ∧ Steady At tracker s := by
  have hsame : ∀ r' : Round EbpfSource, r.events ⊆ r'.events → Triple (Steady At tracker)
      (pure r' : Run κ (Round EbpfSource)) fun r' s => r.events ⊆ r'.events ∧ Steady At tracker s :=
    fun r' hsub => Triple.pure fun s hs => ⟨hsub, hs⟩
  refine Triple.ite ?_
    (Triple.ite (hsame _ (subset_push r _)) (Triple.ite ?_ (hsame r fun _ h => h)))
  · refine Triple.ite (hsame r fun _ h => h) (Triple.ite ?_ (hsame r fun _ h => h))
    exact Triple.bind (now_steady h) fun now => hsame _ fun _ h => h
  · refine Triple.get fun s hs => Triple.pure fun s' hs' => ⟨?_, hs' ▸ hs⟩
    have hexit : r.events ⊆ (if s.tracker.contains ev.pid then
        r.push (ProcessEvent.exit ev.pid ev.tid) else r).events := by
      split
      · exact subset_push r _
      · exact fun _ h => h
    split
    · exact hexit
    · exact hexit

/-! ## The pending forks -/

/-- Every fork among the events is an old one or one of `pid`. -/
def OnlyFork (r : Round EbpfSource) (pid : Int) (r' : Round EbpfSource) : Prop :=
  ∀ q, Forks r'.events q → Forks r.events q ∨ q = pid

theorem onlyFork_push {r : Round EbpfSource} {pid : Int} {ev : ProcessEvent}
    (hev : ev.kind = .fork → ev.pid = pid) : OnlyFork r pid (r.push ev) := by
  rintro q ⟨ev', hmem, hkind, hpid⟩
  rcases List.mem_append.mp hmem with hold | hnew
  · exact Or.inl ⟨ev', hold, hkind, hpid⟩
  · rw [List.mem_singleton.mp hnew] at hkind hpid
    exact Or.inr (hpid.symm.trans (hev hkind))

/-- What flushing one entry promises. -/
structure Flushed (fnmatch : String → String → Bool) (cfg : ConfigSnapshot) (proc : ProcTable)
    (tracker : StateTracker) (r : Round EbpfSource) (pid : Int) (due : Prop)
    (r' : Round EbpfSource) : Prop where
  grows : r.events ⊆ r'.events
  only : OnlyFork r pid r'
  reports : due → Wanted fnmatch cfg proc tracker pid → Forks r'.events pid

theorem flushed_of_same {r r' : Round EbpfSource} {pid : Int} {due : Prop}
    (hsame : r'.events = r.events) (hno : due → ¬Wanted fnmatch cfg proc tracker pid) :
    Flushed fnmatch cfg proc tracker r pid due r' where
  grows := hsame ▸ fun _ h => h
  only := fun _ hq => Or.inl (hsame ▸ hq)
  reports := fun hdue hw => absurd hw (hno hdue)

theorem retryOrDrop_spec (h : Frozen env proc At) (r : Round EbpfSource) (p : PendingProcess) :
    Triple (Steady At tracker) (retryOrDrop env r p) fun r' s =>
      r'.events = r.events ∧ Steady At tracker s :=
  Triple.ite (Triple.bind (now_steady h) fun _ => Triple.pure fun _ hs => ⟨rfl, hs⟩)
    (Triple.pure fun _ hs => ⟨rfl, hs⟩)

theorem confirmFork_spec (h : Frozen env proc At) (r : Round EbpfSource) (pid : Int) {pkg : String}
    (hread : (proc.cmdline pid).filter (!·.isEmpty) = some pkg) :
    Triple (Steady At tracker) (confirmFork fnmatch env cfg.rules r pid pkg) fun r' s =>
      Flushed fnmatch cfg proc tracker r pid True r' ∧ Steady At tracker s := by
  refine Triple.bind (ask_answer (fun hk => h.tgid_eq pid hk) fun hk => h.tgid_at pid hk)
    fun read => Triple.pre ?_
  rintro rfl
  dsimp only
  by_cases htgid : (proc.tgid pid).getD pid = pid
  · rw [if_pos htgid]
    cases hint : cfg.rules.isInterested fnmatch pkg with
    | false =>
        refine Triple.pure fun s hs => ⟨flushed_of_same rfl fun _ hw => ?_, hs⟩
        exact absurd (hw.interested_of_read hread) (by simp [hint])
    | true =>
        refine Triple.pure fun s hs => ⟨⟨subset_push r _, ?_, fun _ _ => forks_push r pid pkg⟩, hs⟩
        exact onlyFork_push fun _ => rfl
  · -- a thread of another process is not wanted
    rw [if_neg htgid]
    have hthread : True → ¬Wanted fnmatch cfg proc tracker pid := by
      intro _ hw
      rw [hw.live.2] at htgid
      exact htgid rfl
    refine Triple.bind (ask_steady fun hk => h.cmdline_at _ hk) fun parent => ?_
    cases parent with
    | none => exact Triple.pure fun s hs => ⟨flushed_of_same rfl hthread, hs⟩
    | some ppkg =>
        refine Triple.ite (Triple.pure fun s hs => ⟨?_, hs⟩)
          (Triple.pure fun s hs => ⟨flushed_of_same rfl hthread, hs⟩)
        refine ⟨subset_push r _, onlyFork_push fun hkind => ?_,
          fun hdue hw => absurd hw (hthread hdue)⟩
        simp [ProcessEvent.threadClone] at hkind

theorem flushFork_spec (h : Frozen env proc At) (now : Nat) (r : Round EbpfSource)
    (p : PendingProcess) :
    Triple (Steady At tracker) (flushFork fnmatch env cfg.rules now r p) fun r' s =>
      Flushed fnmatch cfg proc tracker r p.pid (p.nextRetry ≤ now) r' ∧ Steady At tracker s := by
  unfold flushFork
  by_cases hdue : now < p.nextRetry
  · rw [if_pos hdue]
    exact Triple.pure fun s hs => ⟨flushed_of_same rfl fun hle => absurd hle (by omega), hs⟩
  · rw [if_neg hdue]
    refine Triple.bind (ask_answer (fun hk => h.alive_eq p.pid hk) fun hk => h.alive_at p.pid hk)
      fun alive => Triple.pre ?_
    rintro rfl
    cases halive : proc.alive p.pid with
    | false =>
        rw [if_pos Bool.not_false]
        refine Triple.pure fun s hs => ⟨flushed_of_same rfl fun _ hw => ?_, hs⟩
        rw [hw.live.1] at halive
        exact Bool.noConfusion halive
    | true =>
        rw [if_neg (by simp)]
        refine Triple.bind (ask_answer (fun hk => h.cmdline_eq p.pid hk) fun hk =>
          h.cmdline_at p.pid hk) fun read => Triple.pre ?_
        rintro rfl
        cases hread : (proc.cmdline p.pid).filter (!·.isEmpty) with
        | some pkg =>
            exact (confirmFork_spec h r p.pid hread).mono (fun s hs => hs) fun r' s hs =>
              ⟨⟨hs.1.grows, hs.1.only, fun _ => hs.1.reports trivial⟩, hs.2⟩
        | none =>
            refine (retryOrDrop_spec h r p).mono (fun s hs => hs) fun r' s hs =>
              ⟨flushed_of_same hs.1 fun _ hw => ?_, hs.2⟩
            obtain ⟨pkg, hpkg, -⟩ := hw.read
            rw [hread] at hpkg
            exact absurd hpkg (by simp)

theorem foldlM_flushFork (h : Frozen env proc At) (now : Nat) (ps : List PendingProcess)
    (r : Round EbpfSource) :
    Triple (Steady At tracker) (ps.foldlM (flushFork fnmatch env cfg.rules now) r) fun r' s =>
      (r.events ⊆ r'.events ∧
        (∀ q, Forks r'.events q → Forks r.events q ∨ q ∈ ps.map (·.pid)) ∧
        ∀ p ∈ ps, p.nextRetry ≤ now → Wanted fnmatch cfg proc tracker p.pid →
          Forks r'.events p.pid) ∧
      Steady At tracker s := by
  refine (Triple.foldlM (I := fun rest r' s => (r.events ⊆ r'.events ∧
      (∀ q, Forks r'.events q → Forks r.events q ∨ q ∈ ps.map (·.pid)) ∧
      (∀ p ∈ ps, p ∈ rest ∨ (p.nextRetry ≤ now → Wanted fnmatch cfg proc tracker p.pid →
        Forks r'.events p.pid)) ∧ rest ⊆ ps) ∧ Steady At tracker s)
    ps r fun p rest b => ?_).mono ?_ ?_
  · refine Triple.pre ?_
    rintro ⟨hsub, honly, hcover, hrest⟩
    refine (flushFork_spec h now b p).mono (fun s hs => hs) fun b' s hs => ⟨⟨?_, ?_, ?_, ?_⟩, hs.2⟩
    · exact List.Subset.trans hsub hs.1.grows
    · intro q hq
      rcases hs.1.only q hq with hold | rfl
      · exact honly q hold
      · exact Or.inr (List.mem_map_of_mem (hrest List.mem_cons_self))
    · intro q hq
      rcases hcover q hq with hmem | hdone
      · rcases List.mem_cons.mp hmem with rfl | hmem
        · exact Or.inr hs.1.reports
        · exact Or.inl hmem
      · exact Or.inr fun hdue hw => (hdone hdue hw).mono hs.1.grows
    · exact fun q hq => hrest (List.mem_cons_of_mem p hq)
  · exact fun s hs =>
      ⟨⟨fun _ h => h, fun q hq => Or.inl hq, fun p hp => Or.inl hp, fun _ h => h⟩, hs⟩
  · rintro r' s ⟨⟨hsub, honly, hcover, -⟩, hs⟩
    refine ⟨⟨hsub, honly, fun p hp => ?_⟩, hs⟩
    rcases hcover p hp with hmem | hdone
    · exact absurd hmem List.not_mem_nil
    · exact hdone

theorem flushPending_grows (h : Frozen env proc At) (r : Round EbpfSource) :
    Triple (Steady At tracker) (EbpfSource.flushPending fnmatch env r) fun r' s =>
      r.events ⊆ r'.events ∧ Steady At tracker s := by
  have hsame : Triple (Steady At tracker) (pure r : Run κ (Round EbpfSource)) fun r' s =>
      r.events ⊆ r'.events ∧ Steady At tracker s := Triple.pure fun s hs => ⟨fun _ h => h, hs⟩
  refine Triple.ite hsame ?_
  cases r.src.cfg with
  | none => exact hsame
  | some cfg =>
      refine Triple.bind (now_steady h) fun now => ?_
      exact (foldlM_flushFork h now _ _).mono (fun s hs => hs) fun _ _ hs => ⟨hs.1.1, hs.2⟩

/-- With a due queue exactly the queued pids are reported, as far as they are wanted. -/
theorem flushPending_queued (h : Frozen env proc At) {t : Nat} {pids : List Int}
    {r : Round EbpfSource} (hr : Queued cfg t pids r) :
    Triple (Still At tracker t) (EbpfSource.flushPending fnmatch env r) fun r' s =>
      (∀ pid, Wanted fnmatch cfg proc tracker pid → (Forks r'.events pid ↔ pid ∈ pids)) ∧
        Steady At tracker s := by
  unfold EbpfSource.flushPending
  by_cases hempty : r.src.pending.isEmpty = true
  · rw [if_pos hempty]
    have hnil : pids = [] := by
      rw [← hr.pids_eq, List.isEmpty_iff.mp hempty]
      rfl
    refine Triple.pure fun s hs => ⟨fun pid _ => ?_, t, hs⟩
    simp only [hr.no_forks pid, hnil, List.not_mem_nil]
  · rw [if_neg hempty, hr.cfg_eq]
    refine Triple.bind (ask_now h t) fun now => Triple.pre fun hnow => ?_
    refine (foldlM_flushFork h now _ _).mono (fun s hs => ⟨now, hs⟩) ?_
    rintro r' s ⟨⟨-, honly, hreports⟩, hs⟩
    refine ⟨fun pid hw => ?_, hs⟩
    rw [← hr.pids_eq]
    constructor
    · intro hfork
      rcases honly pid hfork with hold | hmem
      · exact absurd hold (hr.no_forks pid)
      · exact hmem
    · intro hmem
      obtain ⟨p, hp, rfl⟩ := List.mem_map.mp hmem
      exact hreports p hp ((hr.due p hp).trans hnow) hw

/-! ## A poll after a configuration change -/

theorem drain_grows (h : Frozen env proc At) (r : Round EbpfSource) :
    Triple (Steady At tracker) (drain fnmatch env r) fun r' s =>
      r.events ⊆ r'.events ∧ Steady At tracker s := by
  refine Triple.bind (Q := fun r' s => r.events ⊆ r'.events ∧ Steady At tracker s) ?_ fun r' =>
    Triple.pre fun hsub => (flushPending_grows h r').mono (fun s hs => hs) fun _ _ hs =>
      ⟨List.Subset.trans hsub hs.1, hs.2⟩
  refine (Triple.foldlM (I := fun _ r' s => r.events ⊆ r'.events ∧ Steady At tracker s)
    _ _ fun ev rest b => Triple.pre fun hsub => ?_).mono (fun s hs => ⟨fun _ h => h, hs⟩)
      fun _ _ hs => hs
  exact (handleRaw_grows h b ev).mono (fun s hs => hs) fun _ _ hs =>
    ⟨List.Subset.trans hsub hs.1, hs.2⟩

theorem drain_queued (h : Frozen env proc At) {src : EbpfSource} (hcfg : src.cfg = some cfg)
    (hpending : src.pending = []) (hscanned : src.initialScanned = []) (t : Nat) :
    Triple (Still At tracker t) (drain fnmatch env ⟨src, []⟩) fun r' s =>
      (∀ pid, Wanted fnmatch cfg proc tracker pid →
        (Forks r'.events pid ↔ pid ∈ firstForks src.eventRx)) ∧ Steady At tracker s := by
  have hstart : Queued cfg t [] ⟨{ src with eventRx := src.eventRx.drop drainMax }, []⟩ :=
    ⟨hcfg, hscanned, by rw [hpending]; rfl, by rw [hpending]; simp, fun pid hno => by
      obtain ⟨ev, hev, -⟩ := hno
      exact absurd hev List.not_mem_nil⟩
  refine Triple.bind (foldlM_handleRaw_queued h (src.eventRx.take drainMax) hstart) fun r => ?_
  rintro s ⟨t', hr, hs⟩
  rw [foldl_queueFork] at hr
  exact flushPending_queued h hr s hs

/-- A later poll reports exactly the first forks of its queue. -/
theorem poll_scanned (h : Frozen env proc At) {src : EbpfSource} (hcfg : src.cfg = some cfg)
    (hpending : src.pending = []) (hscanned : src.initialScanned = [])
    (hdone : src.initialScanDone = true) (deadline : Nat) :
    Triple (Steady At tracker) (src.poll fnmatch env deadline) fun r _ =>
      ∀ pid, Wanted fnmatch cfg proc tracker pid →
        (Forks r.events pid ↔ pid ∈ firstForks src.eventRx) := by
  refine Triple.bind (Q := fun r s => r = ⟨src, []⟩ ∧ Steady At tracker s) ?_ fun r => Triple.pre ?_
  · rw [scanOnce, if_pos hdone]
    exact Triple.pure fun s hs => ⟨rfl, hs⟩
  · rintro rfl
    refine Triple.bind (Q := fun r s => (∀ pid, Wanted fnmatch cfg proc tracker pid →
        (Forks r.events pid ↔ pid ∈ firstForks src.eventRx)) ∧ Steady At tracker s)
      (fun s ⟨t, hs⟩ => drain_queued h hcfg hpending hscanned t s hs) fun r =>
        Triple.pre fun hforks => ?_
    refine (poll_end env r deadline).mono (fun _ _ => trivial) fun r' _ hend => ?_
    rw [hend.1]
    exact hforks

theorem poll_first (h : Frozen env proc At) {src : EbpfSource} (hcfg : src.cfg = some cfg)
    (hdone : src.initialScanDone = false) (deadline : Nat) :
    Triple (Steady At tracker) (src.poll fnmatch env deadline) fun r _ =>
      ForksWanted fnmatch cfg proc tracker r.events := by
  refine Triple.bind (Q := fun r s => ForksWanted fnmatch cfg proc tracker r.events ∧
    Steady At tracker s) ?_ fun r => Triple.pre fun hforks => ?_
  · rw [scanOnce, if_neg (by simp [hdone])]
    refine Triple.bind (initialScan_spec h src hcfg) fun r => Triple.pre fun hforks => ?_
    exact Triple.pure fun s hs => ⟨hforks, hs⟩
  · refine Triple.bind (drain_grows h r) fun r' => Triple.pre fun hsub => ?_
    refine (poll_end env r' deadline).mono (fun _ _ => trivial) fun r'' _ hend => ?_
    rw [hend.1]
    exact fun pid hw => (hforks pid hw).mono hsub

theorem poll_forksWanted_iff (h : Frozen env proc At) {src : EbpfSource}
    (hcfg : src.cfg = some cfg) (hpending : src.pending = []) (hscanned : src.initialScanned = [])
    (deadline : Nat) {s : System κ} (hs : Steady At tracker s) :
    ForksWanted fnmatch cfg proc tracker ((src.poll fnmatch env deadline).run s).1.events ↔
      src.initialScanDone = false ∨
        ∀ pid, Wanted fnmatch cfg proc tracker pid → pid ∈ firstForks src.eventRx := by
  cases hdone : src.initialScanDone with
  | false => exact iff_of_true (poll_first h hcfg hdone deadline s hs) (Or.inl rfl)
  | true =>
      simp only [Bool.true_eq_false, false_or]
      exact forall₂_congr (poll_scanned h hcfg hpending hscanned hdone deadline s hs)

/-- A change of configuration, raw events, then a poll. -/
def EbpfSource.pollChanged (fnmatch : String → String → Bool) (env : Env κ) (src : EbpfSource)
    (cfg : ConfigSnapshot) (arrivals : List EbpfProcEvent) (deadline : Nat) :
    Run κ (Round EbpfSource) :=
  let changed := src.onConfigChanged cfg
  EbpfSource.poll fnmatch env { changed with eventRx := changed.eventRx ++ arrivals } deadline

theorem pollChanged_forksWanted_iff (h : Frozen env proc At) {src : EbpfSource}
    (hscanned : src.initialScanned = []) (arrivals : List EbpfProcEvent) (deadline : Nat)
    {s : System κ} (hs : Steady At tracker s) :
    ForksWanted fnmatch cfg proc tracker
        ((src.pollChanged fnmatch env cfg arrivals deadline).run s).1.events ↔
      src.initialScanDone = false ∨
        ∀ pid, Wanted fnmatch cfg proc tracker pid →
          pid ∈ firstForks (src.eventRx ++ arrivals) := by
  rw [EbpfSource.pollChanged, src.onConfigChanged_eq cfg]
  generalize (src.onConfigChanged cfg).targetComm = comms
  let later : EbpfSource := { src with
    cfg := some cfg, pending := [], targetComm := comms, eventRx := src.eventRx ++ arrivals }
  have hcfg : later.cfg = some cfg := rfl
  exact poll_forksWanted_iff h hcfg rfl hscanned deadline hs

end Contract

/-- After a configuration change the next poll of the `/proc` source reports every
wanted process.  That of a reachable eBPF source does exactly when it has never
polled, or all wanted processes are among the first forks of its queue. -/
theorem config_change_reports_wanted_iff (fnmatch : String → String → Bool) (env : Env κ)
    (proc : ProcTable) (At : Nat → κ → Prop) (h : Frozen env proc At) (cfg : ConfigSnapshot)
    (s : System κ) (t : Nat) (hs : At t s.kernel) (deadline : Nat) :
    (∀ src : ProcSource, ForksWanted fnmatch cfg proc s.tracker
        (((src.onConfigChanged cfg).poll fnmatch env deadline).run s).1.events) ∧
      ∀ src : EbpfSource, src.Reachable fnmatch → ∀ arrivals : List EbpfProcEvent,
        (ForksWanted fnmatch cfg proc s.tracker
            ((src.pollChanged fnmatch env cfg arrivals deadline).run s).1.events ↔
          src.initialScanDone = false ∨ ∀ pid, Wanted fnmatch cfg proc s.tracker pid →
            pid ∈ firstForks (src.eventRx ++ arrivals)) := by
  have hsteady : Steady At s.tracker s := ⟨t, hs, rfl⟩
  constructor
  · exact fun src => (procSource_forksWanted h src deadline s hsteady).1
  · exact fun src hsrc arrivals =>
      pollChanged_forksWanted_iff h hsrc.initialScanned_eq arrivals deadline hsteady

/-! ## One process that is running already -/

def oneProcess : ProcTable where
  cmdline pid := if pid = 5 then some "com.a" else none
  alive pid := pid = 5
  tgid pid := if pid = 5 then some 5 else none

/-- The kernel that answers from a table and whose `/proc` lists pid 5. -/
def tableEnv (proc : ProcTable) : Env Unit :=
  { Env.silent with
    readProcDir := pure (some ["5"])
    readCmdline := fun pid => pure (proc.cmdline pid)
    isAlive := fun pid => pure (proc.alive pid)
    readTgid := fun pid => pure (proc.tgid pid) }

theorem oneProcess_frozen : Frozen (tableEnv oneProcess) oneProcess fun t _ => t = 0 where
  cmdline_eq _ _ := rfl
  cmdline_at _ ht := ht
  alive_eq _ _ := rfl
  alive_at _ ht := ht
  tgid_eq _ _ := rfl
  tgid_at _ ht := ht
  dir_lists pid _ hlive := by
    refine ⟨["5"], rfl, ?_⟩
    have hpid : pid = 5 := by simpa [oneProcess] using hlive.1
    rw [hpid]
    decide
  dir_at ht := ht
  tids_at _ ht := ht
  now_le ht := ht.le
  now_at _ := rfl
  sleep_at _ ht := ht

def comAConfig : ConfigSnapshot where
  version := 2
  rules := (compile [.ofCpus "com.a" "" "0"] (.flat 4)).rules

/-- The eBPF source after its first poll, with nothing configured yet. -/
def polledSource : EbpfSource :=
  ((EbpfSource.poll glob Env.silent (.tryNew comAConfig 0 true true) 0).run (System.init ())).1.src

theorem config_change_reports_at_com_a :
    (∀ src : ProcSource, ForksWanted glob comAConfig oneProcess StateTracker.new
        (((src.onConfigChanged comAConfig).poll glob (tableEnv oneProcess) 0).run
          (System.init ())).1.events) ∧
      ∀ src : EbpfSource, src.Reachable glob → ∀ arrivals : List EbpfProcEvent,
        (ForksWanted glob comAConfig oneProcess StateTracker.new
            ((src.pollChanged glob (tableEnv oneProcess) comAConfig arrivals 0).run
              (System.init ())).1.events ↔
          src.initialScanDone = false ∨
            ∀ pid, Wanted glob comAConfig oneProcess StateTracker.new pid →
              pid ∈ firstForks (src.eventRx ++ arrivals)) :=
  config_change_reports_wanted_iff glob (tableEnv oneProcess) oneProcess (fun t _ => t = 0)
    oneProcess_frozen comAConfig (System.init ()) 0 rfl 0

/-- Once it has polled, the eBPF source misses a process that was running before the
rules wanted it. -/
theorem ebpf_misses_running_process :
    ¬∀ (src : EbpfSource) (cfg : ConfigSnapshot) (proc : ProcTable) (s : System Unit),
      src.Reachable glob → Frozen (tableEnv proc) proc (fun t _ => t = 0) →
        ForksWanted glob cfg proc s.tracker
          ((src.pollChanged glob (tableEnv proc) cfg [] 0).run s).1.events := by
  intro h
  have hreach : polledSource.Reachable glob :=
    .polled Env.silent 0 _ (.loaded comAConfig 0 true true)
  have hforks := h polledSource comAConfig oneProcess (System.init ()) hreach oneProcess_frozen
  have hwanted : Wanted glob comAConfig oneProcess StateTracker.new 5 :=
    ⟨⟨rfl, rfl⟩, ⟨"com.a", rfl, rfl, by decide +kernel⟩, rfl⟩
  have hmissed := ((pollChanged_forksWanted_iff oneProcess_frozen hreach.initialScanned_eq [] 0
    ⟨0, rfl, rfl⟩).mp hforks)
  rcases hmissed with hdone | hqueued
  · exact absurd hdone (by decide +kernel)
  · exact absurd (hqueued 5 hwanted) (by decide +kernel)

end Threadctl.Daemon
