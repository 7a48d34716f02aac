import Threadctl.Daemon.EbpfContract
import Threadctl.Daemon.SourceErasure
import Threadctl.Support.RetryQueue
import Threadctl.Support.Runs

/-!
# The queues of pending forks

Both sources let processes without a command line wait, and try them again when they are
due.  A ledger follows every entry from the moment it is queued: how often its command line
has been read for it, and which events it has brought.

* `looks_spec`: a flush is one look at every entry;
* `procStep_kept`, `ebpfStep_kept`: what one move does to the queue;
* `pending_forks_bounded`: what holds after every run.
-/

namespace Threadctl.Daemon

open Threadctl.Core Threadctl.Support.EventLog Threadctl.Support.RetryQueue
open Threadctl.Support.Runs Threadctl.Support.StateRun

variable {κ : Type}

abbrev readLog (s : System (Traced κ Int)) : List Int := s.kernel.log

theorem ask_quietly {α : Type} (x : StateM κ α) (log : List Int) :
    Keeps (fun s => readLog s = log) (ask (quietly x)) := fun _ hs => hs

theorem ask_readCmdline (env : Env κ) (pid : Int) (log : List Int) :
    Triple (fun s => readLog s = log) (ask ((loggedEnv env).readCmdline pid))
      fun _ s => readLog s = log ++ [pid] := by
  rintro s rfl
  rfl

/-- What the discipline is about: an entry brings a fork of its process, or a clone of a thread
with its number. -/
def forkQueue (limit : Nat) : Discipline PendingProcess Int ProcessEvent where
  key p := p.pid
  retries p := p.retryCount
  limit := limit
  most := pendingMaxRetries
  Yields pid ev := (ev.kind = .fork ∨ ev.kind = .threadClone) ∧ ev.tid = pid

section Looks

variable {σ : Type} (pending : σ → List PendingProcess)
  (f : Round σ → PendingProcess → Run (Traced κ Int) (Round σ))

/-- What `f` does to each entry: what it puts back, how often it reads the command line of the
entry, and the events it adds. -/
def looks : List PendingProcess → Round σ → System (Traced κ Int) →
    List (Look PendingProcess ProcessEvent)
  | [], _, _ => []
  | p :: ps, r, s =>
      let after := (f r p).run s
      ⟨(pending after.1.src).drop (pending r.src).length,
        ((readLog after.2).drop (readLog s).length).count p.pid,
        after.1.events.drop r.events.length⟩ :: looks ps after.1 after.2

/-- One entry is looked at. -/
structure LooksAt (limit : Nat) (p : PendingProcess) (r : Round σ) (log : List Int) (r' : Round σ)
    (log' : List Int) (look : Look PendingProcess ProcessEvent) : Prop where
  looked : (forkQueue limit).Looked p look
  kept : pending r'.src = pending r.src ++ look.kept
  reads : ∃ more, log' = log ++ more ∧ more.count p.pid = look.tries
  events : r'.events = r.events ++ look.yield

/-- A flush is one look at every entry. -/
theorem looks_spec {limit : Nat}
    (hf : ∀ r p log, Triple (fun s => readLog s = log) (f r p)
      fun r' s => ∃ look, LooksAt pending limit p r log r' (readLog s) look)
    (ps : List PendingProcess) (r : Round σ) (s : System (Traced κ Int)) :
    List.Forall₂ (forkQueue limit).Looked ps (looks pending f ps r s) ∧
      pending ((ps.foldlM f r).run s).1.src =
        pending r.src ++ (looks pending f ps r s).flatMap (·.kept) := by
  induction ps generalizing r s with
  | nil => exact ⟨List.Forall₂.nil, (List.append_nil _).symm⟩
  | cons p ps ih =>
      obtain ⟨look, hlook⟩ := hf r p (readLog s) s rfl
      obtain ⟨more, hlog, hreads⟩ := hlook.reads
      have hthis : (⟨(pending ((f r p).run s).1.src).drop (pending r.src).length,
          ((readLog ((f r p).run s).2).drop (readLog s).length).count p.pid,
          ((f r p).run s).1.events.drop r.events.length⟩ : Look _ _) = look := by
        rw [hlook.kept, hlook.events, hlog, List.drop_left, List.drop_left, List.drop_left, hreads]
      obtain ⟨hrest, hpending⟩ := ih ((f r p).run s).1 ((f r p).run s).2
      rw [looks, List.foldlM_cons]
      rw [hthis, List.flatMap_cons, ← List.append_assoc, ← hlook.kept]
      exact ⟨List.Forall₂.cons hlook.looked hrest, hpending⟩

end Looks

/-! ## Looks of the `/proc` source -/

section Flush

variable (fnmatch : String → String → Bool) (env : Env κ) (limit : Nat)

theorem LooksAt.unread {σ : Type} {pending : σ → List PendingProcess} {p : PendingProcess}
    {r r' : Round σ} {log : List Int} {kept : List PendingProcess}
    (hlooked : (forkQueue limit).Looked p ⟨kept, 0, []⟩)
    (hpending : pending r'.src = pending r.src ++ kept) (hevents : r'.events = r.events) :
    LooksAt pending limit p r log r' log ⟨kept, 0, []⟩ where
  looked := hlooked
  kept := hpending
  reads := ⟨[], (List.append_nil _).symm, rfl⟩
  events := hevents.trans (List.append_nil _).symm

theorem LooksAt.read {σ : Type} {pending : σ → List PendingProcess} {p : PendingProcess}
    {r r' : Round σ} {log more : List Int} {kept : List PendingProcess}
    {yield : List ProcessEvent} (hlooked : (forkQueue limit).Looked p ⟨kept, 1, yield⟩)
    (hmore : p.pid ∉ more) (hpending : pending r'.src = pending r.src ++ kept)
    (hevents : r'.events = r.events ++ yield) :
    LooksAt pending limit p r log r' (log ++ p.pid :: more) ⟨kept, 1, yield⟩ where
  looked := hlooked
  kept := hpending
  reads := ⟨p.pid :: more, rfl, by
    rw [List.count_cons_self, List.count_eq_zero_of_not_mem hmore]⟩
  events := hevents

theorem LooksAt.pure {σ : Type} {pending : σ → List PendingProcess} {p : PendingProcess}
    {r r' : Round σ} {log log' : List Int} {look : Look PendingProcess ProcessEvent}
    (h : LooksAt pending limit p r log r' log' look) :
    Triple (fun s => readLog s = log') (pure r' : Run (Traced κ Int) (Round σ))
      fun r' s => ∃ look, LooksAt pending limit p r log r' (readLog s) look := by
  refine Triple.pure fun s hs => ?_
  rw [hs]
  exact ⟨look, h⟩

theorem LooksAt.drop {σ : Type} {pending : σ → List PendingProcess} {p : PendingProcess}
    {r : Round σ} {log more : List Int} (hmore : p.pid ∉ more) :
    Triple (fun s => readLog s = log ++ p.pid :: more) (Pure.pure r : Run (Traced κ Int) (Round σ))
      fun r' s => ∃ look, LooksAt pending limit p r log r' (readLog s) look :=
  LooksAt.pure limit
    (.read limit .last hmore (List.append_nil _).symm (List.append_nil _).symm)

theorem looked_fork (p : PendingProcess) (pkg : String) :
    (forkQueue limit).Looked p ⟨[], 1, [(ProcessEvent.fork p.pid p.pid).withPkg pkg]⟩ := by
  refine .found _ (le_refl _) fun ev hev => ?_
  rw [List.mem_singleton.mp hev]
  exact ⟨Or.inl rfl, rfl⟩

theorem looked_threadClone (p : PendingProcess) (tgid : Int) (pkg : String) :
    (forkQueue limit).Looked p ⟨[], 1, [ProcessEvent.threadClone tgid p.pid pkg]⟩ := by
  refine .found _ (le_refl _) fun ev hev => ?_
  rw [List.mem_singleton.mp hev]
  exact ⟨Or.inr rfl, rfl⟩

theorem looked_retry {p : PendingProcess} (h : p.retryCount < pendingMaxRetries) (next : Nat) :
    (forkQueue limit).Looked p ⟨[⟨p.pid, p.retryCount + 1, next⟩], 1, []⟩ :=
  .again _ h rfl rfl

theorem flushProcess_looks (rules : RuleSet) (now : Nat) (r : Round ProcSource)
    (p : PendingProcess) (log : List Int) :
    Triple (fun s => readLog s = log) (flushProcess fnmatch (loggedEnv env) rules now r p)
      fun r' s => ∃ look, LooksAt (·.pending) limit p r log r' (readLog s) look := by
  unfold flushProcess
  refine Triple.ite_of (fun _ => ?_) fun _ => ?_
  · -- not due
    exact LooksAt.pure limit (.unread limit .early rfl rfl)
  refine Triple.bind (ask_quietly _ log) fun alive => ?_
  refine Triple.ite_of (fun _ => ?_) fun _ => ?_
  · -- dead
    exact LooksAt.pure limit (.unread limit .gone (List.append_nil _).symm rfl)
  refine Triple.bind (ask_readCmdline env p.pid log) fun read => ?_
  cases read.filter (!·.isEmpty) with
  | some pkg =>
      refine Triple.ite_of (fun _ => ?_) fun _ => ?_
      · exact LooksAt.pure limit
          (.read limit (looked_fork limit p pkg) List.not_mem_nil (List.append_nil _).symm rfl)
      · exact LooksAt.drop limit List.not_mem_nil
  | none =>
      refine Triple.ite_of (fun hmore => ?_) fun _ => ?_
      · exact LooksAt.pure limit
          (.read limit (looked_retry limit hmore _) List.not_mem_nil rfl (List.append_nil _).symm)
      · exact LooksAt.drop limit List.not_mem_nil

theorem retryOrDrop_looks (r : Round EbpfSource) (p : PendingProcess) (log : List Int) :
    Triple (fun s => readLog s = log ++ [p.pid]) (retryOrDrop (loggedEnv env) r p)
      fun r' s => ∃ look, LooksAt (·.pending) limit p r log r' (readLog s) look := by
  unfold retryOrDrop
  refine Triple.ite_of (fun hmore => ?_) fun _ => ?_
  · refine Triple.bind (ask_quietly _ _) fun now => ?_
    exact LooksAt.pure limit
      (.read limit (looked_retry limit hmore _) List.not_mem_nil rfl (List.append_nil _).symm)
  · exact LooksAt.drop limit List.not_mem_nil

theorem confirmFork_looks (rules : RuleSet) (r : Round EbpfSource) (p : PendingProcess)
    (pkg : String) (log : List Int) :
    Triple (fun s => readLog s = log ++ [p.pid])
      (confirmFork fnmatch (loggedEnv env) rules r p.pid pkg)
      fun r' s => ∃ look, LooksAt (·.pending) limit p r log r' (readLog s) look := by
  unfold confirmFork
  refine Triple.bind (ask_quietly _ _) fun read => ?_
  refine Triple.ite_of (fun _ => ?_) fun hthread => ?_
  · refine Triple.ite_of (fun _ => ?_) fun _ => ?_
    · exact LooksAt.pure limit
        (.read limit (looked_fork limit p pkg) List.not_mem_nil (List.append_nil _).symm rfl)
    · exact LooksAt.drop limit List.not_mem_nil
  · have hother : p.pid ∉ [read.getD p.pid] := by
      rw [List.mem_singleton]
      exact Ne.symm hthread
    refine Triple.bind (ask_readCmdline env _ _) fun parent => ?_
    rw [List.append_assoc, List.singleton_append]
    cases parent with
    | none =>
        exact LooksAt.drop limit hother
    | some ppkg =>
        refine Triple.ite_of (fun _ => ?_) fun _ => ?_
        · exact LooksAt.pure limit (.read limit (looked_threadClone limit p _ ppkg) hother
            (List.append_nil _).symm rfl)
        · exact LooksAt.drop limit hother

theorem flushFork_looks (rules : RuleSet) (now : Nat) (r : Round EbpfSource) (p : PendingProcess)
    (log : List Int) :
    Triple (fun s => readLog s = log) (flushFork fnmatch (loggedEnv env) rules now r p)
      fun r' s => ∃ look, LooksAt (·.pending) limit p r log r' (readLog s) look := by
  unfold flushFork
  refine Triple.ite_of (fun _ => ?_) fun _ => ?_
  · -- not due
    exact LooksAt.pure limit (.unread limit .early rfl rfl)
  refine Triple.bind (ask_quietly _ log) fun alive => ?_
  refine Triple.ite_of (fun _ => ?_) fun _ => ?_
  · -- dead
    exact LooksAt.pure limit (.unread limit .gone (List.append_nil _).symm rfl)
  refine Triple.bind (ask_readCmdline env p.pid log) fun read => ?_
  cases read.filter (!·.isEmpty) with
  | some pkg => exact confirmFork_looks fnmatch env limit rules r p pkg log
  | none => exact retryOrDrop_looks env limit r p log

end Flush

/-! ## Entries that are queued -/

/-- The queue in the result is the old one with new entries. -/
def Queues {β : Type} (limit : Nat) (old : List PendingProcess) (queue : β → List PendingProcess)
    (x : Run κ β) : Prop :=
  Triple (fun _ => True) x fun b _ => (forkQueue limit).Accepts old (queue b)

section Queues

variable {β γ : Type} {limit : Nat} {old : List PendingProcess} {queue : β → List PendingProcess}

theorem Queues.pure {b : β} (h : queue b = old) :
    Queues limit old queue (pure b : Run κ β) := by
  refine Triple.pure fun _ _ => ?_
  rw [h]
  exact Discipline.Accepts.refl old

theorem Queues.bind {q : γ → List PendingProcess} {x : Run κ γ} {f : γ → Run κ β}
    (hx : Queues limit old q x)
    (hf : ∀ c, Queues limit (q c) queue (f c)) : Queues limit old queue (x >>= f) := by
  intro s hs
  exact (hx s hs).trans (hf _ _ trivial)

theorem Queues.ask {x : Run κ γ} {f : γ → Run κ β} (hf : ∀ c, Queues limit old queue (f c)) :
    Queues limit old queue (x >>= f) := Triple.bind_any hf

theorem Queues.foldlM {f : β → γ → Run κ β} (hf : ∀ b c, Queues limit (queue b) queue (f b c))
    (l : List γ) (b : β) : Queues limit (queue b) queue (l.foldlM f b) := by
  induction l generalizing b with
  | nil => exact Queues.pure rfl
  | cons c l ih =>
      rw [List.foldlM_cons]
      exact Queues.bind (hf b c) ih

theorem Queues.ite {c : Prop} [Decidable c] {x y : Run κ β} (hx : Queues limit old queue x)
    (hy : Queues limit old queue y) : Queues limit old queue (if c then x else y) :=
  Triple.ite hx hy

end Queues

theorem accepts_new {limit : Nat} {queue : List PendingProcess} {pid : Int}
    (hroom : queue.length < limit) (hnone : queue.all (·.pid ≠ pid) = true) (now : Nat) :
    (forkQueue limit).Accepts queue (queue ++ [⟨pid, 0, now⟩]) := by
  refine Discipline.Accepts.concat hroom ?_ rfl
  intro hmem
  obtain ⟨p, hp, hpid⟩ := List.mem_map.mp hmem
  have hne := List.all_eq_true.mp hnone p hp
  exact of_decide_eq_true hne hpid

section Sources

variable (fnmatch : String → String → Bool) (env : Env κ)

/-! ## The queue of the `/proc` source -/

theorem enqueue_queues (r : Round ProcSource) (pid : Int) :
    Queues procPendingMax r.src.pending (·.src.pending) (enqueue env r pid) := by
  unfold enqueue
  refine Queues.ask fun s => Triple.ite_of (fun h => ?_) fun _ => Queues.pure rfl
  refine Queues.ask fun now => Triple.pure fun _ _ => ?_
  exact accepts_new h.1 h.2.2 now

theorem pushClones_queues (r : Round ProcSource) (pid : Int) (pkg : String) :
    Queues procPendingMax r.src.pending (·.src.pending) (pushClones env r pid pkg) :=
  Queues.ask fun _ => Queues.pure rfl

theorem scanProcess_queues (rules : RuleSet) (r : Round ProcSource) (pid : Int) :
    Queues procPendingMax r.src.pending (·.src.pending) (scanProcess fnmatch env rules r pid) := by
  unfold scanProcess
  refine Queues.ask fun read => ?_
  cases read.filter (!·.isEmpty) with
  | none => exact enqueue_queues env r pid
  | some pkg =>
      refine Queues.ite (Queues.pure rfl) (Queues.ask fun s => ?_)
      exact Queues.ite (pushClones_queues env r pid pkg) (Queues.pure rfl)

theorem checkProcess_queues (rules : RuleSet) (acc : Round ProcSource × List Int) (pid : Int) :
    Queues procPendingMax acc.1.src.pending (·.1.src.pending)
      (checkProcess fnmatch env rules acc pid) := by
  unfold checkProcess
  refine Queues.ask fun alive => Queues.ite (Queues.pure rfl) (Queues.ask fun read => ?_)
  cases read with
  | none => exact Queues.pure rfl
  | some pkg =>
      refine Queues.ite (Queues.pure rfl) ?_
      exact Queues.bind (pushClones_queues env acc.1 pid pkg) fun _ => Queues.pure rfl

theorem pushExits_queues (r : Round ProcSource) (current : List Int) :
    Queues procPendingMax r.src.pending (·.src.pending) (pushExits env r current) :=
  Queues.ask fun _ => Queues.pure rfl

/-- Behind the flush, a round only queues. -/
theorem collect_queues {src : ProcSource} {cfg : ConfigSnapshot} (hcfg : src.cfg = some cfg)
    (s : System κ) :
    (forkQueue procPendingMax).Accepts
      ((ProcSource.flushPending fnmatch env cfg.rules ⟨src, []⟩).run s).1.src.pending
      ((src.collect fnmatch env).run s).1.src.pending := by
  generalize hflushed :
    ((ProcSource.flushPending fnmatch env cfg.rules ⟨src, []⟩).run s).1.src.pending = flushed
  have hcollect : Triple (fun t => t = s) (src.collect fnmatch env)
      fun r _ => (forkQueue procPendingMax).Accepts flushed r.src.pending := by
    unfold ProcSource.collect
    rw [hcfg]
    refine Triple.bind (Q := fun r _ => r.src.pending = flushed ∧ True) ?_ fun r => ?_
    · rintro t rfl
      exact ⟨hflushed, trivial⟩
    · refine Triple.pre fun hr => ?_
      rw [← hr]
      change Queues procPendingMax r.src.pending (fun r : Round ProcSource => r.src.pending) _
      refine Queues.ask fun procTotal => ?_
      refine Queues.ite (Queues.ask fun dir => ?_) (Queues.ask fun tracked => ?_)
      · cases dir with
        | none => exact Queues.pure rfl
        | some names =>
            refine Queues.bind (q := fun r => r.src.pending) ?_ fun r =>
              pushExits_queues env r _
            exact Queues.foldlM (scanProcess_queues fnmatch env cfg.rules) _ _
      · refine Queues.bind (q := fun acc => acc.1.src.pending) ?_ fun acc =>
          pushExits_queues env acc.1 acc.2
        exact Queues.foldlM (checkProcess_queues fnmatch env cfg.rules) _ _
  exact hcollect s rfl

theorem poll_pending_proc (src : ProcSource) (deadline : Nat) (s : System κ) :
    ((src.poll fnmatch env deadline).run s).1.src.pending =
      ((src.collect fnmatch env).run s).1.src.pending := by
  generalize hcollected : ((src.collect fnmatch env).run s).1 = collected
  have hpoll : Triple (fun t => t = s) (src.poll fnmatch env deadline)
      fun r _ => r = collected := by
    unfold ProcSource.poll
    refine Triple.bind (Q := fun r _ => r = collected ∧ True) ?_ fun r => ?_
    · rintro t rfl
      exact ⟨hcollected, trivial⟩
    · refine Triple.pre fun hr => ?_
      have hdone : Triple (fun _ => True) (pure r : Run κ (Round ProcSource))
          fun r' _ => r' = collected := Triple.pure fun _ _ => hr
      refine Triple.ite (Triple.bind_any fun now => ?_) hdone
      exact Triple.ite (Triple.bind_any fun _ => hdone) hdone
  rw [hpoll s rfl]

/-! ## The queue of the eBPF source -/

/-- A poll up to its flush. -/
def EbpfSource.beforeFlush (src : EbpfSource) : Run κ (Round EbpfSource) := do
  let r ← scanOnce fnmatch env src
  let batch := r.src.eventRx.take drainMax
  let r := { r with src := { r.src with eventRx := r.src.eventRx.drop drainMax } }
  batch.foldlM (handleRaw env) r

theorem EbpfSource.poll_eq (src : EbpfSource) (deadline : Nat) :
    src.poll fnmatch env deadline = (do
      let r ← src.beforeFlush fnmatch env
      let r ← EbpfSource.flushPending fnmatch env r
      let synced ← periodicSync env { r.src with initialScanned := [] }
      sleepRound env ⟨synced, r.events⟩ deadline) := by
  simp only [EbpfSource.poll, drain, EbpfSource.beforeFlush, bind_assoc]

theorem handleFork_queues (r : Round EbpfSource) (pid : Int) :
    Queues ebpfPendingMax r.src.pending (·.src.pending) (handleFork env r pid) := by
  unfold handleFork
  refine Queues.ite (Queues.pure rfl) (Triple.ite_of (fun h => ?_) fun _ => Queues.pure rfl)
  refine Queues.ask fun now => Triple.pure fun _ _ => ?_
  exact accepts_new h.1 h.2 now

theorem handleExit_queues (r : Round EbpfSource) (ev : EbpfProcEvent) :
    Queues ebpfPendingMax r.src.pending (·.src.pending) (handleExit r ev : Run κ _) := by
  unfold handleExit
  refine Queues.ask fun s => Queues.pure ?_
  split
  · split
    all_goals rfl
  · split
    all_goals rfl

theorem handleRaw_queues (r : Round EbpfSource) (ev : EbpfProcEvent) :
    Queues ebpfPendingMax r.src.pending (·.src.pending) (handleRaw env r ev) := by
  unfold handleRaw
  refine Queues.ite (handleFork_queues env r ev.pid) (Queues.ite (Queues.pure rfl) ?_)
  exact Queues.ite (handleExit_queues r ev) (Queues.pure rfl)

theorem initialScanProcess_queues (rules : RuleSet) (r : Round EbpfSource) (pid : Int) :
    Queues ebpfPendingMax r.src.pending (·.src.pending)
      (initialScanProcess fnmatch env rules r pid) := by
  unfold initialScanProcess
  refine Queues.ask fun read => ?_
  cases read.filter (!·.isEmpty) with
  | none => exact Queues.pure rfl
  | some pkg => exact Queues.ite (Queues.pure rfl) (Queues.pure rfl)

theorem scanOnce_queues (src : EbpfSource) :
    Queues ebpfPendingMax src.pending (·.src.pending) (scanOnce fnmatch env src) := by
  unfold scanOnce
  refine Queues.ite (Queues.pure rfl) ?_
  refine Queues.bind (q := fun r => r.src.pending) ?_ fun r => Queues.pure rfl
  unfold initialScan
  cases src.cfg with
  | none => exact Queues.pure rfl
  | some cfg =>
      refine Queues.ask fun dir => ?_
      cases dir with
      | none => exact Queues.pure rfl
      | some names => exact Queues.foldlM (initialScanProcess_queues fnmatch env cfg.rules) _ _

theorem beforeFlush_queues (src : EbpfSource) :
    Queues ebpfPendingMax src.pending (·.src.pending) (src.beforeFlush fnmatch env) := by
  refine Queues.bind (scanOnce_queues fnmatch env src) fun r => ?_
  exact Queues.foldlM (handleRaw_queues env) _ _

theorem poll_pending_ebpf (src : EbpfSource) (deadline : Nat) (s : System κ) :
    ((src.poll fnmatch env deadline).run s).1.src.pending =
      ((EbpfSource.flushPending fnmatch env ((src.beforeFlush fnmatch env).run s).1).run
        ((src.beforeFlush fnmatch env).run s).2).1.src.pending := by
  rw [EbpfSource.poll_eq]
  exact (poll_end env _ deadline _ trivial).2.2

end Sources

/-! ## Ledgers -/

section Ledgers

variable (fnmatch : String → String → Bool) (env : Env κ)

/-- The ledger after a poll of the `/proc` source: its flush comes first. -/
def ProcSource.ledgerAfter (src : ProcSource) (s : System κ) (ledger : Ledger Int ProcessEvent) :
    Ledger Int ProcessEvent :=
  match src.cfg with
  | none => ledger
  | some cfg =>
      let now := (ask (loggedEnv env).instantNow).run (startLog s)
      let flushed := (ProcSource.flushPending fnmatch (loggedEnv env) cfg.rules ⟨src, []⟩).run
        (startLog s)
      let after := (src.collect fnmatch (loggedEnv env)).run (startLog s)
      (ledger.look (looks (·.pending) (flushProcess fnmatch (loggedEnv env) cfg.rules now.1)
        src.pending ⟨{ src with pending := [] }, []⟩ now.2)).accept
          ((after.1.src.pending.drop flushed.1.src.pending.length).map (·.pid))

/-- The ledger after a poll of the eBPF source: the flush comes after the kernel events. -/
def EbpfSource.ledgerAfter (src : EbpfSource) (s : System κ) (ledger : Ledger Int ProcessEvent) :
    Ledger Int ProcessEvent :=
  let before := (src.beforeFlush fnmatch (loggedEnv env)).run (startLog s)
  let ledger := ledger.accept ((before.1.src.pending.drop src.pending.length).map (·.pid))
  match before.1.src.cfg with
  | none => ledger
  | some cfg =>
      let now := (ask (loggedEnv env).instantNow).run before.2
      ledger.look (looks (·.pending) (flushFork fnmatch (loggedEnv env) cfg.rules now.1)
        before.1.src.pending
        { before.1 with src := { before.1.src with pending := [] } } now.2)

theorem flushPending_proc (rules : RuleSet) (src : ProcSource) (s : System (Traced κ Int)) :
    let now := (ask (loggedEnv env).instantNow).run s
    ((ProcSource.flushPending fnmatch (loggedEnv env) rules ⟨src, []⟩).run s).1.src.pending =
      ((src.pending.foldlM (flushProcess fnmatch (loggedEnv env) rules now.1)
        ⟨{ src with pending := [] }, []⟩).run now.2).1.src.pending := by
  unfold ProcSource.flushPending
  cases hpending : src.pending with
  | nil => exact hpending
  | cons p ps => rfl

theorem flushPending_ebpf (cfg : ConfigSnapshot) (r : Round EbpfSource)
    (hcfg : r.src.cfg = some cfg) (s : System (Traced κ Int)) :
    let now := (ask (loggedEnv env).instantNow).run s
    ((EbpfSource.flushPending fnmatch (loggedEnv env) r).run s).1.src.pending =
      ((r.src.pending.foldlM (flushFork fnmatch (loggedEnv env) cfg.rules now.1)
        { r with src := { r.src with pending := [] } }).run now.2).1.src.pending := by
  unfold EbpfSource.flushPending
  rw [hcfg]
  cases hpending : r.src.pending with
  | nil => exact hpending
  | cons p ps => rfl

theorem ProcSource.ledgerAfter_kept {src : ProcSource} {ledger : Ledger Int ProcessEvent}
    (h : (forkQueue procPendingMax).Kept src.pending ledger) (s : System κ) :
    (forkQueue procPendingMax).Kept ((src.collect fnmatch env).run s).1.src.pending
      (src.ledgerAfter fnmatch env s ledger) := by
  rw [← unlogged_result (erases_collect (loggedEnv_over env) fnmatch src)]
  unfold ProcSource.ledgerAfter
  split
  · rename_i hcfg
    rw [ProcSource.collect, hcfg]
    exact h
  · rename_i cfg hcfg
    have hflushed := flushPending_proc fnmatch env cfg.rules src (startLog s)
    obtain ⟨hlooked, hpending⟩ := looks_spec (fun src : ProcSource => src.pending)
      (flushProcess fnmatch (loggedEnv env) cfg.rules
        ((ask (loggedEnv env).instantNow).run (startLog s)).1)
      (flushProcess_looks fnmatch env procPendingMax cfg.rules _) src.pending
      ⟨{ src with pending := [] }, []⟩ ((ask (loggedEnv env).instantNow).run (startLog s)).2
    have hqueued := collect_queues fnmatch (loggedEnv env) hcfg (startLog s)
    rw [List.nil_append] at hpending
    have hkept := h.look hlooked
    rw [← hpending, ← hflushed] at hkept
    exact hkept.accept hqueued

theorem EbpfSource.ledgerAfter_kept {src : EbpfSource} {ledger : Ledger Int ProcessEvent}
    (h : (forkQueue ebpfPendingMax).Kept src.pending ledger) (deadline : Nat)
    (s : System κ) :
    (forkQueue ebpfPendingMax).Kept ((src.poll fnmatch env deadline).run s).1.src.pending
      (src.ledgerAfter fnmatch env s ledger) := by
  have haccepted := h.accept (beforeFlush_queues fnmatch (loggedEnv env) src (startLog s) trivial)
  rw [← unlogged_result (erases_ebpfPoll (loggedEnv_over env) fnmatch src deadline),
    poll_pending_ebpf]
  unfold EbpfSource.ledgerAfter
  generalize (src.beforeFlush fnmatch (loggedEnv env)).run (startLog s) = before at haccepted ⊢
  dsimp only
  split
  · rename_i hcfg
    have hstays : ((EbpfSource.flushPending fnmatch (loggedEnv env) before.1).run
        before.2).1.src.pending = before.1.src.pending := by
      unfold EbpfSource.flushPending
      rw [hcfg]
      split
      all_goals rfl
    rw [hstays]
    exact haccepted
  · rename_i cfg hcfg
    obtain ⟨hlooked, hpending⟩ := looks_spec (fun src : EbpfSource => src.pending)
      (flushFork fnmatch (loggedEnv env) cfg.rules
        ((ask (loggedEnv env).instantNow).run before.2).1)
      (flushFork_looks fnmatch env ebpfPendingMax cfg.rules _) before.1.src.pending
      { before.1 with src := { before.1.src with pending := [] } }
      ((ask (loggedEnv env).instantNow).run before.2).2
    rw [List.nil_append] at hpending
    rw [flushPending_ebpf fnmatch env cfg before.1 hcfg before.2, hpending]
    exact haccepted.look hlooked

end Ledgers

/-! ## Runs -/

/-- A source, and the ledger of its queue. -/
structure Booked (σ : Type) where
  src : σ
  ledger : Ledger Int ProcessEvent

/-- What may be called next.  Between two calls the rest of the daemon and the kernel may have
changed everything but the source. -/
inductive ProcMove (κ : Type) where
  | poll (deadline : Nat) (s : System κ)
  | collect (s : System κ)
  | configChanged (cfg : ConfigSnapshot)

inductive EbpfMove (κ : Type) where
  | poll (deadline : Nat) (s : System κ)
  | receive (ev : EbpfProcEvent)
  | configChanged (cfg : ConfigSnapshot)

section Runs

variable (fnmatch : String → String → Bool) (env : Env κ)

def procStep (b : Booked ProcSource) : ProcMove κ → Booked ProcSource
  | .poll deadline s =>
      ⟨((b.src.poll fnmatch env deadline).run s).1.src,
        b.src.ledgerAfter fnmatch env s b.ledger⟩
  | .collect s =>
      ⟨((b.src.collect fnmatch env).run s).1.src,
        b.src.ledgerAfter fnmatch env s b.ledger⟩
  | .configChanged cfg => { b with src := b.src.onConfigChanged cfg }

/-- A change of the configuration drops all entries of the eBPF source. -/
def ebpfStep (b : Booked EbpfSource) : EbpfMove κ → Booked EbpfSource
  | .poll deadline s =>
      ⟨((b.src.poll fnmatch env deadline).run s).1.src,
        b.src.ledgerAfter fnmatch env s b.ledger⟩
  | .receive ev => { b with src := { b.src with eventRx := b.src.eventRx ++ [ev] } }
  | .configChanged cfg => ⟨b.src.onConfigChanged cfg, b.ledger.clear⟩

theorem procStep_kept {b : Booked ProcSource}
    (h : (forkQueue procPendingMax).Kept b.src.pending b.ledger) (m : ProcMove κ) :
    (forkQueue procPendingMax).Kept (procStep fnmatch env b m).src.pending
      (procStep fnmatch env b m).ledger := by
  cases m with
  | poll deadline s =>
      have hkept := ProcSource.ledgerAfter_kept fnmatch env h s
      rw [← poll_pending_proc fnmatch env b.src deadline s] at hkept
      exact hkept
  | collect s => exact ProcSource.ledgerAfter_kept fnmatch env h s
  | configChanged cfg => exact h

theorem ebpfStep_kept {b : Booked EbpfSource}
    (h : (forkQueue ebpfPendingMax).Kept b.src.pending b.ledger) (m : EbpfMove κ) :
    (forkQueue ebpfPendingMax).Kept (ebpfStep fnmatch env b m).src.pending
      (ebpfStep fnmatch env b m).ledger := by
  cases m with
  | poll deadline s => exact EbpfSource.ledgerAfter_kept fnmatch env h deadline s
  | receive ev => exact h
  | configChanged cfg => exact h.clear

/-! ## Contract: pending forks -/

/-- What holds of a queue of pending forks, of the entries in it and of those that have left. -/
structure PendingBounded (limit : Nat) (pending : List PendingProcess)
    (ledger : Ledger Int ProcessEvent) : Prop where
  distinct : (pending.map (·.pid)).Nodup
  within : pending.length ≤ limit
  retries : ∀ p ∈ pending, p.retryCount ≤ 3
  /-- The table of waits has an entry for every retry that is granted. -/
  backoff : ∀ p ∈ pending, p.retryCount < pendingMaxRetries →
    p.retryCount < pendingBackoffMs.length
  followed : ledger.waiting.map (·.key) = pending.map (·.pid)
  waiting : ∀ ticket ∈ ledger.waiting, ticket.tries ≤ 3 ∧ ticket.yield = []
  left : ∀ ticket ∈ ledger.left, ticket.tries ≤ 4 ∧ ticket.yield.length ≤ 1 ∧
    ∀ ev ∈ ticket.yield, (ev.kind = .fork ∨ ev.kind = .threadClone) ∧ ev.tid = ticket.key

theorem PendingBounded.of_kept {limit : Nat} {pending : List PendingProcess}
    {ledger : Ledger Int ProcessEvent} (h : (forkQueue limit).Kept pending ledger) :
    PendingBounded limit pending ledger where
  distinct := h.distinct
  within := h.within
  retries p hp := h.retries_le hp
  backoff p _ hmore := hmore
  followed := h.keys_eq
  waiting ticket hticket := by
    obtain ⟨p, hp⟩ := h.ticketOf hticket
    exact ⟨hp.tries_eq.trans_le hp.retries_le, hp.yield_eq⟩
  left ticket hticket := by
    have hsettled := h.settled ticket hticket
    exact ⟨hsettled.tries_le, hsettled.yield_le, hsettled.yields⟩

/-- After every run of a source, its queue holds a process once and keeps to its limit.  The
command line of an entry is read for it at most four times, and it brings at most one event. -/
theorem pending_forks_bounded :
    (∀ moves : List (ProcMove κ),
      PendingBounded 64
        (run (procStep fnmatch env) ⟨.new, .empty⟩ moves).src.pending
        (run (procStep fnmatch env) ⟨.new, .empty⟩ moves).ledger) ∧
    ∀ (cfg : ConfigSnapshot) (now : Nat) (hasTarget hasTracked : Bool)
      (moves : List (EbpfMove κ)),
      PendingBounded 128
        (run (ebpfStep fnmatch env)
          ⟨.tryNew cfg now hasTarget hasTracked, .empty⟩ moves).src.pending
        (run (ebpfStep fnmatch env)
          ⟨.tryNew cfg now hasTarget hasTracked, .empty⟩ moves).ledger := by
  constructor
  · intro moves
    apply PendingBounded.of_kept
    apply run_invariant (procStep fnmatch env) (Q := fun b =>
      (forkQueue procPendingMax).Kept b.src.pending b.ledger)
    · intro b m hb
      exact procStep_kept fnmatch env hb m
    · exact Discipline.Kept.empty
  · intro cfg now hasTarget hasTracked moves
    apply PendingBounded.of_kept
    apply run_invariant (ebpfStep fnmatch env) (Q := fun b =>
      (forkQueue ebpfPendingMax).Kept b.src.pending b.ledger)
    · intro b m hb
      exact ebpfStep_kept fnmatch env hb m
    · exact Discipline.Kept.empty

end Runs

end Threadctl.Daemon
