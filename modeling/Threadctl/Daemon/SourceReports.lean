import Threadctl.Core.Beliefs
import Threadctl.Daemon.MainLoop
import Threadctl.Support.Learning

/-!
# What the sources report

A source only asks.  The package of an event is the command line that was read for its
process, and a cloned thread was listed for its process or has it as thread group.
-/

namespace Threadctl.Daemon

open Threadctl.Core Threadctl.Support.Learning Threadctl.Support.StateRun
open Threadctl.Support.Text

variable {κ : Type}

/-! ## Programs that ask -/

/-- Questions leave `J` alone, and no belief gets lost. -/
def Unmoved (env : Env κ) (view : κ → Beliefs) (J : System κ → Prop) : Prop :=
  ∀ {α : Type} {x : StateM κ α}, env.Question x →
    ∀ B, Stays (fun s : System κ => view s.kernel) J B (ask x)

def AllTrusted {σ : Type} (B : Beliefs) (r : Round σ) : Prop := ∀ ev ∈ r.events, B.Trusts ev

/-- The program ends with a round whose events are trusted by then. -/
abbrev Reports {σ : Type} (view : κ → Beliefs) (J : System κ → Prop) (B : Beliefs)
    (x : Run κ (Round σ)) : Prop :=
  Learns (fun s : System κ => view s.kernel) J B x fun r B' => AllTrusted B' r

section Trusted

variable {B : Beliefs} {σ : Type} {r : Round σ}

theorem allTrusted_mono (r : Round σ) : Monotone fun B => AllTrusted B r :=
  fun _ _ hle h ev hev => (h ev hev).mono hle

theorem AllTrusted.push (hr : AllTrusted B r) {ev : ProcessEvent} (hev : B.Trusts ev) :
    AllTrusted B (r.push ev) := by
  intro e he
  rcases List.mem_append.mp he with hold | hnew
  · exact hr e hold
  · exact List.mem_singleton.mp hnew ▸ hev

theorem AllTrusted.append (hr : AllTrusted B r) {evs : List ProcessEvent}
    (hevs : ∀ ev ∈ evs, B.Trusts ev) :
    AllTrusted B { r with events := r.events ++ evs } := by
  intro e he
  rcases List.mem_append.mp he with hold | hnew
  · exact hr e hold
  · exact hevs e hnew

theorem trusts_fork {pid : Int} {read : Option String} {pkg : String}
    (hread : ∀ pkg, read = some pkg → B.runs pid pkg)
    (hpkg : read.filter (!·.isEmpty) = some pkg) :
    B.Trusts ((ProcessEvent.fork pid pid).withPkg pkg) where
  pkg := by
    rintro _ ⟨⟩
    exact hread pkg (Option.filter_eq_some_iff.mp hpkg).1
  thread := nofun

theorem trusts_exec (pid : Int) : B.Trusts (ProcessEvent.exec pid) where
  pkg := nofun
  thread := nofun

theorem trusts_exit (pid tid : Int) : B.Trusts (ProcessEvent.exit pid tid) where
  pkg := nofun
  thread := nofun

theorem trusts_threadClone {pid tid : Int} {pkg : String} (hruns : B.runs pid pkg)
    (howns : B.owns pid tid) : B.Trusts (ProcessEvent.threadClone pid tid pkg) where
  pkg := by
    rintro _ ⟨⟩
    exact hruns
  thread _ := howns

end Trusted

section Sources

variable {env : Env κ} {view : κ → Beliefs} {J : System κ → Prop} {B : Beliefs}
  (hJ : Unmoved env view J) (hB : env.Informs view) (fnmatch : String → String → Bool)

theorem AllTrusted.pure {σ : Type} {r : Round σ} (hr : AllTrusted B r) :
    Reports view J B (pure r) := Learns.pure fun _ hle => allTrusted_mono r hle hr

include hJ

theorem Unmoved.learn {α : Type} {x : StateM κ α} (hx : env.Question x) {R : α → Beliefs → Prop}
    (hR : ∀ k, R (x.run k).1 (view (x.run k).2)) :
    Learns (fun s : System κ => view s.kernel) J B (ask x) R := by
  intro s hs
  exact ⟨hR s.kernel, (hJ hx B s hs).2⟩

include hB

theorem Unmoved.readCmdline (pid : Int) :
    Learns (fun s : System κ => view s.kernel) J B (ask (env.readCmdline pid)) fun read B' =>
      ∀ pkg, read = some pkg → B'.runs pid pkg :=
  hJ.learn (.readCmdline pid) (hB.cmdline pid)

/-! ### The `/proc` source -/

theorem flushProcess_reports (rules : RuleSet) (now : Nat) {r : Round ProcSource}
    (hr : AllTrusted B r) (p : PendingProcess) :
    Reports view J B (flushProcess fnmatch env rules now r p) := by
  refine Learns.ite hr.pure ?_
  refine Stays.then (hJ (.isAlive p.pid) B) fun alive => Learns.ite hr.pure ?_
  refine Learns.bind (hJ.readCmdline hB p.pid) fun read B' hle hread => ?_
  have hr' : AllTrusted B' r := allTrusted_mono r hle hr
  cases hpkg : read.filter (!·.isEmpty) with
  | none => exact Learns.ite (AllTrusted.pure hr') hr'.pure
  | some pkg => exact Learns.ite (hr'.push (trusts_fork hread hpkg)).pure hr'.pure

theorem flushPending_reports (rules : RuleSet) {r : Round ProcSource} (hr : AllTrusted B r) :
    Reports view J B (ProcSource.flushPending fnmatch env rules r) := by
  refine Learns.ite hr.pure ?_
  refine Stays.then (hJ .instantNow B) fun now => Learns.foldlM allTrusted_mono _ ?_ ?_
  · exact hr
  · exact fun r' p _ B' _ hr' => flushProcess_reports hJ hB fnmatch rules now hr' p

theorem newTidsFor_owned (pid : Int) :
    Learns (fun s : System κ => view s.kernel) J B (newTidsFor env pid) fun tids B' =>
      ∀ tid ∈ tids, B'.owns pid tid := by
  refine Learns.get fun s => ?_
  cases s.tracker.procs.lookup pid with
  | none => exact Learns.pure fun _ _ => nofun
  | some state =>
      refine Learns.ite (Learns.pure fun _ _ => nofun) ?_
      refine Learns.bind (hJ.learn (R := fun tids B' => ∀ tid ∈ tids, B'.owns pid tid)
        (.listTids pid) (hB.tids pid)) fun tids B' hle howns => ?_
      refine Learns.get fun t => Learns.pure fun B'' hle' tid htid => hle'.owns (howns tid ?_)
      have hmem := (env.order_perm _ _).mem_iff.mp htid
      exact List.mem_dedup.mp (List.mem_of_mem_filter hmem)

theorem pushClones_reports {r : Round ProcSource} (hr : AllTrusted B r) {pid : Int}
    {pkg : String} (hruns : B.runs pid pkg) :
    Reports view J B (pushClones env r pid pkg) := by
  refine Learns.bind (newTidsFor_owned hJ hB pid) fun tids B' hle howns => ?_
  refine AllTrusted.pure ((allTrusted_mono r hle hr).append fun ev hev => ?_)
  obtain ⟨tid, htid, rfl⟩ := List.mem_map.mp hev
  exact trusts_threadClone (hle.runs hruns) (howns tid htid)

omit hB in
theorem enqueue_reports {r : Round ProcSource} (hr : AllTrusted B r) (pid : Int) :
    Reports view J B (enqueue env r pid) := by
  refine Learns.get fun s => Learns.ite ?_ hr.pure
  exact Stays.then (hJ .instantNow B) fun now => AllTrusted.pure hr

theorem scanProcess_reports (rules : RuleSet) {r : Round ProcSource} (hr : AllTrusted B r)
    (pid : Int) : Reports view J B (scanProcess fnmatch env rules r pid) := by
  refine Learns.bind (hJ.readCmdline hB pid) fun read B' hle hread => ?_
  have hr' : AllTrusted B' r := allTrusted_mono r hle hr
  cases hpkg : read.filter (!·.isEmpty) with
  | none => exact enqueue_reports hJ hr' pid
  | some pkg =>
      have hruns : B'.runs pid pkg := hread pkg (Option.filter_eq_some_iff.mp hpkg).1
      refine Learns.ite (AllTrusted.pure hr') (Learns.get fun s => Learns.ite ?_ ?_)
      · exact pushClones_reports hJ hB hr' hruns
      · exact (hr'.push (trusts_fork hread hpkg)).pure

theorem checkProcess_reports (rules : RuleSet) {acc : Round ProcSource × List Int}
    (hacc : AllTrusted B acc.1) (pid : Int) :
    Learns (fun s : System κ => view s.kernel) J B (checkProcess fnmatch env rules acc pid)
      fun acc' B' => AllTrusted B' acc'.1 := by
  have hdone : ∀ {B' : Beliefs}, AllTrusted B' acc.1 → ∀ current : List Int,
      Learns (fun s : System κ => view s.kernel) J B' (pure (acc.1, current))
        fun acc' B'' => AllTrusted B'' acc'.1 := fun h _ =>
    Learns.pure fun _ hle => allTrusted_mono _ hle h
  refine Stays.then (hJ (.isAlive pid) B) fun alive => Learns.ite (hdone hacc _) ?_
  refine Learns.bind (hJ.readCmdline hB pid) fun read B' hle hread => ?_
  have hacc' : AllTrusted B' acc.1 := allTrusted_mono acc.1 hle hacc
  cases read with
  | none => exact hdone hacc' _
  | some pkg =>
      refine Learns.ite (hdone hacc' _) ?_
      refine Learns.bind (pushClones_reports hJ hB hacc' (hread pkg rfl)) fun r B'' _ hr => ?_
      exact Learns.pure fun _ hle => allTrusted_mono r hle hr

omit hJ hB in
theorem pushExits_reports {r : Round ProcSource} (hr : AllTrusted B r) (current : List Int) :
    Reports view J B (pushExits env r current) := by
  refine Learns.get fun s => Learns.get fun t => AllTrusted.pure (hr.append fun ev hev => ?_)
  obtain ⟨pid, -, rfl⟩ := List.mem_map.mp hev
  exact trusts_exit pid pid

theorem collect_reports (src : ProcSource) : Reports view J B (src.collect fnmatch env) := by
  unfold ProcSource.collect
  cases src.cfg with
  | none => exact Learns.pure fun _ _ => nofun
  | some cfg =>
      refine Learns.bind (flushPending_reports hJ hB fnmatch cfg.rules nofun) fun r B₁ _ hr => ?_
      refine Stays.then (Stays.then (hJ .readProcDir B₁) fun dir => ?_) fun total => ?_
      · cases dir with
        | none => exact Stays.pure
        | some names => exact Stays.pure
      · refine Learns.ite (Stays.then (hJ .readProcDir B₁) fun dir => ?_) ?_
        · cases dir with
          | none => exact hr.pure
          | some names =>
              refine Learns.bind (Learns.foldlM allTrusted_mono _ ?_
                fun r' pid _ B' _ hr' => scanProcess_reports hJ hB fnmatch cfg.rules hr' pid) ?_
              · exact hr
              · exact fun r' B' _ hr' => pushExits_reports hr' _
        · refine Stays.then (Learns.get fun s => Learns.get fun t => Stays.pure) fun tracked => ?_
          refine Learns.bind (Learns.foldlM (R := fun acc B' => AllTrusted B' acc.1)
            (fun acc => allTrusted_mono acc.1) _ ?_ fun acc pid _ B' _ hacc =>
              checkProcess_reports hJ hB fnmatch cfg.rules hacc pid) ?_
          · exact hr
          · exact fun acc B' _ hacc => pushExits_reports hacc _

omit hB in
theorem sleep_reports {σ : Type} {r : Round σ} (hr : AllTrusted B r) (deadline : Nat) :
    Reports view J B (do
      let now ← ask env.instantNow
      if now < deadline then do
        ask (env.sleep (deadline - now))
        pure r
      else pure r : Run κ (Round σ)) := by
  refine Stays.then (hJ .instantNow B) fun now => Learns.ite ?_ hr.pure
  exact Stays.then (hJ (.sleep _) B) fun _ => hr.pure

theorem procSource_reports (src : ProcSource) (deadline : Nat) :
    Reports view J B (src.poll fnmatch env deadline) := by
  refine Learns.bind (collect_reports hJ hB fnmatch src) fun r B' _ hr => ?_
  exact Learns.ite (sleep_reports hJ hr deadline) hr.pure

/-! ### The eBPF source -/

theorem initialScanProcess_reports (rules : RuleSet) {r : Round EbpfSource}
    (hr : AllTrusted B r) (pid : Int) :
    Reports view J B (initialScanProcess fnmatch env rules r pid) := by
  refine Learns.bind (hJ.readCmdline hB pid) fun read B' hle hread => ?_
  have hr' : AllTrusted B' r := allTrusted_mono r hle hr
  cases hpkg : read.filter (!·.isEmpty) with
  | none => exact hr'.pure
  | some pkg => exact Learns.ite hr'.pure (hr'.push (trusts_fork hread hpkg)).pure

theorem scanOnce_reports (src : EbpfSource) : Reports view J B (scanOnce fnmatch env src) := by
  have hstart : AllTrusted B (⟨src, []⟩ : Round EbpfSource) := nofun
  refine Learns.ite hstart.pure (Learns.bind (Q := fun r B' => AllTrusted B' r) ?_
    fun r B' _ hr => AllTrusted.pure hr)
  unfold initialScan
  dsimp only
  cases src.cfg with
  | none => exact hstart.pure
  | some cfg =>
      refine Stays.then (hJ .readProcDir B) fun dir => ?_
      cases dir with
      | none => exact hstart.pure
      | some names =>
          exact Learns.foldlM allTrusted_mono _ hstart fun r pid _ B' _ hr =>
            initialScanProcess_reports hJ hB fnmatch cfg.rules hr pid

omit hB in
theorem handleRaw_reports {r : Round EbpfSource} (hr : AllTrusted B r) (ev : EbpfProcEvent) :
    Reports view J B (handleRaw env r ev) := by
  refine Learns.ite ?_ (Learns.ite ?_ (Learns.ite ?_ hr.pure))
  · refine Learns.ite hr.pure (Learns.ite ?_ hr.pure)
    exact Stays.then (hJ .instantNow B) fun now => AllTrusted.pure hr
  · exact (hr.push (trusts_exec ev.pid)).pure
  · refine Learns.get fun s => AllTrusted.pure ?_
    have hexit : AllTrusted B (if s.tracker.contains ev.pid = true then
        r.push (ProcessEvent.exit ev.pid ev.tid) else r) := by
      split
      · exact hr.push (trusts_exit ev.pid ev.tid)
      · exact hr
    split
    · exact hexit
    · exact hexit

theorem confirmFork_reports (rules : RuleSet) {r : Round EbpfSource} (hr : AllTrusted B r)
    {pid : Int} {read : Option String} {pkg : String}
    (hread : ∀ pkg, read = some pkg → B.runs pid pkg)
    (hpkg : read.filter (!·.isEmpty) = some pkg) :
    Reports view J B (confirmFork fnmatch env rules r pid pkg) := by
  refine Learns.bind (hJ.learn (R := fun tgid B' => ∀ t, tgid = some t → B'.owns t pid)
    (.readTgid pid) (hB.tgid pid)) fun tgid B' hle htgid => ?_
  have hr' : AllTrusted B' r := allTrusted_mono r hle hr
  refine Learns.ite_of (fun _ => Learns.ite ?_ hr'.pure) fun hthread => ?_
  · exact (hr'.push (trusts_fork (fun pkg hpkg => hle.runs (hread pkg hpkg)) hpkg)).pure
  · -- an unreadable thread group would be the process itself
    have howns : B'.owns (tgid.getD pid) pid := by
      cases tgid with
      | none => exact absurd rfl hthread
      | some tgid => exact htgid tgid rfl
    refine Learns.bind (hJ.readCmdline hB _) fun parent B'' hle' hparent => ?_
    have hr'' : AllTrusted B'' r := allTrusted_mono r hle' hr'
    cases parent with
    | none => exact hr''.pure
    | some ppkg =>
        refine Learns.ite (AllTrusted.pure ?_) hr''.pure
        exact hr''.push (trusts_threadClone (hparent ppkg rfl) (hle'.owns howns))

theorem flushFork_reports (rules : RuleSet) (now : Nat) {r : Round EbpfSource}
    (hr : AllTrusted B r) (p : PendingProcess) :
    Reports view J B (flushFork fnmatch env rules now r p) := by
  refine Learns.ite hr.pure ?_
  refine Stays.then (hJ (.isAlive p.pid) B) fun alive => Learns.ite hr.pure ?_
  refine Learns.bind (hJ.readCmdline hB p.pid) fun read B' hle hread => ?_
  have hr' : AllTrusted B' r := allTrusted_mono r hle hr
  cases hpkg : read.filter (!·.isEmpty) with
  | none =>
      refine Learns.ite ?_ hr'.pure
      exact Stays.then (hJ .instantNow B') fun now => AllTrusted.pure hr'
  | some pkg => exact confirmFork_reports hJ hB fnmatch rules hr' hread hpkg

theorem drain_reports {r : Round EbpfSource} (hr : AllTrusted B r) :
    Reports view J B (drain fnmatch env r) := by
  refine Learns.bind (Learns.foldlM allTrusted_mono _ ?_
    fun r' ev _ B' _ hr' => handleRaw_reports hJ hr' ev) fun r' B' _ hr' => ?_
  · exact hr
  · unfold EbpfSource.flushPending
    refine Learns.ite hr'.pure ?_
    cases r'.src.cfg with
    | none => exact hr'.pure
    | some cfg =>
        refine Stays.then (hJ .instantNow B') fun now => Learns.foldlM allTrusted_mono _ ?_ ?_
        · exact hr'
        · exact fun q p _ B'' _ hq => flushFork_reports hJ hB fnmatch cfg.rules now hq p

theorem ebpfSource_reports (src : EbpfSource) (deadline : Nat) :
    Reports view J B (src.poll fnmatch env deadline) := by
  refine Learns.bind (scanOnce_reports hJ hB fnmatch src) fun r B₁ _ hr => ?_
  refine Learns.bind (drain_reports hJ hB fnmatch hr) fun r' B₂ _ hr' => ?_
  refine Stays.then (Stays.then (hJ .instantNow B₂) fun now => Learns.ite ?_ Stays.pure) ?_
  · refine Stays.then (Learns.get fun s => Learns.get fun t => Stays.pure) fun tracked => ?_
    exact Stays.then (hJ .instantNow B₂) fun done => Stays.pure
  · refine fun synced => Learns.ite ?_ hr'.pure
    refine Stays.then (hJ .instantNow B₂) fun now => Learns.ite ?_ (AllTrusted.pure hr')
    exact Stays.then (hJ (.sleep _) B₂) fun _ => AllTrusted.pure hr'

theorem poll_reports (src : Source) (deadline : Nat) :
    Learns (fun s : System κ => view s.kernel) J B (src.poll fnmatch env deadline) fun r B' =>
      ∀ ev ∈ r.2, B'.Trusts ev := by
  cases src with
  | proc src =>
      refine Learns.bind (procSource_reports hJ hB fnmatch src deadline) fun r B' _ hr => ?_
      exact Learns.pure fun _ hle => allTrusted_mono r hle hr
  | ebpf src =>
      refine Learns.bind (ebpfSource_reports hJ hB fnmatch src deadline) fun r B' _ hr => ?_
      exact Learns.pure fun _ hle => allTrusted_mono r hle hr

end Sources

end Threadctl.Daemon
