import Threadctl.Core.EngineRule
import Threadctl.Daemon.Freshness
import Threadctl.Daemon.SourceReports

/-!
# One rule for the invariants of the daemon

The rules that the daemon works with at any point were loaded from the file: they stand in
the store, in the snapshot of the iteration, or in a reload that is about to install them.
An invariant that the engine keeps under each of them survives every step of the main loop.
-/

namespace Threadctl.Daemon

open Threadctl.Core Threadctl.Support Threadctl.Support.Learning Threadctl.Support.StateRun
open Threadctl.Support.Runs

variable {κ : Type}

/-! ## Loaded rules -/

/-- A reload that is about to install a snapshot has loaded its rules. -/
def ReloadPoint.Ready (Loaded : RuleSet → Prop) : ReloadPoint → Prop
  | .load _ => True
  | .install snapshot => Loaded snapshot.rules

def HotReload.Ready (Loaded : RuleSet → Prop) : HotReload → Prop
  | .reloading point => ReloadPoint.Ready Loaded point
  | _ => True

/-- What the main loop does next, it can do. -/
def Point.Ready (B : Beliefs) (Loaded : RuleSet → Prop) : Point → Prop
  | .reloading point => ReloadPoint.Ready Loaded point
  | .handle events => ∀ ev ∈ events, B.Trusts ev
  | _ => True

structure DaemonState.Ready (B : Beliefs) (Loaded : RuleSet → Prop) (d : DaemonState κ) :
    Prop where
  store : Loaded d.shared.store.rules
  cfg : Loaded d.cfg.rules
  hotReload : HotReload.Ready Loaded d.hotReload
  point : Point.Ready B Loaded d.point

def Move.loaded? : Move κ → Option Compiled
  | .main a => a.loaded
  | .hotReload _ loaded => loaded
  | _ => none

/-- The configurations of a run: the first one, and those that its moves load. -/
def Boot.loads (b : Boot κ) (moves : List (Move κ)) (c : Compiled) : Prop :=
  c = b.initial ∨ ∃ m ∈ moves, m.loaded? = some c

def Boot.loadedRules (b : Boot κ) (moves : List (Move κ)) (rules : RuleSet) : Prop :=
  ∃ c, b.loads moves c ∧ c.rules = rules

section Steps

variable {B : Beliefs} {Loaded : RuleSet → Prop} {b : Boot κ} {d : DaemonState κ}

theorem reloadPoint_step_ready {loaded : Option Compiled}
    (hloaded : ∀ c, loaded = some c → Loaded c.rules) {store : ConfigSnapshot}
    (hstore : Loaded store.rules) {point : ReloadPoint} (hpoint : ReloadPoint.Ready Loaded point) :
    Loaded (point.step loaded store).1.rules ∧
      ∀ next, (point.step loaded store).2 = .running next → ReloadPoint.Ready Loaded next := by
  cases point with
  | load version =>
      cases loaded with
      | none => exact ⟨hstore, nofun⟩
      | some c =>
          refine ⟨hstore, ?_⟩
          rintro _ ⟨⟩
          exact hloaded c rfl
  | install snapshot => exact ⟨hpoint, nofun⟩

theorem DaemonState.Ready.of_eq {d' : DaemonState κ} (hd : d.Ready B Loaded)
    (hsame : (d'.shared.store, d'.cfg, d'.hotReload) = (d.shared.store, d.cfg, d.hotReload))
    (hpoint : Point.Ready B Loaded d'.point) : d'.Ready B Loaded := by
  obtain ⟨hstore, hrest⟩ := Prod.mk.inj hsame
  obtain ⟨hcfg, hhot⟩ := Prod.mk.inj hrest
  constructor
  · rw [hstore]
    exact hd.store
  · rw [hcfg]
    exact hd.cfg
  · rw [hhot]
    exact hd.hotReload
  · exact hpoint

theorem DaemonState.Ready.outside (hd : d.Ready B Loaded) (m : Move κ)
    (hm : ∀ a, m ≠ .main a) (hloaded : ∀ c, m.loaded? = some c → Loaded c.rules) :
    (b.step d m).Ready B Loaded := by
  cases m with
  | main a => exact absurd rfl (hm a)
  | hotReload changed loaded =>
      have hhot := hd.hotReload
      have hcase : Loaded (d.hotReload.step changed loaded d.shared).1.store.rules ∧
          HotReload.Ready Loaded (d.hotReload.step changed loaded d.shared).2 := by
        cases hpoint : d.hotReload with
        | waiting => cases changed <;> exact ⟨hd.store, trivial⟩
        | reloading point =>
            rw [hpoint] at hhot
            obtain ⟨hstore, hnext⟩ := reloadPoint_step_ready hloaded hd.store hhot
            unfold HotReload.step
            dsimp only
            cases hresult : (point.step loaded d.shared.store).2 with
            | running next => exact ⟨hstore, hnext next hresult⟩
            | ok => exact ⟨hstore, trivial⟩
            | failed => exact ⟨hstore, trivial⟩
        | reloaded => exact ⟨hd.store, trivial⟩
        | sending version => exact ⟨hd.store, trivial⟩
      exact ⟨hcase.1, hd.cfg, hcase.2, hd.point⟩
  | request req =>
      obtain ⟨pending, -, hstep⟩ := step_pending b d req
      rw [hstep]
      exact hd.of_eq rfl hd.point
  | kernelEvent ev => exact hd.of_eq rfl hd.point
  | kernel k => exact hd.of_eq rfl hd.point

end Steps

/-! ## Steps of the main loop -/

section MainLoop

variable {view : κ → Beliefs} {Loaded : RuleSet → Prop} {I : System κ → Prop} {b : Boot κ}

/-- The daemon is ready, by what is believed, and its system informed. -/
structure Governed (view : κ → Beliefs) (Loaded : RuleSet → Prop) (I : System κ → Prop)
    (d : DaemonState κ) : Prop where
  ready : d.Ready (view d.sys.kernel) Loaded
  informed : Informed view I d.sys

theorem Point.Ready.mono {B B' : Beliefs} (hle : B ≤ B') {point : Point}
    (h : Point.Ready B Loaded point) : Point.Ready B' Loaded point := by
  cases point with
  | handle events => exact fun ev hev => (h ev hev).mono hle
  | reloading point => exact h
  | top | station | doReload | relock | stopped => trivial

theorem DaemonState.Ready.mono {B B' : Beliefs} (hle : B ≤ B') {d : DaemonState κ}
    (h : d.Ready B Loaded) : d.Ready B' Loaded :=
  ⟨h.store, h.cfg, h.hotReload, h.point.mono hle⟩

/-- Part of the engine runs, and the daemon goes on somewhere else. -/
theorem Governed.ran {α : Type} {d d' : DaemonState κ} (hd : Governed view Loaded I d)
    {x : Run κ α} {R : α → Beliefs → Prop} (hx : Finds view I (view d.sys.kernel) x R)
    (hsame : (d'.shared.store, d'.cfg, d'.hotReload, d'.sys) =
      (d.shared.store, d.cfg, d.hotReload, (x.run d.sys).2))
    (hpoint : ∀ B, R (x.run d.sys).1 B → Point.Ready B Loaded d'.point) :
    Governed view Loaded I d' := by
  obtain ⟨hstore, hrest⟩ := Prod.mk.inj hsame
  obtain ⟨hcfg, hrest⟩ := Prod.mk.inj hrest
  obtain ⟨hhot, hsys⟩ := Prod.mk.inj hrest
  obtain ⟨hresult, hgrown, hinformed⟩ := hx d.sys ⟨le_refl _, hd.informed⟩
  constructor
  · rw [hsys]
    exact (hd.ready.mono hgrown).of_eq (by rw [hstore, hcfg, hhot]) (hpoint _ hresult)
  · rw [hsys]
    exact hinformed

theorem Governed.moved {d d' : DaemonState κ} (hd : Governed view Loaded I d)
    (hsame : (d'.shared.store, d'.cfg, d'.hotReload, d'.sys) =
      (d.shared.store, d.cfg, d.hotReload, d.sys))
    (hpoint : ∀ B, Point.Ready B Loaded d'.point) : Governed view Loaded I d' :=
  hd.ran (x := pure ()) Stays.pure hsame fun B _ => hpoint B

variable (hI : ∀ rules, Loaded rules → EventInvariant view b.fnmatch b.env b.topo rules I)
  (hB : b.env.Informs view)

include hI

theorem unmoved_informed {rules : RuleSet} (hrules : Loaded rules) :
    Unmoved b.env view (Informed view I) := fun hx _ => (hI rules hrules).asks hx

theorem Governed.beginIteration {d : DaemonState κ} (hd : Governed view Loaded I d) :
    Governed view Loaded I (b.beginIteration d) := by
  have hask := unmoved_informed hI hd.ready.store .nowSecs (view d.sys.kernel)
  obtain ⟨-, hgrown, hinformed⟩ := hask d.sys ⟨le_refl _, hd.informed⟩
  exact ⟨⟨hd.ready.store, hd.ready.store, hd.ready.hotReload, trivial⟩, hinformed⟩

theorem Governed.ipcStation {d : DaemonState κ} (hd : Governed view Loaded I d) (a : Answers) :
    Governed view Loaded I (b.ipcStation a d) := by
  have hask := unmoved_informed hI hd.ready.store .nowSecs (view d.sys.kernel)
  unfold Boot.ipcStation
  cases d.request with
  | none => exact hd.moved rfl fun _ => trivial
  | some request =>
      cases request with
      | reload => exact hd.moved rfl fun _ => trivial
      | apply pid => exact hd.ran hask rfl fun _ _ => trivial
      | applyScene name =>
          simp only [Boot.handleIpc]
          split
          · exact hd.moved rfl fun _ => trivial
          · exact hd.moved rfl fun _ => trivial
      | status | dump | snapshot | tune => exact hd.moved rfl fun _ => trivial

omit hI in
theorem Governed.noticesStation {d : DaemonState κ} (hd : Governed view Loaded I d) :
    Governed view Loaded I d.noticesStation := by
  unfold DaemonState.noticesStation
  split
  · exact hd.moved rfl fun _ => trivial
  · exact hd.moved rfl fun _ => trivial

theorem Governed.coverageStation {d : DaemonState κ} (hd : Governed view Loaded I d) :
    Governed view Loaded I (b.coverageStation d) := by
  have hunmoved : Unmoved b.env view (Informed view I) := unmoved_informed hI hd.ready.store
  have hsample : Abides view I (view d.sys.kernel) (sampleCoverage b.env baseCpuset) := by
    refine Stays.then abides_pids fun all => Learns.ite Stays.pure ?_
    refine Stays.then (Stays.foldlM all (fun covered pid => ?_) _) fun _ => Stays.pure
    refine Stays.then (Stays.then ?_ fun _ => Stays.pure) fun _ => Stays.pure
    exact Stays.then (hunmoved (.readCpuset pid) _) fun _ => Stays.pure
  have hboth : Abides view I (view d.sys.kernel)
      (sampleCoverage b.env baseCpuset >>= fun _ => ask b.env.instantNow) :=
    Stays.then hsample fun _ => hunmoved .instantNow _
  unfold Boot.coverageStation
  dsimp only
  split
  · split
    · split
      · exact hd.ran hboth rfl fun _ _ => trivial
      · exact hd.ran hboth rfl fun _ _ => trivial
    · exact hd.ran hsample rfl fun _ _ => trivial
  · exact hd.moved rfl fun _ => trivial

theorem Governed.periodicStation {d : DaemonState κ} (hd : Governed view Loaded I d) :
    Governed view Loaded I (b.periodicStation d) := by
  have hask := unmoved_informed hI hd.ready.store .instantNow (view d.sys.kernel)
  unfold Boot.periodicStation
  dsimp only
  split
  · split
    · exact hd.ran hask rfl fun _ _ => trivial
    · exact hd.ran hask rfl fun _ _ => trivial
  · exact hd.moved rfl fun _ => trivial

theorem Governed.cleanupStation {d : DaemonState κ} (hd : Governed view Loaded I d) :
    Governed view Loaded I (b.cleanupStation d) := by
  have hclean : Abides view I (view d.sys.kernel) (cleanupDead b.env) :=
    (hI _ hd.ready.store).cleanupDead
  unfold Boot.cleanupStation
  split
  · exact hd.ran hclean rfl fun _ _ => trivial
  · exact hd.moved rfl fun _ => trivial

omit hI in
theorem Governed.polled {d : DaemonState κ} (hd : Governed view Loaded I d)
    {x : Run κ (Source × List ProcessEvent)}
    (hx : Finds view I (view d.sys.kernel) x fun r B => ∀ ev ∈ r.2, B.Trusts ev) :
    Governed view Loaded I (.polled (d.exec x)) := by
  refine hd.ran hx rfl fun B htrusted => ?_
  unfold DaemonState.polled
  dsimp only
  split
  · trivial
  · exact htrusted

include hB

theorem Governed.pollStation {d : DaemonState κ} (hd : Governed view Loaded I d) :
    Governed view Loaded I (b.pollStation d) := by
  have hunmoved : Unmoved b.env view (Informed view I) := unmoved_informed hI hd.ready.store
  have hpoll : ∀ n, Finds view I (view d.sys.kernel) (b.pollSource d.source n) fun r B =>
      ∀ ev ∈ r.2, B.Trusts ev := by
    intro n
    refine Stays.then (hunmoved .instantNow _) fun started => ?_
    refine Learns.bind (poll_reports hunmoved hB b.fnmatch d.source _) fun polled B' _ hpolled => ?_
    have hdone : ∀ B'', B' ≤ B'' → ∀ ev ∈ polled.2, B''.Trusts ev :=
      fun B'' hle ev hev => (hpolled ev hev).mono hle
    refine Stays.then (hunmoved .instantNow _) fun now => Learns.ite ?_ (Learns.pure hdone)
    exact Stays.then (hunmoved (.sleep _) _) fun _ => Learns.pure hdone
  exact hd.polled (hpoll _)

theorem Governed.station {d : DaemonState κ} (hd : Governed view Loaded I d) (a : Answers)
    (stop : Station) : Governed view Loaded I (b.station a d stop) := by
  cases stop with
  | ipc => exact hd.ipcStation hI a
  | notices => exact hd.noticesStation
  | coverage => exact hd.coverageStation hI
  | periodic => exact hd.periodicStation hI
  | cleanup => exact hd.cleanupStation hI
  | poll => exact hd.pollStation hI hB

omit hI hB in
theorem Governed.reloadStep {d : DaemonState κ} (hd : Governed view Loaded I d) {a : Answers}
    (ha : ∀ c, a.loaded = some c → Loaded c.rules) {point : ReloadPoint}
    (hpoint : d.point = .reloading point) : Governed view Loaded I (d.reloadStep a point) := by
  have hready := hd.ready.point
  rw [hpoint] at hready
  obtain ⟨hstore, hnext⟩ := reloadPoint_step_ready ha hd.ready.store hready
  unfold DaemonState.reloadStep
  dsimp only
  cases hresult : (point.step a.loaded d.shared.store).2 with
  | running next =>
      exact ⟨⟨hstore, hd.ready.cfg, hd.ready.hotReload, hnext next hresult⟩, hd.informed⟩
  | ok => exact ⟨⟨hstore, hd.ready.cfg, hd.ready.hotReload, trivial⟩, hd.informed⟩
  | failed => exact ⟨⟨hstore, hd.ready.cfg, hd.ready.hotReload, trivial⟩, hd.informed⟩

theorem Governed.handle {d : DaemonState κ} (hd : Governed view Loaded I d)
    {events : List ProcessEvent} (hpoint : d.point = .handle events) :
    Governed view Loaded I (b.handle events d) := by
  have hready := hd.ready.point
  rw [hpoint] at hready
  have hengine := (hI _ hd.ready.cfg).handleEvents hB hready rfl d.now
  exact hd.ran hengine rfl fun _ _ => trivial

/-- A step of the main loop keeps the invariant if the relocks do. -/
theorem Governed.mainStep_of {d : DaemonState κ} (hd : Governed view Loaded I d) {a : Answers}
    (ha : ∀ c, a.loaded = some c → Loaded c.rules)
    (hreload : ∀ next, d.point = .doReload next → Governed view Loaded I (b.doReload a next d))
    (hrelock : ∀ now next, d.point = .relock now next →
      Governed view Loaded I (b.relock a now next d)) :
    Governed view Loaded I (b.mainStep a d) := by
  unfold Boot.mainStep
  cases hpoint : d.point with
  | top =>
      dsimp only
      split
      · exact hd.moved rfl fun _ => trivial
      · exact hd.beginIteration hI
  | station stop => exact hd.station hI hB a stop
  | reloading point => exact hd.reloadStep ha hpoint
  | doReload next => exact hreload next hpoint
  | relock now next => exact hrelock now next hpoint
  | handle events => exact hd.handle hI hB hpoint
  | stopped => exact hd

end MainLoop

section Relocks

variable {view : κ → Beliefs} {Loaded : RuleSet → Prop} {I : System κ → Prop} {b : Boot κ}
  (hI : ∀ rules, Loaded rules → EngineInvariant view b.fnmatch b.env b.topo rules I)
  (hB : b.env.Informs view)

include hI hB

theorem Governed.doReload {d : DaemonState κ} (hd : Governed view Loaded I d) (a : Answers)
    (next : Station) : Governed view Loaded I (b.doReload a next d) := by
  have hengine := hI _ hd.ready.store
  have hreload : Abides view I (view d.sys.kernel) (b.reloadTracker d.shared.store a.rctx) := by
    refine Stays.then (hengine.retainInterested _) fun _ => ?_
    refine Stays.then (hengine.asks .nowSecs) fun now => ?_
    exact hengine.relockAll hB rfl now a.rctx b.decision
  exact hd.ran hreload rfl fun _ _ => trivial

theorem Governed.relock {d : DaemonState κ} (hd : Governed view Loaded I d) (a : Answers)
    (now : Int) (next : Station) : Governed view Loaded I (b.relock a now next d) := by
  have hrelock := (hI _ hd.ready.cfg).relockAll hB (B := view d.sys.kernel) rfl now a.rctx
    b.decision
  exact hd.ran hrelock rfl fun _ _ => trivial

/-- A step of the main loop keeps the invariant, whatever the outside world answers. -/
theorem Governed.mainStep {d : DaemonState κ} (hd : Governed view Loaded I d) {a : Answers}
    (ha : ∀ c, a.loaded = some c → Loaded c.rules) :
    Governed view Loaded I (b.mainStep a d) :=
  hd.mainStep_of (fun rules hrules => (hI rules hrules).toEventInvariant) hB ha
    (fun next _ => hd.doReload hI hB a next) fun now next _ => hd.relock hI hB a now next

end Relocks

section Steps

variable {view : κ → Beliefs} {Loaded : RuleSet → Prop} {I : System κ → Prop} {b : Boot κ}

theorem start_governed (hinit : ∀ k, I (System.init k)) (hloaded : Loaded b.initial.rules)
    (kernel : κ) : Governed view Loaded I (b.start kernel) where
  ready := ⟨hloaded, hloaded, trivial, trivial⟩
  informed := ⟨hinit _, eachTracked_init _⟩

/-- Whatever else moves keeps an invariant that depends on the kernel for what is believed
only, if no belief gets lost. -/
theorem Governed.outside
    (hkernel : ∀ s k, view s.kernel ≤ view k → I s → I { s with kernel := k })
    {d : DaemonState κ} (hd : Governed view Loaded I d) {m : Move κ} (hm : ∀ a, m ≠ .main a)
    (hloaded : ∀ c, m.loaded? = some c → Loaded c.rules)
    (hview : ∀ k, m = .kernel k → view d.sys.kernel ≤ view k) :
    Governed view Loaded I (b.step d m) := by
  have hout := hd.ready.outside (b := b) m hm hloaded
  cases m with
  | main a => exact absurd rfl (hm a)
  | hotReload changed loaded => exact ⟨hout, hd.informed⟩
  | request req =>
      obtain ⟨pending, -, hstep⟩ := step_pending b d req
      rw [hstep] at hout ⊢
      exact ⟨hout, hd.informed⟩
  | kernelEvent ev => exact ⟨hout, hd.informed⟩
  | kernel k =>
      have hle : view d.sys.kernel ≤ view k := hview k rfl
      exact ⟨hout.mono hle, hkernel _ k hle hd.informed.1,
        hd.informed.2.mono fun _ _ hp => hp.mono hle⟩

end Steps

end Threadctl.Daemon
