import Threadctl.Core.AffinityMasks
import Threadctl.Core.EngineRule
import Threadctl.Core.EnsureCache
import Threadctl.Core.Journal
import Threadctl.Core.NameSkipping

/-!
# What the rules warrant

A system call of the engine is warranted when it does to a thread what a policy asks for
and the rules have that policy for the thread, or when it removes a directory that the
rules had for some thread.  Every call in a journal is warranted by what the kernel has
answered before it.
-/

namespace Threadctl.Core

open Threadctl.Support Threadctl.Support.EventLog Threadctl.Support.StateRun

variable {κ : Type}

/-! ## Policies -/

/-- Putting the policy into force on the thread may make this call. -/
def Policy.Warrants (policy : Policy) (topo : CpuTopology) (allowed : Bool) (tid : Int) :
    Call → Prop
  | .getAffinity t _ => t = tid
  | .readAllowedMask t _ => t = tid
  | .readUtilClampMax _ => True
  | .setAffinity t mask _ => t = tid ∧ ∃ read, LegalMask policy topo read mask
  | .createCpusetDir path cpus mems _ =>
      path = dirPath policy.cpusetDir ∧ cpus = policy.cpusetDir ∧ mems = "0"
  | .removeCpusetDir _ _ => False
  | .appendTask file t _ => t = tid ∧ file = tasksFile policy.cpusetDir
  | .schedSetscheduler t pol prio _ =>
      t = tid ∧ policy.sched = some pol ∧ (pol.isRt = true → allowed = true) ∧
        prio = schedPriority pol policy.schedPrio
  | .setpriority t nice _ =>
      t = tid ∧ ∃ n, policy.nice = some n ∧ nice = clamp (-20) 19 n
  | .schedSetattr t flags lo hi answer =>
      t = tid ∧ ¬ (policy.uclampMin.isNone ∧ policy.uclampMax.isNone) ∧
        Call.schedSetattr t flags lo hi answer =
          setattrCall tid policy.uclampMin policy.uclampMax answer

section Paths

variable {policy : Policy} {topo : CpuTopology} {allowed : Bool} {tid : Int} {es : List Event}

def Policy.WarrantsAll (policy : Policy) (topo : CpuTopology) (allowed : Bool) (tid : Int)
    (es : List Event) : Prop := ∀ c ∈ callsOf es, policy.Warrants topo allowed tid c

theorem warrantsAll_nil : policy.WarrantsAll topo allowed tid [] := nofun

@[simp] theorem warrantsAll_record (entry : AuditEntry) :
    policy.WarrantsAll topo allowed tid (.record entry :: es) ↔
      policy.WarrantsAll topo allowed tid es := Iff.rfl

@[simp] theorem warrantsAll_call (c : Call) :
    policy.WarrantsAll topo allowed tid (.call c :: es) ↔
      policy.Warrants topo allowed tid c ∧ policy.WarrantsAll topo allowed tid es :=
  List.forall_mem_cons

@[simp] theorem warrantsAll_append (fs : List Event) :
    policy.WarrantsAll topo allowed tid (es ++ fs) ↔
      policy.WarrantsAll topo allowed tid es ∧ policy.WarrantsAll topo allowed tid fs := by
  unfold Policy.WarrantsAll
  rw [callsOf_append, List.forall_mem_append]

theorem EnsurePath.warranted (h : EnsurePath policy.cpusetDir es) :
    policy.WarrantsAll topo allowed tid es := by
  cases h with
  | skipped => exact warrantsAll_nil
  | asked created => exact (warrantsAll_call _).mpr ⟨⟨rfl, rfl, rfl⟩, warrantsAll_nil⟩

theorem JoinPath.warranted (h : JoinPath tid policy topo es) :
    policy.WarrantsAll topo allowed tid es := by
  cases h with
  | unused h => exact warrantsAll_nil
  | joined h =>
      rw [warrantsAll_append, warrantsAll_call]
      exact ⟨h.warranted, ⟨rfl, rfl⟩, warrantsAll_nil⟩
  | refused h hentry =>
      rw [warrantsAll_append, warrantsAll_call, warrantsAll_record]
      exact ⟨h.warranted, ⟨rfl, rfl⟩, warrantsAll_nil⟩

theorem SetPath.warranted {mask : CpuSet} {outcome : ApplyOutcome}
    (h : SetPath tid mask es outcome)
    (hlegal : mask.count ≠ 0 → ∃ read, LegalMask policy topo read mask) :
    policy.WarrantsAll topo allowed tid es := by
  cases h with
  | empty h => exact warrantsAll_nil
  | set h hentry =>
      rw [warrantsAll_call, warrantsAll_record]
      exact ⟨⟨rfl, hlegal h⟩, warrantsAll_nil⟩
  | refused h errno hentry =>
      rw [warrantsAll_call, warrantsAll_record]
      exact ⟨⟨rfl, hlegal h⟩, warrantsAll_nil⟩

theorem AllowedPath.warranted {outcome : ApplyOutcome}
    (h : AllowedPath tid (onlineFilter topo policy.cpus) es outcome) :
    policy.WarrantsAll topo allowed tid es := by
  cases h with
  | unreadable h =>
      rw [warrantsAll_call]
      exact ⟨rfl, h.warranted fun hmask => ⟨none, legalMask_online hmask⟩⟩
  | blocked h hentry =>
      rw [warrantsAll_call, warrantsAll_record]
      exact ⟨rfl, warrantsAll_nil⟩
  | downgraded h hcut hes =>
      rw [warrantsAll_call]
      refine ⟨rfl, ?_⟩
      cases hes with
      | set hentry =>
          rw [warrantsAll_call, warrantsAll_record]
          exact ⟨⟨rfl, _, legalMask_and h⟩, warrantsAll_nil⟩
      | refused errno hentry =>
          rw [warrantsAll_call, warrantsAll_record]
          exact ⟨⟨rfl, _, legalMask_and h⟩, warrantsAll_nil⟩
  | kept h hsame hes =>
      rw [warrantsAll_call]
      exact ⟨rfl, hes.warranted fun hmask => ⟨_, legalMask_and hmask⟩⟩

theorem AffinityPath.warranted {outcome : ApplyOutcome}
    (h : AffinityPath tid policy topo es outcome) : policy.WarrantsAll topo allowed tid es := by
  cases h with
  | noCpus h => exact warrantsAll_nil
  | already h hjoin hentry =>
      rw [warrantsAll_append, warrantsAll_call, warrantsAll_record]
      exact ⟨hjoin.warranted, rfl, warrantsAll_nil⟩
  | other h hjoin hcurr hes =>
      rw [warrantsAll_append, warrantsAll_call]
      exact ⟨hjoin.warranted, rfl, hes.warranted⟩

theorem NicePath.warranted (h : NicePath tid policy.nice es) :
    policy.WarrantsAll topo allowed tid es := by
  generalize hnice : policy.nice = nice at h
  cases h with
  | unset => exact warrantsAll_nil
  | set n =>
      rw [warrantsAll_call]
      exact ⟨⟨rfl, n, hnice, rfl⟩, warrantsAll_nil⟩
  | refused n errno hentry =>
      rw [warrantsAll_call, warrantsAll_record]
      exact ⟨⟨rfl, n, hnice, rfl⟩, warrantsAll_nil⟩

theorem SchedPath.warranted {pol : SchedPolicy} {failure : Option ApplyOutcome}
    (h : SchedPath tid pol policy.schedPrio policy.nice es failure)
    (hsched : policy.sched = some pol) (hrt : (pol.isRt && !allowed) = false) :
    policy.WarrantsAll topo allowed tid es := by
  have hpermitted : pol.isRt = true → allowed = true := by
    intro hpol
    rw [hpol, Bool.true_and, Bool.not_eq_false'] at hrt
    exact hrt
  cases h with
  | set hnice =>
      rw [warrantsAll_call]
      exact ⟨⟨rfl, hsched, hpermitted, rfl⟩, hnice.warranted⟩
  | gone hnice =>
      rw [warrantsAll_call]
      exact ⟨⟨rfl, hsched, hpermitted, rfl⟩, hnice.warranted⟩
  | refused herrno hnice hentry =>
      rw [List.cons_append, warrantsAll_call, warrantsAll_append, warrantsAll_record]
      exact ⟨⟨rfl, hsched, hpermitted, rfl⟩, hnice.warranted, warrantsAll_nil⟩

theorem SupportPath.warranted {support : Option Bool} {supported : Bool}
    (h : SupportPath support es supported) : policy.WarrantsAll topo allowed tid es := by
  cases h with
  | known => exact warrantsAll_nil
  | asked limit => exact (warrantsAll_call _).mpr ⟨trivial, warrantsAll_nil⟩

theorem UclampPath.warranted {support : Option Bool} {outcome outcome' : ApplyOutcome}
    (h : UclampPath support tid policy.uclampMin policy.uclampMax outcome es outcome') :
    policy.WarrantsAll topo allowed tid es := by
  cases h with
  | unset h => exact warrantsAll_nil
  | unsupported h hps => exact hps.warranted
  | set h hps =>
      rw [warrantsAll_append, warrantsAll_call]
      exact ⟨hps.warranted, ⟨rfl, h, rfl⟩, warrantsAll_nil⟩
  | gone h hps =>
      rw [warrantsAll_append, warrantsAll_call]
      exact ⟨hps.warranted, ⟨rfl, h, rfl⟩, warrantsAll_nil⟩
  | refused h hps herrno hentry =>
      rw [warrantsAll_append, warrantsAll_call, warrantsAll_record]
      exact ⟨hps.warranted, ⟨rfl, h, rfl⟩, warrantsAll_nil⟩

/-- An application makes no call that its policy does not warrant. -/
theorem ThreadPath.warranted {support : Option Bool} {outcome : ApplyOutcome}
    (h : ThreadPath support tid policy topo allowed es outcome) :
    policy.WarrantsAll topo allowed tid es := by
  cases h with
  | exited h => exact h.warranted
  | noSched h hgone hsched hus =>
      rw [warrantsAll_append]
      exact ⟨h.warranted, hus.warranted⟩
  | rtRefused h hgone hsched hrt => exact h.warranted
  | sched h hgone hsched hrt hss hus =>
      rw [warrantsAll_append, warrantsAll_append]
      exact ⟨h.warranted, hss.warranted hsched hrt, hus.warranted⟩

end Paths

/-! ## Rules -/

/-- The call does what some loaded rules ask for. -/
inductive Warranted (B : Beliefs) (fnmatch : String → String → Bool) (topo : CpuTopology)
    (Loaded : RuleSet → Prop) : Call → Prop
  | apply {rules : RuleSet} {tid : Int} {pkg : String} {policy : Policy} {allowed : Bool}
      {c : Call} (hrules : Loaded rules) (hassigned : Assigned B fnmatch rules tid pkg policy)
      (hallowed : B.permits allowed) (hc : policy.Warrants topo allowed tid c) :
      Warranted B fnmatch topo Loaded c
  | release {rules : RuleSet} {dir : String} (hrules : Loaded rules)
      (hdir : AssignedDir B fnmatch rules dir) (removed : Bool) :
      Warranted B fnmatch topo Loaded (.removeCpusetDir (dirPath dir) removed)

theorem Policy.Warrants.tid {policy : Policy} {topo : CpuTopology} {allowed : Bool} {tid t : Int}
    {c : Call} (h : policy.Warrants topo allowed tid c) (ht : c.tid? = some t) : t = tid := by
  cases c with
  | getAffinity t' mask | readAllowedMask t' mask =>
      obtain rfl : t' = t := Option.some.inj ht
      exact h
  | setAffinity t' cpus answer | appendTask file t' written
  | schedSetscheduler t' pol prio answer | setpriority t' nice answer
  | schedSetattr t' flags lo hi answer =>
      obtain rfl : t' = t := Option.some.inj ht
      exact h.1
  | createCpusetDir path cpus mems created | removeCpusetDir path removed
  | readUtilClampMax limit => exact absurd ht nofun

/-- Rules have no policy for a package they do not want. -/
theorem Warranted.wanted {B : Beliefs} {fnmatch : String → String → Bool} {topo : CpuTopology}
    {Loaded : RuleSet → Prop} {c : Call} (h : Warranted B fnmatch topo Loaded c) {tid : Int}
    (htid : c.tid? = some tid) :
    ∃ rules pid pkg, Loaded rules ∧ B.owns pid tid ∧ B.runs pid pkg ∧
      rules.isInterested fnmatch pkg = true := by
  cases h with
  | release hrules hdir removed => exact absurd htid nofun
  | @apply rules t pkg policy allowed _ hrules hassigned hallowed hc =>
      obtain rfl : tid = t := hc.tid htid
      obtain ⟨pid, hruns, howns⟩ := hassigned.process
      obtain ⟨thread, hpolicy, -⟩ := hassigned.policy
      refine ⟨rules, pid, pkg, hrules, howns, hruns, ?_⟩
      by_contra hwanted
      have hnone := resolve_of_not_interested fnmatch rules pkg (by simpa using hwanted) thread
      rw [hnone] at hpolicy
      exact absurd hpolicy (by simp)

def LoadedDir (B : Beliefs) (fnmatch : String → String → Bool) (Loaded : RuleSet → Prop)
    (dir : String) : Prop := ∃ rules, Loaded rules ∧ AssignedDir B fnmatch rules dir

def HoldsLoaded (B : Beliefs) (fnmatch : String → String → Bool) (Loaded : RuleSet → Prop)
    (_pid : Int) (p : ProcessState) : Prop := ∀ d ∈ p.dirs, LoadedDir B fnmatch Loaded d

section Mono

variable {B B' : Beliefs} (hle : B ≤ B') {fnmatch : String → String → Bool}
  {topo : CpuTopology} {Loaded : RuleSet → Prop}

include hle

theorem Warranted.mono {c : Call} (h : Warranted B fnmatch topo Loaded c) :
    Warranted B' fnmatch topo Loaded c := by
  cases h with
  | apply hrules hassigned hallowed hc =>
      exact .apply hrules (hassigned.mono hle) (hle.permits hallowed) hc
  | release hrules hdir removed => exact .release hrules (hdir.mono hle) removed

theorem LoadedDir.mono {dir : String} (h : LoadedDir B fnmatch Loaded dir) :
    LoadedDir B' fnmatch Loaded dir := by
  obtain ⟨rules, hrules, hdir⟩ := h
  exact ⟨rules, hrules, hdir.mono hle⟩

theorem HoldsLoaded.mono {pid : Int} {p : ProcessState}
    (h : HoldsLoaded B fnmatch Loaded pid p) : HoldsLoaded B' fnmatch Loaded pid p :=
  fun d hd => (h d hd).mono hle

end Mono

/-! ## Journals -/

/-- The journal goes on from an old one, and each call that was added is warranted by the
answers before it. -/
def Supported (fnmatch : String → String → Bool) (topo : CpuTopology) (Loaded : RuleSet → Prop)
    (old journal : List Entry) : Prop :=
  ∃ new, journal = old ++ new ∧ ∀ before c after, new = before ++ .call c :: after →
    Warranted (told (old ++ before)) fnmatch topo Loaded c

/-- At least `B` is known, the tracked processes hold directories that are known to be those of
loaded rules, and the calls are supported. -/
structure ConfinedBy (B : Beliefs) (fnmatch : String → String → Bool) (topo : CpuTopology)
    (Loaded : RuleSet → Prop) (old : List Entry) (s : System (Traced κ Entry)) : Prop where
  known : B ≤ recorded s.kernel
  calls : Supported fnmatch topo Loaded old s.kernel.log
  dirs : EachTracked (HoldsLoaded B fnmatch Loaded) s

/-- By all that is known. -/
def Confined (fnmatch : String → String → Bool) (topo : CpuTopology) (Loaded : RuleSet → Prop)
    (old : List Entry) (s : System (Traced κ Entry)) : Prop :=
  ConfinedBy (recorded s.kernel) fnmatch topo Loaded old s

section Confined

variable {B : Beliefs} {fnmatch : String → String → Bool} {topo : CpuTopology}
  {Loaded : RuleSet → Prop} {old : List Entry} {env : Env κ}

theorem supported_refl : Supported fnmatch topo Loaded old old :=
  ⟨[], (List.append_nil old).symm, by simp⟩

theorem Supported.append {journal : List Entry} (h : Supported fnmatch topo Loaded old journal)
    {es : List Entry} (hes : ∀ c, .call c ∈ es → Warranted (told journal) fnmatch topo Loaded c) :
    Supported fnmatch topo Loaded old (journal ++ es) := by
  obtain ⟨new, rfl, hnew⟩ := h
  refine ⟨new ++ es, List.append_assoc old new es, ?_⟩
  intro before c after hsplit
  rcases List.append_eq_append_iff.mp hsplit with ⟨more, rfl, hes'⟩ | ⟨more, rfl, hrest⟩
  · have hc : Entry.call c ∈ es := hes' ▸ List.mem_append_right more List.mem_cons_self
    refine (hes c hc).mono (told_mono ?_)
    rw [← List.append_assoc]
    exact List.subset_append_left (old ++ new) more
  · cases more with
    | nil =>
        have hc : Entry.call c ∈ es := by
          rw [← List.nil_append es, ← hrest]
          exact List.mem_cons_self
        rw [List.append_nil] at hes
        exact hes c hc
    | cons entry more =>
        obtain ⟨rfl, -⟩ := List.cons.inj hrest
        exact hnew before c more rfl

theorem ConfinedBy.extend {s t : System (Traced κ Entry)}
    (h : ConfinedBy B fnmatch topo Loaded old s) {es : List Entry}
    (hlog : t.kernel.log = s.kernel.log ++ es)
    (hes : ∀ c, .call c ∈ es → Warranted B fnmatch topo Loaded c)
    (hprocs : t.tracker.procs = s.tracker.procs) : ConfinedBy B fnmatch topo Loaded old t where
  known := h.known.trans (told_mono (by rw [hlog]; exact List.subset_append_left _ _))
  calls := by
    rw [hlog]
    exact h.calls.append fun c hc => (hes c hc).mono h.known
  dirs pid p hp := by
    refine h.dirs pid p ?_
    rw [← hp, StateTracker.procMap, StateTracker.procMap, hprocs]

theorem keeps_confined {α : Type} {x : Run (Traced κ Entry) α}
    (hx : Frame (fun s : System (Traced κ Entry) => (s.kernel.log, s.tracker.procs)) x) :
    Keeps (ConfinedBy B fnmatch topo Loaded old) x := by
  intro s hs
  obtain ⟨hlog, hprocs⟩ := Prod.mk.inj (hx s)
  have hnil : (x.run s).2.kernel.log = s.kernel.log ++ [] := by rw [hlog, List.append_nil]
  exact hs.extend hnil nofun hprocs

theorem keeps_confined_tracker {f : StateTracker → StateTracker}
    (hf : Keeps (EachTracked (κ := Traced κ Entry) (HoldsLoaded B fnmatch Loaded))
      (modifyTracker f)) :
    Keeps (ConfinedBy (κ := κ) B fnmatch topo Loaded old) (modifyTracker f) :=
  fun s hs => ⟨hs.known, hs.calls, hf s hs.dirs⟩

theorem ask_confined {α : Type} {x : StateM (Traced κ Entry) α} (hx : env.journaled.Question x) :
    Keeps (ConfinedBy B fnmatch topo Loaded old) (ask x) := by
  intro s hs
  have hgrown : ∃ es, ((ask x).run s).2.kernel.log = s.kernel.log ++ es ∧ ∀ c, .call c ∉ es := by
    cases hx with
    | readProcDir | readStartTime | readOomAdj | isAlive | readCpuset | nowSecs | sleep =>
        exact ⟨[], (List.append_nil _).symm, fun _ => List.not_mem_nil⟩
    | readCmdline | readThreadName | readTgid | listTids | canRtSched | instantNow =>
        exact ⟨[_], rfl, fun _ hc => absurd (List.mem_singleton.mp hc) nofun⟩
  obtain ⟨es, hlog, hnone⟩ := hgrown
  exact hs.extend hlog (fun c hc => absurd hc (hnone c)) rfl

theorem releaseDir_confined {d : String} (hd : LoadedDir B fnmatch Loaded d) :
    Keeps (ConfinedBy B fnmatch topo Loaded old) (releaseDir env.journaled d) := by
  refine Keeps.ite Keeps.pure (Keeps.get fun s => ?_)
  refine Keeps.bind (keeps_confined fun _ => rfl) fun _ => Keeps.ite ?_ Keeps.pure
  refine Keeps.bind ?_ fun reclaimed => Keeps.ite (keeps_confined fun _ => rfl) Keeps.pure
  refine Keeps.bind (keeps_confined fun _ => rfl) fun _ => ?_
  intro t ht
  obtain ⟨rules, hrules, hdir⟩ := hd
  refine ht.extend rfl ?_ rfl
  intro c hc
  obtain rfl := Entry.call.inj (List.mem_singleton.mp hc)
  exact .release hrules hdir _

theorem releaseState_confined {pid : Int} {state : ProcessState}
    (h : HoldsLoaded B fnmatch Loaded pid state) :
    Keeps (ConfinedBy B fnmatch topo Loaded old) (releaseState env.journaled state) := by
  refine Keeps.get fun s => ?_
  have hloop := Triple.forM (I := fun rest t => (∀ d ∈ rest, LoadedDir B fnmatch Loaded d) ∧
      ConfinedBy B fnmatch topo Loaded old t) (f := releaseDir env.journaled)
    (env.journaled.order s.kernel state.dirs) fun d rest t ht =>
      ⟨fun e he => ht.1 e (List.mem_cons_of_mem d he),
        releaseDir_confined (ht.1 d List.mem_cons_self) t ht.2⟩
  refine hloop.mono (fun t ht => ⟨fun d hd => h d ?_, ht⟩) fun _ _ h => h.2
  exact (env.journaled.order_perm _ _).mem_iff.mp hd

theorem applyThread_confined {rules : RuleSet} (hrules : Loaded rules) {tid : Int} {pkg : String}
    {policy : Policy} {allowed : Bool} (hassigned : Assigned B fnmatch rules tid pkg policy)
    (hallowed : B.permits allowed) :
    Keeps (ConfinedBy B fnmatch topo Loaded old)
      (applyThread env.journaled tid pkg policy topo allowed) := by
  intro s hs
  obtain ⟨es, hpath, hlog⟩ := applyThread_journal env tid pkg policy topo allowed s
  have hprocs := frame_procs_of_ledger
    (frame_applyThread env.journaled tid pkg policy topo allowed) s
  refine hs.extend hlog (fun c hc => ?_) hprocs
  obtain ⟨c', hc', hcall⟩ := List.mem_map.mp hc
  obtain rfl := Entry.call.inj hcall
  exact .apply hrules hassigned hallowed (hpath.warranted c' hc')

theorem keeps_since_confined {α : Type} {x : Run (Traced κ Entry) α}
    (hx : ∀ B', B ≤ B' → Keeps (ConfinedBy B' fnmatch topo Loaded old) x) :
    Keeps (Since recorded B (Confined fnmatch topo Loaded old)) x := by
  intro s ⟨hle, hs⟩
  obtain ⟨hknown, hcalls, hdirs⟩ := hx (recorded s.kernel) hle s hs
  exact ⟨hle.trans hknown, le_refl _, hcalls, hdirs.mono fun _ _ hp => hp.mono hknown⟩

/-- The engine stays within what the rules warrant. -/
theorem confined_engineInvariant {rules : RuleSet} (hrules : Loaded rules) :
    EngineInvariant recorded fnmatch env.journaled topo rules
      (Confined fnmatch topo Loaded old) where
  ask hx B := keeps_since_confined fun _ _ => ask_confined hx
  enter pid pkg now B := keeps_since_confined fun B' _ =>
    keeps_enter_tracked env.journaled (Q := HoldsLoaded B' fnmatch Loaded)
      (fun _ hs => hs.dirs) (ask_confined (.readStartTime pid))
      (fun p hp => keeps_confined_tracker (eachTracked_insert hp))
      (keeps_confined_tracker eachTracked_erase) (fun _ h => releaseState_confined h)
      (fun _ _ hd => absurd hd List.not_mem_nil) fun _ hp => hp
  remove pid B := keeps_since_confined fun _ _ =>
    keeps_remove_tracked env.journaled (fun _ hs => hs.dirs)
      (keeps_confined_tracker eachTracked_erase) fun _ h => releaseState_confined h
  update pid f hf := by
    intro s hs
    refine keeps_confined_tracker (eachTracked_update fun p hp d hd => hp d ?_) s hs
    rw [← hf p]
    exact hd
  registerDirs pid ds B hds := by
    refine keeps_since_confined fun B' hle => ?_
    refine keeps_confined_tracker (eachTracked_registerDirs fun p d hd hp e he => ?_)
    rcases DirSet.mem_insert.mp he with rfl | hold
    · exact ⟨rules, hrules, (hds e hd).mono hle⟩
    · exact hp e hold
  apply tid pkg policy allowed B hassigned hallowed := keeps_since_confined fun _ hle =>
    applyThread_confined hrules (hassigned.mono hle) (hle.permits hallowed)
  bump f := fun s hs => keeps_confined (fun _ => rfl) s hs

end Confined

end Threadctl.Core
