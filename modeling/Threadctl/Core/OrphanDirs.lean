import Threadctl.Core.AppliedCounts
import Threadctl.Core.EnsureCache
import Threadctl.Core.TrackedPids

/-!
# Directories without an owner

A cpuset directory is created on the way into an application and registered after it, for
some outcomes only.  The log tells both sides: which directories were asked for, and which of
them an application has been credited with since the last attempt to remove them.  The
second is what the reference counts count.
-/

namespace Threadctl.Core

open Threadctl.Support Threadctl.Support.EventLog Threadctl.Support.StateRun
  Threadctl.Support.Runs

variable {κ : Type}

/-! ## What the log says of a directory -/

/-- The directory was asked for and not removed since.  A creation that fails half-way leaves
a directory too, so the answer does not matter here. -/
def Deed.claim (path : String) (ours : Bool) : Deed → Bool
  | .create p _ => if p = path then true else ours
  | .remove p removed => if p = path ∧ removed then false else ours
  | .apply .. => ours

def claimed (path : String) (log : List Deed) : Bool := log.foldl (Deed.claim path) false

/-- A counted application used the directory, and nobody tried to remove it since. -/
def Deed.credit (path : String) (credited : Bool) : Deed → Bool
  | .create .. => credited
  | .remove p _ => if p = path then false else credited
  | .apply dir outcome => if dirPath dir = path ∧ outcome.counts then true else credited

def credited (path : String) (log : List Deed) : Bool := log.foldl (Deed.credit path) false

theorem claimed_concat (path : String) (log : List Deed) (deed : Deed) :
    claimed path (log ++ [deed]) = deed.claim path (claimed path log) := List.foldl_concat ..

theorem credited_concat (path : String) (log : List Deed) (deed : Deed) :
    credited path (log ++ [deed]) = deed.credit path (credited path log) := List.foldl_concat ..

def StateTracker.refs (t : StateTracker) (d : String) : Nat := (t.cpusetRefs.lookup d).getD 0

/-- A directory of ours that stands, where `stands` says which ones do in a kernel state. -/
def Created (stands : κ → String → Bool) (log : List Deed) (kernel : κ) (d : String) : Prop :=
  claimed (dirPath d) log = true ∧ stands kernel (dirPath d) = true

/-- Every directory that was created, and not removed since, has a positive count. -/
def NoOrphan (stands : κ → String → Bool) (log : List Deed) (s : System κ) : Prop :=
  ∀ d, Created stands log s.kernel d → 0 < s.tracker.refs d

/-- Every such directory is credited to an application. -/
def AllCredited (stands : κ → String → Bool) (log : List Deed) (s : System κ) : Prop :=
  ∀ d, Created stands log s.kernel d → credited (dirPath d) log = true

/-! ## Counts and credits -/

/-- The log credits the directories with a count and those in `pending`, whose registration
is still to come.  The base directory is never created. -/
structure Credits (pending : List String) (s : System (Traced κ Deed)) : Prop where
  credited : ∀ d, d ≠ "" →
    (credited (dirPath d) s.kernel.log = true ↔ 0 < s.tracker.refs d ∨ d ∈ pending)
  unnamed : claimed (dirPath "") s.kernel.log = false

theorem Credits.noOrphan_iff {s : System (Traced κ Deed)} (h : Credits [] s)
    (stands : κ → String → Bool) :
    NoOrphan stands s.kernel.log (s.under Traced.kernel) ↔
      AllCredited stands s.kernel.log (s.under Traced.kernel) := by
  refine forall_congr' fun d => imp_congr_right fun hcreated => ?_
  have hname : d ≠ "" := by
    rintro rfl
    rw [Created, h.unnamed] at hcreated
    exact absurd hcreated.1 Bool.false_ne_true
  rw [h.credited d hname, or_iff_left List.not_mem_nil]
  rfl

theorem Credits.congr {pending pending' : List String} {s : System (Traced κ Deed)}
    (h : Credits pending s) (hsame : ∀ d, d ∈ pending' ↔ d ∈ pending) : Credits pending' s where
  credited d hd := by
    rw [hsame]
    exact h.credited d hd
  unnamed := h.unnamed

def accounts (s : System (Traced κ Deed)) : RefCount.Table String × (String → Bool) × Bool :=
  (s.tracker.cpusetRefs, fun d => credited (dirPath d) s.kernel.log,
    claimed (dirPath "") s.kernel.log)

theorem Credits.of_accounts {pending : List String} {s t : System (Traced κ Deed)}
    (h : Credits pending s) (hsame : accounts t = accounts s) : Credits pending t := by
  obtain ⟨hrefs, hlog⟩ := Prod.mk.inj hsame
  obtain ⟨hcredited, hclaimed⟩ := Prod.mk.inj hlog
  constructor
  · intro d hd
    rw [congrFun hcredited d, StateTracker.refs, hrefs]
    exact h.credited d hd
  · rw [hclaimed]
    exact h.unnamed

theorem keeps_credits {α : Type} {pending : List String} {x : Run (Traced κ Deed) α}
    (hx : Frame accounts x) : Keeps (Credits pending) x := fun s hs => hs.of_accounts (hx s)

/-! ## Releases -/

theorem releaseDir_credits (env : Env κ) (d : String) :
    Keeps (Credits []) (releaseDir env.watched d) := by
  by_cases hempty : d.isEmpty
  · rw [releaseDir, if_pos hempty]
    exact Keeps.pure
  · rw [releaseDir, if_neg hempty]
    have hname : d ≠ "" := by simpa using hempty
    refine Triple.get fun s hs => Triple.modify_bind ?_
    have hrefs := RefCount.pos_release_iff s.tracker.cpusetRefs d
    split
    · rename_i hlast
      refine Triple.bind (Q := fun _ => Credits []) ?_ fun reclaimed => ?_
      · rintro t rfl
        constructor
        · intro e he
          change Core.credited (dirPath e) (s.kernel.log ++ [.remove (dirPath d) _]) = true ↔
            0 < ((RefCount.release s.tracker.cpusetRefs d).1.lookup e).getD 0 ∨ _
          rw [credited_concat, Deed.credit, hrefs]
          by_cases hsame : e = d
          · subst hsame
            simp [hlast]
          · have hpath : dirPath d ≠ dirPath e := fun hp => hsame (dirPath_injective hp).symm
            rw [if_neg hpath, hs.credited e he]
            simp [hsame, StateTracker.refs]
        · change claimed (dirPath "") (s.kernel.log ++ [.remove (dirPath d) _]) = false
          rw [claimed_concat, Deed.claim]
          split
          · rfl
          · exact hs.unnamed
      · have hforget : Keeps (Credits (κ := κ) []) (forgetCpusetDir d) :=
          keeps_credits fun _ => rfl
        exact Keeps.ite hforget Keeps.pure
    · rename_i hmore
      apply Triple.pure
      rintro t rfl
      refine ⟨fun e he => (hs.credited e he).trans ?_, hs.unnamed⟩
      change _ ↔ 0 < ((RefCount.release s.tracker.cpusetRefs d).1.lookup e).getD 0 ∨ _
      rw [hrefs]
      simp [hmore, StateTracker.refs]

theorem frame_modifyTracker_accounts {m : StateTracker → StateTracker}
    (hm : ∀ t, (m t).cpusetRefs = t.cpusetRefs) : Frame (accounts (κ := κ)) (modifyTracker m) :=
  fun s => Prod.ext (hm s.tracker) rfl

theorem frame_update_accounts (pid : Int) (f : ProcessState → ProcessState) :
    Frame (accounts (κ := κ)) (modifyTracker fun t => t.update pid f) := by
  refine frame_modifyTracker_accounts fun t => ?_
  unfold StateTracker.update
  split
  · rfl
  · rfl

theorem releaseState_credits (env : Env κ) (state : ProcessState) :
    Keeps (Credits []) (releaseState env.watched state) :=
  Keeps.bind (keeps_credits fun _ => rfl) fun dirs => Keeps.forM dirs (releaseDir_credits env)

theorem keeps_credits_procs {m : StateTracker → StateTracker}
    (hm : ∀ t, (m t).cpusetRefs = t.cpusetRefs) :
    Keeps (Credits (κ := κ) []) (modifyTracker m) :=
  keeps_credits (frame_modifyTracker_accounts hm)

theorem remove_credits (env : Env κ) (pid : Int) : Keeps (Credits []) (remove env.watched pid) :=
  keeps_remove (keeps_credits_procs fun _ => rfl) (releaseState_credits env)

theorem enter_credits (env : Env κ) (pid : Int) (pkg : String) (now : Int) :
    Keeps (Credits []) (enter env.watched pid pkg now) :=
  keeps_enter (keeps_credits fun _ => rfl) (fun _ => keeps_credits_procs fun _ => rfl)
    (keeps_credits_procs fun _ => rfl) (releaseState_credits env) pkg now

/-! ## Applications -/

/-- The watched environment where directories come and go unseen. -/
def Env.blinkered (env : Env κ) : Env (Traced κ Deed) :=
  { env.watched with
    createCpusetDir := fun path cpus mems => quietly (env.createCpusetDir path cpus mems)
    removeCpusetDir := fun path => quietly (env.removeCpusetDir path) }

theorem overlooks_accounts (env : Env κ) : Overlooks env.blinkered (accounts (κ := κ)) where
  auditLog _ _ := rfl
  ensuredDirs _ _ := rfl
  uclampSupport _ _ := rfl
  shortCircuitTotal _ _ := rfl
  calls h s := by cases h <;> rfl

theorem frame_ensureDir_accounts (env : Env κ) {name : String} (hname : name ≠ "") :
    Frame accounts (ensureDir env.watched name) := by
  intro s
  by_cases hcached : name ∈ s.ensuredDirs
  · rw [ensureDir_cached hcached]
  · obtain ⟨-, hlog⟩ := ensureDir_new env hcached
    have htracker : ((ensureDir env.watched name).run s).2.tracker = s.tracker :=
      congrArg Prod.fst (frame_ensureDir (overlooksAll_ledger env.watched).toOverlooks name s)
    have hpath : dirPath name ≠ dirPath "" := fun hp => hname (dirPath_injective hp)
    rw [accounts, accounts, htracker, hlog]
    refine Prod.ext rfl (Prod.ext ?_ ?_)
    · funext d
      exact credited_concat ..
    · exact (claimed_concat ..).trans (if_neg hpath)

theorem frame_applyThread_accounts (env : Env κ) (tid : Int) (pkg : String) (policy : Policy)
    (topo : CpuTopology) (rtAllowed : Bool) :
    Frame accounts (applyThread env.watched tid pkg policy topo rtAllowed) := by
  have hview := overlooks_accounts env
  have hjoin : Frame accounts (joinCpuset env.watched tid pkg policy topo) := by
    refine Frame.ite (Frame.bind ?_ fun _ => ?_) Frame.pure
    · by_cases hempty : policy.cpusetDir.isEmpty
      · rw [if_pos hempty]
        exact Frame.pure
      · rw [if_neg hempty]
        exact frame_ensureDir_accounts env (by simpa using hempty)
    · refine Frame.bind (fun _ => rfl) fun written => Frame.ite Frame.pure ?_
      exact frame_record hview _
  have haffinity : Frame accounts (applyAffinity env.watched tid pkg policy topo) :=
    Frame.ite Frame.pure (Frame.bind hjoin fun _ => frame_afterJoin hview tid pkg policy topo)
  have hrest := Frame.bind haffinity fun outcome =>
    frame_afterAffinity hview tid pkg policy rtAllowed outcome
  exact fun s => hrest (s.noteApply tid pkg policy)

/-- A counted application credits its directory. -/
theorem reporting_credits (env : Env κ) (tid : Int) (pkg : String) (policy : Policy)
    (topo : CpuTopology) (rtAllowed : Bool) (pending : List String) :
    Triple (Credits pending) (reporting env tid pkg policy topo rtAllowed) fun outcome =>
      Credits (if outcome.counts then policy.cpusetDir :: pending else pending) := by
  intro s hs
  have happlied := hs.of_accounts (frame_applyThread_accounts env tid pkg policy topo rtAllowed s)
  have hrun : (reporting env tid pkg policy topo rtAllowed).run s =
      (((applyThread env.watched tid pkg policy topo rtAllowed).run s).1,
        System.noteDeed ((applyThread env.watched tid pkg policy topo rtAllowed).run s).2
          (.apply policy.cpusetDir
            ((applyThread env.watched tid pkg policy topo rtAllowed).run s).1)) := rfl
  rw [hrun]
  generalize (applyThread env.watched tid pkg policy topo rtAllowed).run s = r at happlied ⊢
  obtain ⟨outcome, t⟩ := r
  constructor
  · intro d hd
    have hcredit := happlied.credited d hd
    change credited (dirPath d) (t.kernel.log ++ [.apply policy.cpusetDir outcome]) = true ↔
      0 < t.tracker.refs d ∨ _
    rw [credited_concat, Deed.credit]
    cases outcome.counts with
    | false => simpa using hcredit
    | true =>
        by_cases hsame : policy.cpusetDir = d
        · simp [hsame]
        · have hpath : dirPath policy.cpusetDir ≠ dirPath d := fun hp =>
            hsame (dirPath_injective hp)
          simpa [hpath, Ne.symm hsame] using hcredit
  · exact (claimed_concat ..).trans happlied.unnamed

/-! ## Registration -/

theorem Balanced.refs_pos {t : StateTracker} (ht : Balanced t) {pid : Int} {p : ProcessState}
    (hp : t.procs.lookup pid = some p) {d : String} (hd : d ∈ p.dirs) : 0 < t.refs d := by
  have hholders : 0 < t.holders d :=
    (RefCount.holders_pos_iff ProcessState.dirs).mpr ⟨pid, p, hp, hd⟩
  rw [StateTracker.refs, ht.counts.getD d]
  exact hholders

/-- A registered name has a count: the process held it, or it is counted now. -/
theorem pos_registerDir_iff {acc : ProcessState × RefCount.Table String}
    (hheld : ∀ e ∈ acc.1.dirs, 0 < (acc.2.lookup e).getD 0) (d : String) {e : String}
    (he : e ≠ "") :
    0 < ((registerDir acc d).2.lookup e).getD 0 ↔ e = d ∨ 0 < (acc.2.lookup e).getD 0 := by
  unfold registerDir
  split
  · rename_i hempty
    have hd : d = "" := by simpa using hempty
    rw [or_iff_right (hd ▸ he)]
  · split
    · rename_i hmem
      constructor
      · exact Or.inr
      · rintro (rfl | hpos)
        · exact hheld e hmem
        · exact hpos
    · exact RefCount.pos_retain_iff acc.2 d e

theorem held_registerDir {acc : ProcessState × RefCount.Table String}
    (hheld : ∀ e ∈ acc.1.dirs, 0 < (acc.2.lookup e).getD 0) (d : String) :
    ∀ e ∈ (registerDir acc d).1.dirs, 0 < ((registerDir acc d).2.lookup e).getD 0 := by
  unfold registerDir
  split
  · exact hheld
  · split
    · exact hheld
    · intro e he
      rw [RefCount.pos_retain_iff]
      exact (DirSet.mem_insert.mp he).imp_right (hheld e)

theorem pos_foldl_registerDir_iff (dirs : List String)
    {acc : ProcessState × RefCount.Table String}
    (hheld : ∀ e ∈ acc.1.dirs, 0 < (acc.2.lookup e).getD 0) {e : String} (he : e ≠ "") :
    0 < ((dirs.foldl registerDir acc).2.lookup e).getD 0 ↔
      0 < (acc.2.lookup e).getD 0 ∨ e ∈ dirs := by
  induction dirs generalizing acc with
  | nil => simp
  | cons d dirs ih =>
      rw [List.foldl_cons, ih (held_registerDir hheld d), pos_registerDir_iff hheld d he,
        List.mem_cons]
      tauto

/-- The counts are exact and what the log credits. -/
structure Reconciled (s : System (Traced κ Deed)) : Prop where
  sound : Sound s
  credits : Credits [] s

/-- The process is tracked and its directories are about to be registered. -/
structure Pending (pid : Int) (dirs : List String) (s : System (Traced κ Deed)) : Prop where
  sound : Sound s
  credits : Credits dirs s
  tracked : s.tracker.contains pid = true

theorem registerDirs_reconciled (pid : Int) (dirs : List String) :
    Triple (Pending (κ := κ) pid dirs) (modifyTracker fun t => t.registerDirs pid dirs)
      fun _ => Reconciled := by
  refine Triple.modify fun s hs => ⟨⟨hs.sound.1.registerDirs pid dirs, hs.sound.2⟩, ?_⟩
  obtain ⟨state, hstate⟩ := Option.isSome_iff_exists.mp hs.tracked
  refine ⟨fun d hd => ?_, hs.credits.unnamed⟩
  have hrefs : (s.tracker.registerDirs pid dirs).cpusetRefs =
      (dirs.foldl registerDir (state, s.tracker.cpusetRefs)).2 := by
    rw [StateTracker.registerDirs, hstate]
  have hheld : ∀ e ∈ state.dirs, 0 < (s.tracker.cpusetRefs.lookup e).getD 0 := fun e he =>
    hs.sound.1.refs_pos hstate he
  change credited (dirPath d) s.kernel.log = true ↔
    0 < (s.tracker.registerDirs pid dirs).refs d ∨ d ∈ []
  rw [hs.credits.credited d hd, StateTracker.refs, StateTracker.refs, hrefs,
    pos_foldl_registerDir_iff dirs hheld hd, or_iff_left List.not_mem_nil]

/-! ## Scans -/

/-- `enter` finds the process as it is wanted. -/
def Settled (pid : Int) (pkg : String) (t : StateTracker) : Prop :=
  ∃ p, t.procs.lookup pid = some p ∧ (p.pkg = pkg ∨ p.startTime = 0)

theorem Settled.tracked {pid : Int} {pkg : String} {t : StateTracker} (h : Settled pid pkg t) :
    t.contains pid = true := by
  obtain ⟨p, hp, -⟩ := h
  rw [StateTracker.contains, hp, Option.isSome_some]

theorem settled_insert {pid : Int} {pkg : String} (t : StateTracker) {p : ProcessState}
    (hp : p.pkg = pkg ∨ p.startTime = 0) :
    Settled pid pkg { t with procs := t.procs.insert pid p } :=
  ⟨p, AList.lookup_insert t.procs, hp⟩

theorem Settled.update {pid : Int} {pkg : String} {t : StateTracker} (h : Settled pid pkg t)
    {f : ProcessState → ProcessState}
    (hf : ∀ p, (f p).pkg = p.pkg ∧ (f p).startTime = p.startTime) :
    Settled pid pkg (t.update pid f) := by
  obtain ⟨p, hp, hpkg⟩ := h
  rw [StateTracker.update, hp]
  apply settled_insert
  rw [(hf p).1, (hf p).2]
  exact hpkg

theorem insertNew_settled (env : Env κ) (pid : Int) (pkg : String) (now : Int)
    (s : System κ) : Settled pid pkg ((insertNew env pid pkg now).run s).2.tracker :=
  settled_insert s.tracker (Or.inl rfl)

theorem enter_settled (env : Env κ) (pid : Int) (pkg : String) (now : Int) :
    Triple (fun _ => True) (enter env pid pkg now) fun _ s => Settled pid pkg s.tracker := by
  have hnew : Triple (fun _ => True) (insertNew env pid pkg now) fun _ s =>
      Settled pid pkg s.tracker := fun s _ => insertNew_settled env pid pkg now s
  refine Triple.get fun s _ => ?_
  cases hp : s.tracker.procs.lookup pid with
  | none => exact hnew.mono (fun _ _ => trivial) fun _ _ h => h
  | some ex =>
      refine Triple.ite_of (fun hsame => Triple.pure ?_) fun _ => ?_
      · rintro t rfl
        exact ⟨ex, hp, hsame⟩
      · refine Triple.mono (P := fun _ => True) (Triple.bind_any fun read => ?_)
          (fun _ _ => trivial) fun _ _ h => h
        refine Triple.ite ?_ ?_
        · exact fun t _ => settled_insert t.tracker (Or.inl rfl)
        · exact Triple.bind_any fun _ => Triple.bind_any fun _ => hnew

theorem enter_known (env : Env κ) {pid : Int} {pkg : String} (now : Int) {s : System κ}
    {p : ProcessState} (hp : s.tracker.procs.lookup pid = some p)
    (hsame : p.pkg = pkg ∨ p.startTime = 0) : (enter env pid pkg now).run s = (p, s) := by
  have hspec : Triple (fun t => t = s) (enter env pid pkg now) fun r t => r = p ∧ t = s := by
    refine Triple.get fun t ht => ?_
    subst ht
    rw [hp]
    exact Triple.ite_of (fun _ => Triple.pure fun u hu => ⟨rfl, hu⟩) fun hne => absurd hsame hne
  obtain ⟨hstate, hsystem⟩ := hspec s rfl
  exact Prod.ext hstate hsystem

theorem keeps_reconciled {α : Type} {x : Run (Traced κ Deed) α} (hsound : Keeps Sound x)
    (hcredits : Keeps (Credits []) x) : Keeps Reconciled x := fun s hs =>
  ⟨hsound s hs.sound, hcredits s hs.credits⟩

theorem keeps_pending {α : Type} {pid : Int} {dirs : List String} {x : Run (Traced κ Deed) α}
    (hledger : Frame ledger x) (haccounts : Frame accounts x) : Keeps (Pending pid dirs) x := by
  intro s hs
  have htracker : (x.run s).2.tracker = s.tracker := congrArg Prod.fst (hledger s)
  refine ⟨keeps_sound hledger s hs.sound, hs.credits.of_accounts (haccounts s), ?_⟩
  rw [htracker]
  exact hs.tracked

theorem update_pending {pid : Int} {dirs : List String} {f : ProcessState → ProcessState}
    (hf : ∀ p, (f p).dirs = p.dirs) :
    Keeps (Pending (κ := κ) pid dirs) (modifyTracker fun t => t.update pid f) := by
  refine Keeps.modify fun s hs => ⟨⟨hs.sound.1.update pid hf, hs.sound.2⟩, ?_, ?_⟩
  · exact hs.credits.of_accounts (frame_update_accounts pid f s)
  · exact (contains_update s.tracker pid pid f).trans hs.tracked

theorem frame_reporting_ledger (env : Env κ) (tid : Int) (pkg : String) (policy : Policy)
    (topo : CpuTopology) (rtAllowed : Bool) :
    Frame ledger (reporting env tid pkg policy topo rtAllowed) :=
  fun s => frame_applyThread env.watched tid pkg policy topo rtAllowed s

theorem frame_threadNameFor_accounts (env : Env κ) (hasThreadRules : Bool)
    (cache : ThreadNameCache) (tid now : Int) :
    Frame accounts (threadNameFor env.watched hasThreadRules cache tid now) :=
  frame_threadNameFor (overlooks_accounts env) hasThreadRules cache tid now

section Engine

variable (fnmatch : String → String → Bool) (env : Env κ)

theorem frame_scanTid_ledger (args : EngineArgs) (pkg : String) (acc : ScanState) (tid : Int) :
    Frame ledger (scanTidBy fnmatch env.watched (reporting env) args pkg acc tid) := by
  have hname := frame_threadNameFor (overlooksAll_ledger env.watched).toOverlooks
  refine Frame.bind (hname _ _ _ _) fun named => ?_
  dsimp only
  cases args.cfg.rules.resolve fnmatch pkg named.1 with
  | none => exact Frame.pure
  | some policy => exact Frame.bind (frame_reporting_ledger env tid pkg _ _ _) fun _ => Frame.pure

theorem mem_countOutcome_dirs (acc : ScanState) (policy : Policy) (outcome : ApplyOutcome)
    (d : String) : d ∈ (countOutcome acc policy outcome).dirs ↔
      d ∈ if outcome.counts then policy.cpusetDir :: acc.dirs else acc.dirs := by
  have hcounted : d ∈ (if policy.cpusetDir ∈ acc.dirs then acc.dirs
      else acc.dirs ++ [policy.cpusetDir]) ↔ d ∈ policy.cpusetDir :: acc.dirs := by
    split
    · rename_i hmem
      simp only [List.mem_cons, iff_or_self]
      rintro rfl
      exact hmem
    · simp [or_comm]
  cases outcome with
  | exited | skippedNoCpus => exact Iff.rfl
  | applied | blockedByCgroup | downgraded | blockedByPerm | einval | failed => exact hcounted

theorem scanTid_credits (args : EngineArgs) (pkg : String) (acc : ScanState) (tid : Int) :
    Triple (Credits acc.dirs) (scanTidBy fnmatch env.watched (reporting env) args pkg acc tid)
      fun acc' => Credits acc'.dirs := by
  refine Triple.bind (keeps_credits (frame_threadNameFor_accounts env _ _ _ _)) fun named => ?_
  dsimp only
  cases args.cfg.rules.resolve fnmatch pkg named.1 with
  | none => exact Triple.pure fun s hs => hs
  | some policy =>
      refine Triple.bind (reporting_credits env tid pkg policy _ _ acc.dirs) fun outcome => ?_
      apply Triple.pure
      intro s hs
      refine hs.congr fun d => ?_
      exact mem_countOutcome_dirs { acc with tidNames := named.2 } policy outcome d

theorem enter_reconciled (pid : Int) (pkg : String) (now : Int) :
    Triple Reconciled (enter env.watched pid pkg now) fun _ s =>
      Pending pid [] s ∧ Settled pid pkg s.tracker := by
  intro s hs
  have hsettled := enter_settled env.watched pid pkg now s trivial
  have hsound := enter_sound env.watched pid pkg now s hs.sound
  exact ⟨⟨hsound, enter_credits env pid pkg now s hs.credits, hsettled.tracked⟩, hsettled⟩

theorem refreshProcessRules_pending (args : EngineArgs) (pid : Int) (pkg : String) :
    Triple Reconciled (refreshProcessRulesBy fnmatch env.watched (reporting env) args pid pkg)
      fun scanned => Pending pid scanned.2 := by
  have hask : Keeps Reconciled (ask (env.watched.listTids pid)) :=
    keeps_reconciled (keeps_sound (frame_ask _)) (keeps_credits fun _ => rfl)
  refine Triple.bind hask fun tids => ?_
  refine Triple.bind (enter_reconciled env pid pkg args.now) fun state => ?_
  refine Triple.bind (Q := fun _ s => Pending pid [] s ∧ Settled pid pkg s.tracker) ?_ fun _ => ?_
  · have hsettled : Keeps (fun s : System (Traced κ Deed) => Settled pid pkg s.tracker)
        (modifyTracker fun t => t.update pid fun p => { p with tidNames := .new args.now }) :=
      Keeps.modify fun s hs => hs.update fun _ => ⟨rfl, rfl⟩
    have hpending : Keeps (Pending (κ := κ) pid [])
        (modifyTracker fun t => t.update pid fun p => { p with tidNames := .new args.now }) :=
      update_pending fun _ => rfl
    exact hpending.and hsettled
  · -- the scan leaves the tracker alone and collects what it credits
    refine Triple.bind (Q := fun (acc : ScanState) s =>
      Pending pid acc.dirs s ∧ Settled pid pkg s.tracker) ?_ fun acc => ?_
    · refine Triple.foldlM (I := fun _ (acc : ScanState) s =>
        Pending pid acc.dirs s ∧ Settled pid pkg s.tracker) tids ⟨state.tidNames, 0, []⟩
        fun tid rest acc s hs => ?_
      have hledger := frame_scanTid_ledger fnmatch env args pkg acc tid
      have htracker := congrArg Prod.fst (hledger s)
      dsimp only [ledger] at htracker
      obtain ⟨hpending, hsettled⟩ := hs
      refine ⟨⟨keeps_sound hledger s hpending.sound, ?_, ?_⟩, ?_⟩
      · exact scanTid_credits fnmatch env args pkg acc tid s hpending.credits
      · rw [htracker]
        exact hpending.tracked
      · rw [htracker]
        exact hsettled
    · refine Triple.bind (Q := fun _ => Pending pid acc.dirs) ?_ fun _ => ?_
      · intro s hs
        obtain ⟨p, hp, hsame⟩ := hs.2
        rw [enter_known env.watched args.now hp hsame]
        exact hs.1
      · exact Triple.bind (update_pending fun _ => rfl) fun _ => Triple.pure fun s hs => hs

theorem update_reconciled {pid : Int} {f : ProcessState → ProcessState}
    (hf : ∀ p, (f p).dirs = p.dirs) :
    Keeps (Reconciled (κ := κ)) (modifyTracker fun t => t.update pid f) :=
  keeps_reconciled (keeps_modifyTracker fun _ ht => ht.update pid hf)
    (keeps_credits (frame_update_accounts pid f))

theorem fullScan_reconciled (args : EngineArgs) (pid : Int) (pkg : String) :
    Keeps Reconciled (fullScanBy fnmatch env.watched (reporting env) args pid pkg) := by
  refine Triple.bind (refreshProcessRules_pending fnmatch env args pid pkg) fun scanned => ?_
  refine Triple.bind (registerDirs_reconciled pid scanned.2) fun _ => ?_
  exact Keeps.bind (update_reconciled fun _ => rfl) fun _ => Keeps.pure

theorem settleTid_reconciled (pid tid : Int) (policy : Policy) (outcome : ApplyOutcome) :
    Triple (Pending pid (if outcome.counts then [policy.cpusetDir] else []))
      (settleTid pid tid policy outcome : Run (Traced κ Deed) Nat) fun _ => Reconciled := by
  have hinsert : ∀ dirs, Keeps (Pending (κ := κ) pid dirs) (insertAppliedTid pid tid) := fun _ =>
    update_pending fun _ => rfl
  have hdone : ∀ s : System (Traced κ Deed), Pending pid [] s → Reconciled s := fun s hs =>
    ⟨hs.sound, hs.credits⟩
  have hcounted : Triple (Pending (κ := κ) pid [policy.cpusetDir]) (do
      insertAppliedTid pid tid
      modifyTracker fun t => t.registerDirs pid [policy.cpusetDir]
      pure 1 : Run (Traced κ Deed) Nat) fun _ => Reconciled :=
    Triple.bind (hinsert _) fun _ =>
      Triple.bind (registerDirs_reconciled pid _) fun _ => Triple.pure fun _ hs => hs
  cases outcome with
  | exited => exact Triple.pure hdone
  | skippedNoCpus => exact Triple.bind (hinsert []) fun _ => Triple.pure hdone
  | applied | blockedByCgroup | downgraded | blockedByPerm | einval | failed => exact hcounted

theorem applySingleTid_reconciled (args : EngineArgs) (pid : Int) (pkg : String) (tid : Int) :
    Keeps Reconciled (applySingleTidBy fnmatch env.watched (reporting env) args pid pkg tid) := by
  have hdone : ∀ s : System (Traced κ Deed), Pending pid [] s → Reconciled s := fun s hs =>
    ⟨hs.sound, hs.credits⟩
  refine Triple.bind (Q := fun _ => Pending pid []) ?_ fun state => ?_
  · exact (enter_reconciled env pid pkg args.now).mono (fun s hs => hs) fun _ s hs => hs.1
  · refine Triple.ite (Triple.pure hdone) ?_
    have hname := frame_threadNameFor (overlooksAll_ledger env.watched).toOverlooks
    refine Triple.bind
      (keeps_pending (hname _ _ _ _) (frame_threadNameFor_accounts env _ _ _ _)) fun named => ?_
    refine Triple.bind (update_pending fun _ => rfl) fun _ => ?_
    cases args.cfg.rules.resolve fnmatch pkg named.1 with
    | none => exact Triple.bind (update_pending fun _ => rfl) fun _ => Triple.pure hdone
    | some policy =>
        refine Triple.bind ?_ fun outcome => settleTid_reconciled pid tid policy outcome
        intro s hs
        have hledger := frame_reporting_ledger env tid pkg policy args.topo args.rtAllowed
        have htracker := congrArg Prod.fst (hledger s)
        dsimp only [ledger] at htracker
        refine ⟨keeps_sound hledger s hs.sound, ?_, ?_⟩
        · exact reporting_credits env tid pkg policy _ _ [] s hs.credits
        · rw [htracker]
          exact hs.tracked

/-! ## Events and relocks -/

theorem remove_reconciled (pid : Int) : Keeps Reconciled (remove env.watched pid) :=
  keeps_reconciled (remove_sound env.watched pid) (remove_credits env pid)

theorem remove_pure_reconciled {α : Type} (pid : Int) (a : α) :
    Keeps Reconciled (do let _ ← remove env.watched pid; pure a) :=
  Keeps.bind (remove_reconciled env pid) fun _ => Keeps.pure

theorem handleWanted_reconciled (args : EngineArgs) (ev : ProcessEvent) (pkg : String) :
    Keeps Reconciled (handleWantedBy fnmatch env.watched (reporting env) args ev pkg) := by
  have hscan := fullScan_reconciled fnmatch env args ev.pid pkg
  have hsingle := applySingleTid_reconciled fnmatch env args ev.pid pkg ev.tid
  unfold handleWantedBy
  cases ev.kind with
  | exec => exact Keeps.bind (remove_reconciled env ev.pid) fun _ => hscan
  | fork => exact hscan
  | threadClone | cpuMigrate | exit => exact Keeps.get fun s => Keeps.ite hscan hsingle

theorem handleSpawn_reconciled (args : EngineArgs) (ev : ProcessEvent) :
    Keeps Reconciled (handleSpawnBy fnmatch env.watched (reporting env) args ev) := by
  have hpkg : Keeps Reconciled (eventPkg env.watched ev) := by
    refine keeps_reconciled (keeps_sound (frame_eventPkg env.watched ev)) (keeps_credits ?_)
    unfold eventPkg
    cases ev.pkg with
    | some pkg => exact Frame.pure
    | none => exact Frame.bind (fun _ => rfl) fun _ => Frame.pure
  refine Keeps.bind hpkg fun pkg => Keeps.ite Keeps.pure (Keeps.ite ?_ ?_)
  · exact Keeps.get fun s => Keeps.ite (remove_pure_reconciled env ev.pid 0) Keeps.pure
  · exact handleWanted_reconciled fnmatch env args ev pkg

theorem handleEvent_reconciled (args : EngineArgs) (ev : ProcessEvent) :
    Keeps Reconciled (handleEventBy fnmatch env.watched (reporting env) args ev) := by
  have hspawn := handleSpawn_reconciled fnmatch env args ev
  unfold handleEventBy
  cases ev.kind with
  | exit =>
      refine Keeps.ite (Keeps.bind ?_ fun _ => Keeps.pure) (remove_pure_reconciled env ev.pid 0)
      exact update_reconciled fun _ => rfl
  | cpuMigrate => exact Keeps.pure
  | fork | exec | threadClone => exact hspawn

theorem relockPid_reconciled (args : EngineArgs) (rctx : RelockContext) (decision : DecisionEngine)
    (applied : Nat) (pid : Int) :
    Keeps Reconciled
      (relockPidBy fnmatch env.watched (reporting env) args rctx decision applied pid) := by
  refine Keeps.get fun s => ?_
  cases s.tracker.procs.lookup pid with
  | none => exact Keeps.pure
  | some state =>
      have hquiet : ∀ {α : Type} {x : Run (Traced κ Deed) α}, Frame ledger x → Frame accounts x →
          Keeps Reconciled x := fun hl ha => keeps_reconciled (keeps_sound hl) (keeps_credits ha)
      refine Keeps.bind (hquiet (fun _ => rfl) fun _ => rfl) fun alive => ?_
      refine Keeps.ite (remove_pure_reconciled env pid applied) ?_
      refine Keeps.bind (hquiet (fun _ => rfl) fun _ => rfl) fun adj => ?_
      dsimp only
      have hbump : ∀ f, Keeps (Reconciled (κ := κ)) (bumpRelock f) := fun f =>
        hquiet (frame_bumpRelock f) fun _ => rfl
      cases decision.decideCtx _ with
      | skip reason => exact Keeps.bind (hbump _) fun _ => Keeps.pure
      | degrade level reason => exact Keeps.bind (hbump _) fun _ => Keeps.pure
      | allow reason =>
          refine Keeps.bind (hbump _) fun _ => ?_
          refine Triple.bind (refreshProcessRules_pending fnmatch env args pid state.pkg) ?_
          intro scanned
          exact Triple.bind (registerDirs_reconciled pid scanned.2) fun _ => Keeps.pure

theorem relockAll_reconciled (cfg : ConfigSnapshot) (topo : CpuTopology) (now : Int)
    (rctx : RelockContext) (decision : DecisionEngine) :
    Keeps Reconciled
      (relockAllBy fnmatch env.watched (reporting env) cfg topo now rctx decision) := by
  have hquiet : ∀ {α : Type} {x : Run (Traced κ Deed) α}, Frame ledger x → Frame accounts x →
      Keeps Reconciled x := fun hl ha => keeps_reconciled (keeps_sound hl) (keeps_credits ha)
  refine Keeps.bind (hquiet (fun _ => rfl) fun _ => rfl) fun rtAllowed => ?_
  refine Keeps.bind (hquiet (fun _ => rfl) fun _ => rfl) fun all => ?_
  exact Keeps.foldlM all (relockPid_reconciled fnmatch env _ rctx decision) _

end Engine

/-! ## Runs -/

/-- An event, or a relock pass. -/
inductive EngineMove where
  | event (args : EngineArgs) (ev : ProcessEvent)
  | relock (cfg : ConfigSnapshot) (topo : CpuTopology) (now : Int) (rctx : RelockContext)
      (decision : DecisionEngine)

section Runs

variable (fnmatch : String → String → Bool) (env : Env κ)

def EngineMove.step (s : System κ) : EngineMove → System κ
  | .event args ev => ((handleEvent fnmatch env args ev).run s).2
  | .relock cfg topo now rctx decision =>
      ((relockAll fnmatch env cfg topo now rctx decision).run s).2

def EngineMove.reported (s : System (Traced κ Deed)) : EngineMove → System (Traced κ Deed)
  | .event args ev => ((handleEventBy fnmatch env.watched (reporting env) args ev).run s).2
  | .relock cfg topo now rctx decision =>
      ((relockAllBy fnmatch env.watched (reporting env) cfg topo now rctx decision).run s).2

def deeds (kernel : κ) (moves : List EngineMove) : List Deed :=
  (run (EngineMove.reported fnmatch env) (System.init ⟨kernel, []⟩) moves).kernel.log

theorem EngineMove.reported_under (s : System (Traced κ Deed)) (move : EngineMove) :
    (move.reported fnmatch env s).under Traced.kernel =
      move.step fnmatch env (s.under Traced.kernel) := by
  cases move with
  | event args ev =>
      have herased := erases_handleEventBy env.watched_over (erases_reporting env) fnmatch args ev s
      exact (congrArg Prod.snd herased).symm
  | relock cfg topo now rctx decision =>
      have herased := relockAll_reported fnmatch env cfg topo now rctx decision s
      exact (congrArg Prod.snd herased).symm

/-- Forgetting the deeds, the engine that reports runs as the engine does. -/
theorem run_reported_under (moves : List EngineMove) (s : System (Traced κ Deed)) :
    (run (EngineMove.reported fnmatch env) s moves).under Traced.kernel =
      run (EngineMove.step fnmatch env) (s.under Traced.kernel) moves := by
  induction moves using List.reverseRecOn with
  | nil => rfl
  | append_singleton moves move ih =>
      rw [run_concat, run_concat, EngineMove.reported_under, ih]

theorem EngineMove.reported_reconciled (s : System (Traced κ Deed)) (move : EngineMove)
    (hs : Reconciled s) : Reconciled (move.reported fnmatch env s) := by
  cases move with
  | event args ev => exact handleEvent_reconciled fnmatch env args ev s hs
  | relock cfg topo now rctx decision =>
      exact relockAll_reconciled fnmatch env cfg topo now rctx decision s hs

theorem reconciled_init (kernel : κ) : Reconciled (System.init (⟨kernel, []⟩ : Traced κ Deed)) where
  sound := sound_init _
  credits := ⟨fun d _ => by simp [credited, StateTracker.refs, System.init, StateTracker.new], rfl⟩

/-- After every event and every relock pass no directory is an orphan, exactly as long as the
directories that are there are credited. -/
theorem no_orphan_iff (stands : κ → String → Bool) (kernel : κ) (moves : List EngineMove) :
    (∀ before after, moves = before ++ after →
      NoOrphan stands (deeds fnmatch env kernel before)
        (run (EngineMove.step fnmatch env) (System.init kernel) before)) ↔
    ∀ before after, moves = before ++ after →
      AllCredited stands (deeds fnmatch env kernel before)
        (run (EngineMove.step fnmatch env) (System.init kernel) before) := by
  refine forall_congr' fun before => forall_congr' fun _ => imp_congr_right fun _ => ?_
  have hreconciled := run_invariant (EngineMove.reported fnmatch env)
    (EngineMove.reported_reconciled fnmatch env) (reconciled_init kernel) before
  have hunder := run_reported_under fnmatch env before (System.init ⟨kernel, []⟩)
  change _ = run (EngineMove.step fnmatch env) (System.init kernel) before at hunder
  rw [← hunder]
  exact hreconciled.credits.noOrphan_iff stands

end Runs

/-- Process 7 with one thread, which is gone when its affinity is set.  The kernel keeps the
directories that stand. -/
def Env.vanishing : Env (Finset String) :=
  { Env.silent with
    listTids := fun _ => pure [7]
    createCpusetDir := fun path _ _ dirs => (true, insert path dirs)
    removeCpusetDir := fun path dirs => (true, dirs.erase path)
    setAffinity := fun _ _ => pure (.error ESRCH) }

/-- The directory of a thread that dies is created and never counted. -/
theorem dead_thread_orphans :
    let topo : CpuTopology := { CpuTopology.default with cpusetEnabled := true, baseCpusetFd := 3 }
    let moves := [EngineMove.event ⟨cpuZeroConfig, topo, 0, true⟩
      ((ProcessEvent.fork 7 7).withPkg "com.a")]
    ¬ NoOrphan (fun dirs path => decide (path ∈ dirs)) (deeds glob Env.vanishing ∅ moves)
      (run (EngineMove.step glob Env.vanishing) (System.init ∅) moves) := by
  intro topo moves horphan
  have hclaimed : claimed (dirPath "0") (deeds glob Env.vanishing ∅ moves) = true := by
    decide +kernel
  have hstands : decide (dirPath "0" ∈
      (run (EngineMove.step glob Env.vanishing) (System.init ∅) moves).kernel) = true := by
    decide +kernel
  have hcount : (run (EngineMove.step glob Env.vanishing) (System.init ∅) moves).tracker.refs
      "0" = 0 := by decide +kernel
  have hpos := horphan "0" (And.intro hclaimed hstands)
  omega

end Threadctl.Core
