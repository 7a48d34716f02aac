import Threadctl.Core.Reports
import Threadctl.Support.Runs

/-!
# What the ensure cache says

`ensure_dir` enters a name into its cache before it creates the directory, and does not
look at the answer.  Only a release that removes the directory takes the name out again.
-/

namespace Threadctl.Core

open Threadctl.Support.EventLog Threadctl.Support.Runs Threadctl.Support.StateRun

variable {κ : Type}

/-! ## What became of a directory -/

def dirPath (name : String) : String := baseCpuset ++ "/" ++ name

theorem dirPath_injective : Function.Injective dirPath := by
  intro a b h
  have hlist := congrArg String.toList h
  simp only [dirPath, String.toList_append] at hlist
  exact String.toList_inj.mp (List.append_cancel_left hlist)

inductive DirStatus where
  /-- Never created, or removed since. -/
  | absent
  /-- The last creation succeeded. -/
  | standing
  /-- The last creation failed. -/
  | broken
  deriving DecidableEq

/-- What a deed makes of the directory at `path`. -/
def DirStatus.next (path : String) (status : DirStatus) : Deed → DirStatus
  | .create p created => if p = path then if created then .standing else .broken else status
  | .remove p removed => if p = path ∧ removed then .absent else status
  | .apply .. => status

def dirStatus (path : String) (log : List Deed) : DirStatus :=
  log.foldl (DirStatus.next path) .absent

theorem dirStatus_concat (path : String) (log : List Deed) (deed : Deed) :
    dirStatus path (log ++ [deed]) = (dirStatus path log).next path deed :=
  List.foldl_concat ..

/-- A call of `ensure_dir`, or a process that the tracker releases. -/
inductive DirMove where
  | ensure (name : String)
  | release (tracker : StateTracker) (state : ProcessState)

def DirMove.step (env : Env κ) (s : System (Traced κ Deed)) :
    DirMove → System (Traced κ Deed)
  | .ensure name => ((ensureDir env.watched name).run s).2
  | .release tracker state => ((releaseState env.watched state).run { s with tracker := tracker }).2

/-- The cache tells the truth: a name in it was created and is still there, and what failed is
tried again. -/
structure CacheTruthful (env : Env κ) (s : System (Traced κ Deed)) : Prop where
  cached : ∀ name ∈ s.ensuredDirs, dirStatus (dirPath name) s.kernel.log = .standing
  retried : ∀ name, dirStatus (dirPath name) s.kernel.log = .broken →
    ∃ created, (DirMove.step env s (.ensure name)).kernel.log =
      s.kernel.log ++ [.create (dirPath name) created]

def DirMove.Creates (env : Env κ) (s : System (Traced κ Deed)) : DirMove → Prop
  | .ensure name => name ∉ s.ensuredDirs →
      ((env.createCpusetDir (dirPath name) name "0").run s.kernel.kernel).1 = true
  | .release .. => True

/-! ## Single moves -/

theorem ensureDir_cached {env : Env κ} {name : String} {s : System (Traced κ Deed)}
    (h : name ∈ s.ensuredDirs) : ((ensureDir env.watched name).run s).2 = s := by
  have hrun : (ensureDir env.watched name).run s =
      (if name ∈ s.ensuredDirs then pure () else do
        modify fun s => { s with ensuredDirs := name :: s.ensuredDirs }
        let _ ← ask (env.watched.createCpusetDir (baseCpuset ++ "/" ++ name) name "0")
        pure () : Run (Traced κ Deed) Unit).run s := rfl
  rw [hrun, if_pos h]
  rfl

theorem ensureDir_new (env : Env κ) {name : String} {s : System (Traced κ Deed)}
    (h : name ∉ s.ensuredDirs) :
    let t := ((ensureDir env.watched name).run s).2
    t.ensuredDirs = name :: s.ensuredDirs ∧
      t.kernel.log = s.kernel.log ++ [.create (dirPath name)
        ((env.createCpusetDir (dirPath name) name "0").run s.kernel.kernel).1] := by
  have hrun : (ensureDir env.watched name).run s =
      (if name ∈ s.ensuredDirs then pure () else do
        modify fun s => { s with ensuredDirs := name :: s.ensuredDirs }
        let _ ← ask (env.watched.createCpusetDir (baseCpuset ++ "/" ++ name) name "0")
        pure () : Run (Traced κ Deed) Unit).run s := rfl
  intro t
  have ht : t = (Prod.snd <| (do
      modify fun s => { s with ensuredDirs := name :: s.ensuredDirs }
      let _ ← ask (env.watched.createCpusetDir (baseCpuset ++ "/" ++ name) name "0")
      pure () : Run (Traced κ Deed) Unit).run s) := by
    change ((ensureDir env.watched name).run s).2 = _
    rw [hrun, if_neg h]
  rw [ht]
  exact ⟨rfl, rfl⟩

/-- Every name in the cache stands for a directory that is there, and no creation failed. -/
structure CacheStands (s : System (Traced κ Deed)) : Prop where
  cached : ∀ name ∈ s.ensuredDirs, dirStatus (dirPath name) s.kernel.log = .standing
  unbroken : ∀ path, dirStatus path s.kernel.log ≠ .broken

theorem CacheStands.truthful {env : Env κ} {s : System (Traced κ Deed)} (h : CacheStands s) :
    CacheTruthful env s where
  cached := h.cached
  retried _ hbroken := absurd hbroken (h.unbroken _)

theorem CacheStands.ensure {env : Env κ} {name : String} {s : System (Traced κ Deed)}
    (h : CacheStands s) (hcreates : DirMove.Creates env s (.ensure name)) :
    CacheStands ((ensureDir env.watched name).run s).2 := by
  by_cases hname : name ∈ s.ensuredDirs
  · rw [ensureDir_cached hname]
    exact h
  · obtain ⟨hdirs, hlog⟩ := ensureDir_new env hname
    rw [hcreates hname] at hlog
    constructor
    · intro other hother
      rw [hlog, dirStatus_concat]
      by_cases hsame : name = other
      · subst hsame
        simp [DirStatus.next]
      · have hpath : dirPath name ≠ dirPath other := fun hp => hsame (dirPath_injective hp)
        rw [hdirs, List.mem_cons, or_iff_right (Ne.symm hsame)] at hother
        rw [DirStatus.next, if_neg hpath]
        exact h.cached other hother
    · intro path
      rw [hlog, dirStatus_concat, DirStatus.next]
      split
      · simp
      · exact h.unbroken path

/-- The directory is gone and its name about to leave the cache. -/
structure CacheStandsBut (d : String) (s : System (Traced κ Deed)) : Prop where
  cached : ∀ name ∈ s.ensuredDirs, name ≠ d → dirStatus (dirPath name) s.kernel.log = .standing
  unbroken : ∀ path, dirStatus path s.kernel.log ≠ .broken

theorem removeCpusetDir_stands (env : Env κ) (d : String) :
    Triple CacheStands (removeCpusetDir env.watched d) fun reclaimed s =>
      if reclaimed then CacheStandsBut d s else CacheStands s := by
  intro s hs
  have hlog : ((removeCpusetDir env.watched d).run s).2.kernel.log = s.kernel.log ++
      [.remove (dirPath d) ((removeCpusetDir env.watched d).run s).1] := rfl
  have hdirs : ((removeCpusetDir env.watched d).run s).2.ensuredDirs = s.ensuredDirs := rfl
  generalize (removeCpusetDir env.watched d).run s = r at hlog hdirs ⊢
  obtain ⟨reclaimed, t⟩ := r
  cases reclaimed with
  | true =>
      constructor
      · intro name hname hne
        have hpath : dirPath d ≠ dirPath name := fun hp => hne (dirPath_injective hp).symm
        rw [hlog, dirStatus_concat, DirStatus.next, if_neg fun hboth => hpath hboth.1]
        exact hs.cached name (hdirs ▸ hname)
      · intro path
        rw [hlog, dirStatus_concat, DirStatus.next]
        split
        · simp
        · exact hs.unbroken path
  | false =>
      have hsame : ∀ path, dirStatus path t.kernel.log = dirStatus path s.kernel.log := by
        intro path
        rw [hlog, dirStatus_concat, DirStatus.next, if_neg fun hboth => absurd hboth.2 (by simp)]
      constructor
      · intro name hname
        rw [hsame]
        exact hs.cached name (hdirs ▸ hname)
      · intro path
        rw [hsame]
        exact hs.unbroken path

theorem forgetCpusetDir_stands (d : String) :
    Triple (CacheStandsBut d) (forgetCpusetDir d : Run (Traced κ Deed) Unit) fun _ =>
      CacheStands := by
  refine Triple.modify fun s hs => ⟨fun name hname => ?_, hs.unbroken⟩
  obtain ⟨hmem, hne⟩ := List.mem_filter.mp hname
  exact hs.cached name hmem (of_decide_eq_true hne)

theorem releaseDir_stands (env : Env κ) (d : String) :
    Keeps CacheStands (releaseDir env.watched d) := by
  refine Keeps.ite Keeps.pure (Keeps.get fun s => ?_)
  refine Keeps.bind (Keeps.modify fun s hs => ⟨hs.cached, hs.unbroken⟩) fun _ => ?_
  refine Keeps.ite (Triple.bind (removeCpusetDir_stands env d) fun reclaimed => ?_) Keeps.pure
  cases reclaimed with
  | true => exact forgetCpusetDir_stands d
  | false => exact Keeps.pure

theorem CacheStands.step {env : Env κ} {s : System (Traced κ Deed)} {move : DirMove}
    (h : CacheStands s) (hcreates : move.Creates env s) : CacheStands (move.step env s) := by
  cases move with
  | ensure name => exact h.ensure hcreates
  | release tracker state =>
      have hkeeps : Keeps CacheStands (releaseState env.watched state) :=
        Keeps.bind (fun _ hs => hs) fun dirs => Keeps.forM dirs (releaseDir_stands env)
      exact hkeeps { s with tracker := tracker } ⟨h.cached, h.unbroken⟩

/-- Over every run of calls and releases the cache tells the truth exactly when no creation
fails. -/
theorem cache_truthful_iff (env : Env κ) (kernel : κ) (moves : List DirMove) :
    Throughout (DirMove.step env) (CacheTruthful env) (System.init ⟨kernel, []⟩) moves ↔
      AtEach (DirMove.step env) (DirMove.Creates env) (System.init ⟨kernel, []⟩) moves := by
  constructor
  · rintro h before (name | ⟨tracker, state⟩) after rfl
    · intro hname
      have hafter := h (before ++ [.ensure name]) after (by simp)
      rw [run_concat] at hafter
      obtain ⟨hdirs, hlog⟩ := ensureDir_new env hname
      have hcached := hafter.cached name (hdirs ▸ List.mem_cons_self)
      change dirStatus (dirPath name) ((ensureDir env.watched name).run _).2.kernel.log =
        .standing at hcached
      rw [hlog, dirStatus_concat] at hcached
      by_contra hfailed
      rw [Bool.not_eq_true] at hfailed
      rw [hfailed] at hcached
      simp [DirStatus.next] at hcached
    · trivial
  · rintro h before after rfl
    have hinit : CacheStands (System.init (⟨kernel, []⟩ : Traced κ Deed)) :=
      ⟨nofun, fun _ => by simp [System.init, dirStatus]⟩
    have hstands := run_invariant_atEach (DirMove.step env)
      (fun s move hcreates hs => CacheStands.step hs hcreates) hinit (atEach_left _ h)
    exact hstands.truthful

/-- A kernel where directories cannot be created. -/
def Env.crammed {κ : Type} : Env κ :=
  { Env.silent with createCpusetDir := fun _ _ _ => pure false }

/-- A directory that could not be created is in the cache, and nobody tries again. -/
theorem failed_creation_cached :
    let s := run (DirMove.step (Env.crammed (κ := Unit))) (System.init ⟨(), []⟩) [.ensure "0-3"]
    "0-3" ∈ s.ensuredDirs ∧ dirStatus (dirPath "0-3") s.kernel.log = .broken ∧
      DirMove.step Env.crammed s (.ensure "0-3") = s ∧ ¬ CacheTruthful Env.crammed s := by
  intro s
  have hcached : "0-3" ∈ s.ensuredDirs := List.mem_cons_self
  have hbroken : dirStatus (dirPath "0-3") s.kernel.log = .broken := by decide +kernel
  refine ⟨hcached, hbroken, ensureDir_cached hcached, fun h => ?_⟩
  exact absurd ((h.cached "0-3" hcached).symm.trans hbroken) (by decide)

end Threadctl.Core
