import Threadctl.Core.Tracker

/-!
# The reference counts balance

`Sound` says that the counts are those of the tracked processes and that no
directory was ever removed while a process held it.  Every tracker operation keeps
it.  While a process is being released its directories are still `Owing`.
-/

namespace Threadctl.Core

open Threadctl.Support Threadctl.Support.StateRun

variable {κ : Type}

/-! ## The invariant -/

structure Balanced (t : StateTracker) : Prop where
  /-- Every count is the number of holders, and a count of zero is no entry. -/
  counts : RefCount.Counts t.cpusetRefs t.holders
  /-- The empty name is never registered. -/
  named : ∀ pid p, t.procs.lookup pid = some p → "" ∉ p.dirs

/-- At every recorded call the directory had no holder. -/
def RemovesUnused (calls : List (String × StateTracker)) : Prop :=
  ∀ call ∈ calls, call.2.holders call.1 = 0

def Sound (s : System κ) : Prop := Balanced s.tracker ∧ RemovesUnused s.removeCalls

def ledger (s : System κ) : StateTracker × List (String × StateTracker) :=
  (s.tracker, s.removeCalls)

theorem keeps_sound {α : Type} {x : Run κ α} (hx : Frame ledger x) : Keeps Sound x :=
  hx.keeps fun l => Balanced l.1 ∧ RemovesUnused l.2

theorem balanced_new : Balanced StateTracker.new where
  counts := by
    intro d
    rw [StateTracker.holders]
    rfl
  named := by
    intro pid p hp
    simp [StateTracker.new] at hp

theorem sound_init (kernel : κ) : Sound (System.init kernel) :=
  ⟨balanced_new, fun _ h => absurd h (List.not_mem_nil)⟩

theorem frame_ask {α : Type} (x : StateM κ α) : Frame ledger (ask x) := fun _ => rfl

theorem frame_walk {α : Type} (env : Env κ) (l : List α) : Frame ledger (walk env l) :=
  fun _ => rfl

theorem frame_forgetCpusetDir (dir : String) : Frame (ledger (κ := κ)) (forgetCpusetDir dir) :=
  fun _ => rfl

theorem keeps_modifyTracker {f : StateTracker → StateTracker}
    (hf : ∀ t, Balanced t → Balanced (f t)) : Keeps (Sound (κ := κ)) (modifyTracker f) :=
  Keeps.modify fun s hs => ⟨hf s.tracker hs.1, hs.2⟩

/-! ## Updates in place -/

theorem named_insert {procs : AList fun _ : Int => ProcessState}
    (h : ∀ pid p, procs.lookup pid = some p → "" ∉ p.dirs) {pid : Int} {q : ProcessState}
    (hq : "" ∉ q.dirs) : ∀ pid' p, (procs.insert pid q).lookup pid' = some p → "" ∉ p.dirs := by
  intro pid' p hp
  by_cases hpid : pid' = pid
  · subst hpid
    rw [AList.lookup_insert, Option.some.injEq] at hp
    rw [← hp]
    exact hq
  · rw [AList.lookup_insert_ne hpid] at hp
    exact h pid' p hp

theorem Balanced.insert_same {t : StateTracker} (ht : Balanced t) {pid : Int}
    {p q : ProcessState} (hp : t.procs.lookup pid = some p) (hdirs : q.dirs = p.dirs) :
    Balanced { t with procs := t.procs.insert pid q } where
  counts := ht.counts.congr fun d => (RefCount.holders_insert_same _ hp hdirs d).symm
  named := by
    have hq : "" ∉ q.dirs := by
      rw [hdirs]
      exact ht.named pid p hp
    exact named_insert ht.named hq

theorem Balanced.update {t : StateTracker} (ht : Balanced t) (pid : Int)
    {f : ProcessState → ProcessState} (hf : ∀ p, (f p).dirs = p.dirs) :
    Balanced (t.update pid f) := by
  unfold StateTracker.update
  split
  · rename_i p hp
    exact ht.insert_same hp (hf p)
  · exact ht

theorem Balanced.removeTid {t : StateTracker} (ht : Balanced t) (pid tid : Int) :
    Balanced (t.removeTid pid tid) := ht.update pid fun _ => rfl

theorem Balanced.recordAppliedTids {t : StateTracker} (ht : Balanced t) (pid : Int)
    (tids : Finset Int) : Balanced (t.recordAppliedTids pid tids) := ht.update pid fun _ => rfl

/-! ## Registering directories -/

theorem DirSet.mem_insert {s : DirSet} {d e : String} :
    e ∈ (s.insert d).names ↔ e = d ∨ e ∈ s.names := by
  unfold DirSet.insert
  split
  · rename_i h
    constructor
    · exact Or.inr
    · rintro (rfl | he)
      · exact h
      · exact he
  · exact List.mem_cons

/-- The counts while `pid` registers: the state at hand is not in the map yet. -/
structure Registering (others : String → Nat) (acc : ProcessState × RefCount.Table String) :
    Prop where
  counts : RefCount.Counts acc.2 fun d => RefCount.share ProcessState.dirs acc.1 d + others d
  named : "" ∉ acc.1.dirs

theorem Registering.registerDir {others : String → Nat}
    {acc : ProcessState × RefCount.Table String} (h : Registering others acc) (d : String) :
    Registering others (registerDir acc d) := by
  unfold Core.registerDir
  split
  · exact h
  · rename_i hempty
    split
    · exact h
    · rename_i hmem
      have hd : d ≠ "" := by simpa using hempty
      constructor
      · refine (h.counts.retain d).congr fun e => ?_
        have hiff : e ∈ (acc.1.appliedDirs.insert d).names ↔ e = d ∨ e ∈ acc.1.dirs :=
          DirSet.mem_insert
        by_cases he : e = d
        · subst he
          simp [RefCount.share, hiff, hmem, Nat.add_comm]
        · simp [RefCount.share, hiff, he]
      · intro hin
        rcases DirSet.mem_insert.mp hin with heq | hin
        · exact hd heq.symm
        · exact h.named hin

theorem Registering.foldl {others : String → Nat} (dirs : List String)
    {acc : ProcessState × RefCount.Table String} (h : Registering others acc) :
    Registering others (dirs.foldl Core.registerDir acc) := by
  induction dirs generalizing acc with
  | nil => exact h
  | cons d dirs ih => exact ih (h.registerDir d)

theorem Balanced.registerDirs {t : StateTracker} (ht : Balanced t) (pid : Int)
    (dirs : List String) : Balanced (t.registerDirs pid dirs) := by
  unfold StateTracker.registerDirs
  split
  · exact ht
  · rename_i state hstate
    have hstart : Registering (RefCount.holders ProcessState.dirs (t.procs.erase pid))
        (state, t.cpusetRefs) :=
      ⟨ht.counts.congr fun d => RefCount.holders_eq_add_erase _ hstate d, ht.named pid state hstate⟩
    have hdone := hstart.foldl dirs
    constructor
    · exact hdone.counts.congr fun d => (RefCount.holders_insert _ _ _ _ d).symm
    · exact named_insert ht.named hdone.named

/-! ## Releasing a process -/

/-- The process is gone from the map and the directories `ds` are still to be given back. -/
structure Owing (ds : List String) (s : System κ) : Prop where
  counts : RefCount.Counts s.tracker.cpusetRefs
    fun d => (if d ∈ ds then 1 else 0) + s.tracker.holders d
  named : ∀ pid p, s.tracker.procs.lookup pid = some p → "" ∉ p.dirs
  unused : RemovesUnused s.removeCalls
  nodup : ds.Nodup
  nonempty : "" ∉ ds

theorem Owing.sound {s : System κ} (h : Owing [] s) : Sound s :=
  ⟨⟨h.counts.congr fun d => by simp, h.named⟩, h.unused⟩

theorem Owing.of_ledger {ds : List String} {s t : System κ} (h : Owing ds s)
    (hl : ledger t = ledger s) : Owing ds t := by
  obtain ⟨ht, hc⟩ := Prod.mk.inj hl
  exact ⟨ht ▸ h.counts, ht ▸ h.named, hc ▸ h.unused, h.nodup, h.nonempty⟩

theorem keeps_owing {α : Type} {ds : List String} {x : Run κ α} (hx : Frame ledger x) :
    Keeps (Owing ds) x := fun s hs => hs.of_ledger (hx s)

theorem Owing.perm {ds ds' : List String} {s : System κ} (h : Owing ds s) (hp : ds'.Perm ds) :
    Owing ds' s where
  counts := h.counts.congr fun d => by simp only [hp.mem_iff]
  named := h.named
  unused := h.unused
  nodup := hp.nodup_iff.mpr h.nodup
  nonempty := fun hm => h.nonempty (hp.mem_iff.mp hm)

/-- The directory whose last reference went has no holder left. -/
theorem Owing.last_unused {d : String} {ds : List String} {s : System κ} (h : Owing (d :: ds) s)
    (hlast : (RefCount.release s.tracker.cpusetRefs d).2 = true) : s.tracker.holders d = 0 := by
  have hone := h.counts.release_last hlast
  rw [if_pos List.mem_cons_self] at hone
  omega

theorem Owing.released {d : String} {ds : List String} {s : System κ} (h : Owing (d :: ds) s) :
    Owing ds { s with tracker := { s.tracker with
      cpusetRefs := (RefCount.release s.tracker.cpusetRefs d).1 } } where
  counts := by
    have hnotin : d ∉ ds := (List.nodup_cons.mp h.nodup).1
    have hpos : 0 < (if d ∈ d :: ds then 1 else 0) + s.tracker.holders d := by
      rw [if_pos List.mem_cons_self]
      omega
    refine (h.counts.release hpos).congr fun e => ?_
    change _ = (if e ∈ ds then 1 else 0) + s.tracker.holders e
    by_cases he : e = d
    · subst he
      simp [hnotin]
    · simp [he]
  named := h.named
  unused := h.unused
  nodup := (List.nodup_cons.mp h.nodup).2
  nonempty := fun hm => h.nonempty (List.mem_cons_of_mem d hm)

theorem Owing.removeCpusetDir {ds : List String} {s : System κ} (h : Owing ds s) (env : Env κ)
    {d : String} (hd : s.tracker.holders d = 0) :
    Owing ds ((removeCpusetDir env d).run s).2 where
  counts := h.counts
  named := h.named
  unused := by
    intro call hcall
    rcases List.mem_append.mp hcall with hold | hnew
    · exact h.unused call hold
    · rw [List.mem_singleton.mp hnew]
      exact hd
  nodup := h.nodup
  nonempty := h.nonempty

theorem releaseDir_spec (env : Env κ) (d : String) (ds : List String) :
    Triple (Owing (d :: ds)) (releaseDir env d) fun _ => Owing ds := by
  by_cases hempty : d.isEmpty
  · intro s hs
    have hd : d = "" := by simpa using hempty
    exact absurd (hd ▸ List.mem_cons_self) hs.nonempty
  · rw [releaseDir, if_neg hempty]
    apply Triple.get
    intro s hs
    apply Triple.modify_bind
    split
    · rename_i hlast
      refine Triple.bind (Q := fun _ => Owing ds) ?_ fun reclaimed => ?_
      · rintro t rfl
        exact hs.released.removeCpusetDir env (hs.last_unused hlast)
      exact Keeps.ite (keeps_owing (frame_forgetCpusetDir d)) Keeps.pure
    · exact Triple.pure fun t ht => ht ▸ hs.released

/-- Releasing gives back every directory of the process. -/
theorem releaseState_spec (env : Env κ) (state : ProcessState) :
    Triple (Owing state.dirs) (releaseState env state) fun _ => Sound := by
  apply Triple.get
  intro s hs
  have hloop := Triple.forM (env.order s.kernel state.dirs) fun d ds => releaseDir_spec env d ds
  refine hloop.mono (fun t ht => ?_) fun _ _ h => h.sound
  exact ht ▸ hs.perm (env.order_perm s.kernel state.dirs)

/-! ## The operations that release -/

theorem Sound.owing {s : System κ} (hs : Sound s) {pid : Int} {p : ProcessState}
    (hp : s.tracker.procs.lookup pid = some p) :
    Owing p.dirs { s with tracker := { s.tracker with procs := s.tracker.procs.erase pid } } where
  counts := hs.1.counts.congr fun d => RefCount.holders_eq_add_erase _ hp d
  named := by
    intro pid' q hq
    by_cases hpid : pid' = pid
    · subst hpid
      simp at hq
    · rw [AList.lookup_erase_ne hpid] at hq
      exact hs.1.named pid' q hq
  unused := hs.2
  nodup := p.appliedDirs.nodup
  nonempty := hs.1.named pid p hp

theorem remove_sound (env : Env κ) (pid : Int) : Keeps Sound (remove env pid) := by
  apply Triple.get
  intro s hs
  split
  · exact Triple.pure fun t ht => ht ▸ hs
  · rename_i state hstate
    apply Triple.modify_bind
    refine Triple.bind ?_ fun _ => Keeps.pure
    exact (releaseState_spec env state).mono (fun t ht => ht ▸ hs.owing hstate) fun _ _ h => h

theorem Balanced.insert_new {t : StateTracker} (ht : Balanced t) {pid : Int}
    (hp : t.procs.lookup pid = none) {p : ProcessState} (hdirs : p.dirs = []) :
    Balanced { t with procs := t.procs.insert pid p } where
  counts := ht.counts.congr fun d => by
    change _ = RefCount.holders _ _ d
    rw [RefCount.holders_insert, RefCount.erase_of_none hp, RefCount.share, hdirs]
    simp [StateTracker.holders]
  named := by
    have hp' : "" ∉ p.dirs := by
      rw [hdirs]
      exact List.not_mem_nil
    exact named_insert ht.named hp'

theorem insertNew_sound (env : Env κ) (pid : Int) (pkg : String) (now : Int) :
    Triple (fun s => Sound s ∧ s.tracker.procs.lookup pid = none) (insertNew env pid pkg now)
      fun _ => Sound := by
  refine Triple.bind (Q := fun _ s => Sound s ∧ s.tracker.procs.lookup pid = none) ?_ fun st => ?_
  · exact fun s hs => hs
  · refine Triple.bind (Q := fun _ => Sound) ?_ fun _ => Keeps.pure
    exact Triple.modify fun s hs => ⟨hs.1.1.insert_new hs.2 rfl, hs.1.2⟩

theorem frame_releaseState {τ : Type} {f : System κ → τ} (env : Env κ)
    (hrefs : ∀ s refs, f { s with tracker := { s.tracker with cpusetRefs := refs } } = f s)
    (hremove : ∀ s calls, f { s with removeCalls := calls } = f s)
    (hdirs : ∀ s dirs, f { s with ensuredDirs := dirs } = f s)
    (hask : ∀ path, Frame f (ask (env.removeCpusetDir path))) (state : ProcessState) :
    Frame f (releaseState env state) := by
  refine Frame.bind (fun _ => rfl) fun dirs => Frame.forM dirs fun d => ?_
  refine Frame.ite Frame.pure (Frame.get fun s => ?_)
  refine Frame.bind (Frame.modify fun s => hrefs s _) fun _ => Frame.ite ?_ Frame.pure
  refine Frame.bind ?_ fun _ => Frame.ite (Frame.modify fun s => hdirs s _) Frame.pure
  exact Frame.bind (Frame.modify fun s => hremove s _) fun _ => hask _

theorem frame_releaseState_procs (env : Env κ) (state : ProcessState) :
    Frame (fun s => s.tracker.procs) (releaseState env state) :=
  frame_releaseState env (fun _ _ => rfl) (fun _ _ => rfl) (fun _ _ => rfl) (fun _ _ => rfl) state

/-! ## Rules for the operations -/

section Rules

variable {I : System κ → Prop} {env : Env κ} {pid : Int}

theorem keeps_insertNew (hask : Keeps I (ask (env.readStartTime pid)))
    (hinsert : ∀ p, Keeps I (modifyTracker fun t => { t with procs := t.procs.insert pid p }))
    (pkg : String) (now : Int) : Keeps I (insertNew env pid pkg now) :=
  Keeps.bind hask fun _ => Keeps.bind (hinsert _) fun _ => Keeps.pure

theorem keeps_remove
    (herase : Keeps I (modifyTracker fun t => { t with procs := t.procs.erase pid }))
    (hrelease : ∀ state, Keeps I (releaseState env state)) : Keeps I (remove env pid) := by
  refine Keeps.get fun s => ?_
  cases s.tracker.procs.lookup pid with
  | none => exact Keeps.pure
  | some state =>
      exact Keeps.bind herase fun _ => Keeps.bind (hrelease state) fun _ => Keeps.pure

theorem keeps_enter (hask : Keeps I (ask (env.readStartTime pid)))
    (hinsert : ∀ p, Keeps I (modifyTracker fun t => { t with procs := t.procs.insert pid p }))
    (herase : Keeps I (modifyTracker fun t => { t with procs := t.procs.erase pid }))
    (hrelease : ∀ state, Keeps I (releaseState env state)) (pkg : String) (now : Int) :
    Keeps I (enter env pid pkg now) := by
  have hnew := keeps_insertNew hask hinsert pkg now
  refine Keeps.get fun s => ?_
  cases s.tracker.procs.lookup pid with
  | none => exact hnew
  | some ex =>
      refine Keeps.ite Keeps.pure (Keeps.bind hask fun _ => ?_)
      refine Keeps.ite (Keeps.bind (hinsert _) fun _ => Keeps.pure) ?_
      exact Keeps.bind herase fun _ => Keeps.bind (hrelease ex) fun _ => hnew

/-- A view that sees neither the kernel's answers nor the tracked processes. -/
theorem frame_enter_of {τ : Type} {f : System κ → τ} (hask : Frame f (ask (env.readStartTime pid)))
    (hmodify : ∀ m, Frame f (modifyTracker m))
    (hrelease : ∀ state, Frame f (releaseState env state)) (pkg : String) (now : Int) :
    Frame f (enter env pid pkg now) :=
  Frame.of_keeps fun v => keeps_enter (hask.keeps (· = v)) (fun _ => (hmodify _).keeps (· = v))
    ((hmodify _).keeps (· = v)) (fun state => (hrelease state).keeps (· = v)) pkg now

end Rules

theorem enter_sound (env : Env κ) (pid : Int) (pkg : String) (now : Int) :
    Keeps Sound (enter env pid pkg now) := by
  apply Triple.get
  intro s hs
  split
  · rename_i hnone
    exact (insertNew_sound env pid pkg now).mono (fun t ht => ht ▸ ⟨hs, hnone⟩) fun _ _ h => h
  · rename_i ex hex
    split
    · exact Triple.pure fun t ht => ht ▸ hs
    · -- the kernel answers first; the tracker is as before
      refine Triple.bind (Q := fun _ t => Sound t ∧ t.tracker.procs.lookup pid = some ex) ?_
        fun read => Triple.ite ?_ ?_
      · exact fun t ht => ht ▸ ⟨hs, hex⟩
      · refine Triple.bind (Q := fun _ => Sound) ?_ fun _ => Keeps.pure
        exact Triple.modify fun t ht => ⟨ht.1.1.insert_same ht.2 rfl, ht.1.2⟩
      · refine Triple.bind (Q := fun _ t => Owing ex.dirs t ∧ t.tracker.procs.lookup pid = none) ?_
          fun _ => ?_
        · exact Triple.modify fun t ht => ⟨ht.1.owing ht.2, AList.lookup_erase pid t.tracker.procs⟩
        · refine Triple.bind ?_ fun _ => insertNew_sound env pid pkg now
          exact (releaseState_spec env ex).and
            ((frame_releaseState_procs env ex).keeps fun procs => procs.lookup pid = none)

theorem retainInterested_sound (env : Env κ) (pkgSet : List String) :
    Keeps Sound (retainInterested env pkgSet) := by
  refine Keeps.get fun s => Keeps.bind (keeps_sound (frame_walk env _)) fun entries => ?_
  exact Keeps.forM _ fun pid => Keeps.bind (remove_sound env pid) fun _ => Keeps.pure

end Threadctl.Core
