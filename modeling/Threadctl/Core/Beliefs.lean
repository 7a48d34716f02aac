import Mathlib.Order.Monotone.Defs
import Threadctl.Core.Engine

/-!
# What is believed of the processes

The engine acts on what the kernel has answered: which package a process runs, which
threads it has and how they are called.  `Beliefs` says what is taken to be known, and
`Env.Informs` that the kernel's answers are believed from then on.
-/

namespace Threadctl.Core

variable {κ : Type}

/-- The kernel calls that only ask. -/
inductive Env.Question (env : Env κ) : {α : Type} → StateM κ α → Prop
  | readProcDir : Question env env.readProcDir
  | readStartTime (pid : Int) : Question env (env.readStartTime pid)
  | readCmdline (pid : Int) : Question env (env.readCmdline pid)
  | readThreadName (tid : Int) : Question env (env.readThreadName tid)
  | readTgid (tid : Int) : Question env (env.readTgid tid)
  | readOomAdj (pid : Int) : Question env (env.readOomAdj pid)
  | isAlive (pid : Int) : Question env (env.isAlive pid)
  | listTids (pid : Int) : Question env (env.listTids pid)
  | readCpuset (tid : Int) : Question env (env.readCpuset tid)
  | canRtSched : Question env env.canRtSched
  | nowSecs : Question env env.nowSecs
  | instantNow : Question env env.instantNow
  | sleep (n : Nat) : Question env (env.sleep n)

/-! ## Beliefs -/

/-- What is taken to be known. -/
structure Beliefs where
  /-- The process runs the package. -/
  runs : Int → String → Prop
  /-- The process has the thread. -/
  owns : Int → Int → Prop
  /-- The thread has the name. -/
  named : Int → String → Prop
  /-- Whether real-time policies may be set. -/
  permits : Bool → Prop

/-- Whatever `B` knows `B'` knows. -/
structure Beliefs.Le (B B' : Beliefs) : Prop where
  runs : ∀ {pid pkg}, B.runs pid pkg → B'.runs pid pkg
  owns : ∀ {pid tid}, B.owns pid tid → B'.owns pid tid
  named : ∀ {tid name}, B.named tid name → B'.named tid name
  permits : ∀ {allowed}, B.permits allowed → B'.permits allowed

instance : Preorder Beliefs where
  le := Beliefs.Le
  le_refl _ := ⟨id, id, id, id⟩
  le_trans _ _ _ h h' :=
    ⟨fun hr => h'.runs (h.runs hr), fun ho => h'.owns (h.owns ho),
      fun hn => h'.named (h.named hn), fun hp => h'.permits (h.permits hp)⟩

def Beliefs.any : Beliefs := ⟨fun _ _ => True, fun _ _ => True, fun _ _ => True, fun _ => True⟩

/-- What the kernel answers is believed from then on. -/
structure Env.Informs (env : Env κ) (view : κ → Beliefs) : Prop where
  grows : ∀ {α : Type} {x : StateM κ α}, env.Question x → ∀ k, view k ≤ view (x.run k).2
  cmdline : ∀ pid k pkg, ((env.readCmdline pid).run k).1 = some pkg →
    (view ((env.readCmdline pid).run k).2).runs pid pkg
  tids : ∀ pid k, ∀ tid ∈ ((env.listTids pid).run k).1,
    (view ((env.listTids pid).run k).2).owns pid tid
  tgid : ∀ tid k pid, ((env.readTgid tid).run k).1 = some pid →
    (view ((env.readTgid tid).run k).2).owns pid tid
  comm : ∀ tid k, (view ((env.readThreadName tid).run k).2).named tid
    (((env.readThreadName tid).run k).1.getD "")
  canRt : ∀ k, (view (env.canRtSched.run k).2).permits (env.canRtSched.run k).1

theorem Env.informs_any (env : Env κ) : env.Informs fun _ => Beliefs.any where
  grows _ _ := le_refl _
  cmdline _ _ _ _ := trivial
  tids _ _ _ _ := trivial
  tgid _ _ _ _ := trivial
  comm _ _ := trivial
  canRt _ := trivial

/-! ## What rests on beliefs -/

def Beliefs.Knows (B : Beliefs) (cache : ThreadNameCache) : Prop :=
  ∀ tid name, cache.names.lookup tid = some name → B.named tid name

/-- The process runs the package it is tracked under, and its cached names are right. -/
def Beliefs.Tracks (B : Beliefs) (pid : Int) (p : ProcessState) : Prop :=
  B.runs pid p.pkg ∧ B.Knows p.tidNames

/-- A package that an event comes with is that of its process, and a cloned thread belongs
to its process. -/
structure Beliefs.Trusts (B : Beliefs) (ev : ProcessEvent) : Prop where
  pkg : ∀ pkg, ev.pkg = some pkg → B.runs ev.pid pkg
  thread : ev.kind = .threadClone → B.owns ev.pid ev.tid

/-- `rules` have this policy for a thread of a process of the package. -/
structure Assigned (B : Beliefs) (fnmatch : String → String → Bool) (rules : RuleSet)
    (tid : Int) (pkg : String) (policy : Policy) : Prop where
  process : ∃ pid, B.runs pid pkg ∧ B.owns pid tid
  /-- Without thread rules no name is looked up. -/
  policy : ∃ thread, rules.resolve fnmatch pkg thread = some policy ∧
    (rules.hasThreadRules fnmatch pkg = true → B.named tid thread)

/-- A directory that the rules have for some thread. -/
def AssignedDir (B : Beliefs) (fnmatch : String → String → Bool) (rules : RuleSet)
    (dir : String) : Prop :=
  ∃ tid pkg policy, Assigned B fnmatch rules tid pkg policy ∧ policy.cpusetDir = dir

section Mono

variable {B B' : Beliefs} (hle : B ≤ B') {fnmatch : String → String → Bool} {rules : RuleSet}

include hle

theorem Beliefs.Knows.mono {cache : ThreadNameCache} (h : B.Knows cache) : B'.Knows cache :=
  fun tid name hname => hle.named (h tid name hname)

theorem Beliefs.Tracks.mono {pid : Int} {p : ProcessState} (h : B.Tracks pid p) :
    B'.Tracks pid p := ⟨hle.runs h.1, h.2.mono hle⟩

theorem Beliefs.Trusts.mono {ev : ProcessEvent} (h : B.Trusts ev) : B'.Trusts ev where
  pkg pkg hpkg := hle.runs (h.pkg pkg hpkg)
  thread hkind := hle.owns (h.thread hkind)

theorem Assigned.mono {tid : Int} {pkg : String} {policy : Policy}
    (h : Assigned B fnmatch rules tid pkg policy) : Assigned B' fnmatch rules tid pkg policy where
  process := by
    obtain ⟨pid, hruns, howns⟩ := h.process
    exact ⟨pid, hle.runs hruns, hle.owns howns⟩
  policy := by
    obtain ⟨thread, hpolicy, hnamed⟩ := h.policy
    exact ⟨thread, hpolicy, fun hrules => hle.named (hnamed hrules)⟩

theorem AssignedDir.mono {dir : String} (h : AssignedDir B fnmatch rules dir) :
    AssignedDir B' fnmatch rules dir := by
  obtain ⟨tid, pkg, policy, hassigned, hdir⟩ := h
  exact ⟨tid, pkg, policy, hassigned.mono hle, hdir⟩

end Mono

section Names

variable {B : Beliefs}

theorem knows_new (now : Int) : B.Knows (.new now) := by
  intro tid name h
  simp [ThreadNameCache.new] at h

theorem Beliefs.Knows.expire {cache : ThreadNameCache} (h : B.Knows cache) (now : Int) :
    B.Knows (cache.expire now) := by
  unfold ThreadNameCache.expire
  split
  · exact knows_new now
  · exact h

theorem Beliefs.Knows.insert {cache : ThreadNameCache} (h : B.Knows cache) {tid : Int}
    {name : String} (hname : B.named tid name) :
    B.Knows { cache with names := cache.names.insert tid name } := by
  intro t n ht
  by_cases heq : t = tid
  · subst heq
    rw [AList.lookup_insert, Option.some.injEq] at ht
    exact ht ▸ hname
  · rw [AList.lookup_insert_ne heq] at ht
    exact h t n ht

theorem Beliefs.Knows.erase {cache : ThreadNameCache} (h : B.Knows cache) (tid : Int) :
    B.Knows { cache with names := cache.names.erase tid } := by
  intro t n ht
  by_cases heq : t = tid
  · subst heq
    rw [AList.lookup_erase] at ht
    exact absurd ht (by simp)
  · rw [AList.lookup_erase_ne heq] at ht
    exact h t n ht

theorem Beliefs.Knows.retain {cache : ThreadNameCache} (h : B.Knows cache) (tids : Finset Int) :
    B.Knows (cache.retain tids) := by
  unfold ThreadNameCache.retain
  generalize cache.names.keys = keys
  induction keys generalizing cache with
  | nil => exact h
  | cons key keys ih =>
      rw [List.foldl_cons]
      by_cases hkey : key ∈ tids
      · rw [if_pos hkey]
        exact ih h
      · rw [if_neg hkey]
        exact ih (h.erase key)

end Names

end Threadctl.Core
