import Threadctl.Daemon.ProcSource
import Threadctl.Support.StateRun

/-!
# When the `/proc` source scans everything

A round of `collect` compares the number of processes with that of the round before.
`scans_keep_up_iff` says for which sequences of counts every rise above the threshold
since the last full scan leads to one.
-/

namespace Threadctl.Daemon

open Threadctl.Core Threadctl.Support.StateRun Threadctl.Support.Text

variable {κ : Type}

section Rounds

variable (fnmatch : String → String → Bool) (env : Env κ)

/-- The waiting processes, then the count. -/
def ProcSource.beginRound (src : ProcSource) (cfg : ConfigSnapshot) :
    Run κ (Round ProcSource × Int) := do
  let r ← ProcSource.flushPending fnmatch env cfg.rules ⟨src, []⟩
  let procTotal ← countProcesses env
  pure (r, procTotal)

/-- The count becomes the one that the next round compares with. -/
def noteCount (begun : Round ProcSource × Int) : Round ProcSource :=
  { begun.1 with src := { begun.1.src with lastProcTotal := begun.2, scanAll := false } }

def scanRound (cfg : ConfigSnapshot) (needFull : Bool) (r : Round ProcSource) :
    Run κ (Round ProcSource) :=
  if needFull then do
    let dir ← ask env.readProcDir
    match dir with
    | none => pure r
    | some names => do
        let entries := names.filterMap parseI32
        let r ← entries.foldlM (scanProcess fnmatch env cfg.rules) r
        pushExits env r entries
  else do
    let tracked ← pids env
    let acc ← tracked.foldlM (checkProcess fnmatch env cfg.rules) (r, [])
    pushExits env acc.1 acc.2

theorem collect_eq {src : ProcSource} {cfg : ConfigSnapshot} (h : src.cfg = some cfg) :
    src.collect fnmatch env = (do
      let begun ← src.beginRound fnmatch env cfg
      scanRound fnmatch env cfg (begun.1.src.needFull begun.2) (noteCount begun)) := by
  unfold ProcSource.collect
  rw [h]
  rfl

/-! ## What a round leaves alone -/

/-- What the source remembers apart from the queue. -/
def ProcSource.books (src : ProcSource) : Option ConfigSnapshot × Int × Bool :=
  (src.cfg, src.lastProcTotal, src.scanAll)

def EndsWithBooks (b : Option ConfigSnapshot × Int × Bool) (x : Run κ (Round ProcSource)) : Prop :=
  Triple (fun _ => True) x fun r _ => r.src.books = b

variable {fnmatch env} {b : Option ConfigSnapshot × Int × Bool}

theorem ends_pure {r : Round ProcSource} (h : r.src.books = b) :
    EndsWithBooks b (pure r : Run κ (Round ProcSource)) := Triple.pure fun _ _ => h

theorem ends_ite {c : Prop} [Decidable c] {x y : Run κ (Round ProcSource)}
    (hx : EndsWithBooks b x) (hy : EndsWithBooks b y) : EndsWithBooks b (if c then x else y) :=
  Triple.ite hx hy

theorem ends_foldlM {α : Type} {f : Round ProcSource → α → Run κ (Round ProcSource)}
    (hf : ∀ r a, r.src.books = b → EndsWithBooks b (f r a)) (l : List α) {r : Round ProcSource}
    (hr : r.src.books = b) : EndsWithBooks b (l.foldlM f r) := by
  have hloop := Triple.foldlM (I := fun _ r' (_ : System κ) => r'.src.books = b) l r (f := f)
    fun a _ r' s hs => hf r' a hs s trivial
  exact fun s _ => hloop s hr

theorem flushProcess_books (rules : RuleSet) (now : Nat) {r : Round ProcSource}
    (h : r.src.books = b) (p : PendingProcess) :
    EndsWithBooks b (flushProcess fnmatch env rules now r p) := by
  have hdone : ∀ r' : Round ProcSource, r'.src.books = r.src.books →
      EndsWithBooks b (pure r' : Run κ (Round ProcSource)) := fun r' hr' => ends_pure (hr'.trans h)
  refine ends_ite (hdone _ rfl) (Triple.bind_any fun alive => ends_ite (hdone _ rfl) ?_)
  refine Triple.bind_any fun read => ?_
  cases read.filter (!·.isEmpty) with
  | some pkg => exact ends_ite (hdone _ rfl) (hdone _ rfl)
  | none => exact ends_ite (hdone _ rfl) (hdone _ rfl)

theorem flushPending_books (rules : RuleSet) {r : Round ProcSource} (h : r.src.books = b) :
    EndsWithBooks b (ProcSource.flushPending fnmatch env rules r) := by
  refine ends_ite (ends_pure h) (Triple.bind_any fun now => ?_)
  exact ends_foldlM (fun r' p hr' => flushProcess_books rules now hr' p) _ h

theorem enqueue_books {r : Round ProcSource} (h : r.src.books = b) (pid : Int) :
    EndsWithBooks b (enqueue env r pid) := by
  refine Triple.bind_any fun s => ends_ite (Triple.bind_any fun now => ?_) (ends_pure h)
  exact ends_pure h

theorem pushClones_books {r : Round ProcSource} (h : r.src.books = b) (pid : Int) (pkg : String) :
    EndsWithBooks b (pushClones env r pid pkg) :=
  Triple.bind_any fun _ => ends_pure h

theorem scanProcess_books (rules : RuleSet) {r : Round ProcSource} (h : r.src.books = b)
    (pid : Int) : EndsWithBooks b (scanProcess fnmatch env rules r pid) := by
  refine Triple.bind_any fun read => ?_
  cases read.filter (!·.isEmpty) with
  | none => exact enqueue_books h pid
  | some pkg =>
      refine ends_ite (ends_pure h) (Triple.bind_any fun s => ?_)
      exact ends_ite (pushClones_books h pid pkg) (ends_pure h)

theorem pushExits_books {r : Round ProcSource} (h : r.src.books = b) (current : List Int) :
    EndsWithBooks b (pushExits env r current) :=
  Triple.bind_any fun _ => ends_pure h

theorem checkProcess_books (rules : RuleSet) (acc : Round ProcSource × List Int)
    (h : acc.1.src.books = b) (pid : Int) :
    Triple (fun _ => True) (checkProcess fnmatch env rules acc pid)
      fun acc' _ => acc'.1.src.books = b := by
  refine Triple.bind_any fun alive => ?_
  refine Triple.ite (Triple.pure fun _ _ => h) ?_
  refine Triple.bind_any fun read => ?_
  cases read with
  | none => exact Triple.pure fun _ _ => h
  | some pkg =>
      refine Triple.ite (Triple.pure fun _ _ => h) ?_
      refine Triple.bind (pushClones_books h pid pkg) fun r => ?_
      exact Triple.pure fun _ hr => hr

theorem scanRound_books (cfg : ConfigSnapshot) (needFull : Bool) {r : Round ProcSource}
    (h : r.src.books = b) : EndsWithBooks b (scanRound fnmatch env cfg needFull r) := by
  refine ends_ite (Triple.bind_any fun dir => ?_) (Triple.bind_any fun tracked => ?_)
  · cases dir with
    | none => exact ends_pure h
    | some names =>
        refine Triple.bind (ends_foldlM (fun r' pid hr' => scanProcess_books cfg.rules
          hr' pid) _ h) fun r' => ?_
        exact fun s hs => pushExits_books hs _ s trivial
  · have hloop := Triple.foldlM (I := fun _ acc (_ : System κ) => acc.1.src.books = b) tracked
      (r, []) (f := checkProcess fnmatch env cfg.rules)
      fun pid _ acc s hs => checkProcess_books cfg.rules acc hs pid s trivial
    refine Triple.bind (Q := fun acc _ => acc.1.src.books = b) (fun s _ => hloop s h) fun acc => ?_
    exact fun s hs => pushExits_books hs _ s trivial

end Rounds

/-! ## When a scan is due, from the counts alone -/

/-- Whether a round that sees `n` processes scans fully; `prev` is the count of the round
before it under the same configuration. -/
def scanDue (prev : Option Int) (n : Int) : Bool :=
  match prev with
  | none => true
  | some p => (decide (p + fullScanThreshold < n) && decide (0 ≤ p)) || decide (n = -1)

/-- The rounds of a run with their scans: a reading is the count of a round, or `none` for
a change of the configuration. -/
def plan (prev : Option Int) : List (Option Int) → List (Option (Int × Bool))
  | [] => []
  | none :: readings => none :: plan none readings
  | some n :: readings => some (n, scanDue prev n) :: plan (some n) readings

/-- The reading before the ones that follow. -/
def lastReading (prev : Option Int) (readings : List (Option Int)) : Option Int :=
  readings.getLast?.getD prev

theorem plan_map_fst (prev : Option Int) (readings : List (Option Int)) :
    (plan prev readings).map (Option.map Prod.fst) = readings := by
  induction readings generalizing prev with
  | nil => rfl
  | cons reading readings ih =>
      cases reading with
      | none => rw [plan, List.map_cons, ih]; rfl
      | some n => rw [plan, List.map_cons, ih]; rfl

theorem length_plan (prev : Option Int) (readings : List (Option Int)) :
    (plan prev readings).length = readings.length := by
  have h := congrArg List.length (plan_map_fst prev readings)
  rwa [List.length_map] at h

theorem plan_append (prev : Option Int) (readings readings' : List (Option Int)) :
    plan prev (readings ++ readings') =
      plan prev readings ++ plan (lastReading prev readings) readings' := by
  induction readings generalizing prev with
  | nil => rfl
  | cons reading readings ih =>
      have hlast : lastReading prev (reading :: readings) = lastReading reading readings := by
        rw [lastReading, lastReading, List.getLast?_cons, Option.getD_some]
      rw [List.cons_append, hlast]
      cases reading with
      | none => rw [plan, plan, ih, List.cons_append]
      | some n => rw [plan, plan, ih, List.cons_append]

/-- Not a round in which a scan is due, given the reading before it. -/
def Undue (prev reading : Option Int) : Prop :=
  ∀ n, reading = some n → scanDue prev n = false

def NoScan (entries : List (Option (Int × Bool))) : Prop :=
  ∀ e ∈ entries, ∀ n, e ≠ some (n, true)

theorem noScan_plan_iff (prev : Option Int) (readings : List (Option Int)) :
    NoScan (plan prev readings) ↔ (prev :: readings).IsChain Undue := by
  induction readings generalizing prev with
  | nil => simp [plan, NoScan]
  | cons reading readings ih =>
      rw [List.isChain_cons_cons, ← ih reading]
      cases reading with
      | none => simp [plan, NoScan, Undue]
      | some n => simp [plan, NoScan, Undue]

/-! ## Contract over counts -/

/-- Since the most recent full scan the count has risen by the threshold at most. -/
def ScansKeepUp (entries : List (Option (Int × Bool))) : Prop :=
  ∀ before n between n' after,
    entries = before ++ some (n, true) :: (between ++ some (n', false) :: after) →
    NoScan between → n' ≤ n + fullScanThreshold

/-- The count does not creep: where a scan is due and then no single rise makes one due,
the rises together stay within the threshold. -/
def NoSlowRise (readings : List (Option Int)) : Prop :=
  ∀ before n between n' after,
    readings = before ++ some n :: (between ++ some n' :: after) →
    scanDue (lastReading none before) n = true →
    (some n :: (between ++ [some n'])).IsChain Undue → n' ≤ n + fullScanThreshold

theorem scansKeepUp_plan_iff (readings : List (Option Int)) :
    ScansKeepUp (plan none readings) ↔ NoSlowRise readings := by
  have hsplit : ∀ before n between n' after, plan none (before ++ some n ::
      (between ++ some n' :: after)) = plan none before ++
        some (n, scanDue (lastReading none before) n) :: (plan (some n) between ++
          some (n', scanDue (lastReading (some n) between) n') :: plan (some n') after) := by
    intro before n between n' after
    rw [plan_append, plan, plan_append, plan]
  have hquiet : ∀ n between n', (some n :: (between ++ [some n'])).IsChain Undue ↔
      NoScan (plan (some n) between) ∧ scanDue (lastReading (some n) between) n' = false := by
    intro n between n'
    rw [← noScan_plan_iff, plan_append, plan, plan]
    simp [NoScan, or_imp, forall_and]
  constructor
  · intro h before n between n' after hreadings hdue hchain
    obtain ⟨hno, hfalse⟩ := (hquiet n between n').mp hchain
    apply h (plan none before) n (plan (some n) between) n' (plan (some n') after) _ hno
    rw [hreadings, hsplit, hdue, hfalse]
  · intro h before n between n' after hentries hno
    have hmap := plan_map_fst none readings
    rw [hentries] at hmap
    simp only [List.map_append, List.map_cons, Option.map_some] at hmap
    -- the same split of the readings, with its plan
    have hplan := hsplit (before.map (Option.map Prod.fst)) n (between.map (Option.map Prod.fst))
      n' (after.map (Option.map Prod.fst))
    rw [hmap, hentries] at hplan
    obtain ⟨-, hrest⟩ := List.append_inj hplan (by rw [length_plan, List.length_map])
    rw [List.cons.injEq] at hrest
    obtain ⟨hbetween, htail⟩ := List.append_inj hrest.2 (by rw [length_plan, List.length_map])
    rw [List.cons.injEq] at htail
    have hdue : scanDue (lastReading none (before.map (Option.map Prod.fst))) n = true := by
      simpa using hrest.1.symm
    have hfalse :
        scanDue (lastReading (some n) (between.map (Option.map Prod.fst))) n' = false := by
      simpa using htail.1.symm
    rw [hbetween] at hno
    exact h _ n _ n' _ hmap.symm hdue ((hquiet _ _ _).mpr ⟨hno, hfalse⟩)

/-! ## The source follows the plan -/

/-- What happens to the source: a round, in any state of the system, or a change of the
configuration. -/
inductive SourceMove (κ : Type) where
  | round (s : System κ)
  | configChanged (cfg : ConfigSnapshot)

section Runs

variable (fnmatch : String → String → Bool) (env : Env κ)

def ProcSource.take (src : ProcSource) : SourceMove κ → ProcSource
  | .round s => ((src.collect fnmatch env).run s).1.src
  | .configChanged cfg => src.onConfigChanged cfg

/-- The count of a round and whether it scans fully; without a configuration there is no
round. -/
def ProcSource.roundView (src : ProcSource) (s : System κ) : Option (Int × Bool) :=
  src.cfg.map fun cfg =>
    let begun := ((src.beginRound fnmatch env cfg).run s).1
    (begun.2, begun.1.src.needFull begun.2)

def scanTrace (src : ProcSource) : List (SourceMove κ) → List (Option (Int × Bool))
  | [] => []
  | m :: moves =>
      (match m with
        | .round s => (src.roundView fnmatch env s).toList.map some
        | .configChanged _ => [none]) ++ scanTrace (src.take fnmatch env m) moves

/-- The readings of a run: what the rounds count, and the changes of the configuration. -/
def readings (src : ProcSource) (moves : List (SourceMove κ)) : List (Option Int) :=
  (scanTrace fnmatch env src moves).map (Option.map Prod.fst)

def ProcSource.prevCount (src : ProcSource) : Option Int :=
  if src.scanAll then none else some src.lastProcTotal

theorem needFull_eq (src : ProcSource) (n : Int) : src.needFull n = scanDue src.prevCount n := by
  unfold ProcSource.needFull ProcSource.prevCount scanDue
  cases src.scanAll <;> rfl

theorem beginRound_books (src : ProcSource) (cfg : ConfigSnapshot) (s : System κ) :
    ((src.beginRound fnmatch env cfg).run s).1.1.src.books = src.books := by
  have hflush : EndsWithBooks src.books (ProcSource.flushPending fnmatch env cfg.rules ⟨src, []⟩) :=
    flushPending_books cfg.rules rfl
  exact hflush s trivial

theorem roundView_eq {src : ProcSource} {cfg : ConfigSnapshot} (h : src.cfg = some cfg)
    (s : System κ) :
    ∃ n, src.roundView fnmatch env s = some (n, scanDue src.prevCount n) ∧
      (src.take fnmatch env (.round s)).books = (some cfg, n, false) := by
  have hbooks := beginRound_books fnmatch env src cfg s
  simp only [ProcSource.books, Prod.mk.injEq] at hbooks
  obtain ⟨hcfg, hlast, hscan⟩ := hbooks
  refine ⟨((src.beginRound fnmatch env cfg).run s).1.2, ?_, ?_⟩
  · simp only [ProcSource.roundView, h, Option.map_some, needFull_eq, ProcSource.prevCount, hlast,
      hscan]
  · have hnoted : (noteCount ((src.beginRound fnmatch env cfg).run s).1).src.books =
        (some cfg, ((src.beginRound fnmatch env cfg).run s).1.2, false) := by
      simp only [ProcSource.books, noteCount, hcfg, h]
    rw [ProcSource.take, collect_eq fnmatch env h]
    exact scanRound_books cfg _ hnoted _ trivial

theorem take_idle {src : ProcSource} (h : src.cfg = none) (s : System κ) :
    src.take fnmatch env (.round s) = src := by
  unfold ProcSource.take ProcSource.collect
  rw [h]
  rfl

/-- The scans of a run are the planned ones. -/
theorem scanTrace_eq_plan (src : ProcSource) (moves : List (SourceMove κ)) :
    scanTrace fnmatch env src moves = plan src.prevCount (readings fnmatch env src moves) := by
  induction moves generalizing src with
  | nil => rfl
  | cons m moves ih =>
      have hih := ih (src.take fnmatch env m)
      cases m with
      | configChanged cfg =>
          rw [readings, scanTrace, List.singleton_append, List.map_cons, Option.map_none, plan]
          exact congrArg _ hih
      | round s =>
          cases hcfg : src.cfg with
          | none =>
              have hidle : src.roundView fnmatch env s = none := by
                rw [ProcSource.roundView, hcfg, Option.map_none]
              rw [take_idle fnmatch env hcfg] at hih
              rw [readings, scanTrace, hidle, take_idle fnmatch env hcfg]
              exact hih
          | some cfg =>
              obtain ⟨n, hview, hbooks⟩ := roundView_eq fnmatch env hcfg s
              have hprev : (src.take fnmatch env (.round s)).prevCount = some n := by
                simp only [ProcSource.books, Prod.mk.injEq] at hbooks
                rw [ProcSource.prevCount, hbooks.2.1, hbooks.2.2]
                rfl
              rw [hprev] at hih
              rw [readings, scanTrace, hview]
              simp only [Option.toList_some, List.map_cons, List.map_nil, List.singleton_append,
                Option.map_some, plan]
              exact congrArg _ hih

/-! ## Contract -/

/-- In a run of the source every rise above the threshold since the last full scan leads
to a full scan exactly when the count never creeps. -/
theorem scans_keep_up_iff (moves : List (SourceMove κ)) :
    ScansKeepUp (scanTrace fnmatch env .new moves) ↔
      NoSlowRise (readings fnmatch env .new moves) := by
  rw [scanTrace_eq_plan]
  exact scansKeepUp_plan_iff _

end Runs

/-- A kernel whose state is the listing of `/proc`, with no process to look at. -/
def listingEnv : Env (List String) :=
  { Env.silent with
    readProcDir := do
      let names ← get
      pure (some names) }

def roundWith (n : Nat) : SourceMove (List String) :=
  .round (System.init ((List.range n).map fun i => toString (i + 1)))

/-- Three processes more in every round: the second round and all after it are incremental,
and the count is six above that of the only full scan. -/
theorem creeping_count_not_scanned :
    ¬ ∀ moves, ScansKeepUp (scanTrace glob listingEnv .new moves) := by
  intro h
  have hkeeps := h [.configChanged ⟨1, (compile [] (.flat 4)).rules, .default⟩, roundWith 10,
    roundWith 13, roundWith 16]
  have htrace : scanTrace glob listingEnv .new
      [.configChanged ⟨1, (compile [] (.flat 4)).rules, .default⟩, roundWith 10, roundWith 13,
        roundWith 16] = [none, some (10, true), some (13, false), some (16, false)] := by
    decide +kernel
  rw [htrace] at hkeeps
  have hle := hkeeps [none] 10 [some (13, false)] 16 [] rfl (by simp [NoScan])
  exact absurd hle (by decide)

end Threadctl.Daemon
