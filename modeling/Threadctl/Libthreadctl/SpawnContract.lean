import Threadctl.Libthreadctl.AffinityPool

/-!
# When a spawn call is served

A task that panics ends its worker, while the calls go on being dealt out to it.
`spawn_served_iff` says which runs of a pool serve every call: those in which no call comes
to the turn of a worker that a panic has ended, unless a panic has ended them all.
-/

namespace Threadctl.Libthreadctl.System

open Threadctl.Core Threadctl.Support Threadctl.Support.Runs

variable {τ : Type}

/-! ## What a call is promised -/

def Alive (s : System τ) (i : Nat) : Prop :=
  ∃ w, s.pool.workers[i]? = some w ∧ w.alive = true

def tx (s : System τ) (i : Nat) : Option (Channel τ) := s.pool.workers[i]?.map (·.tx)

def answer (s : System τ) (k : Nat) : Option (Except τ Unit) := s.calls[k]?.bind (·.answer)

/-- The move puts the task at the end of the queue of worker `i`. -/
def HandedTo (s : System τ) (m : Move τ) (i : Nat) (task : τ) : Prop :=
  ∃ queue, s.tx i = some (.connected queue) ∧
    (s.step m).tx i = some (.connected (queue ++ [task]))

/-- What `spawn` promises a call as it sends its task. -/
structure Served (s : System τ) (k : Nat) (call : Call τ) : Prop where
  /-- It returns an error only if no worker is alive. -/
  dead_of_error : ∀ e, (s.step (.send k)).answer k = some (.error e) → ∀ i, ¬ s.Alive i
  /-- While a worker is alive the task is accepted and handed to such a worker. -/
  handed : (∃ i, s.Alive i) → (s.step (.send k)).answer k = some (.ok ()) ∧
    ∃ i, s.Alive i ∧ s.HandedTo (.send k) i call.task

def EveryCallServed (pool : AffinityPool τ) (moves : List (Move τ)) : Prop :=
  AtEach step (fun s m => ∀ k call, m = .send k → s.inFlight k = some call → s.Served k call)
    (init pool) moves

/-! ## Panics -/

def Panics (i : Nat) (s : System τ) (m : Move τ) : Prop :=
  m = .work i .panic ∧ ∃ w, s.pool.workers[i]? = some w ∧ w.busy = true

def Panicked (pool : AffinityPool τ) (moves : List (Move τ)) (i : Nat) : Prop :=
  AtSome step (Panics i) (init pool) moves

theorem alive_effect (s : System τ) (i : Nat) (m : Move τ) (w : Worker τ) :
    (s.effect i m w).alive = true ↔
      w.alive = true ∧ ¬ (m = .work i .panic ∧ w.busy = true) := by
  cases m with
  | call task => simp [effect]
  | send k =>
      cases hcall : s.inFlight k with
      | none => simp [effect_send_none hcall]
      | some call =>
          rw [effect_send_some hcall]
          split <;> simp
  | work j action =>
      by_cases hj : j = i
      · subst hj
        simp [effect, Worker.alive_act]
      · simp [effect, hj]

theorem alive_step (s : System τ) (m : Move τ) (i : Nat) :
    (s.step m).Alive i ↔ s.Alive i ∧ ¬ Panics i s m := by
  unfold Alive Panics
  rw [getElem?_step]
  cases s.pool.workers[i]? with
  | none => simp
  | some w => simp [alive_effect]

section Run

variable {pool : AffinityPool τ} {name : String} {cpus : CpuSet} {size : Nat}

theorem alive_run (hpool : pool.Fresh name cpus size) (moves : List (Move τ)) {i : Nat}
    (hi : i < size) : (run step (init pool) moves).Alive i ↔ ¬ Panicked pool moves i := by
  induction moves using List.reverseRecOn with
  | nil =>
      have hnew : (init pool).Alive i := by
        refine ⟨.new, ?_, Worker.alive_new⟩
        show pool.workers[i]? = some .new
        rw [hpool.workers_eq, List.getElem?_replicate, if_pos hi]
      exact iff_of_true hnew (atSome_nil step)
  | append_singleton moves m ih =>
      unfold Panicked at ih ⊢
      rw [run_concat, alive_step, ih, atSome_concat_iff, not_or]

theorem length_run (hpool : pool.Fresh name cpus size) (moves : List (Move τ)) :
    (run step (init pool) moves).pool.workers.length = size := by
  apply run_invariant step (Q := fun s => s.pool.workers.length = size)
  · intro s m h
    rw [length_step, h]
  · exact hpool.workerCount_eq

theorem numbered_run (hpool : pool.Fresh name cpus size) (moves : List (Move τ)) :
    (run step (init pool) moves).Numbered :=
  run_invariant step (fun _ m h => h.step m) (numbered_init hpool.next_eq) moves

end Run

/-! ## The turn of a worker -/

section Send

variable {s : System τ} {k : Nat} {call : Call τ}

theorem workers_idx (s : System τ) (ticket : UInt64) :
    s.pool.workers[(s.pool.idx ticket : Nat)]? = some s.pool.workers[s.pool.idx ticket] :=
  List.getElem?_eq_getElem _

theorem answer_send (hcall : s.inFlight k = some call) :
    (s.step (.send k)).answer k =
      some (s.pool.workers[s.pool.idx call.ticket].send call.task).1 := by
  have hk : k < s.calls.length := (List.getElem?_eq_some_iff.mp (calls_of_inFlight hcall).1).1
  rw [step_send_some hcall]
  unfold answer
  rw [List.getElem?_set_self hk]
  rfl

/-- The task comes back just when the thread of the worker whose turn it is has ended,
whatever the others do. -/
theorem answer_error_iff (hcall : s.inFlight k = some call) :
    (s.step (.send k)).answer k = some (.error call.task) ↔
      s.pool.workers[s.pool.idx call.ticket].handle = .finished := by
  rw [answer_send hcall, Option.some.injEq]
  exact Worker.send_error_iff

theorem send_of_alive (hcall : s.inFlight k = some call)
    (halive : s.Alive (s.pool.idx call.ticket)) :
    (s.step (.send k)).answer k = some (.ok ()) ∧
      s.HandedTo (.send k) (s.pool.idx call.ticket) call.task := by
  obtain ⟨w, hw, hlive⟩ := halive
  obtain ⟨queue, hqueue⟩ := Worker.connected_of_alive hlive
  have hget : s.pool.workers[s.pool.idx call.ticket] = w := by
    rw [workers_idx] at hw
    exact Option.some.inj hw
  constructor
  · rw [answer_send hcall, hget]
    simp [Worker.send, hqueue]
  · refine ⟨queue, ?_, ?_⟩
    · rw [tx, hw, Option.map_some, hqueue]
    · rw [tx, getElem?_step, hw]
      simp [effect_send_some hcall, hqueue]

theorem idx_of_handedTo (hcall : s.inFlight k = some call) {i : Nat} {task : τ}
    (h : s.HandedTo (.send k) i task) : (s.pool.idx call.ticket : Nat) = i := by
  obtain ⟨queue, hbefore, hafter⟩ := h
  by_contra hne
  have hsame : (s.step (.send k)).tx i = s.tx i := by
    unfold tx
    rw [getElem?_step]
    cases s.pool.workers[i]? with
    | none => rfl
    | some w => simp [effect_send_some hcall, hne]
  rw [hsame, hbefore] at hafter
  simp at hafter

theorem served_iff (hcall : s.inFlight k = some call) :
    s.Served k call ↔ s.Alive (s.pool.idx call.ticket) ∨ ∀ i, ¬ s.Alive i := by
  constructor
  · intro h
    by_cases hsome : ∃ i, s.Alive i
    · obtain ⟨-, i, halive, hhanded⟩ := h.handed hsome
      rw [idx_of_handedTo hcall hhanded]
      exact Or.inl halive
    · exact Or.inr (not_exists.mp hsome)
  · intro h
    cases h with
    | inl halive =>
        obtain ⟨hok, hhanded⟩ := send_of_alive hcall halive
        constructor
        · intro e herror
          rw [hok] at herror
          simp at herror
        · intro _
          exact ⟨hok, _, halive, hhanded⟩
    | inr hdead =>
        exact ⟨fun _ _ => hdead, fun hsome => absurd hsome (not_exists.mpr hdead)⟩

end Send

/-! ## Runs that serve every call -/

/-- Each call that sends its task comes to the turn of a worker none of whose tasks has
panicked, unless every worker has had a task that panicked. -/
def AvoidsDead (pool : AffinityPool τ) (size : Nat) (moves : List (Move τ)) : Prop :=
  ∀ before k after, moves = before ++ .send k :: after →
    ((run step (init pool) before).inFlight k).isSome →
      ¬ Panicked pool before (k % 2 ^ 64 % size) ∨ ∀ i < size, Panicked pool before i

section Pool

variable {builder : String → Option String} {name cpus : String} {size : Nat}
  {pool : AffinityPool τ}

theorem served_run_iff (hnew : AffinityPool.new builder name cpus size = .ok pool)
    (moves : List (Move τ)) {k : Nat} {call : Call τ}
    (hcall : (run step (init pool) moves).inFlight k = some call) :
    (run step (init pool) moves).Served k call ↔
      ¬ Panicked pool moves (k % 2 ^ 64 % size) ∨ ∀ i < size, Panicked pool moves i := by
  have hpool := AffinityPool.fresh_of_new hnew
  have hlength := length_run hpool moves
  have hticket := (numbered_run hpool moves).ticket (calls_of_inFlight hcall).1
  have hturn : ((run step (init pool) moves).pool.idx call.ticket : Nat) =
      k % 2 ^ 64 % size := by
    show call.ticket.toNat % _ = _
    rw [hticket, hlength]
  have hpos : 0 < size := by
    rw [← hlength]
    exact (run step (init pool) moves).pool.workers_pos
  have hdead : (∀ i, ¬ (run step (init pool) moves).Alive i) ↔
      ∀ i < size, Panicked pool moves i := by
    constructor
    · intro h i hi
      by_contra hno
      exact h i ((alive_run hpool moves hi).mpr hno)
    · intro h i halive
      have hi : i < size := by
        obtain ⟨w, hw, -⟩ := halive
        rw [← hlength]
        exact (List.getElem?_eq_some_iff.mp hw).1
      exact (alive_run hpool moves hi).mp halive (h i hi)
  rw [served_iff hcall, hturn, alive_run hpool moves (Nat.mod_lt _ hpos), hdead]

/-- A run serves every call just when no call comes to the turn of a worker that a panic has
ended while another one is left. -/
theorem spawn_served_iff (hnew : AffinityPool.new builder name cpus size = .ok pool)
    (moves : List (Move τ)) : EveryCallServed pool moves ↔ AvoidsDead pool size moves := by
  constructor
  · intro h before k after hmoves hsome
    obtain ⟨call, hcall⟩ := Option.isSome_iff_exists.mp hsome
    exact (served_run_iff hnew before hcall).mp (h before (.send k) after hmoves k call rfl hcall)
  · intro h before m after hmoves k call hm hcall
    subst hm
    apply (served_run_iff hnew before hcall).mpr
    exact h before k after hmoves (Option.isSome_of_eq_some hcall)

end Pool

/-- A pool serves every call as long as no task panics. -/
theorem avoidsDead_of_no_panic {moves : List (Move τ)} (h : ∀ i, .work i .panic ∉ moves)
    (pool : AffinityPool τ) (size : Nat) : AvoidsDead pool size moves := by
  intro before k after hmoves _
  apply Or.inl
  intro ⟨earlier, m, later, hbefore, hm, _⟩
  apply h (k % 2 ^ 64 % size)
  rw [hmoves, hbefore, hm]
  simp

def renderPool : AffinityPool Nat where
  name := "render"
  cpus := parseCpuRanges "6-7" none
  workers := [.new, .new]
  next := 0
  cpus_ne := by decide
  workers_pos := by decide

theorem renderPool_new :
    AffinityPool.new (fun _ => none) "render" "6-7" 2 = .ok renderPool := by
  rfl

/-- Two calls, the second one drawn before the first task is done. -/
def calmRun : List (Move Nat) :=
  [.call 10, .send 0, .call 11, .work 0 .bind, .work 0 .recv, .send 1, .work 0 .done]

theorem spawn_served_calmRun : EveryCallServed renderPool calmRun := by
  apply (spawn_served_iff renderPool_new calmRun).mpr
  apply avoidsDead_of_no_panic
  intro i
  simp [calmRun]

/-- The first task panics on worker 0, the second one goes to worker 1, and the third one
finds the channel of worker 0 closed. -/
def crashRun : List (Move Nat) :=
  [.call 10, .send 0, .work 0 .bind, .work 0 .recv, .work 0 .panic, .work 0 .drop,
    .call 11, .send 1, .call 12, .send 2]

theorem spawn_fails_beside_live_worker :
    AffinityPool.new (fun _ => none) "render" "6-7" 2 = .ok renderPool ∧
      (run step (init renderPool) crashRun).answer 2 = some (.error 12) ∧
      (run step (init renderPool) crashRun).Alive 1 ∧
      ¬ EveryCallServed renderPool crashRun := by
  refine ⟨renderPool_new, rfl, ⟨_, rfl, rfl⟩, ?_⟩
  intro h
  have hserved := h (crashRun.take 9) (.send 2) [] rfl 2 ⟨12, 2, none⟩ rfl rfl
  exact hserved.dead_of_error 12 rfl 1 ⟨_, rfl, rfl⟩

end Threadctl.Libthreadctl.System
