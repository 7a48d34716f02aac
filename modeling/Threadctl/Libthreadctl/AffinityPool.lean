import Threadctl.Core.RangeText
import Threadctl.Support.Channel
import Threadctl.Support.Runs

/-!
# The affinity pool

`AffinityPool.new` starts the workers, each with a channel of its own, and `spawn` deals the
tasks out to them in turn.  A system is a pool with the calls of `spawn` made on it; its
moves are the steps of the callers and of the worker threads, in any order.
-/

namespace Threadctl.Libthreadctl

open Threadctl.Core Threadctl.Support Threadctl.Support.Runs

variable {τ : Type}

/-! ## Workers -/

/-- What the thread of a worker is doing. -/
inductive Thread (τ : Type)
  | binding
  | receiving
  | running (task : τ)
  | unwinding
  | finished

structure Worker (τ : Type) where
  handle : Thread τ
  tx : Channel τ
  /-- The receiver belongs to the thread and goes with it. -/
  receiver_iff : tx = .disconnected ↔ handle = .finished

/-- What the thread of a worker does next. -/
inductive Action
  | bind
  | recv
  | done
  | panic
  | drop

namespace Worker

def new : Worker τ := ⟨.binding, .connected [], by simp⟩

def act : Worker τ → Action → Worker τ
  -- where binding fails this is printed and the loop entered all the same
  | ⟨.binding, .connected queue, _⟩, .bind => ⟨.receiving, .connected queue, by simp⟩
  | ⟨.receiving, .connected (task :: queue), _⟩, .recv =>
      ⟨.running task, .connected queue, by simp⟩
  | ⟨.running _, .connected queue, _⟩, .done => ⟨.receiving, .connected queue, by simp⟩
  | ⟨.running _, .connected queue, _⟩, .panic => ⟨.unwinding, .connected queue, by simp⟩
  | ⟨.unwinding, _, _⟩, .drop => ⟨.finished, .disconnected, by simp⟩
  | w, _ => w

def send (w : Worker τ) (task : τ) : Except τ Unit × Worker τ :=
  let r := w.tx.send task
  (r.1, ⟨w.handle, r.2, Channel.send_eq_disconnected_iff.trans w.receiver_iff⟩)

/-- The loop of the thread has not been left. -/
def alive (w : Worker τ) : Bool :=
  match w.handle with
  | .unwinding | .finished => false
  | _ => true

def busy (w : Worker τ) : Bool :=
  match w.handle with
  | .running _ => true
  | _ => false

/-- The task a step of the thread takes from the channel. -/
def taken : Worker τ → Action → List τ
  | ⟨.receiving, .connected (task :: _), _⟩, .recv => [task]
  | _, _ => []

@[simp] theorem alive_new : (new : Worker τ).alive = true := rfl

@[simp] theorem tx_send (w : Worker τ) (task : τ) :
    (w.send task).2.tx = (w.tx.send task).2 := rfl

@[simp] theorem alive_send (w : Worker τ) (task : τ) : (w.send task).2.alive = w.alive := rfl

/-- Only a panic takes a worker out of its loop, and nothing brings it back. -/
theorem alive_act (w : Worker τ) (action : Action) :
    (w.act action).alive = true ↔
      w.alive = true ∧ ¬ (action = .panic ∧ w.busy = true) := by
  obtain ⟨handle, tx, hreceiver⟩ := w
  cases tx with
  | disconnected =>
      have hfinished : handle = .finished := hreceiver.mp rfl
      subst hfinished
      cases action <;> simp [act, alive]
  | connected queue =>
      cases handle <;> cases action <;> cases queue <;> simp [act, alive, busy]

theorem connected_of_alive {w : Worker τ} (h : w.alive = true) :
    ∃ queue, w.tx = .connected queue := by
  cases htx : w.tx with
  | connected queue => exact ⟨queue, rfl⟩
  | disconnected =>
      have hfinished := w.receiver_iff.mp htx
      simp [alive, hfinished] at h

theorem inOrder_act {w : Worker τ} {sent received : List τ} (h : w.tx.InOrder sent received)
    (action : Action) : (w.act action).tx.InOrder sent (received ++ w.taken action) := by
  obtain ⟨handle, tx, hreceiver⟩ := w
  cases tx with
  | disconnected =>
      have hfinished : handle = .finished := hreceiver.mp rfl
      subst hfinished
      have hnone : taken ⟨.finished, .disconnected, hreceiver⟩ action = [] := by
        cases action <;> rfl
      rw [hnone, List.append_nil]
      cases action <;> exact h
  | connected queue =>
      cases handle with
      | receiving =>
          cases action with
          | recv =>
              cases queue with
              | nil => simpa [act, taken] using h
              | cons task queue => exact h.recv
          | _ => simpa [act, taken] using h
      | unwinding =>
          cases action with
          | drop => simpa [act, taken] using h.disconnect
          | _ => simpa [act, taken] using h
      | _ => cases action <;> simpa [act, taken] using h

/-- A task comes back just when the thread has ended. -/
theorem send_error_iff {w : Worker τ} {task : τ} :
    (w.send task).1 = .error task ↔ w.handle = .finished := by
  rw [← w.receiver_iff]
  cases htx : w.tx <;> simp [send, htx]

end Worker

/-! ## The pool -/

structure AffinityPool (τ : Type) where
  name : String
  cpus : CpuSet
  workers : List (Worker τ)
  next : UInt64
  cpus_ne : cpus.isEmpty = false
  workers_pos : 0 < workers.length

namespace AffinityPool

def workerName (name : String) (i : Nat) : String := s!"{name}-{i}"

/-- The pool as all of its threads have started. -/
def started (name : String) (set : CpuSet) (size : Nat) (hset : ¬ set.isEmpty = true)
    (hsize : ¬ size = 0) : AffinityPool τ where
  name := name
  cpus := set
  workers := List.replicate size .new
  next := 0
  cpus_ne := Bool.eq_false_of_not_eq_true hset
  workers_pos := by
    rw [List.length_replicate]
    omega

/-- `builder` answers for each thread name with the error of starting that thread, if any.
(It panics at a name with a NUL in it: then there is no pool.) -/
def new (builder : String → Option String) (name cpus : String) (size : Nat) :
    Except String (AffinityPool τ) :=
  let set := parseCpuRanges cpus none
  if hset : set.isEmpty = true then .error s!"CPU 集为空: {cpus}"
  -- the same check a second time
  else if set.isEmpty then .error s!"CPU 集为空: {cpus}"
  else if hsize : size = 0 then .error "线程池大小必须 >= 1"
  else
    -- the first thread that does not start ends the loop
    match (List.range size).findSome? fun i => builder (workerName name i) with
    | some e => .error s!"worker 创建失败: {e}"
    | none => .ok (started name set size hset hsize)

/-- `fetch_add` on the shared counter. -/
def draw (pool : AffinityPool τ) : UInt64 × AffinityPool τ :=
  (pool.next, { pool with next := pool.next + 1 })

def idx (pool : AffinityPool τ) (ticket : UInt64) : Fin pool.workers.length :=
  ⟨ticket.toNat % pool.workers.length, Nat.mod_lt _ pool.workers_pos⟩

def modifyWorker (pool : AffinityPool τ) (i : Nat) (f : Worker τ → Worker τ) :
    AffinityPool τ :=
  { pool with
    workers := pool.workers.modify i f
    workers_pos := by rw [List.length_modify]; exact pool.workers_pos }

def send (pool : AffinityPool τ) (ticket : UInt64) (task : τ) :
    Except τ Unit × AffinityPool τ :=
  let idx := pool.idx ticket
  ((pool.workers[idx].send task).1, pool.modifyWorker idx fun w => (w.send task).2)

def spawn (pool : AffinityPool τ) (task : τ) : Except τ Unit × AffinityPool τ :=
  let (ticket, pool) := pool.draw
  pool.send ticket task

def workerCount (pool : AffinityPool τ) : Nat := pool.workers.length

def cpusDesc (pool : AffinityPool τ) : String := pool.cpus.toRangeString

section New

variable {builder : String → Option String} {name cpus : String} {size : Nat}

/-- A new pool: every worker is fresh, and the counter stands at zero. -/
structure Fresh (name : String) (cpus : CpuSet) (size : Nat) (pool : AffinityPool τ) : Prop where
  name_eq : pool.name = name
  cpus_eq : pool.cpus = cpus
  workers_eq : pool.workers = List.replicate size .new
  next_eq : pool.next = 0

theorem fresh_of_new {pool : AffinityPool τ} (h : new builder name cpus size = .ok pool) :
    pool.Fresh name (parseCpuRanges cpus none) size := by
  unfold new at h
  dsimp only at h
  split at h
  · cases h
  · split at h
    · cases h
    · split at h
      · cases h
      · cases h
        exact ⟨rfl, rfl, rfl, rfl⟩

theorem Fresh.workerCount_eq {pool : AffinityPool τ} {set : CpuSet}
    (h : pool.Fresh name set size) : pool.workerCount = size := by
  rw [workerCount, h.workers_eq, List.length_replicate]

theorem Fresh.parse_cpusDesc {pool : AffinityPool τ} {set : CpuSet}
    (h : pool.Fresh name set size) : parseCpuRanges pool.cpusDesc none = set := by
  rw [cpusDesc, parseCpuRanges_toRangeString, h.cpus_eq]

/-- A pool comes about just when there is a CPU to bind to, there is a worker to start, and
every thread starts. -/
theorem exists_new_iff :
    (∃ pool : AffinityPool τ, new builder name cpus size = .ok pool) ↔
      (parseCpuRanges cpus none).isEmpty = false ∧ 0 < size ∧
        ∀ i < size, builder (workerName name i) = none := by
  have hstarts : ((List.range size).findSome? fun i => builder (workerName name i)) = none ↔
      ∀ i < size, builder (workerName name i) = none := by
    simp [List.findSome?_eq_none_iff]
  rw [← hstarts, ← Bool.not_eq_true, Nat.pos_iff_ne_zero]
  unfold new
  dsimp only
  split
  · rename_i hset
    simp [hset]
  · rename_i hset
    split
    · rename_i hsize
      simp [hsize]
    · rename_i hsize
      split
      · rename_i hfail
        simp [hfail]
      · rename_i hall
        simp [hset, hsize, hall]

end New

end AffinityPool

/-! ## Callers and threads together -/

structure Call (τ : Type) where
  task : τ
  ticket : UInt64
  /-- What `spawn` has returned. -/
  answer : Option (Except τ Unit)

/-- A pool, and the calls of `spawn` in the order in which they drew their tickets. -/
structure System (τ : Type) where
  pool : AffinityPool τ
  calls : List (Call τ)

inductive Move (τ : Type)
  | call (task : τ)
  | send (k : Nat)
  | work (i : Nat) (action : Action)

namespace System

def init (pool : AffinityPool τ) : System τ := ⟨pool, []⟩

/-- Call `k`, if it has drawn its ticket and has not returned. -/
def inFlight (s : System τ) (k : Nat) : Option (Call τ) :=
  s.calls[k]?.filter (·.answer.isNone)

def step (s : System τ) : Move τ → System τ
  | .call task => ⟨s.pool.draw.2, s.calls ++ [⟨task, s.pool.draw.1, none⟩]⟩
  | .send k =>
      match s.inFlight k with
      | none => s
      | some call =>
          let r := s.pool.send call.ticket call.task
          ⟨r.2, s.calls.set k { call with answer := some r.1 }⟩
  | .work i action => { s with pool := s.pool.modifyWorker i (·.act action) }

/-! ## What a move does -/

section Step

variable {s : System τ} {k : Nat} {call : Call τ}

theorem calls_of_inFlight (h : s.inFlight k = some call) :
    s.calls[k]? = some call ∧ call.answer = none := by
  obtain ⟨hcall, hanswer⟩ := Option.filter_eq_some_iff.mp h
  exact ⟨hcall, Option.isNone_iff_eq_none.mp hanswer⟩

theorem step_send_none (h : s.inFlight k = none) : s.step (.send k) = s := by
  simp only [step, h]

theorem step_send_some (h : s.inFlight k = some call) :
    s.step (.send k) =
      ⟨(s.pool.send call.ticket call.task).2,
        s.calls.set k { call with answer := some (s.pool.send call.ticket call.task).1 }⟩ := by
  simp only [step, h]

theorem step_call_send (s : System τ) (task : τ) :
    (s.step (.call task)).step (.send s.calls.length) =
      ⟨(s.pool.spawn task).2,
        s.calls ++ [⟨task, s.pool.next, some (s.pool.spawn task).1⟩]⟩ := by
  have hcall : (s.step (.call task)).inFlight s.calls.length =
      some ⟨task, s.pool.next, none⟩ := by
    simp [step, inFlight, AffinityPool.draw]
  rw [step_send_some hcall]
  simp [step, AffinityPool.spawn, AffinityPool.draw]

def effect (s : System τ) (i : Nat) : Move τ → Worker τ → Worker τ
  | .call _, w => w
  | .send k, w =>
      match s.inFlight k with
      | none => w
      | some call => if (s.pool.idx call.ticket : Nat) = i then (w.send call.task).2 else w
  | .work j action, w => if j = i then w.act action else w

theorem getElem?_modifyWorker (pool : AffinityPool τ) (i j : Nat) (f : Worker τ → Worker τ) :
    (pool.modifyWorker i f).workers[j]? =
      pool.workers[j]?.map fun w => if i = j then f w else w := by
  show (pool.workers.modify i f)[j]? = _
  rw [List.getElem?_modify]
  split <;> simp

theorem effect_send_none (h : s.inFlight k = none) (i : Nat) (w : Worker τ) :
    s.effect i (.send k) w = w := by
  simp only [effect, h]

theorem effect_send_some (h : s.inFlight k = some call) (i : Nat) (w : Worker τ) :
    s.effect i (.send k) w =
      if (s.pool.idx call.ticket : Nat) = i then (w.send call.task).2 else w := by
  simp only [effect, h]

theorem getElem?_step (s : System τ) (m : Move τ) (i : Nat) :
    (s.step m).pool.workers[i]? = s.pool.workers[i]?.map (s.effect i m) := by
  cases m with
  | call task => exact Option.map_id'.symm
  | send k =>
      cases hcall : s.inFlight k with
      | none => simp [step_send_none hcall, funext (effect_send_none hcall i)]
      | some call =>
          rw [step_send_some hcall, funext (effect_send_some hcall i)]
          exact getElem?_modifyWorker ..
  | work j action => exact getElem?_modifyWorker ..

theorem length_step (s : System τ) (m : Move τ) :
    (s.step m).pool.workers.length = s.pool.workers.length := by
  cases m with
  | call task => rfl
  | send k =>
      cases hcall : s.inFlight k with
      | none => rw [step_send_none hcall]
      | some call =>
          rw [step_send_some hcall]
          exact List.length_modify ..
  | work i action => exact List.length_modify ..

end Step

/-! ## Tickets -/

theorem set_of_getElem? {α : Type} {l : List α} {k : Nat} {a : α} (h : l[k]? = some a) :
    l.set k a = l := by
  obtain ⟨hlt, rfl⟩ := List.getElem?_eq_some_iff.mp h
  exact List.set_getElem_self hlt

/-- The counter counts the calls, and each call has drawn its number. -/
structure Numbered (s : System τ) : Prop where
  next_eq : s.pool.next = UInt64.ofNat s.calls.length
  tickets_eq : s.calls.map (·.ticket) = (List.range s.calls.length).map UInt64.ofNat

theorem numbered_init {pool : AffinityPool τ} (h : pool.next = 0) : (init pool).Numbered where
  next_eq := h
  tickets_eq := rfl

theorem Numbered.step {s : System τ} (h : s.Numbered) (m : Move τ) : (s.step m).Numbered := by
  cases m with
  | call task =>
      constructor
      · show s.pool.next + 1 = UInt64.ofNat (s.calls ++ [_]).length
        rw [h.next_eq, List.length_append, List.length_singleton, UInt64.ofNat_add]
        rfl
      · simp [System.step, AffinityPool.draw, h.tickets_eq, h.next_eq, List.range_succ]
  | send k =>
      cases hcall : s.inFlight k with
      | none => rwa [step_send_none hcall]
      | some call =>
          obtain ⟨hk, -⟩ := calls_of_inFlight hcall
          have htickets : (s.step (.send k)).calls.map (·.ticket) = s.calls.map (·.ticket) := by
            have hticket : (s.calls.map (·.ticket))[k]? = some call.ticket := by
              simp [hk]
            rw [step_send_some hcall, List.map_set]
            exact set_of_getElem? hticket
          have hlength : (s.step (.send k)).calls.length = s.calls.length := by
            rw [step_send_some hcall, List.length_set]
          constructor
          · rw [hlength, step_send_some hcall]
            exact h.next_eq
          · rw [htickets, hlength]
            exact h.tickets_eq
  | work i action => exact ⟨h.next_eq, h.tickets_eq⟩

theorem Numbered.ticket {s : System τ} (h : s.Numbered) {k : Nat} {call : Call τ}
    (hcall : s.calls[k]? = some call) : call.ticket.toNat = k % 2 ^ 64 := by
  have hk : (s.calls.map (·.ticket))[k]? = some call.ticket := by
    simp [hcall]
  have hlt : k < s.calls.length := (List.getElem?_eq_some_iff.mp hcall).1
  rw [h.tickets_eq, List.getElem?_map, List.getElem?_range hlt] at hk
  rw [← Option.some.inj hk, UInt64.toNat_ofNat']

/-- The tasks a move hands to worker `i`. -/
def given (i : Nat) (s : System τ) : Move τ → List τ
  | .send k =>
      match s.inFlight k, s.pool.workers[i]? with
      | some call, some w =>
          if (s.pool.idx call.ticket : Nat) = i then w.tx.accepted call.task else []
      | _, _ => []
  | _ => []

/-- The tasks worker `i` takes in a move. -/
def taken (i : Nat) (s : System τ) : Move τ → List τ
  | .work j action =>
      if j = i then (s.pool.workers[i]?.map (·.taken action)).getD [] else []
  | _ => []

theorem inOrder_step {s : System τ} {i : Nat} {w : Worker τ} {sent received : List τ}
    (hw : s.pool.workers[i]? = some w) (h : w.tx.InOrder sent received) (m : Move τ) :
    (s.effect i m w).tx.InOrder (sent ++ s.given i m) (received ++ s.taken i m) := by
  cases m with
  | call task => simpa [effect, given, taken] using h
  | send k =>
      cases hcall : s.inFlight k with
      | none => simpa [effect_send_none hcall, given, taken, hcall] using h
      | some call =>
          rw [effect_send_some hcall]
          by_cases hi : (s.pool.idx call.ticket : Nat) = i
          · simpa [given, taken, hcall, hw, hi] using h.send call.task
          · simpa [given, taken, hcall, hw, hi] using h
  | work j action =>
      by_cases hj : j = i
      · simpa [effect, given, taken, hj, hw] using w.inOrder_act h action
      · simpa [effect, given, taken, hj] using h

/-- Over a run each worker takes the tasks it was given in their order, each once, and while
its thread goes on the others wait in its channel. -/
theorem inOrder_run {pool : AffinityPool τ} {name : String} {cpus : CpuSet} {size i : Nat}
    (hpool : pool.Fresh name cpus size) (hi : i < size) (moves : List (Move τ)) :
    ∃ w, (run step (init pool) moves).pool.workers[i]? = some w ∧
      w.tx.InOrder (output step (given i) (init pool) moves)
        (output step (taken i) (init pool) moves) := by
  induction moves using List.reverseRecOn with
  | nil =>
      refine ⟨.new, ?_, rfl⟩
      show pool.workers[i]? = some .new
      rw [hpool.workers_eq, List.getElem?_replicate, if_pos hi]
  | append_singleton moves m ih =>
      obtain ⟨w, hw, horder⟩ := ih
      refine ⟨effect (run step (init pool) moves) i m w, ?_, ?_⟩
      · rw [run_concat, getElem?_step, hw, Option.map_some]
      · rw [output_concat, output_concat]
        exact inOrder_step hw horder m

end System

end Threadctl.Libthreadctl
