import Threadctl.Libthreadctl.SpawnContract

/-!
# Where the tasks of a pool go

`spawn` returns `Ok` once the task is in the channel of the worker whose turn it is.  That
worker takes its tasks in the order in which they were sent, and no other one ever does.
-/

namespace Threadctl.Libthreadctl

open Threadctl.Core Threadctl.Support Threadctl.Support.Runs

variable {τ : Type}

def Call.isAccepted (call : Call τ) : Bool :=
  match call.answer with
  | some (.ok _) => true
  | _ => false

/-- The call is accepted, and its ticket is that of worker `i` of `size`. -/
def Call.isFor (size i : Nat) (call : Call τ) : Bool :=
  call.isAccepted && decide (call.ticket.toNat % size = i)

def acceptedBy (size i : Nat) (calls : List (Call τ)) : List τ :=
  (calls.filter (Call.isFor size i)).map (·.task)

theorem isFor_of_answer_none {size i : Nat} {call : Call τ} (h : call.answer = none) :
    call.isFor size i = false := by
  unfold Call.isFor Call.isAccepted
  rw [h]
  rfl

theorem filter_set_perm {α : Type} {p : α → Bool} {l : List α} {k : Nat} {a : α}
    (hk : l[k]? = some a) (ha : p a = false) (b : α) :
    ((l.set k b).filter p).Perm (l.filter p ++ [b].filter p) := by
  obtain ⟨hlt, hget⟩ := List.getElem?_eq_some_iff.mp hk
  have hsplit : l = l.take k ++ a :: l.drop (k + 1) := by
    rw [← hget, ← List.drop_eq_getElem_cons hlt, List.take_append_drop]
  have hset : l.set k b = l.take k ++ b :: l.drop (k + 1) := by
    rw [List.set_eq_take_append_cons_drop, if_pos hlt]
  have hbefore : l.filter p = (l.take k).filter p ++ (l.drop (k + 1)).filter p := by
    conv => lhs; rw [hsplit]
    rw [List.filter_append, List.filter_cons_of_neg (by rw [ha]; exact Bool.false_ne_true)]
  rw [hset, hbefore, List.filter_append, List.append_assoc]
  apply List.Perm.append_left
  rw [← List.singleton_append, List.filter_append]
  exact List.perm_append_comm

namespace System

theorem given_send_some {s : System τ} {k i : Nat} {call : Call τ} {w : Worker τ}
    (hcall : s.inFlight k = some call) (hw : s.pool.workers[i]? = some w) :
    s.given i (.send k) =
      if (s.pool.idx call.ticket : Nat) = i then w.tx.accepted call.task else [] := by
  simp only [given, hcall, hw]

theorem acceptedBy_answered (size i : Nat) (w : Worker τ) (task : τ) (ticket : UInt64) :
    acceptedBy size i [⟨task, ticket, some (w.send task).1⟩] =
      if ticket.toNat % size = i then w.tx.accepted task else [] := by
  have hsend : (w.send task).1 = (w.tx.send task).1 := rfl
  rw [hsend]
  unfold acceptedBy
  cases w.tx with
  | connected queue =>
      by_cases hturn : ticket.toNat % size = i
      · simp [Call.isFor, Call.isAccepted, Channel.accepted, hturn]
      · simp [Call.isFor, Call.isAccepted, hturn]
  | disconnected => simp [Call.isFor, Call.isAccepted, Channel.accepted]

/-- What a move hands to a worker are the tasks that it makes accepted. -/
theorem acceptedBy_step {s : System τ} {size i : Nat} (hsize : s.pool.workers.length = size)
    (hi : i < size) (m : Move τ) :
    (acceptedBy size i (s.step m).calls).Perm (acceptedBy size i s.calls ++ s.given i m) := by
  cases m with
  | call task =>
      have hnone : (⟨task, s.pool.draw.1, none⟩ : Call τ).isFor size i = false :=
        isFor_of_answer_none rfl
      show (acceptedBy size i (s.calls ++ [⟨task, s.pool.draw.1, none⟩])).Perm
        (acceptedBy size i s.calls ++ [])
      rw [acceptedBy, acceptedBy, List.filter_append, List.filter_cons, hnone]
      simp
  | send k =>
      cases hcall : s.inFlight k with
      | none => simp [step_send_none hcall, given, hcall]
      | some call =>
          obtain ⟨hk, hanswer⟩ := calls_of_inFlight hcall
          have hnone : call.isFor size i = false := isFor_of_answer_none hanswer
          obtain ⟨w, hw⟩ : ∃ w, s.pool.workers[i]? = some w :=
            ⟨_, List.getElem?_eq_getElem (hsize.symm ▸ hi)⟩
          have hturn : (s.pool.idx call.ticket : Nat) = call.ticket.toNat % size := by
            rw [← hsize]
            rfl
          have hgiven : s.given i (.send k) = acceptedBy size i
              [⟨call.task, call.ticket,
                some (s.pool.workers[s.pool.idx call.ticket].send call.task).1⟩] := by
            rw [given_send_some hcall hw, acceptedBy_answered]
            by_cases hmine : call.ticket.toNat % size = i
            · have hsame : s.pool.workers[s.pool.idx call.ticket] = w := by
                rw [← hmine, ← hturn, workers_idx] at hw
                exact Option.some.inj hw
              rw [if_pos (hturn.trans hmine), if_pos hmine, hsame]
            · rw [if_neg fun h => hmine (hturn.symm.trans h), if_neg hmine]
          rw [hgiven, step_send_some hcall]
          have hperm := (filter_set_perm hk hnone ⟨call.task, call.ticket,
            some (s.pool.workers[s.pool.idx call.ticket].send call.task).1⟩).map (·.task)
          rw [List.map_append] at hperm
          exact hperm
  | work j action => simp [step, given]

section Pool

variable {builder : String → Option String} {name cpus : String} {size : Nat}
  {pool : AffinityPool τ}

theorem acceptedBy_run {set : CpuSet} (hpool : pool.Fresh name set size) {i : Nat} (hi : i < size)
    (moves : List (Move τ)) :
    (acceptedBy size i (run step (init pool) moves).calls).Perm
      (output step (given i) (init pool) moves) := by
  induction moves using List.reverseRecOn with
  | nil => exact List.Perm.nil
  | append_singleton moves m ih =>
      rw [run_concat, output_concat]
      exact (acceptedBy_step (length_run hpool moves) hi m).trans (ih.append_right _)

/-- Whatever the callers and the threads do: the tasks handed to a worker are those of the
calls with its number that returned `Ok`.  It takes them in the order in which they were
sent, and while none of them has panicked the others wait in its channel. -/
theorem accepted_tasks_run_in_order (hnew : AffinityPool.new builder name cpus size = .ok pool)
    (moves : List (Move τ)) {i : Nat} (hi : i < size) :
    let s := run step (init pool) moves
    let sent := output step (given i) (init pool) moves
    let started := output step (taken i) (init pool) moves
    (acceptedBy size i s.calls).Perm sent ∧ started <+: sent ∧
      (¬ Panicked pool moves i →
        ∃ queue, s.tx i = some (.connected queue) ∧ sent = started ++ queue) := by
  intro s sent started
  have hpool := AffinityPool.fresh_of_new hnew
  obtain ⟨w, hw, horder⟩ := inOrder_run hpool hi moves
  refine ⟨acceptedBy_run hpool hi moves, horder.isPrefix, fun hcalm => ?_⟩
  obtain ⟨w', hw', halive⟩ := (alive_run hpool moves hi).mpr hcalm
  obtain rfl : w' = w := Option.some.inj (hw'.symm.trans hw)
  obtain ⟨queue, hqueue⟩ := Worker.connected_of_alive halive
  rw [hqueue] at horder
  refine ⟨queue, ?_, horder⟩
  show (run step (init pool) moves).pool.workers[i]?.map (·.tx) = _
  rw [hw, Option.map_some, hqueue]

end Pool

/-- The first of two workers has run the first task; the second task waits for the other. -/
theorem calmRun_in_order :
    (acceptedBy 2 1 (run step (init renderPool) calmRun).calls).Perm [11] ∧
      output step (taken 1) (init renderPool) calmRun <+: [11] := by
  obtain ⟨hperm, hprefix, -⟩ :=
    accepted_tasks_run_in_order renderPool_new calmRun (i := 1) (by decide)
  exact ⟨hperm, hprefix⟩

end System

end Threadctl.Libthreadctl
