import Mathlib.Data.List.Basic

/-!
# Channels with one receiver

A channel holds what was sent and not received yet.  Once its receiver is gone it holds
nothing and gives back whatever is sent.

`InOrder` compares a channel with what was sent and what was received over its life: the
values arrive in the order in which they were sent, each at most once, and while the
receiver is there none is lost.
-/

namespace Threadctl.Support

inductive Channel (α : Type)
  | connected (queue : List α)
  | disconnected
  deriving DecidableEq

namespace Channel

variable {α : Type}

/-- Sending never waits; without a receiver the value comes back. -/
def send : Channel α → α → Except α Unit × Channel α
  | connected queue, a => (.ok (), connected (queue ++ [a]))
  | disconnected, a => (.error a, disconnected)

def content : Channel α → List α
  | connected queue => queue
  | disconnected => []

/-- The values a send adds to the channel. -/
def accepted : Channel α → α → List α
  | connected _, a => [a]
  | disconnected, _ => []

@[simp] theorem send_connected (queue : List α) (a : α) :
    (connected queue).send a = (.ok (), connected (queue ++ [a])) := rfl

@[simp] theorem send_disconnected (a : α) :
    (disconnected : Channel α).send a = (.error a, disconnected) := rfl

theorem send_eq_disconnected_iff {c : Channel α} {a : α} :
    (c.send a).2 = disconnected ↔ c = disconnected := by
  cases c <;> simp

/-! ## Order of arrival -/

/-- What was received is the first part of what was sent; a channel with a receiver still
holds the rest. -/
def InOrder (sent received : List α) : Channel α → Prop
  | connected queue => sent = received ++ queue
  | disconnected => received <+: sent

theorem InOrder.isPrefix {sent received : List α} {c : Channel α}
    (h : c.InOrder sent received) : received <+: sent := by
  cases c with
  | connected queue => exact ⟨queue, Eq.symm h⟩
  | disconnected => exact h

theorem InOrder.send {sent received : List α} {c : Channel α} (h : c.InOrder sent received)
    (a : α) : (c.send a).2.InOrder (sent ++ c.accepted a) received := by
  cases c with
  | connected queue =>
      have hsent : sent = received ++ queue := h
      show sent ++ [a] = received ++ (queue ++ [a])
      rw [hsent, List.append_assoc]
  | disconnected =>
      show received <+: sent ++ []
      rw [List.append_nil]
      exact h

theorem InOrder.recv {sent received queue : List α} {a : α}
    (h : (connected (a :: queue)).InOrder sent received) :
    (connected queue).InOrder sent (received ++ [a]) := by
  have hsent : sent = received ++ a :: queue := h
  show sent = received ++ [a] ++ queue
  rw [hsent, List.append_assoc, List.singleton_append]

theorem InOrder.disconnect {sent received : List α} {c : Channel α}
    (h : c.InOrder sent received) : disconnected.InOrder sent received :=
  h.isPrefix

end Channel

end Threadctl.Support
