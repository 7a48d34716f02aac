import Mathlib.Data.List.Forall2

/-!
# Queues of entries that are tried again

Entries wait in a queue under different keys.  From time to time every entry is looked at
once: it stays, or it leaves with what it yields.  A ledger follows the entries through
their lives:

* `Discipline.Kept.accept`: new entries are let in up to the limit;
* `Discipline.Kept.look`: an entry is tried, and leaves after its last try;
* `Discipline.Kept.clear`: all entries leave.
-/

namespace Threadctl.Support.RetryQueue

variable {α ι ε : Type}

/-! ## The ledger -/

/-- The life of an entry so far. -/
structure Ticket (ι ε : Type) where
  key : ι
  /-- How often the entry was tried. -/
  tries : Nat
  /-- What the entry has yielded. -/
  yield : List ε

/-- The entries in the queue, in its order, and those that have left it. -/
structure Ledger (ι ε : Type) where
  waiting : List (Ticket ι ε)
  left : List (Ticket ι ε)

/-- One look at an entry: what stays of it, how often it was tried, and what it yields. -/
structure Look (α ε : Type) where
  kept : List α
  tries : Nat
  yield : List ε

namespace Ledger

def empty : Ledger ι ε := ⟨[], []⟩

def accept (ledger : Ledger ι ε) (keys : List ι) : Ledger ι ε :=
  { ledger with waiting := ledger.waiting ++ keys.map fun key => ⟨key, 0, []⟩ }

def clear (ledger : Ledger ι ε) : Ledger ι ε := ⟨[], ledger.left ++ ledger.waiting⟩

def stamp (ticket : Ticket ι ε) (look : Look α ε) : Ticket ι ε :=
  ⟨ticket.key, ticket.tries + look.tries, ticket.yield ++ look.yield⟩

def look (ledger : Ledger ι ε) (looks : List (Look α ε)) : Ledger ι ε :=
  let seen := ledger.waiting.zip looks
  { waiting := (seen.filter fun s => !s.2.kept.isEmpty).map fun s => stamp s.1 s.2
    left := ledger.left ++ (seen.filter fun s => s.2.kept.isEmpty).map fun s => stamp s.1 s.2 }

end Ledger

/-! ## The discipline of a queue -/

structure Discipline (α ι ε : Type) where
  key : α → ι
  /-- How often an entry has been tried again. -/
  retries : α → Nat
  /-- How many entries wait at most. -/
  limit : Nat
  /-- How often an entry is tried again at most. -/
  most : Nat
  /-- What an entry may yield. -/
  Yields : ι → ε → Prop

namespace Discipline

variable (D : Discipline α ι ε)

/-- The queue after new entries were let in. -/
structure Accepts (old new : List α) : Prop where
  added : ∃ entries, new = old ++ entries ∧ ∀ p ∈ entries, D.retries p = 0
  distinct : (old.map D.key).Nodup → (new.map D.key).Nodup
  within : old.length ≤ D.limit → new.length ≤ D.limit

/-- The ways a look at an entry may end. -/
inductive Looked (p : α) : Look α ε → Prop
  | early : Looked p ⟨[p], 0, []⟩
  | gone : Looked p ⟨[], 0, []⟩
  | again (p' : α) : D.retries p < D.most → D.key p' = D.key p →
      D.retries p' = D.retries p + 1 → Looked p ⟨[p'], 1, []⟩
  | last : Looked p ⟨[], 1, []⟩
  | found (yield : List ε) : yield.length ≤ 1 → (∀ ev ∈ yield, D.Yields (D.key p) ev) →
      Looked p ⟨[], 1, yield⟩

/-- The ticket of an entry in the queue. -/
structure TicketOf (p : α) (ticket : Ticket ι ε) : Prop where
  key_eq : ticket.key = D.key p
  tries_eq : ticket.tries = D.retries p
  yield_eq : ticket.yield = []
  retries_le : D.retries p ≤ D.most

/-- The ticket of an entry that has left. -/
structure Settled (ticket : Ticket ι ε) : Prop where
  tries_le : ticket.tries ≤ D.most + 1
  yield_le : ticket.yield.length ≤ 1
  yields : ∀ ev ∈ ticket.yield, D.Yields ticket.key ev

/-- The queue keeps to its discipline, and the ledger follows it. -/
structure Kept (queue : List α) (ledger : Ledger ι ε) : Prop where
  distinct : (queue.map D.key).Nodup
  within : queue.length ≤ D.limit
  tickets : List.Forall₂ D.TicketOf queue ledger.waiting
  settled : ∀ ticket ∈ ledger.left, D.Settled ticket

variable {D}

/-! ## Entries that are let in -/

theorem Accepts.refl (queue : List α) : D.Accepts queue queue where
  added := ⟨[], (List.append_nil _).symm, List.forall_mem_nil _⟩
  distinct h := h
  within h := h

theorem Accepts.trans {a b c : List α} (hab : D.Accepts a b) (hbc : D.Accepts b c) :
    D.Accepts a c where
  added := by
    obtain ⟨entries, rfl, hfresh⟩ := hab.added
    obtain ⟨more, rfl, hmore⟩ := hbc.added
    refine ⟨entries ++ more, List.append_assoc .., ?_⟩
    intro p hp
    rcases List.mem_append.mp hp with hp | hp
    · exact hfresh p hp
    · exact hmore p hp
  distinct h := hbc.distinct (hab.distinct h)
  within h := hbc.within (hab.within h)

theorem Accepts.concat {queue : List α} {p : α} (hroom : queue.length < D.limit)
    (hnew : D.key p ∉ queue.map D.key) (hfresh : D.retries p = 0) :
    D.Accepts queue (queue ++ [p]) where
  added := ⟨[p], rfl, fun q hq => by rw [List.mem_singleton.mp hq, hfresh]⟩
  distinct h := by
    rw [List.map_append, List.map_singleton]
    exact (List.perm_append_singleton _ _).nodup_iff.mpr (List.nodup_cons.mpr ⟨hnew, h⟩)
  within _ := by
    rw [List.length_append, List.length_singleton]
    omega

theorem Kept.empty : D.Kept [] Ledger.empty where
  distinct := List.nodup_nil
  within := Nat.zero_le _
  tickets := List.Forall₂.nil
  settled := List.forall_mem_nil _

theorem ticketOf_fresh {p : α} (h : D.retries p = 0) : D.TicketOf p ⟨D.key p, 0, []⟩ where
  key_eq := rfl
  tries_eq := h.symm
  yield_eq := rfl
  retries_le := by omega

theorem Kept.accept {old new : List α} {ledger : Ledger ι ε} (h : D.Kept old ledger)
    (haccepts : D.Accepts old new) :
    D.Kept new (ledger.accept ((new.drop old.length).map D.key)) where
  distinct := haccepts.distinct h.distinct
  within := haccepts.within h.within
  tickets := by
    obtain ⟨entries, hnew, hfresh⟩ := haccepts.added
    rw [hnew, List.drop_left]
    apply List.rel_append h.tickets
    rw [List.map_map, List.forall₂_map_right_iff]
    exact List.forall₂_same.mpr fun p hp => ticketOf_fresh (hfresh p hp)
  settled := h.settled

theorem TicketOf.settled {p : α} {ticket : Ticket ι ε} (h : D.TicketOf p ticket) :
    D.Settled ticket where
  tries_le := by
    have := h.tries_eq
    have := h.retries_le
    omega
  yield_le := by simp [h.yield_eq]
  yields := by simp [h.yield_eq]

theorem Kept.keys_eq {queue : List α} {ledger : Ledger ι ε} (h : D.Kept queue ledger) :
    ledger.waiting.map (·.key) = queue.map D.key := by
  have hkeys : ∀ {queue : List α} {tickets : List (Ticket ι ε)},
      List.Forall₂ D.TicketOf queue tickets → tickets.map (·.key) = queue.map D.key := by
    intro queue tickets htickets
    induction htickets with
    | nil => rfl
    | cons hticket _ ih => rw [List.map_cons, List.map_cons, ih, hticket.key_eq]
  exact hkeys h.tickets

theorem Kept.retries_le {queue : List α} {ledger : Ledger ι ε} (h : D.Kept queue ledger) {p : α}
    (hp : p ∈ queue) : D.retries p ≤ D.most := by
  obtain ⟨i, hi, rfl⟩ := List.getElem_of_mem hp
  have hlength := h.tickets.length_eq
  exact (h.tickets.get hi (by omega)).retries_le

/-- Every ticket of the ledger belongs to an entry of the queue. -/
theorem Kept.ticketOf {queue : List α} {ledger : Ledger ι ε} (h : D.Kept queue ledger)
    {ticket : Ticket ι ε} (hticket : ticket ∈ ledger.waiting) : ∃ p, D.TicketOf p ticket := by
  obtain ⟨i, hi, rfl⟩ := List.getElem_of_mem hticket
  have hlength := h.tickets.length_eq
  exact ⟨_, h.tickets.get (by omega) hi⟩

theorem Kept.clear {queue : List α} {ledger : Ledger ι ε} (h : D.Kept queue ledger) :
    D.Kept [] ledger.clear where
  distinct := List.nodup_nil
  within := Nat.zero_le _
  tickets := List.Forall₂.nil
  settled := by
    intro ticket hticket
    rcases List.mem_append.mp hticket with hleft | hwaiting
    · exact h.settled ticket hleft
    · obtain ⟨p, hp⟩ := h.ticketOf hwaiting
      exact hp.settled

/-! ## Looks -/

/-- An entry that leaves at a look is settled. -/
theorem TicketOf.settled_stamp {p : α} {ticket : Ticket ι ε} (h : D.TicketOf p ticket)
    {look : Look α ε} (htries : look.tries ≤ 1) (hone : look.yield.length ≤ 1)
    (hyields : ∀ ev ∈ look.yield, D.Yields (D.key p) ev) :
    D.Settled (Ledger.stamp ticket look) := by
  have hyield : ticket.yield ++ look.yield = look.yield := by
    rw [h.yield_eq, List.nil_append]
  constructor
  · show ticket.tries + look.tries ≤ D.most + 1
    have heq := h.tries_eq
    have hle := h.retries_le
    omega
  · show (ticket.yield ++ look.yield).length ≤ 1
    rw [hyield]
    exact hone
  · show ∀ ev ∈ ticket.yield ++ look.yield, D.Yields ticket.key ev
    rw [hyield, h.key_eq]
    exact hyields

theorem Looked.stamp {p : α} {look : Look α ε} {ticket : Ticket ι ε} (h : D.Looked p look)
    (hticket : D.TicketOf p ticket) :
    (∃ p', look.kept = [p'] ∧ D.TicketOf p' (Ledger.stamp ticket look)) ∨
      (look.kept = [] ∧ D.Settled (Ledger.stamp ticket look)) := by
  have hkept : ∀ {tries : Nat} {kept : List α}, ticket.yield ++
      (⟨kept, tries, []⟩ : Look α ε).yield = [] := by
    intro tries kept
    rw [hticket.yield_eq, List.nil_append]
  cases h with
  | early => exact Or.inl ⟨p, rfl, hticket.key_eq, hticket.tries_eq, hkept, hticket.retries_le⟩
  | gone => exact Or.inr ⟨rfl, hticket.settled_stamp (by simp) (by simp) (by simp)⟩
  | again p' hmore hkey hretries =>
      refine Or.inl ⟨p', rfl, hticket.key_eq.trans hkey.symm, ?_, hkept, by omega⟩
      show ticket.tries + 1 = D.retries p'
      rw [hretries, hticket.tries_eq]
  | last => exact Or.inr ⟨rfl, hticket.settled_stamp (by simp) (by simp) (by simp)⟩
  | found yield hone hyields => exact Or.inr ⟨rfl, hticket.settled_stamp (by simp) hone hyields⟩

theorem keys_looked {queue : List α} {looks : List (Look α ε)}
    (h : List.Forall₂ D.Looked queue looks) :
    ((looks.flatMap (·.kept)).map D.key).Sublist (queue.map D.key) := by
  induction h with
  | nil => exact List.Sublist.refl _
  | @cons p look queue looks hlook _ ih =>
      rw [List.flatMap_cons, List.map_append, List.map_cons]
      have hkept : (look.kept.map D.key).Sublist [D.key p] := by
        cases hlook with
        | early => exact List.Sublist.refl _
        | gone => exact List.nil_sublist _
        | again p' _ hkey _ => rw [List.map_singleton, hkey]
        | last => exact List.nil_sublist _
        | found yield _ _ => exact List.nil_sublist _
      exact hkept.append ih

theorem tickets_looked {queue : List α} {tickets : List (Ticket ι ε)} {looks : List (Look α ε)}
    (htickets : List.Forall₂ D.TicketOf queue tickets)
    (hlooks : List.Forall₂ D.Looked queue looks) (left : List (Ticket ι ε))
    (hleft : ∀ ticket ∈ left, D.Settled ticket) :
    List.Forall₂ D.TicketOf (looks.flatMap (·.kept)) (Ledger.look ⟨tickets, left⟩ looks).waiting ∧
      ∀ ticket ∈ (Ledger.look ⟨tickets, left⟩ looks).left, D.Settled ticket := by
  induction htickets generalizing looks with
  | nil =>
      cases hlooks
      exact ⟨List.Forall₂.nil, by simpa [Ledger.look] using hleft⟩
  | @cons p ticket queue tickets hticket _ ih =>
      cases hlooks with
      | @cons _ look _ looks hlook hrest =>
          obtain ⟨hwaiting, hsettled⟩ := ih hrest
          simp only [Ledger.look, List.zip_cons_cons, List.flatMap_cons] at hwaiting hsettled ⊢
          rcases hlook.stamp hticket with ⟨p', hkept, hp'⟩ | ⟨hkept, hgone⟩
          · have hstays : look.kept.isEmpty = false := by rw [hkept]; rfl
            rw [List.filter_cons_of_pos (by simp [hstays]),
              List.filter_cons_of_neg (by simp [hstays]), hkept]
            exact ⟨List.Forall₂.cons hp' hwaiting, hsettled⟩
          · have hleaves : look.kept.isEmpty = true := by rw [hkept]; rfl
            rw [List.filter_cons_of_neg (by simp [hleaves]),
              List.filter_cons_of_pos (by simp [hleaves]), hkept]
            refine ⟨hwaiting, ?_⟩
            intro t ht
            simp only [List.mem_append, List.map_cons, List.mem_cons] at ht
            rcases ht with ht | rfl | ht
            · exact hleft t ht
            · exact hgone
            · exact hsettled t (List.mem_append_right _ ht)

theorem Kept.look {queue : List α} {ledger : Ledger ι ε} {looks : List (Look α ε)}
    (h : D.Kept queue ledger) (hlooks : List.Forall₂ D.Looked queue looks) :
    D.Kept (looks.flatMap (·.kept)) (ledger.look looks) := by
  have hkeys := keys_looked hlooks
  have hsplit := tickets_looked h.tickets hlooks ledger.left h.settled
  have hlength := hkeys.length_le
  rw [List.length_map, List.length_map] at hlength
  exact ⟨hkeys.nodup h.distinct, Nat.le_trans hlength h.within, hsplit.1, hsplit.2⟩

end Discipline

end Threadctl.Support.RetryQueue
