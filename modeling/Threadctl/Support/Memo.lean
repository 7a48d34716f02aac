import Mathlib.Data.List.AList

/-!
# Memo tables

A table of answers of a pure function, filled on the first question for a key.
-/

namespace Threadctl.Support.Memo

variable {κ ν : Type} [DecidableEq κ] (compute : κ → ν)

/-- The stored answer if there is one, otherwise a computed one that is stored. -/
def ask (table : AList fun _ : κ => ν) (key : κ) : ν × AList fun _ : κ => ν :=
  match table.lookup key with
  | some answer => (answer, table)
  | none => (compute key, table.insert key (compute key))

/-- Every stored answer is the computed one. -/
def Sound (table : AList fun _ : κ => ν) : Prop :=
  ∀ key answer, table.lookup key = some answer → answer = compute key

theorem sound_empty : Sound compute ∅ := by
  intro key answer h
  simp at h

theorem sound_insert {table : AList fun _ : κ => ν} (h : Sound compute table) (key : κ) :
    Sound compute (table.insert key (compute key)) := by
  intro key' answer hlookup
  by_cases hkey : key' = key
  · subst hkey
    rw [AList.lookup_insert] at hlookup
    exact (Option.some.inj hlookup).symm
  · rw [AList.lookup_insert_ne hkey] at hlookup
    exact h key' answer hlookup

variable {compute} {table : AList fun _ : κ => ν}

theorem ask_fst (h : Sound compute table) (key : κ) : (ask compute table key).1 = compute key := by
  unfold ask
  cases hlookup : table.lookup key with
  | none => rfl
  | some answer => exact h key answer hlookup

theorem sound_ask (h : Sound compute table) (key : κ) :
    Sound compute (ask compute table key).2 := by
  unfold ask
  cases table.lookup key with
  | none => exact sound_insert compute h key
  | some answer => exact h

end Threadctl.Support.Memo
