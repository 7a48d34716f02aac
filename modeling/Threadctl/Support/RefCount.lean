import Mathlib.Data.List.AList

/-!
# Reference counts

A table of counts, one entry per resource in use, and the holders it counts: the
values of a finite map, each holding some resources.  A count of zero is no entry.
-/

namespace Threadctl.Support.RefCount

variable {κ ν δ : Type} [DecidableEq δ]

/-! ## The table -/

abbrev Table (δ : Type) := AList fun _ : δ => Nat

def retain (t : Table δ) (d : δ) : Table δ := t.insert d ((t.lookup d).getD 0 + 1)

/-- One reference less.  The flag says that it was the last. -/
def release (t : Table δ) (d : δ) : Table δ × Bool :=
  match t.lookup d with
  | none => (t, false)
  | some n => if n - 1 = 0 then (t.erase d, true) else (t.insert d (n - 1), false)

/-- The table holds exactly the positive ones of the counts `n`. -/
def Counts (t : Table δ) (n : δ → Nat) : Prop :=
  ∀ d, t.lookup d = if n d = 0 then none else some (n d)

theorem Counts.congr {t : Table δ} {n n' : δ → Nat} (h : Counts t n) (hn : ∀ d, n d = n' d) :
    Counts t n' := by
  intro d
  rw [h d, hn d]

theorem Counts.getD {t : Table δ} {n : δ → Nat} (h : Counts t n) (d : δ) :
    (t.lookup d).getD 0 = n d := by
  rw [h d]
  split
  · rename_i h0
    rw [h0]
    rfl
  · rfl

theorem Counts.retain {t : Table δ} {n : δ → Nat} (h : Counts t n) (d : δ) :
    Counts (retain t d) fun e => if e = d then n e + 1 else n e := by
  intro e
  rw [RefCount.retain, h.getD d]
  by_cases he : e = d
  · subst he
    rw [AList.lookup_insert]
    simp
  · rw [AList.lookup_insert_ne he, h e]
    simp [he]

/-- One reference less to `d`, and no entry where none is left. -/
theorem lookup_release (t : Table δ) (d e : δ) :
    (release t d).1.lookup e =
      if e = d then (t.lookup d).bind fun n => if n - 1 = 0 then none else some (n - 1)
      else t.lookup e := by
  unfold release
  cases hd : t.lookup d with
  | none =>
      by_cases he : e = d
      · subst he
        simp [hd]
      · simp [he]
  | some n =>
      dsimp only
      by_cases hlast : n - 1 = 0
      · rw [if_pos hlast]
        by_cases he : e = d
        · subst he
          simp [hlast]
        · rw [AList.lookup_erase_ne he, if_neg he]
      · rw [if_neg hlast]
        by_cases he : e = d
        · subst he
          simp [hlast]
        · rw [AList.lookup_insert_ne he, if_neg he]

theorem Counts.release {t : Table δ} {n : δ → Nat} (h : Counts t n) {d : δ} (hpos : 0 < n d) :
    Counts (release t d).1 fun e => if e = d then n e - 1 else n e := by
  have hd : t.lookup d = some (n d) := by rw [h d, if_neg (by omega)]
  intro e
  rw [lookup_release, hd, Option.bind_some]
  by_cases he : e = d
  · subst he
    simp only [if_true]
  · simp only [if_neg he]
    exact h e

theorem Counts.release_last {t : Table δ} {n : δ → Nat} (h : Counts t n) {d : δ}
    (hlast : (RefCount.release t d).2 = true) : n d = 1 := by
  unfold RefCount.release at hlast
  rw [h d] at hlast
  by_cases h0 : n d = 0
  · simp [h0] at hlast
  · rw [if_neg h0] at hlast
    by_cases h1 : n d - 1 = 0
    · omega
    · simp [h1] at hlast

theorem pos_retain_iff (t : Table δ) (d e : δ) :
    0 < ((retain t d).lookup e).getD 0 ↔ e = d ∨ 0 < (t.lookup e).getD 0 := by
  unfold retain
  by_cases he : e = d
  · subst he
    simp
  · rw [AList.lookup_insert_ne he, or_iff_right he]

theorem getD_release (t : Table δ) (d e : δ) :
    ((release t d).1.lookup e).getD 0 = (t.lookup e).getD 0 - if e = d then 1 else 0 := by
  rw [lookup_release]
  by_cases he : e = d
  · subst he
    rw [if_pos rfl, if_pos rfl]
    cases t.lookup e with
    | none => rfl
    | some n =>
        rw [Option.bind_some, Option.getD_some]
        split
        · rename_i hlast
          rw [hlast]
          rfl
        · rfl
  · rw [if_neg he, if_neg he, Nat.sub_zero]

theorem pos_release_iff (t : Table δ) (d e : δ) :
    0 < ((release t d).1.lookup e).getD 0 ↔
      ¬ (e = d ∧ (release t d).2 = true) ∧ 0 < (t.lookup e).getD 0 := by
  rw [getD_release]
  by_cases he : e = d
  · subst he
    rw [if_pos rfl, release]
    cases t.lookup e with
    | none => simp
    | some n =>
        dsimp only
        by_cases hlast : n - 1 = 0
        · simp [hlast]
        · simp only [if_neg hlast, Option.getD_some]
          simp
          omega
  · simp [he]

/-! ## The holders -/

def holders (held : ν → List δ) (m : AList fun _ : κ => ν) (d : δ) : Nat :=
  m.entries.countP fun e => d ∈ held e.2

/-- The share of one value in the count of `d`. -/
def share (held : ν → List δ) (v : ν) (d : δ) : Nat := if d ∈ held v then 1 else 0

theorem countP_cons_share (held : ν → List δ) (e : Sigma fun _ : κ => ν)
    (l : List (Sigma fun _ : κ => ν)) (d : δ) :
    ((e :: l).countP fun e => d ∈ held e.2) =
      share held e.2 d + l.countP fun e => d ∈ held e.2 := by
  rw [List.countP_cons, share, Nat.add_comm]
  simp

@[simp] theorem holders_empty (held : ν → List δ) (d : δ) :
    holders held (∅ : AList fun _ : κ => ν) d = 0 := rfl

variable [DecidableEq κ]

theorem countP_eq_add_kerase (held : ν → List δ) {l : List (Sigma fun _ : κ => ν)} {k : κ} {v : ν}
    (hl : l.NodupKeys) (hv : l.dlookup k = some v) (d : δ) :
    (l.countP fun e => d ∈ held e.2) =
      share held v d + (l.kerase k).countP fun e => d ∈ held e.2 := by
  induction l with
  | nil => simp at hv
  | cons e l ih =>
      rw [List.nodupKeys_cons] at hl
      by_cases hk : k = e.1
      · subst hk
        have hev : e.2 = v := Option.some.inj ((List.dlookup_cons_eq l e.1 e.2).symm.trans hv)
        rw [List.kerase_cons_eq rfl, countP_cons_share, hev]
      · have hv' : l.dlookup k = some v := (List.dlookup_cons_ne l e hk).symm.trans hv
        rw [List.kerase_cons_ne hk, countP_cons_share, countP_cons_share, ih hl.2 hv']
        omega

/-- Taking a value out of the map takes its share out of every count. -/
theorem holders_eq_add_erase (held : ν → List δ) {m : AList fun _ : κ => ν} {k : κ} {v : ν}
    (hv : m.lookup k = some v) (d : δ) :
    holders held m d = share held v d + holders held (m.erase k) d :=
  countP_eq_add_kerase held m.nodupKeys hv d

theorem erase_of_none {m : AList fun _ : κ => ν} {k : κ} (hk : m.lookup k = none) :
    m.erase k = m := by
  apply AList.ext
  exact List.kerase_of_notMem_keys (AList.lookup_eq_none.mp hk)

theorem holders_insert (held : ν → List δ) (m : AList fun _ : κ => ν) (k : κ) (v : ν) (d : δ) :
    holders held (m.insert k v) d = share held v d + holders held (m.erase k) d := by
  rw [holders, AList.entries_insert, countP_cons_share]
  rfl

theorem holders_insert_same (held : ν → List δ) {m : AList fun _ : κ => ν} {k : κ} {v w : ν}
    (hv : m.lookup k = some v) (hheld : held w = held v) (d : δ) :
    holders held (m.insert k w) d = holders held m d := by
  rw [holders_insert, holders_eq_add_erase held hv, share, share, hheld]

theorem holders_pos_iff (held : ν → List δ) {m : AList fun _ : κ => ν} {d : δ} :
    0 < holders held m d ↔ ∃ k v, m.lookup k = some v ∧ d ∈ held v := by
  rw [holders, List.countP_pos_iff]
  constructor
  · rintro ⟨e, he, hd⟩
    exact ⟨e.1, e.2, AList.mem_lookup_iff.mpr he, by simpa using hd⟩
  · rintro ⟨k, v, hv, hd⟩
    exact ⟨⟨k, v⟩, AList.mem_lookup_iff.mp hv, by simpa using hd⟩

end Threadctl.Support.RefCount
