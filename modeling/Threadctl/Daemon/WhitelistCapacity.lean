import Threadctl.Daemon.ExitFilter
import Threadctl.Support.Runs

/-!
# The whitelist over reloads

`TARGET_COMM_MAP` gets its size from the configuration it is created for.  A later one is
written into the same map, key by key, and a key that does not fit is left out without a
word.
-/

namespace Threadctl.Daemon

open Threadctl.Core Threadctl.Support.Indexing Threadctl.Support.Runs

section Maps

variable {α : Type} [DecidableEq α]

theorem BpfMap.capacity_insert (m : BpfMap α) (key : α) : (m.insert key).capacity = m.capacity := by
  unfold BpfMap.insert
  split
  · rfl
  · split
    · rfl
    · rfl

theorem BpfMap.capacity_foldl_insert (keys : List α) (m : BpfMap α) :
    (keys.foldl BpfMap.insert m).capacity = m.capacity := by
  induction keys generalizing m with
  | nil => rfl
  | cons key keys ih => exact (ih _).trans (m.capacity_insert key)

theorem BpfMap.capacity_foldl_remove (keys : List α) (m : BpfMap α) :
    (keys.foldl BpfMap.remove m).capacity = m.capacity := by
  induction keys generalizing m with
  | nil => rfl
  | cons key keys ih => exact ih _

theorem BpfMap.keys_foldl_insert {keys : List α} {m : BpfMap α} (hnodup : keys.Nodup)
    (hnew : ∀ key ∈ keys, key ∉ m.keys) :
    (keys.foldl BpfMap.insert m).keys = m.keys ++ keys.take (m.capacity - m.keys.length) := by
  induction keys generalizing m with
  | nil => simp
  | cons key keys ih =>
      obtain ⟨hkey, hkeys⟩ := List.nodup_cons.mp hnodup
      rw [List.foldl_cons, BpfMap.insert, if_neg (hnew key List.mem_cons_self)]
      by_cases hroom : m.keys.length < m.capacity
      · have hfresh : ∀ k ∈ keys, k ∉ m.keys ++ [key] := by
          intro k hk hmem
          rcases List.mem_append.mp hmem with hold | hlast
          · exact hnew k (List.mem_cons_of_mem _ hk) hold
          · exact hkey (List.mem_singleton.mp hlast ▸ hk)
        have hrest : m.capacity - m.keys.length = m.capacity - (m.keys.length + 1) + 1 := by omega
        rw [if_pos hroom, ih hkeys hfresh, hrest, List.take_succ_cons, List.append_assoc,
          List.length_append, List.length_singleton, List.singleton_append]
      · have hfull : m.capacity - m.keys.length = 0 := by omega
        rw [if_neg hroom, ih hkeys fun k hk => hnew k (List.mem_cons_of_mem _ hk), hfull,
          List.take_zero, List.take_zero]

end Maps

/-- The keys of the map, where it can be opened, are those of the configuration. -/
def EbpfSource.Follows (src : EbpfSource) (cfg : ConfigSnapshot) : Prop :=
  ∀ target, src.targetComm = some target →
    ∀ key, key ∈ target.keys ↔ key ∈ targetEntries cfg.rules.pkgs

theorem nodup_targetEntries (pkgs : List String) : (targetEntries pkgs).Nodup :=
  List.nodup_dedup _

theorem onConfigChanged_targetComm (src : EbpfSource) (cfg : ConfigSnapshot) :
    (src.onConfigChanged cfg).targetComm = src.targetComm.map fun target =>
      ⟨target.capacity, (targetEntries cfg.rules.pkgs).take target.capacity⟩ := by
  unfold EbpfSource.onConfigChanged EbpfSource.updateWhitelist
  dsimp only
  cases src.targetComm with
  | none => rfl
  | some target =>
      have hempty : (target.keys.foldl BpfMap.remove target).keys = [] := by
        refine List.eq_nil_iff_forall_not_mem.mpr fun key hkey => ?_
        obtain ⟨hmem, hnot⟩ := (mem_foldl_remove target.keys target key).mp hkey
        exact hnot hmem
      have hkeys := BpfMap.keys_foldl_insert (m := target.keys.foldl BpfMap.remove target)
        (nodup_targetEntries cfg.rules.pkgs) (by simp [hempty])
      have hcapacity := BpfMap.capacity_foldl_insert (targetEntries cfg.rules.pkgs)
        (target.keys.foldl BpfMap.remove target)
      rw [BpfMap.capacity_foldl_remove] at hkeys hcapacity
      rw [hempty, List.nil_append, List.length_nil, Nat.sub_zero] at hkeys
      refine congrArg some ?_
      calc (targetEntries cfg.rules.pkgs).foldl BpfMap.insert _
          = ⟨_, _⟩ := rfl
        _ = ⟨target.capacity, _⟩ := by rw [hcapacity, hkeys]

/-- The map follows a configuration whose keys fit, and no other. -/
theorem follows_onConfigChanged_iff {src : EbpfSource} {target : BpfMap (List UInt8)}
    (htarget : src.targetComm = some target) (cfg : ConfigSnapshot) :
    (src.onConfigChanged cfg).Follows cfg ↔
      (targetEntries cfg.rules.pkgs).length ≤ target.capacity := by
  unfold EbpfSource.Follows
  rw [onConfigChanged_targetComm, htarget]
  refine Iff.trans ?_ (mem_take_iff_of_nodup (nodup_targetEntries cfg.rules.pkgs) target.capacity)
  constructor
  · exact fun h => h _ rfl
  · rintro h _ ⟨⟩
    exact h

/-! ## Runs of configurations -/

/-- The size that the map gets from the configuration it is created for. -/
def whitelistCapacity (first : ConfigSnapshot) : Nat :=
  max (nextPowerOfTwo (first.rules.pkgs.length * 2)) 64

theorem le_nextPowerOfTwo (n : Nat) : n ≤ nextPowerOfTwo n := by
  unfold nextPowerOfTwo
  split
  · assumption
  · have hlt : n - 1 < 2 ^ (Nat.log2 (n - 1) + 1) := Nat.lt_log2_self
    omega

theorem length_targetEntries_le (pkgs : List String) :
    (targetEntries pkgs).length ≤ pkgs.length * 2 := by
  have hkeys : ∀ pkg, (pkgKeys pkg).length ≤ 2 := by
    intro pkg
    unfold pkgKeys
    dsimp only
    split
    · simp
    · split
      · simp
      · simp
  have hflat : (pkgs.flatMap pkgKeys).length ≤ pkgs.length * 2 := by
    induction pkgs with
    | nil => simp
    | cons pkg pkgs ih =>
        have hpkg := hkeys pkg
        rw [List.flatMap_cons, List.length_append, List.length_cons]
        omega
  calc (targetEntries pkgs).length
      ≤ ((pkgs.flatMap pkgKeys).insertionSort (· ≤ ·)).length :=
        (List.dedup_sublist _).length_le
    _ = (pkgs.flatMap pkgKeys).length := List.length_insertionSort _ _
    _ ≤ pkgs.length * 2 := hflat

theorem fits_of_pkgs_le {first cfg : ConfigSnapshot}
    (h : cfg.rules.pkgs.length ≤ first.rules.pkgs.length) :
    (targetEntries cfg.rules.pkgs).length ≤ whitelistCapacity first := by
  have hkeys := length_targetEntries_le cfg.rules.pkgs
  have hpower := le_nextPowerOfTwo (first.rules.pkgs.length * 2)
  unfold whitelistCapacity
  omega

theorem capacity_of_run (src : EbpfSource) {target : BpfMap (List UInt8)}
    (htarget : src.targetComm = some target) (cfgs : List ConfigSnapshot) :
    ∃ target', (run EbpfSource.onConfigChanged src cfgs).targetComm = some target' ∧
      target'.capacity = target.capacity := by
  refine run_invariant EbpfSource.onConfigChanged
    (Q := fun src => ∃ target', src.targetComm = some target' ∧ target'.capacity = target.capacity)
    ?_ ⟨target, htarget, rfl⟩ cfgs
  rintro src cfg ⟨target', htarget', hcapacity⟩
  exact ⟨_, (onConfigChanged_targetComm src cfg).trans (congrArg _ htarget'), hcapacity⟩

/-- Over every sequence of configurations the whitelist follows each of them exactly when the
keys of each fit into the map that was created for the first one. -/
theorem whitelist_follows_iff (first : ConfigSnapshot) (now : Nat) (hasTracked : Bool)
    (cfgs : List ConfigSnapshot) :
    AtEach EbpfSource.onConfigChanged (fun src cfg => (src.onConfigChanged cfg).Follows cfg)
        (.tryNew first now true hasTracked) cfgs ↔
      ∀ cfg ∈ cfgs, (targetEntries cfg.rules.pkgs).length ≤ whitelistCapacity first := by
  have hstep : ∀ before (cfg : ConfigSnapshot),
      ((run EbpfSource.onConfigChanged (.tryNew first now true hasTracked) before).onConfigChanged
          cfg).Follows cfg ↔
        (targetEntries cfg.rules.pkgs).length ≤ whitelistCapacity first := by
    intro before cfg
    obtain ⟨target, htarget, hcapacity⟩ :=
      capacity_of_run (.tryNew first now true hasTracked) rfl before
    rw [follows_onConfigChanged_iff htarget cfg, hcapacity]
    rfl
  constructor
  · intro h cfg hcfg
    obtain ⟨before, after, hsplit⟩ := List.append_of_mem hcfg
    exact (hstep before cfg).mp (h before cfg after hsplit)
  · rintro h before cfg after rfl
    exact (hstep before cfg).mpr (h cfg (by simp))

/-- Package names that differ in their first and in their last eight bytes. -/
def numberedPkg (i : Nat) : String :=
  let name := [Char.ofNat (98 + i / 8), Char.ofNat (98 + i % 8)]
  String.ofList (name ++ ".games".toList ++ name)

def numberedConfig (n : Nat) : ConfigSnapshot where
  version := n
  rules := (compile ((List.range n).map fun i =>
    ⟨numberedPkg i, "", "", none, some 0, none, none⟩) (.flat 4)).rules

/-- From one package to 33 the keys outgrow the map. -/
theorem whitelist_overflows :
    ¬ ∀ first now hasTracked cfgs,
      AtEach EbpfSource.onConfigChanged (fun src cfg => (src.onConfigChanged cfg).Follows cfg)
        (.tryNew first now true hasTracked) cfgs := by
  intro h
  have hfollows := h (numberedConfig 1) 0 true [numberedConfig 33] [] _ [] rfl
  have hfits := (follows_onConfigChanged_iff rfl (numberedConfig 33)).mp hfollows
  have hkeys : (targetEntries (numberedConfig 33).rules.pkgs).length = 66 := by decide +kernel
  rw [hkeys] at hfits
  exact absurd hfits (by decide +kernel)

end Threadctl.Daemon
