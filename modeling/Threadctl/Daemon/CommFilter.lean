import Threadctl.Core.PackageMatch
import Threadctl.Daemon.EbpfSource

/-!
# The coarse filter in the kernel

A fork or exec event is dropped unless some eight-byte window of the task's `comm`
is one of the keys written from the configured package names.
-/

namespace Threadctl.Daemon

open Threadctl.Core Threadctl.Support.Indexing

/-- Any of the nine windows of a 16-byte `comm` is in `TARGET_COMM_MAP`. -/
def commMatches (map : BpfMap (List UInt8)) (comm : List UInt8) : Bool :=
  (List.range 9).any fun pos => decide ((comm.drop pos).take 8 ∈ map.keys)

/-- At most 15 bytes, filled up to 16 with zeros. -/
def padComm (bytes : List UInt8) : List UInt8 :=
  bytes ++ List.replicate (16 - bytes.length) 0

/-- The `comm` cut from the front of a package name. -/
def commFirst (pkg : String) : List UInt8 := padComm (pkg.toUTF8.toList.take 15)

/-- The `comm` cut from the end of a package name. -/
def commLast (pkg : String) : List UInt8 :=
  let bytes := pkg.toUTF8.toList
  padComm (bytes.drop (bytes.length - 15))

/-! ## What passes -/

@[simp] theorem length_padComm {bytes : List UInt8} (h : bytes.length ≤ 16) :
    (padComm bytes).length = 16 := by
  simp only [padComm, List.length_append, List.length_replicate]
  omega

theorem length_commFirst (pkg : String) : (commFirst pkg).length = 16 :=
  length_padComm (by rw [List.length_take]; omega)

theorem length_commLast (pkg : String) : (commLast pkg).length = 16 :=
  length_padComm (by rw [List.length_drop]; omega)

theorem length_of_mem_pkgKeys {pkg : String} {key : List UInt8} (h : key ∈ pkgKeys pkg) :
    key.length = 8 := by
  have hpad : ∀ bytes : List UInt8, (padKey bytes).length = 8 := by
    intro bytes
    simp only [padKey, List.length_append, List.length_take, List.length_replicate]
    omega
  simp only [pkgKeys] at h
  split at h
  · simp at h
  · split at h
    · rename_i hlong
      rcases List.mem_cons.mp h with rfl | hlast
      · exact hpad _
      · rw [List.mem_singleton.mp hlast, List.length_drop]
        omega
    · rw [List.mem_singleton.mp h]
      exact hpad _

theorem mem_targetEntries {pkgs : List String} {key : List UInt8} :
    key ∈ targetEntries pkgs ↔ ∃ pkg ∈ pkgs, key ∈ pkgKeys pkg := by
  rw [targetEntries, List.mem_dedup, List.mem_insertionSort, List.mem_flatMap]

/-- With the keys of `pkgs` in the map, a `comm` passes when one of them occurs in it. -/
theorem commMatches_iff {map : BpfMap (List UInt8)} {pkgs : List String} {comm : List UInt8}
    (hmap : ∀ key, key ∈ map.keys ↔ key ∈ targetEntries pkgs) (hlen : comm.length = 16) :
    commMatches map comm = true ↔ ∃ pkg ∈ pkgs, ∃ key ∈ pkgKeys pkg, key <:+: comm := by
  simp only [commMatches, List.any_eq_true, List.mem_range, decide_eq_true_iff, hmap,
    mem_targetEntries]
  constructor
  · rintro ⟨pos, hpos, pkg, hpkg, hkey⟩
    have hinfix : (comm.drop pos).take 8 <:+: comm :=
      (List.take_prefix _ _).isInfix.trans (List.drop_suffix _ _).isInfix
    exact ⟨pkg, hpkg, _, hkey, hinfix⟩
  · rintro ⟨pkg, hpkg, key, hkey, hinfix⟩
    have hkeylen := length_of_mem_pkgKeys hkey
    obtain ⟨pos, hfits, hwindow⟩ := infix_iff_window.mp hinfix
    rw [hkeylen] at hfits hwindow
    exact ⟨pos, by omega, pkg, hpkg, hwindow ▸ hkey⟩

/-! ## Exact names pass -/

theorem padKey_begins (bytes : List UInt8) : padKey bytes <+: padComm (bytes.take 15) := by
  rw [List.prefix_iff_eq_take]
  have hkey : (padKey bytes).length = 8 := by
    simp only [padKey, List.length_append, List.length_take, List.length_replicate]
    omega
  rw [hkey, padComm, List.take_append, List.take_take, List.length_take, List.take_replicate,
    padKey]
  congr 2
  omega

theorem lastKey_infix {bytes : List UInt8} (h : 15 < bytes.length) :
    bytes.drop (bytes.length - 8) <:+: padComm (bytes.drop (bytes.length - 15)) := by
  have hsuffix : bytes.drop (bytes.length - 8) <:+ bytes.drop (bytes.length - 15) := by
    have hdrop : bytes.drop (bytes.length - 8) = (bytes.drop (bytes.length - 15)).drop 7 := by
      rw [List.drop_drop]
      congr 1
      omega
    rw [hdrop]
    exact List.drop_suffix _ _
  exact hsuffix.isInfix.trans (List.prefix_append _ _).isInfix

theorem length_toList_loop (b : ByteArray) (i : Nat) (acc : List UInt8) :
    (ByteArray.toList.loop b i acc).length = acc.length + (b.size - i) := by
  fun_induction ByteArray.toList.loop b i acc with
  | case1 i acc hlt ih =>
      rw [ih, List.length_cons]
      omega
  | case2 i acc hge =>
      rw [List.length_reverse]
      omega

theorem utf8_ne_nil {pkg : String} (h : pkg ≠ "") : pkg.toUTF8.toList ≠ [] := by
  have hlen : pkg.toUTF8.toList.length = pkg.utf8ByteSize := by
    rw [ByteArray.toList, length_toList_loop, List.length_nil]
    simp
  intro hnil
  rw [hnil, List.length_nil] at hlen
  exact h (String.utf8ByteSize_eq_zero_iff.mp hlen.symm)

theorem pkgKeys_eq {pkg : String} (h : pkg ≠ "") :
    pkgKeys pkg =
      if 8 < pkg.toUTF8.toList.length then
        [padKey pkg.toUTF8.toList, pkg.toUTF8.toList.drop (pkg.toUTF8.toList.length - 8)]
      else [padKey pkg.toUTF8.toList] := by
  apply if_neg
  rw [List.isEmpty_iff]
  exact utf8_ne_nil h

/-- One of the keys of a name occurs in each shape of its own `comm`. -/
theorem exists_key_infix {pkg : String} (hne : pkg ≠ "") {comm : List UInt8}
    (hcomm : comm = commFirst pkg ∨ comm = commLast pkg) :
    ∃ key ∈ pkgKeys pkg, key <:+: comm := by
  have hfirst : padKey pkg.toUTF8.toList ∈ pkgKeys pkg := by
    rw [pkgKeys_eq hne]
    split
    · exact List.mem_cons_self
    · exact List.mem_singleton_self _
  by_cases hlong : 15 < pkg.toUTF8.toList.length
  · rcases hcomm with rfl | rfl
    · exact ⟨_, hfirst, (padKey_begins _).isInfix⟩
    · have hlast : pkg.toUTF8.toList.drop (pkg.toUTF8.toList.length - 8) ∈ pkgKeys pkg := by
        rw [pkgKeys_eq hne, if_pos (by omega)]
        exact List.mem_cons_of_mem _ (List.mem_singleton_self _)
      exact ⟨_, hlast, lastKey_infix hlong⟩
  · -- a short name is one `comm` from both ends
    have hwhole : commLast pkg = commFirst pkg := by
      have hdrop : pkg.toUTF8.toList.length - 15 = 0 := by omega
      rw [commLast, commFirst, hdrop, List.drop_zero, List.take_of_length_le (by omega)]
    have hcomm' : comm = commFirst pkg := by
      rcases hcomm with h | h
      · exact h
      · exact h.trans hwhole
    exact ⟨_, hfirst, hcomm' ▸ (padKey_begins _).isInfix⟩

/-! ## Contract: wanted packages pass -/

/-- The filter passes a package in both shapes of its `comm` exactly when, unless the
rules do not want it or name it exactly, a key of some configured name occurs in each. -/
theorem commMatches_wanted_iff (fnmatch : String → String → Bool) (configs : List RuleConfig)
    (topo : CpuTopology) (map : BpfMap (List UInt8)) (pkg : String)
    (hmap : ∀ key, key ∈ map.keys ↔ key ∈ targetEntries (compile configs topo).rules.pkgs) :
    ((compile configs topo).rules.isInterested fnmatch pkg = true →
        ∀ comm, comm = commFirst pkg ∨ comm = commLast pkg → commMatches map comm = true) ↔
      ((compile configs topo).rules.isInterested fnmatch pkg = true →
        pkg ∉ (compile configs topo).rules.pkgs →
          ∀ comm, comm = commFirst pkg ∨ comm = commLast pkg →
            ∃ name ∈ (compile configs topo).rules.pkgs, ∃ key ∈ pkgKeys name, key <:+: comm) := by
  have hlen : ∀ {comm}, comm = commFirst pkg ∨ comm = commLast pkg → comm.length = 16 := by
    rintro comm (rfl | rfl)
    · exact length_commFirst pkg
    · exact length_commLast pkg
  have hne : pkg ∈ (compile configs topo).rules.pkgs → pkg ≠ "" := by
    intro hlisted
    obtain ⟨r, hr, rfl⟩ := mem_pkgs_iff.mp hlisted
    obtain ⟨rc, -, haccepted, rfl⟩ := mem_compile_rules.mp hr
    intro hempty
    have hpkg : rc.pkg = "" := hempty
    exact haccepted.pkg_ne (by rw [hpkg]; rfl)
  constructor
  · intro h hwanted _ comm hcomm
    exact (commMatches_iff hmap (hlen hcomm)).mp (h hwanted comm hcomm)
  · intro h hwanted comm hcomm
    rw [commMatches_iff hmap (hlen hcomm)]
    by_cases hlisted : pkg ∈ (compile configs topo).rules.pkgs
    · exact ⟨pkg, hlisted, exists_key_infix (hne hlisted) hcomm⟩
    · exact h hwanted hlisted comm hcomm

/-- The map after the keys of the packages were written. -/
def targetMap (pkgs : List String) : BpfMap (List UInt8) := ⟨64, targetEntries pkgs⟩

theorem commMatches_wanted_at_com_tencent :
    commMatches (targetMap ["com.tencent.mm.plugin"]) (commLast "com.tencent.mm.plugin") = true :=
  (commMatches_wanted_iff glob [.ofCpus "com.tencent.mm.plugin" "" "0-3"] (.flat 8)
    (targetMap ["com.tencent.mm.plugin"]) "com.tencent.mm.plugin" (fun _ => Iff.rfl)).mpr
    (fun _ hunlisted => absurd (by decide +kernel) hunlisted) (by decide +kernel) _ (Or.inr rfl)

/-- A package only a pattern covers: the key holds the wildcard as a byte. -/
theorem commMatches_misses_pattern :
    let rs := (compile [.ofCpus "com.*" "" "0-3"] (.flat 8)).rules
    rs.isInterested glob "com.a" = true ∧
      commMatches (targetMap rs.pkgs) (commFirst "com.a") = false ∧
      commMatches (targetMap rs.pkgs) (commLast "com.a") = false := by
  decide +kernel

end Threadctl.Daemon
