import Threadctl.Core.KdlReading

/-!
# Numbers of a document

An integer of a document is cast to the type of its setting.  The cast keeps the integers of
that type and no others, and a document is never refused for a number.
-/

namespace Threadctl.Core

open Threadctl.Support.LastWrite

/-! ## Casts -/

/-- The type that an integer of a document is cast to. -/
inductive IntType where
  | i32
  | u32
  | u64
  deriving DecidableEq

def IntType.Fits : IntType → Int → Prop
  | .i32, v => -2 ^ 31 ≤ v ∧ v < 2 ^ 31
  | .u32, v => 0 ≤ v ∧ v < 2 ^ 32
  | .u64, v => 0 ≤ v ∧ v < 2 ^ 64

theorem castI32_of_fits {v : Int} (h : IntType.i32.Fits v) : castI32 v = v := by
  unfold IntType.Fits at h
  unfold castI32
  exact Int.bmod_eq_of_le (by omega) (by omega)

theorem castU32_of_fits {v : Int} (h : IntType.u32.Fits v) : (castU32 v : Int) = v := by
  unfold IntType.Fits at h
  unfold castU32
  omega

theorem castU64_of_fits {v : Int} (h : IntType.u64.Fits v) : (castU64 v : Int) = v := by
  unfold IntType.Fits at h
  unfold castU64
  omega

theorem map_cast_eq {α : Type} {cast : Int → α} {value : α → Int} {o : Option Int}
    (h : ∀ v, o = some v → value (cast v) = v) : (o.map cast).map value = o := by
  cases o with
  | none => rfl
  | some v => exact congrArg some (h v rfl)

def PolicyField.intType? : PolicyField → Option IntType
  | .cluster | .cpus | .sched => none
  | .priority | .nice => some .i32
  | .uclampMin | .uclampMax => some .u32

/-- The nodes of an app node that policies are read from. -/
def KdlNode.PolicyNode (node pol : KdlNode) : Prop :=
  node.children.isSome ∧ pol = node ∨ pol ∈ node.nodes ∧ pol.part?.isSome

/-- The document has the integer `v` in a place of the given type. -/
inductive ReadsNumber (doc : List KdlNode) : IntType → Int → Prop where
  | interval (i : Interval) {node child : KdlNode} {v : Int} (hnode : node ∈ doc)
      (hname : node.name = "engine") (hchild : child ∈ node.nodes)
      (hv : child.interval? i = some v) : ReadsNumber doc .u64 v
  | field {node pol : KdlNode} {field : PolicyField} {val : KdlValue} {t : IntType} {v : Int}
      (hnode : node ∈ doc) (hname : node.name = "app") (hpol : node.PolicyNode pol)
      (hwrite : (field, some val) ∈ pol.writes) (ht : field.intType? = some t)
      (hv : val.asInteger = some v) : ReadsNumber doc t v

/-- Every integer fits the type of its place. -/
def NumbersFit (doc : List KdlNode) : Prop := ∀ t v, ReadsNumber doc t v → t.Fits v

/-! ## Numbers that are kept -/

def intOf (values : PolicyField → Option KdlValue) (field : PolicyField) : Option Int :=
  (values field).bind KdlValue.asInteger

def writtenSched (values : PolicyField → Option KdlValue) : Option String :=
  match intOf values .priority with
  | some v => withPriority ((values .sched).bind KdlValue.asString) v
  | none => (values .sched).bind KdlValue.asString

/-- The numbers of a policy are the integers that are written. -/
structure PolicyModel.KeepsNumbers (p : PolicyModel) (values : PolicyField → Option KdlValue) :
    Prop where
  nice : p.nice = intOf values .nice
  uclampMin : p.uclampMin.map Int.ofNat = intOf values .uclampMin
  uclampMax : p.uclampMax.map Int.ofNat = intOf values .uclampMax
  sched : p.sched = writtenSched values

def valuesAt (doc : List KdlNode) (pkg : String) (part : PolicyPart) :
    PolicyField → Option KdlValue :=
  ((definingNode doc pkg part).map KdlNode.written).getD fun _ => none

/-- The settings of a document are the integers that it has for them, or the defaults. -/
structure NumbersKept (doc : List KdlNode) (c : ParsedConfig) : Prop where
  intervals : ∀ i : Interval, (i.stored c.engine.toEngineConfig : Int) =
    (lastWrite (KdlNode.writtenInterval i) doc).getD (i.stored .default)
  policies : ∀ pkg part p, (c.model.app pkg).policyAt part = some p →
    p.KeepsNumbers (valuesAt doc pkg part)

theorem PolicyDraft.finish_eq (d : PolicyDraft) :
    d.finish = { d.pol with sched := d.finish.sched } := by
  unfold PolicyDraft.finish
  cases d.priority <;> rfl

theorem keepsNumbers_policyOf {values : PolicyField → Option KdlValue}
    (h : ∀ field t v, field.intType? = some t → intOf values field = some v → t.Fits v) :
    (policyOf values).KeepsNumbers values := by
  have hi32 : ∀ field, field.intType? = some .i32 →
      (intOf values field).map castI32 = intOf values field := by
    intro field ht
    have hmap : ((intOf values field).map castI32).map id = intOf values field :=
      map_cast_eq fun v hv => castI32_of_fits (h field .i32 v ht hv)
    simpa using hmap
  have hu32 : ∀ field, field.intType? = some .u32 →
      ((intOf values field).map castU32).map Int.ofNat = intOf values field :=
    fun field ht => map_cast_eq fun v hv => castU32_of_fits (h field .u32 v ht hv)
  have hfields := (draftOf values).finish_eq
  constructor
  · rw [policyOf, hfields]
    exact hi32 .nice rfl
  · rw [policyOf, hfields]
    exact hu32 .uclampMin rfl
  · rw [policyOf, hfields]
    exact hu32 .uclampMax rfl
  · have hpriority : (draftOf values).priority = intOf values .priority := hi32 .priority rfl
    rw [policyOf, PolicyDraft.finish, hpriority, writtenSched]
    cases intOf values .priority <;> rfl

/-! ## Where the numbers are read -/

theorem KdlNode.mem_writes_of_written {node : KdlNode} {field : PolicyField} {val : KdlValue}
    (h : node.written field = some val) : (field, some val) ∈ node.writes := by
  rw [KdlNode.written] at h
  cases hwrite : lastWrite (fun w : PolicyField × Option KdlValue =>
      if w.1 = field then some w.2 else none) node.writes with
  | none =>
      rw [hwrite] at h
      cases h
  | some val' =>
      rw [hwrite] at h
      obtain rfl : val' = some val := h
      obtain ⟨w, hw, hval⟩ := exists_of_lastWrite hwrite
      split at hval
      · rename_i hfield
        rw [← hfield, ← Option.some.inj hval]
        exact hw
      · cases hval

theorem KdlNode.policyNode_of_defining {node pol : KdlNode} {part : PolicyPart}
    (h : node.defining part = some pol) : node.PolicyNode pol := by
  unfold KdlNode.defining at h
  obtain ⟨children, hchildren, h⟩ := Option.bind_eq_some_iff.mp h
  have hblock : node.children.isSome := by rw [hchildren]; rfl
  rcases Option.or_eq_some_iff.mp h with hchild | ⟨-, hown⟩
  · obtain ⟨child, hmem, hpart⟩ := exists_of_lastWrite hchild
    split at hpart
    · rename_i hnamed
      obtain rfl := Option.some.inj hpart
      refine Or.inr ⟨?_, by rw [hnamed]; rfl⟩
      rw [KdlNode.nodes, hchildren]
      exact hmem
    · cases hpart
  · split at hown
    · exact Or.inl ⟨hblock, (Option.some.inj hown).symm⟩
    · cases hown

theorem readsNumber_of_valuesAt {doc : List KdlNode} {pkg : String} {part : PolicyPart}
    {field : PolicyField} {t : IntType} {v : Int} (ht : field.intType? = some t)
    (hv : intOf (valuesAt doc pkg part) field = some v) : ReadsNumber doc t v := by
  obtain ⟨val, hval, hint⟩ := Option.bind_eq_some_iff.mp hv
  unfold valuesAt at hval
  cases hdefining : definingNode doc pkg part with
  | none =>
      rw [hdefining] at hval
      cases hval
  | some pol =>
      rw [hdefining] at hval
      obtain ⟨node, hnode, hpol⟩ := exists_of_lastWrite hdefining
      split at hpol
      · rename_i happ
        exact .field hnode happ.1 (KdlNode.policyNode_of_defining hpol)
          (KdlNode.mem_writes_of_written hval) ht hint
      · cases hpol

theorem readsNumber_of_writtenInterval {doc : List KdlNode} {i : Interval} {v : Int}
    (h : lastWrite (KdlNode.writtenInterval i) doc = some v) : ReadsNumber doc .u64 v := by
  obtain ⟨node, hnode, hv⟩ := exists_of_lastWrite h
  unfold KdlNode.writtenInterval at hv
  split at hv
  · rename_i hname
    obtain ⟨child, hchild, hv⟩ := exists_of_lastWrite hv
    exact .interval i hnode hname hchild hv
  · cases hv

theorem numbersKept_of_fit {doc : List KdlNode} {c : ParsedConfig} (h : parseKdl doc = .ok c)
    (hfit : NumbersFit doc) : NumbersKept doc c := by
  constructor
  · intro i
    rw [intervals_of_parseKdl h i]
    cases hwritten : lastWrite (KdlNode.writtenInterval i) doc with
    | none => rfl
    | some v => exact castU64_of_fits (hfit .u64 v (readsNumber_of_writtenInterval hwritten))
  · intro pkg part p hp
    have hkeeps : (policyOf (valuesAt doc pkg part)).KeepsNumbers (valuesAt doc pkg part) :=
      keepsNumbers_policyOf fun field t v ht hv => hfit t v (readsNumber_of_valuesAt ht hv)
    have hpolicy : p = policyOf (valuesAt doc pkg part) := by
      rw [policyAt_of_parseKdl h] at hp
      unfold valuesAt
      cases hdefining : definingNode doc pkg part with
      | none =>
          rw [hdefining] at hp
          cases part with
          | default => exact (Option.some.inj hp).symm
          | thread tn => cases hp
          | threadType tt => cases hp
      | some pol =>
          rw [hdefining] at hp
          rw [← Option.some.inj hp]
          exact pol.parse_eq
    rw [hpolicy]
    exact hkeeps

/-- The numbers of an accepted document are kept and a number that does not fit is an error,
exactly when every number fits or the document is refused for another reason. -/
theorem numbers_kept_iff (doc : List KdlNode) :
    ((∀ c, parseKdl doc = .ok c → NumbersKept doc c) ∧
      (∀ t v, ReadsNumber doc t v → ¬ t.Fits v → ∃ e, parseKdl doc = .error e)) ↔
      NumbersFit doc ∨ ∃ node ∈ doc, ¬ node.Valid := by
  have hrefused : (∃ node ∈ doc, ¬ node.Valid) ↔ ∃ e, parseKdl doc = .error e := by
    have hok := parseKdl_ok_iff doc
    constructor
    · rintro ⟨node, hnode, hinvalid⟩
      cases hparse : parseKdl doc with
      | error e => exact ⟨e, rfl⟩
      | ok c => exact absurd (hok.mp ⟨c, hparse⟩ node hnode) hinvalid
    · rintro ⟨e, he⟩
      by_contra hvalid
      push Not at hvalid
      obtain ⟨c, hc⟩ := hok.mpr hvalid
      rw [he] at hc
      cases hc
  rw [hrefused]
  constructor
  · rintro ⟨-, herror⟩
    by_cases hfit : NumbersFit doc
    · exact Or.inl hfit
    · unfold NumbersFit at hfit
      push Not at hfit
      obtain ⟨t, v, hread, hv⟩ := hfit
      exact Or.inr (herror t v hread hv)
  · rintro (hfit | ⟨e, he⟩)
    · exact ⟨fun c hc => numbersKept_of_fit hc hfit,
        fun t v hread hv => absurd (hfit t v hread) hv⟩
    · refine ⟨fun c hc => ?_, fun _ _ _ _ => ⟨e, he⟩⟩
      rw [he] at hc
      cases hc

/-- `engine { scan-interval -1 }` -/
def negativeInterval : KdlNode :=
  ⟨"engine", [], some [⟨"scan-interval", [⟨none, .integer (-1)⟩], none⟩]⟩

/-- `app "com.a" { nice 4294967286 }` -/
def hugeNice : KdlNode :=
  ⟨"app", [⟨none, .string "com.a"⟩], some [⟨"nice", [⟨none, .integer 4294967286⟩], none⟩]⟩

/-- A negative interval becomes a very long one, and an oversized nice value a negative one. -/
theorem numbers_change :
    (parseKdl [negativeInterval]).toOption.map (fun c => c.engine.scanInterval) =
        some (2 ^ 64 - 1) ∧
      (parseKdl [hugeNice]).toOption.map (fun c => (c.model.app "com.a").defaultPolicy.nice) =
        some (some (-10)) := by
  decide +kernel

end Threadctl.Core
