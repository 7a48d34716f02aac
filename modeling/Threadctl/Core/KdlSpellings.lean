import Threadctl.Core.KdlRepeats

/-!
# Spellings of a policy

The fields of a policy may be properties or children of their node, and the default policy of
a package may stand on the app node itself or in a `default` child.  A node reads them alike,
but an app node without a block is not read.
-/

namespace Threadctl.Core

open Threadctl.Support.LastWrite

/-- The node writes every assigned field with its value, as a property or as a child, and no
other field. -/
def KdlNode.Spells (node : KdlNode) (values : PolicyField → Option KdlValue) : Prop :=
  ∀ field val, (field, val) ∈ node.writes ↔ val = values field ∧ (values field).isSome

theorem KdlNode.Spells.written {node : KdlNode} {values : PolicyField → Option KdlValue}
    (h : node.Spells values) : node.written = values := by
  funext field
  have hval : ∀ w ∈ node.writes, ∀ val, (if w.1 = field then some w.2 else none) = some val →
      val = values field ∧ (values field).isSome := by
    intro w hw val hwrite
    split at hwrite
    · rename_i hfield
      obtain rfl := Option.some.inj hwrite
      obtain rfl := hfield
      exact (h w.1 w.2).mp hw
    · cases hwrite
  rw [KdlNode.written]
  by_cases hassigned : (values field).isSome
  · have hmem := (h field (values field)).mpr ⟨rfl, hassigned⟩
    rw [lastWrite_of_agree ⟨_, hmem, if_pos rfl⟩ fun w hw val hwrite => (hval w hw val hwrite).1]
    rfl
  · have hnone : lastWrite (fun w : PolicyField × Option KdlValue =>
        if w.1 = field then some w.2 else none) node.writes = none := by
      refine lastWrite_eq_none_iff.mpr fun w hw => ?_
      exact Option.eq_none_iff_forall_ne_some.mpr fun val hwrite =>
        hassigned (hval w hw val hwrite).2
    rw [hnone, Option.not_isSome_iff_eq_none.mp hassigned]
    rfl

theorem KdlNode.Spells.parse_eq {node : KdlNode} {values : PolicyField → Option KdlValue}
    (h : node.Spells values) : node.parse = policyOf values := by
  rw [node.parse_eq, h.written]

/-! ## Blank assignments -/

def PolicyField.Takes (field : PolicyField) (v : KdlValue) : Prop :=
  match field with
  | .cluster | .cpus | .sched => v.asString.isSome
  | .priority | .nice | .uclampMin | .uclampMax => v.asInteger.isSome

def Blank (values : PolicyField → Option KdlValue) : Prop :=
  ∀ field v, values field = some v → ¬ field.Takes v

theorem withPriority_isSome (sched : Option String) (priority : Int) :
    (withPriority sched priority).isSome := by
  unfold withPriority
  split
  · rename_i h
    cases sched with
    | none => simp at h
    | some s => rfl
  · rfl

theorem PolicyDraft.finish_eq_default_iff (d : PolicyDraft) :
    d.finish = .default ↔ d.pol = .default ∧ d.priority = none := by
  unfold PolicyDraft.finish
  cases d.priority with
  | none => simp
  | some priority =>
      refine iff_of_false (fun h => ?_) (by simp)
      have hsched := congrArg PolicyModel.sched h
      have hsome := withPriority_isSome d.pol.sched priority
      rw [show withPriority d.pol.sched priority = none from hsched] at hsome
      cases hsome

theorem policyOf_eq_default_iff (values : PolicyField → Option KdlValue) :
    policyOf values = .default ↔ Blank values := by
  rw [policyOf, PolicyDraft.finish_eq_default_iff]
  simp only [draftOf, PolicyModel.default, PolicyModel.mk.injEq, Option.bind_eq_none_iff,
    Option.map_eq_none_iff]
  constructor
  · rintro ⟨⟨hcluster, hcpus, hmin, hmax, hsched, hnice⟩, hpriority⟩ field v hv
    cases field with
    | cluster => simp [PolicyField.Takes, hcluster v hv]
    | cpus => simp [PolicyField.Takes, hcpus v hv]
    | sched => simp [PolicyField.Takes, hsched v hv]
    | priority => simp [PolicyField.Takes, hpriority v hv]
    | nice => simp [PolicyField.Takes, hnice v hv]
    | uclampMin => simp [PolicyField.Takes, hmin v hv]
    | uclampMax => simp [PolicyField.Takes, hmax v hv]
  · intro h
    have hnone : ∀ {α : Type} (o : Option α), ¬ o.isSome → o = none := fun o ho =>
      Option.not_isSome_iff_eq_none.mp ho
    exact ⟨⟨fun v hv => hnone _ (h .cluster v hv), fun v hv => hnone _ (h .cpus v hv),
      fun v hv => hnone _ (h .uclampMin v hv), fun v hv => hnone _ (h .uclampMax v hv),
      fun v hv => hnone _ (h .sched v hv), fun v hv => hnone _ (h .nice v hv)⟩,
      fun v hv => hnone _ (h .priority v hv)⟩

/-! ## The default policy of an app node -/

/-- The app node gives the fields itself, or in its only `default` child. -/
inductive KdlNode.SpellsDefault (node : KdlNode) (values : PolicyField → Option KdlValue) :
    Prop where
  | bare (hspells : node.Spells values) (hdefault : ¬ node.Names .default)
  | inDefault (child : KdlNode) (hchild : child ∈ node.nodes) (hname : child.name = "default")
      (honly : ∀ other ∈ node.nodes, other.name = "default" → other = child)
      (hspells : child.Spells values)

theorem KdlNode.part?_eq_default_iff (child : KdlNode) :
    child.part? = some .default ↔ child.name = "default" := by
  unfold KdlNode.part?
  generalize child.name = key
  split <;> simp_all

/-- Without a block the fields of an app node are not read. -/
theorem KdlNode.SpellsDefault.defining {node : KdlNode} {values : PolicyField → Option KdlValue}
    (h : node.SpellsDefault values) :
    (node.defining .default).map KdlNode.parse =
      if node.children = none then none else some (policyOf values) := by
  cases h with
  | bare hspells hdefault =>
      rw [KdlNode.defining_of_not_names hdefault]
      cases node.children with
      | none => simp
      | some children => simp [hspells.parse_eq]
  | inDefault child hchild hname honly hspells =>
      unfold KdlNode.nodes at hchild honly
      unfold KdlNode.defining
      cases hchildren : node.children with
      | none =>
          rw [hchildren] at hchild
          cases hchild
      | some children =>
          rw [hchildren] at hchild honly
          have hlast : lastWrite (fun c : KdlNode =>
              if c.part? = some .default then some c else none) children = some child := by
            refine lastWrite_of_agree ⟨child, hchild, if_pos ?_⟩ fun other hother c hc => ?_
            · exact child.part?_eq_default_iff.mpr hname
            · split at hc
              · rename_i hpart
                rw [← Option.some.inj hc]
                exact honly other hother (other.part?_eq_default_iff.mp hpart)
              · cases hc
          rw [Option.bind_some, hlast]
          simp [hspells.parse_eq]

def OnlyApp (doc : List KdlNode) (pkg : String) (node : KdlNode) : Prop :=
  ∃ before after, doc = before ++ node :: after ∧ node.IsApp pkg ∧
    ∀ other ∈ before ++ after, ¬ other.IsApp pkg

theorem OnlyApp.definingNode {doc : List KdlNode} {pkg : String} {node : KdlNode}
    (h : OnlyApp doc pkg node) (part : PolicyPart) :
    definingNode doc pkg part = node.defining part := by
  obtain ⟨before, after, rfl, happ, hothers⟩ := h
  have hnone : ∀ l, (∀ other ∈ l, other ∈ before ++ after) →
      lastWrite (fun n : KdlNode => if n.IsApp pkg then n.defining part else none) l = none := by
    intro l hl
    exact lastWrite_eq_none_iff.mpr fun other hother => if_neg (hothers other (hl other hother))
  rw [Core.definingNode, lastWrite_append, lastWrite_cons, if_pos happ,
    hnone before fun _ => List.mem_append_left _, hnone after fun _ => List.mem_append_right _,
    Option.none_or, Option.or_none]

theorem defaultPolicy_of_spelled {values : PolicyField → Option KdlValue} {doc : List KdlNode}
    {c : ParsedConfig} {pkg : String} {node : KdlNode} (hdoc : parseKdl doc = .ok c)
    (honly : OnlyApp doc pkg node) (hspells : node.SpellsDefault values) :
    (c.model.app pkg).defaultPolicy =
      if node.children = none then .default else policyOf values := by
  have hpolicy := policyAt_of_parseKdl hdoc pkg .default
  rw [honly.definingNode, hspells.defining] at hpolicy
  split at hpolicy
  · rename_i hchildren
    rw [if_pos hchildren]
    exact Option.some.inj hpolicy
  · rename_i hchildren
    rw [if_neg hchildren]
    exact Option.some.inj hpolicy

/-- Two spellings of the fields of a package's default policy are read alike exactly when both
app nodes have a block, or neither has, or no field has a value that it takes.  For a thread or
a thread type every two spellings are read alike. -/
theorem spellings_agree_iff (values : PolicyField → Option KdlValue) (pkg : String)
    (doc doc' : List KdlNode) (c c' : ParsedConfig) (hdoc : parseKdl doc = .ok c)
    (hdoc' : parseKdl doc' = .ok c') :
    (∀ node node', OnlyApp doc pkg node → OnlyApp doc' pkg node' →
      node.SpellsDefault values → node'.SpellsDefault values →
      ((c.model.app pkg).defaultPolicy = (c'.model.app pkg).defaultPolicy ↔
        (node.children = none ↔ node'.children = none) ∨ Blank values)) ∧
    ∀ part child child', definingNode doc pkg part = some child →
      definingNode doc' pkg part = some child' →
      child.Spells values → child'.Spells values →
      (c.model.app pkg).policyAt part = (c'.model.app pkg).policyAt part := by
  constructor
  · intro node node' honly honly' hspells hspells'
    rw [defaultPolicy_of_spelled hdoc honly hspells, defaultPolicy_of_spelled hdoc' honly' hspells',
      ← policyOf_eq_default_iff]
    by_cases h : node.children = none
    · by_cases h' : node'.children = none
      · simp [h, h']
      · simp [h, h', eq_comm]
    · by_cases h' : node'.children = none
      · simp [h, h']
      · simp [h, h']
  · intro part child child' hchild hchild' hspells hspells'
    rw [policyAt_of_parseKdl hdoc, policyAt_of_parseKdl hdoc', hchild, hchild']
    simp [hspells.parse_eq, hspells'.parse_eq]

/-! ## One policy in three spellings -/

/-- The CPUs 0-3 and nothing else. -/
def cpusOnly (field : PolicyField) : Option KdlValue :=
  if field = .cpus then some (.string "0-3") else none

/-- `app "com.a" cpus="0-3"` -/
def propertyApp : KdlNode :=
  ⟨"app", [⟨none, .string "com.a"⟩, ⟨some "cpus", .string "0-3"⟩], none⟩

/-- `default cpus="0-3"` -/
def defaultChild : KdlNode := ⟨"default", [⟨some "cpus", .string "0-3"⟩], none⟩

/-- `app "com.a" { default cpus="0-3" }` -/
def defaultApp : KdlNode := .named "app" "com.a" (some [defaultChild])

theorem spells_cpusOnly {node : KdlNode}
    (h : node.writes = [(.cpus, some (.string "0-3"))]) : node.Spells cpusOnly := by
  intro field val
  rw [h, List.mem_singleton, Prod.mk.injEq]
  by_cases hfield : field = .cpus <;> simp [cpusOnly, hfield]

theorem propertyApp_spells : propertyApp.SpellsDefault cpusOnly := by
  refine .bare (spells_cpusOnly (by decide +kernel)) ?_
  rintro ⟨child, hchild, -⟩
  cases hchild

theorem boundApp_spells : boundApp.SpellsDefault cpusOnly := by
  refine .bare (spells_cpusOnly (by decide +kernel)) ?_
  rintro ⟨child, hchild, hpart⟩
  obtain rfl := List.mem_singleton.mp hchild
  revert hpart
  decide +kernel

theorem defaultApp_spells : defaultApp.SpellsDefault cpusOnly := by
  refine .inDefault defaultChild (List.mem_singleton_self _) rfl ?_
    (spells_cpusOnly (by decide +kernel))
  exact fun other hother _ => List.mem_singleton.mp hother

theorem onlyApp_singleton {node : KdlNode} {pkg : String} (h : node.IsApp pkg) :
    OnlyApp [node] pkg node := ⟨[], [], rfl, h, by simp⟩

theorem spellings_agree_at_com_a :
    ∃ c c', parseKdl [boundApp] = .ok c ∧ parseKdl [defaultApp] = .ok c' ∧
      (c.model.app "com.a").defaultPolicy = (c'.model.app "com.a").defaultPolicy := by
  obtain ⟨c, hc⟩ : ∃ c, parseKdl [boundApp] = .ok c := ⟨_, rfl⟩
  obtain ⟨c', hc'⟩ : ∃ c, parseKdl [defaultApp] = .ok c := ⟨_, rfl⟩
  refine ⟨c, c', hc, hc', ?_⟩
  refine ((spellings_agree_iff cpusOnly "com.a" _ _ c c' hc hc').1 boundApp defaultApp
    (onlyApp_singleton ⟨rfl, rfl⟩) (onlyApp_singleton ⟨rfl, rfl⟩) boundApp_spells
    defaultApp_spells).mpr (Or.inl ?_)
  simp [boundApp, defaultApp, KdlNode.named]

/-- The properties of an app node without a block are lost. -/
theorem app_property_lost :
    propertyApp.SpellsDefault cpusOnly ∧ boundApp.SpellsDefault cpusOnly ∧
      (parseKdl [propertyApp]).toOption.map (fun c => (c.model.app "com.a").defaultPolicy.cpus) =
        some none ∧
      (parseKdl [boundApp]).toOption.map (fun c => (c.model.app "com.a").defaultPolicy.cpus) =
        some (some "0-3") :=
  ⟨propertyApp_spells, boundApp_spells, by decide +kernel, by decide +kernel⟩

end Threadctl.Core
