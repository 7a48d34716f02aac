import Threadctl.Core.KdlReading

/-!
# Repeated app nodes

A second app node for a package changes the parts that it mentions.  The default policy is
the exception: a block sets it from the bare fields of the node, also when there are none.
-/

namespace Threadctl.Core

open Threadctl.Support.LastWrite

theorem parseKdl_concat {doc : List KdlNode} {c : ParsedConfig} (h : parseKdl doc = .ok c)
    (node : KdlNode) : parseKdl (doc ++ [node]) = c.readNode node := by
  rw [parseKdl] at h ⊢
  rw [List.foldlM_append, h]
  change [node].foldlM ParsedConfig.readNode c = _
  rw [List.foldlM_cons]
  cases c.readNode node <;> rfl

theorem ParsedConfig.readNode_of_isApp (c : ParsedConfig) {node : KdlNode} {pkg : String}
    (happ : node.IsApp pkg) :
    c.readNode node = .ok { c with
      model := ⟨c.model.apps.insert pkg ((c.model.app pkg).readNode node)⟩ } := by
  simp [ParsedConfig.readNode, happ.1, happ.2]

theorem lookup_of_parseKdl {doc : List KdlNode} {c : ParsedConfig} (h : parseKdl doc = .ok c)
    {pkg : String} (hknown : ∃ node ∈ doc, node.IsApp pkg) :
    c.model.apps.lookup pkg = some (c.model.app pkg) := by
  have hstep : ∀ (c : ParsedConfig) (node : KdlNode) (c' : ParsedConfig),
      c.readNode node = .ok c' → (c'.model.apps.lookup pkg).isSome =
        (if node.IsApp pkg then some true else none).getD (c.model.apps.lookup pkg).isSome := by
    intro c node c' hread
    rw [ParsedConfig.readNode_lookup hread pkg]
    split <;> rfl
  have hsome := foldlM_field (fun c : ParsedConfig => (c.model.apps.lookup pkg).isSome) hstep h
  cases hwrite : lastWrite (fun node : KdlNode => if node.IsApp pkg then some true else none)
      doc with
  | none =>
      obtain ⟨node, hnode, happ⟩ := hknown
      have hnone := lastWrite_eq_none_iff.mp hwrite node hnode
      rw [if_pos happ] at hnone
      cases hnone
  | some b =>
      obtain ⟨node, -, hb⟩ := exists_of_lastWrite hwrite
      obtain rfl : true = b := by
        split at hb
        · exact Option.some.inj hb
        · cases hb
      rw [hwrite] at hsome
      obtain ⟨entry, hentry⟩ := Option.isSome_iff_exists.mp hsome
      rw [ConfigModel.app, hentry]
      rfl

/-! ## What a node mentions -/

def KdlNode.Names (node : KdlNode) (part : PolicyPart) : Prop :=
  ∃ child ∈ node.nodes, child.part? = some part

/-- The node has a `default` child or a bare policy field. -/
def KdlNode.MentionsDefault (node : KdlNode) : Prop :=
  node.Names .default ∨ node.writes ≠ []

theorem KdlNode.defining_of_not_names {node : KdlNode} {part : PolicyPart}
    (h : ¬ node.Names part) :
    node.defining part = if part = .default ∧ node.children.isSome then some node else none := by
  unfold KdlNode.defining
  cases hchildren : node.children with
  | none => simp
  | some children =>
      have hnone : lastWrite (fun child : KdlNode =>
          if child.part? = some part then some child else none) children = none := by
        rw [lastWrite_eq_none_iff]
        intro child hchild
        refine if_neg fun hpart => h ⟨child, ?_, hpart⟩
        rw [KdlNode.nodes, hchildren]
        exact hchild
      rw [Option.bind_some, hnone, Option.none_or]
      simp

/-- What stays when the app node `node` is read: everything that it does not mention. -/
structure OnlyMentioned (node : KdlNode) (pkg : String) (c c' : ParsedConfig)
    (before after : AppModel) : Prop where
  others : ∀ q, q ≠ pkg → c'.model.apps.lookup q = c.model.apps.lookup q
  daemon : c'.daemon = c.daemon
  engine : c'.engine = c.engine
  defaultPolicy : ¬ node.MentionsDefault → after.defaultPolicy = before.defaultPolicy
  profile : (∀ child ∈ node.nodes, child.name ≠ "profile") → after.profile = before.profile
  threads : ∀ tn, ¬ node.Names (.thread tn) → after.threads.lookup tn = before.threads.lookup tn
  threadTypes : ∀ tt, ¬ node.Names (.threadType tt) →
    after.threadTypes.lookup tt = before.threadTypes.lookup tt

theorem AppModel.readNode_profile_of_not_named {entry : AppModel} {node : KdlNode}
    (h : ∀ child ∈ node.nodes, child.name ≠ "profile") :
    (entry.readNode node).profile = entry.profile := by
  have hnone : lastWrite KdlNode.profile? node.nodes = none :=
    lastWrite_eq_none_iff.mpr fun child hchild => if_neg (h child hchild)
  rw [entry.readNode_profile, hnone, Option.none_or]

theorem AppModel.readNode_policyAt_of_not_names {entry : AppModel} {node : KdlNode}
    {part : PolicyPart} (hpart : part ≠ .default) (h : ¬ node.Names part) :
    (entry.readNode node).policyAt part = entry.policyAt part := by
  rw [entry.readNode_policyAt, KdlNode.defining_of_not_names h, if_neg (fun h => hpart h.1)]
  rfl

/-- A default policy that is not mentioned stays exactly when there is no block or it was blank. -/
theorem AppModel.readNode_default_iff (entry : AppModel) {node : KdlNode}
    (h : ¬ node.MentionsDefault) :
    (entry.readNode node).defaultPolicy = entry.defaultPolicy ↔
      node.children = none ∨ entry.defaultPolicy = .default := by
  obtain ⟨hnames, hwrites⟩ := not_or.mp h
  have hpolicy := entry.readNode_policyAt node .default
  rw [KdlNode.defining_of_not_names hnames] at hpolicy
  cases hchildren : node.children with
  | none =>
      rw [AppModel.readNode, hchildren]
      simp
  | some children =>
      rw [hchildren] at hpolicy
      have hblank : (entry.readNode node).defaultPolicy = .default := by
        have hparse := KdlNode.parse_of_no_writes (not_not.mp hwrites)
        exact Option.some.inj (hpolicy.trans (congrArg some hparse))
      rw [hblank]
      simp [eq_comm]

/-- An app node for a package that the document has already changes only what it mentions,
unless it has a block without a `default` child and without a bare field: that makes the
default policy blank. -/
theorem repeated_app_iff (doc : List KdlNode) (c : ParsedConfig) (hdoc : parseKdl doc = .ok c)
    (node : KdlNode) (pkg : String) (happ : node.IsApp pkg)
    (hknown : ∃ known ∈ doc, known.IsApp pkg) :
    ∃ c' before after, parseKdl (doc ++ [node]) = .ok c' ∧
      c.model.apps.lookup pkg = some before ∧ c'.model.apps.lookup pkg = some after ∧
      (OnlyMentioned node pkg c c' before after ↔
        node.children = none ∨ node.MentionsDefault ∨ before.defaultPolicy = .default) := by
  have hread := c.readNode_of_isApp happ
  refine ⟨_, c.model.app pkg, (c.model.app pkg).readNode node,
    (parseKdl_concat hdoc node).trans hread, lookup_of_parseKdl hdoc hknown,
    AList.lookup_insert _, ?_⟩
  constructor
  · intro h
    by_cases hmentions : node.MentionsDefault
    · exact Or.inr (Or.inl hmentions)
    · have hstays := (AppModel.readNode_default_iff _ hmentions).mp (h.defaultPolicy hmentions)
      exact hstays.imp_right Or.inr
  · intro h
    constructor
    · exact fun q hq => AList.lookup_insert_ne hq
    · rfl
    · rfl
    · intro hmentions
      refine (AppModel.readNode_default_iff _ hmentions).mpr ?_
      exact h.imp_right fun h => h.resolve_left hmentions
    · exact AppModel.readNode_profile_of_not_named
    · exact fun tn hnot => AppModel.readNode_policyAt_of_not_names (by simp) hnot
    · exact fun tt hnot => AppModel.readNode_policyAt_of_not_names (by simp) hnot

/-- `name "arg" { .. }` -/
def KdlNode.named (name arg : String) (children : Option (List KdlNode)) : KdlNode :=
  ⟨name, [⟨none, .string arg⟩], children⟩

/-- `app "com.a" { cpus "0-3" }` -/
def boundApp : KdlNode := .named "app" "com.a" (some [.named "cpus" "0-3" none])

/-- `app "com.a" { thread "R" { cpus "7" } }` -/
def threadApp : KdlNode :=
  .named "app" "com.a" (some [.named "thread" "R" (some [.named "cpus" "7" none])])

theorem repeated_app_at_com_a :
    ∃ c c' before after, parseKdl [threadApp] = .ok c ∧
      parseKdl ([threadApp] ++ [boundApp]) = .ok c' ∧
      OnlyMentioned boundApp "com.a" c c' before after := by
  have happ : threadApp.IsApp "com.a" := ⟨rfl, rfl⟩
  have hread : parseKdl [threadApp] =
      .ok { ParsedConfig.empty with
        model := ⟨AList.insert "com.a" ((AppModel.new "com.a").readNode threadApp) ∅⟩ } := by
    rfl
  obtain ⟨c', before, after, hparse, -, -, hiff⟩ := repeated_app_iff [threadApp] _ hread boundApp
    "com.a" ⟨rfl, rfl⟩ ⟨threadApp, List.mem_singleton_self _, happ⟩
  refine ⟨_, c', before, after, hread, hparse, hiff.mpr (Or.inr (Or.inl (Or.inr ?_)))⟩
  decide +kernel

/-- A thread for the package takes the CPUs of its default policy away. -/
theorem repeated_app_drops_cpus :
    threadApp.IsApp "com.a" ∧ ¬ threadApp.MentionsDefault ∧
      (parseKdl [boundApp]).toOption.map (fun c => (c.model.app "com.a").defaultPolicy.cpus) =
        some (some "0-3") ∧
      (parseKdl ([boundApp] ++ [threadApp])).toOption.map
        (fun c => (c.model.app "com.a").defaultPolicy.cpus) = some none := by
  refine ⟨⟨rfl, rfl⟩, ?_, by decide +kernel, by decide +kernel⟩
  rintro (⟨child, hchild, hpart⟩ | hwrites)
  · obtain rfl := List.mem_singleton.mp hchild
    revert hpart
    decide +kernel
  · revert hwrites
    decide +kernel

end Threadctl.Core
