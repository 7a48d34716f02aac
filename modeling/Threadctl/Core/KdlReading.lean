import Mathlib.Logic.Function.Basic
import Threadctl.Core.Kdl

/-!
# What a document says

The loops of the parser end with the last write to each field.  So a policy is that of the
values written last in its node, a policy of a package is that of the node that defines it
last, and whether a document is accepted is up to its nodes one by one.
-/

namespace Threadctl.Core

open Threadctl.Support.LastWrite

/-! ## A policy node -/

def KdlNode.writes (node : KdlNode) : List (PolicyField × Option KdlValue) :=
  (node.entries.filterMap fun e =>
      (e.name.bind PolicyField.ofKey?).map fun f => (f, some e.value)) ++
    node.nodes.filterMap fun child =>
      (PolicyField.ofKey? child.name).map fun f => (f, child.firstValue)

def KdlNode.written (node : KdlNode) (field : PolicyField) : Option KdlValue :=
  (lastWrite (fun w => if w.1 = field then some w.2 else none) node.writes).getD none

def draftOf (values : PolicyField → Option KdlValue) : PolicyDraft where
  pol :=
    { cluster := (values .cluster).bind KdlValue.asString
      cpus := (values .cpus).bind KdlValue.asString
      uclampMin := ((values .uclampMin).bind KdlValue.asInteger).map castU32
      uclampMax := ((values .uclampMax).bind KdlValue.asInteger).map castU32
      sched := (values .sched).bind KdlValue.asString
      nice := ((values .nice).bind KdlValue.asInteger).map castI32 }
  priority := ((values .priority).bind KdlValue.asInteger).map castI32

def policyOf (values : PolicyField → Option KdlValue) : PolicyModel := (draftOf values).finish

theorem draftOf_set (values : PolicyField → Option KdlValue) (val : Option KdlValue)
    (field : PolicyField) :
    (draftOf values).set val field = draftOf (Function.update values field val) := by
  cases field <;> simp [draftOf, PolicyDraft.set]

theorem foldl_draftOf_set (ws : List (PolicyField × Option KdlValue))
    (values : PolicyField → Option KdlValue) :
    ws.foldl (fun d w => d.set w.2 w.1) (draftOf values) =
      draftOf (ws.foldl (fun values w => Function.update values w.1 w.2) values) := by
  induction ws generalizing values with
  | nil => rfl
  | cons w ws ih => rw [List.foldl_cons, List.foldl_cons, draftOf_set, ih]

theorem foldl_readEntry (entries : List KdlEntry) (d : PolicyDraft) :
    entries.foldl PolicyDraft.readEntry d =
      (entries.filterMap fun e => (e.name.bind PolicyField.ofKey?).map fun f =>
        (f, some e.value)).foldl (fun d w => d.set w.2 w.1) d := by
  induction entries generalizing d with
  | nil => rfl
  | cons e entries ih =>
      rw [List.foldl_cons, ih, List.filterMap_cons, PolicyDraft.readEntry, PolicyDraft.read]
      cases e.name.bind PolicyField.ofKey? <;> rfl

theorem foldl_readChild_draft (children : List KdlNode) (d : PolicyDraft) :
    children.foldl PolicyDraft.readChild d =
      (children.filterMap fun child => (PolicyField.ofKey? child.name).map fun f =>
        (f, child.firstValue)).foldl (fun d w => d.set w.2 w.1) d := by
  induction children generalizing d with
  | nil => rfl
  | cons child children ih =>
      rw [List.foldl_cons, ih, List.filterMap_cons, PolicyDraft.readChild, PolicyDraft.read,
        Option.bind_some]
      cases PolicyField.ofKey? child.name <;> rfl

/-- The policy of a node is that of the values it writes last. -/
theorem KdlNode.parse_eq (node : KdlNode) : node.parse = policyOf node.written := by
  have hblank : (⟨.default, none⟩ : PolicyDraft) = draftOf fun _ => none := rfl
  have hwritten : node.writes.foldl (fun values w => Function.update values w.1 w.2)
      (fun _ => none) = node.written := by
    funext field
    refine foldl_field (fun values : PolicyField → Option KdlValue => values field)
      (fun values w => ?_) node.writes fun _ => none
    rw [Function.update_apply]
    by_cases h : field = w.1
    · rw [if_pos h, if_pos h.symm]
      rfl
    · rw [if_neg h, if_neg (Ne.symm h)]
      rfl
  rw [KdlNode.parse, foldl_readEntry, foldl_readChild_draft, ← List.foldl_append, hblank]
  exact congrArg PolicyDraft.finish
    ((foldl_draftOf_set node.writes _).trans (congrArg draftOf hwritten))

theorem KdlNode.parse_of_no_writes {node : KdlNode} (h : node.writes = []) :
    node.parse = .default := by
  have hwritten : node.written = fun _ => none := by
    funext field
    rw [KdlNode.written, h]
    rfl
  rw [node.parse_eq, hwritten]
  rfl

/-! ## The policies of a package -/

/-- Where a policy of a package stands. -/
inductive PolicyPart where
  | default
  | thread (name : String)
  | threadType (name : String)
  deriving DecidableEq

def AppModel.policyAt (entry : AppModel) : PolicyPart → Option PolicyModel
  | .default => some entry.defaultPolicy
  | .thread tn => entry.threads.lookup tn
  | .threadType tt => entry.threadTypes.lookup tt

def KdlNode.part? (child : KdlNode) : Option PolicyPart :=
  match child.name with
  | "default" => some .default
  | "thread" => child.firstString.map .thread
  | "thread-type" => child.firstString.map .threadType
  | _ => none

/-- The node that defines a part last: an app node with a block defines the default policy
before its children do. -/
def KdlNode.defining (node : KdlNode) (part : PolicyPart) : Option KdlNode :=
  node.children.bind fun children =>
    (lastWrite (fun child => if child.part? = some part then some child else none) children).or
      (if part = .default then some node else none)

theorem lookup_insert_eq_ite {α β : Type} [DecidableEq α] (m : HashMap α β) (k k' : α) (b : β) :
    (m.insert k b).lookup k' = if k = k' then some b else m.lookup k' := by
  split
  · rename_i h
    rw [h, AList.lookup_insert]
  · rename_i h
    rw [AList.lookup_insert_ne (Ne.symm h)]

theorem AppModel.readChild_policyAt (entry : AppModel) (child : KdlNode) (part : PolicyPart) :
    (entry.readChild child).policyAt part =
      if child.part? = some part then some child.parse else entry.policyAt part := by
  unfold AppModel.readChild KdlNode.part?
  generalize child.name = key
  split
  · cases part <;> simp [policyAt]
  · cases child.firstString <;> cases part <;> simp [policyAt]
  · cases child.firstString <;> cases part <;> simp [policyAt, lookup_insert_eq_ite]
  · cases child.firstString <;> cases part <;> simp [policyAt, lookup_insert_eq_ite]
  · split <;> simp_all

theorem AppModel.readNode_policyAt (entry : AppModel) (node : KdlNode) (part : PolicyPart) :
    (entry.readNode node).policyAt part =
      ((node.defining part).map KdlNode.parse).or (entry.policyAt part) := by
  unfold AppModel.readNode KdlNode.defining
  cases node.children with
  | none => rfl
  | some children =>
      have hstep : ∀ (e : AppModel) (child : KdlNode), (e.readChild child).policyAt part =
          ((if child.part? = some part then some child else none).map KdlNode.parse).or
            (e.policyAt part) := by
        intro e child
        rw [e.readChild_policyAt]
        split <;> rfl
      rw [Option.bind_some, Option.map_or, ← lastWrite_map]
      calc (children.foldl readChild { entry with defaultPolicy := node.parse }).policyAt part
        _ = (lastWrite _ children).or
              (policyAt { entry with defaultPolicy := node.parse } part) :=
            foldl_field_or (fun e : AppModel => e.policyAt part) hstep children _
        _ = _ := by
            rw [Option.or_assoc]
            cases part <;> rfl

def KdlNode.profile? (child : KdlNode) : Option String :=
  if child.name = "profile" then child.firstString else none

theorem AppModel.readChild_profile (entry : AppModel) (child : KdlNode) :
    (entry.readChild child).profile = child.profile?.or entry.profile := by
  unfold AppModel.readChild KdlNode.profile?
  generalize child.name = key
  split
  · rfl
  · cases child.firstString <;> rfl
  · cases child.firstString <;> rfl
  · cases child.firstString <;> rfl
  · rename_i hprofile _ _
    rw [if_neg hprofile]
    rfl

theorem AppModel.readNode_profile (entry : AppModel) (node : KdlNode) :
    (entry.readNode node).profile = (lastWrite KdlNode.profile? node.nodes).or entry.profile := by
  unfold AppModel.readNode KdlNode.nodes
  cases node.children with
  | none => rfl
  | some children => exact foldl_field_or AppModel.profile readChild_profile children _

/-! ## A document -/

def KdlNode.IsApp (node : KdlNode) (pkg : String) : Prop :=
  node.name = "app" ∧ node.firstString = some pkg

instance (node : KdlNode) (pkg : String) : Decidable (node.IsApp pkg) :=
  inferInstanceAs (Decidable (_ ∧ _))

/-- What a node of the document can do. -/
inductive NodeStep (c : ParsedConfig) (node : KdlNode) : ParsedConfig → Prop where
  | app (pkg : String) (h : node.IsApp pkg) :
      NodeStep c node
        { c with model := ⟨c.model.apps.insert pkg ((c.model.app pkg).readNode node)⟩ }
  | daemon (h : node.name = "daemon") :
      NodeStep c node { c with daemon := parseDaemon node c.daemon }
  | engine (h : node.name = "engine") (engine : EngineSettings)
      (hread : parseEngine node c.engine = .ok engine) :
      NodeStep c node { c with engine := engine }
  | other (happ : node.name ≠ "app") (hengine : node.name ≠ "engine") : NodeStep c node c

theorem ParsedConfig.nodeStep_of_readNode {c c' : ParsedConfig} {node : KdlNode}
    (h : c.readNode node = .ok c') : NodeStep c node c' := by
  unfold ParsedConfig.readNode at h
  split at h
  · rename_i hname
    cases hpkg : node.firstString with
    | none =>
        rw [hpkg] at h
        cases h
    | some pkg =>
        rw [hpkg] at h
        cases h
        exact .app pkg ⟨hname, hpkg⟩
  · rename_i hname
    cases h
    exact .daemon hname
  · rename_i hname
    cases hread : parseEngine node c.engine with
    | error e =>
        rw [hread] at h
        cases h
    | ok engine =>
        rw [hread] at h
        cases h
        exact .engine hname engine hread
  · rename_i happ _ hengine
    cases h
    exact .other happ hengine

theorem KdlNode.IsApp.unique {node : KdlNode} {pkg pkg' : String} (h : node.IsApp pkg)
    (h' : node.IsApp pkg') : pkg = pkg' :=
  Option.some.inj (h.2.symm.trans h'.2)

/-- An app node replaces the entry of its package. -/
theorem ParsedConfig.readNode_lookup {c c' : ParsedConfig} {node : KdlNode}
    (h : c.readNode node = .ok c') (pkg : String) :
    c'.model.apps.lookup pkg = if node.IsApp pkg then some ((c.model.app pkg).readNode node)
      else c.model.apps.lookup pkg := by
  have hother : node.name ≠ "app" → ¬ node.IsApp pkg := fun hname happ => hname happ.1
  cases ParsedConfig.nodeStep_of_readNode h with
  | app pkg' happ =>
      rw [lookup_insert_eq_ite]
      by_cases hpkg : pkg' = pkg
      · subst hpkg
        rw [if_pos rfl, if_pos happ]
      · rw [if_neg hpkg, if_neg fun happ' => hpkg (happ.unique happ')]
  | daemon hname => rw [if_neg (hother (by simp [hname]))]
  | engine hname => rw [if_neg (hother (by simp [hname]))]
  | other happ => rw [if_neg (hother happ)]

theorem ParsedConfig.readNode_app {c c' : ParsedConfig} {node : KdlNode}
    (h : c.readNode node = .ok c') (pkg : String) :
    c'.model.app pkg = if node.IsApp pkg then (c.model.app pkg).readNode node
      else c.model.app pkg := by
  rw [ConfigModel.app, readNode_lookup h pkg]
  split <;> rfl

def definingNode (doc : List KdlNode) (pkg : String) (part : PolicyPart) : Option KdlNode :=
  lastWrite (fun node => if node.IsApp pkg then node.defining part else none) doc

/-- A policy that is stored is that of its node; a default policy without one is blank. -/
theorem policyAt_of_parseKdl {doc : List KdlNode} {c : ParsedConfig}
    (h : parseKdl doc = .ok c) (pkg : String) (part : PolicyPart) :
    (c.model.app pkg).policyAt part =
      ((definingNode doc pkg part).map KdlNode.parse).or ((AppModel.new pkg).policyAt part) := by
  have hstep : ∀ (c : ParsedConfig) (node : KdlNode) (c' : ParsedConfig),
      c.readNode node = .ok c' → (c'.model.app pkg).policyAt part =
        ((if node.IsApp pkg then node.defining part else none).map KdlNode.parse).or
          ((c.model.app pkg).policyAt part) := by
    intro c node c' hread
    rw [ParsedConfig.readNode_app hread pkg]
    split
    · exact AppModel.readNode_policyAt ..
    · rfl
  have hfield := foldlM_field_or (fun c : ParsedConfig => (c.model.app pkg).policyAt part) hstep h
  rw [lastWrite_map] at hfield
  exact hfield

/-! ## The intervals of the engine -/

inductive Interval where
  | scan
  | lock
  | deadCleanup
  deriving DecidableEq

def Interval.key : Interval → String
  | .scan => "scan-interval"
  | .lock => "lock-interval"
  | .deadCleanup => "dead-cleanup-interval"

def Interval.stored (engine : EngineConfig) : Interval → Nat
  | .scan => engine.scanInterval
  | .lock => engine.lockInterval
  | .deadCleanup => engine.deadCleanupInterval

def KdlNode.interval? (i : Interval) (child : KdlNode) : Option Int :=
  if child.name = i.key then child.firstInteger else none

/-- The last number that an engine node gives an interval. -/
def KdlNode.writtenInterval (i : Interval) (node : KdlNode) : Option Int :=
  if node.name = "engine" then lastWrite (KdlNode.interval? i) node.nodes else none

theorem EngineSettings.readChild_interval (i : Interval) (engine : EngineSettings)
    (child : KdlNode) (engine' : EngineSettings) (h : engine.readChild child = .ok engine') :
    i.stored engine'.toEngineConfig =
      ((child.interval? i).map castU64).getD (i.stored engine.toEngineConfig) := by
  unfold EngineSettings.readChild at h
  unfold KdlNode.interval?
  split at h
  · rename_i hname
    rw [hname, if_neg (by cases i <;> decide)]
    split at h
    · cases h
      rfl
    · split at h
      · cases h
        rfl
      · cases h
  · rename_i hname
    cases h
    cases i <;> simp [hname, Interval.key, Interval.stored]
  · rename_i hname
    cases h
    cases i <;> simp [hname, Interval.key, Interval.stored]
  · rename_i hname
    cases h
    cases i <;> simp [hname, Interval.key, Interval.stored]
  · rename_i hname
    rw [hname, if_neg (by cases i <;> decide)]
    split at h
    · cases h
      rfl
    · split at h
      · cases h
        cases i <;> rfl
      · cases h
  · rename_i hname
    rw [hname, if_neg (by cases i <;> decide)]
    cases h
    cases i <;> rfl
  · rename_i hscan hlock hdead _ _
    cases h
    cases i with
    | scan => rw [if_neg (by exact hscan)]; rfl
    | lock => rw [if_neg (by exact hlock)]; rfl
    | deadCleanup => rw [if_neg (by exact hdead)]; rfl

theorem intervals_of_parseKdl {doc : List KdlNode} {c : ParsedConfig} (h : parseKdl doc = .ok c)
    (i : Interval) :
    i.stored c.engine.toEngineConfig =
      ((lastWrite (KdlNode.writtenInterval i) doc).map castU64).getD (i.stored .default) := by
  have hstep : ∀ (c : ParsedConfig) (node : KdlNode) (c' : ParsedConfig),
      c.readNode node = .ok c' → i.stored c'.engine.toEngineConfig =
        ((node.writtenInterval i).map castU64).getD (i.stored c.engine.toEngineConfig) := by
    intro c node c' hread
    have hother : node.name ≠ "engine" → node.writtenInterval i = none := fun hname => if_neg hname
    cases ParsedConfig.nodeStep_of_readNode hread with
    | app pkg happ =>
        rw [hother (by simp [happ.1])]
        rfl
    | daemon hname =>
        rw [hother (by simp [hname])]
        rfl
    | engine hname engine hengine =>
        rw [KdlNode.writtenInterval, if_pos hname, ← lastWrite_map]
        exact foldlM_field (fun engine : EngineSettings => i.stored engine.toEngineConfig)
          (EngineSettings.readChild_interval i) hengine
    | other happ hname =>
        rw [hother hname]
        rfl
  have hfield := foldlM_field (fun c : ParsedConfig => i.stored c.engine.toEngineConfig) hstep h
  rw [lastWrite_map] at hfield
  exact hfield

/-! ## Which documents are accepted -/

/-- A mode and a migrate action, where they are strings, are known ones. -/
structure KdlNode.EngineValid (child : KdlNode) : Prop where
  mode : child.name = "mode" → ∀ v, child.firstString = some v → (EngineMode.ofName? v).isSome
  migrateAction : child.name = "migrate-action" → ∀ v, child.firstString = some v →
    (MigrateAction.ofName? v).isSome

/-- An app node has its package, and the nodes of an engine node are valid. -/
structure KdlNode.Valid (node : KdlNode) : Prop where
  app : node.name = "app" → node.firstString.isSome
  engine : node.name = "engine" → ∀ child ∈ node.nodes, child.EngineValid

theorem EngineSettings.readChild_ok_iff (engine : EngineSettings) (child : KdlNode) :
    (∃ engine', engine.readChild child = .ok engine') ↔ child.EngineValid := by
  have hvalid : child.EngineValid ↔
      (child.name = "mode" → ∀ v, child.firstString = some v →
        (EngineMode.ofName? v).isSome) ∧
      (child.name = "migrate-action" → ∀ v, child.firstString = some v →
        (MigrateAction.ofName? v).isSome) :=
    ⟨fun h => ⟨h.mode, h.migrateAction⟩, fun h => ⟨h.1, h.2⟩⟩
  rw [hvalid]
  unfold EngineSettings.readChild
  generalize child.name = key
  split
  · cases child.firstString with
    | none => simp
    | some v => cases hmode : EngineMode.ofName? v <;> simp [hmode]
  · simp
  · simp
  · simp
  · cases child.firstString with
    | none => simp
    | some v => cases haction : MigrateAction.ofName? v <;> simp [haction]
  · simp
  · simp_all

theorem ParsedConfig.readNode_ok_iff (c : ParsedConfig) (node : KdlNode) :
    (∃ c', c.readNode node = .ok c') ↔ node.Valid := by
  have hvalid : node.Valid ↔ (node.name = "app" → node.firstString.isSome) ∧
      (node.name = "engine" → ∀ child ∈ node.nodes, child.EngineValid) :=
    ⟨fun h => ⟨h.app, h.engine⟩, fun h => ⟨h.1, h.2⟩⟩
  have hengine : (∃ engine, parseEngine node c.engine = .ok engine) ↔
      ∀ child ∈ node.nodes, child.EngineValid :=
    foldlM_ok_iff EngineSettings.readChild_ok_iff node.nodes c.engine
  rw [hvalid]
  unfold ParsedConfig.readNode
  split
  · rename_i hname
    cases hpkg : node.firstString <;> simp [hname]
  · rename_i hname
    simp [hname]
  · rename_i hname
    rw [← hengine]
    cases parseEngine node c.engine <;> simp [hname, Except.map]
  · simp_all

/-- A document is accepted when its nodes are valid. -/
theorem parseKdl_ok_iff (doc : List KdlNode) :
    (∃ c, parseKdl doc = .ok c) ↔ ∀ node ∈ doc, node.Valid :=
  foldlM_ok_iff ParsedConfig.readNode_ok_iff doc .empty

end Threadctl.Core
