import Threadctl.Core.Config
import Threadctl.Core.Engine
import Threadctl.Support.LastWrite

/-!
# Configuration files

A file is parsed to a document of nodes by the `kdl` crate.  This module reads the document:
app nodes with the policies of a package, and the nodes with the settings of the daemon and
of the engine.
-/

namespace Threadctl.Core

open Threadctl.Support.Text Threadctl.Support.LastWrite

/-! ## Documents -/

inductive KdlValue where
  | string (s : String)
  /-- The crate's integers are `i128`. -/
  | integer (v : Int)
  | float
  | bool (b : Bool)
  | null
  deriving DecidableEq

def KdlValue.asString : KdlValue → Option String
  | .string s => some s
  | _ => none

def KdlValue.asInteger : KdlValue → Option Int
  | .integer v => some v
  | _ => none

def KdlValue.asBool : KdlValue → Option Bool
  | .bool b => some b
  | _ => none

/-- An argument, or a property when it has a name. -/
structure KdlEntry where
  name : Option String
  value : KdlValue

structure KdlNode where
  name : String
  entries : List KdlEntry
  children : Option (List KdlNode)

namespace KdlNode

/-- The nodes of the children block, if there is one. -/
def nodes (node : KdlNode) : List KdlNode := node.children.getD []

/-- `entries().first()` and its value. -/
def firstValue (node : KdlNode) : Option KdlValue := node.entries.head?.map KdlEntry.value

def firstString (node : KdlNode) : Option String := node.firstValue.bind KdlValue.asString

def firstInteger (node : KdlNode) : Option Int := node.firstValue.bind KdlValue.asInteger

end KdlNode

def castI32 (v : Int) : Int := v.bmod (2 ^ 32)

def castU32 (v : Int) : Nat := (v % 2 ^ 32).toNat

def castU64 (v : Int) : Nat := (v % 2 ^ 64).toNat

/-! ## Policies -/

inductive PolicyField where
  | cluster
  | cpus
  | sched
  | priority
  | nice
  | uclampMin
  | uclampMax
  deriving DecidableEq

def PolicyField.all : List PolicyField :=
  [.cluster, .cpus, .sched, .priority, .nice, .uclampMin, .uclampMax]

def PolicyField.key : PolicyField → String
  | .cluster => "cluster"
  | .cpus => "cpus"
  | .sched => "sched"
  | .priority => "priority"
  | .nice => "nice"
  | .uclampMin => "uclamp-min"
  | .uclampMax => "uclamp-max"

def PolicyField.ofKey? (key : String) : Option PolicyField :=
  PolicyField.all.find? fun f => f.key = key

/-- The locals of `parse`. -/
structure PolicyDraft where
  pol : PolicyModel
  priority : Option Int

/-- A value of another type takes the field's value away. -/
def PolicyDraft.set (d : PolicyDraft) (val : Option KdlValue) : PolicyField → PolicyDraft
  | .cluster => { d with pol := { d.pol with cluster := val.bind KdlValue.asString } }
  | .cpus => { d with pol := { d.pol with cpus := val.bind KdlValue.asString } }
  | .sched => { d with pol := { d.pol with sched := val.bind KdlValue.asString } }
  | .priority => { d with priority := (val.bind KdlValue.asInteger).map castI32 }
  | .nice => { d with pol := { d.pol with nice := (val.bind KdlValue.asInteger).map castI32 } }
  | .uclampMin =>
      { d with pol := { d.pol with uclampMin := (val.bind KdlValue.asInteger).map castU32 } }
  | .uclampMax =>
      { d with pol := { d.pol with uclampMax := (val.bind KdlValue.asInteger).map castU32 } }

/-- A key that is no field changes nothing. -/
def PolicyDraft.read (d : PolicyDraft) (key : Option String) (val : Option KdlValue) :
    PolicyDraft :=
  match key.bind PolicyField.ofKey? with
  | some field => d.set val field
  | none => d

def PolicyDraft.readEntry (d : PolicyDraft) (entry : KdlEntry) : PolicyDraft :=
  d.read entry.name (some entry.value)

def PolicyDraft.readChild (d : PolicyDraft) (child : KdlNode) : PolicyDraft :=
  d.read (some child.name) child.firstValue

/-- The scheduler text with a priority, which it may have already. -/
def withPriority (sched : Option String) (priority : Int) : Option String :=
  if sched.any (containsChar · ':') then sched
  else some (sched.getD "fifo" ++ ":" ++ toString priority)

def PolicyDraft.finish (d : PolicyDraft) : PolicyModel :=
  match d.priority with
  | some priority => { d.pol with sched := withPriority d.pol.sched priority }
  | none => d.pol

/-- `parse`, which never fails: properties first, then children. -/
def KdlNode.parse (node : KdlNode) : PolicyModel :=
  let d := node.entries.foldl PolicyDraft.readEntry ⟨.default, none⟩
  let d := node.nodes.foldl PolicyDraft.readChild d
  d.finish

def AppModel.new (pkg : String) : AppModel where
  pkg := pkg
  profile := none
  defaultPolicy := .default
  threads := ∅
  threadTypes := ∅

/-- A node in the block of an app node; the bare policy fields are passed over. -/
def AppModel.readChild (entry : AppModel) (child : KdlNode) : AppModel :=
  match child.name with
  | "default" => { entry with defaultPolicy := child.parse }
  | "profile" =>
      match child.firstString with
      | some pn => { entry with profile := some pn }
      | none => entry
  | "thread" =>
      match child.firstString with
      | some tn => { entry with threads := entry.threads.insert tn child.parse }
      | none => entry
  | "thread-type" =>
      match child.firstString with
      | some tt => { entry with threadTypes := entry.threadTypes.insert tt child.parse }
      | none => entry
  | _ => entry

/-- The bare fields of an app node replace the default policy, when it has a block. -/
def AppModel.readNode (entry : AppModel) (node : KdlNode) : AppModel :=
  match node.children with
  | some children =>
      children.foldl AppModel.readChild { entry with defaultPolicy := node.parse }
  | none => entry

/-! ## Daemon and engine -/

structure DaemonConfig where
  pidFile : String
  ipcSocket : String
  logLevel : String
  deriving DecidableEq

def DaemonConfig.default : DaemonConfig where
  pidFile := "./run/threadctl.pid"
  ipcSocket := "./run/threadctl.sock"
  logLevel := "info"

def DaemonConfig.readChild (daemon : DaemonConfig) (child : KdlNode) : DaemonConfig :=
  match child.name with
  | "pid-file" => { daemon with pidFile := child.firstString.getD daemon.pidFile }
  | "ipc-socket" => { daemon with ipcSocket := child.firstString.getD daemon.ipcSocket }
  | "log-level" => { daemon with logLevel := child.firstString.getD daemon.logLevel }
  | _ => daemon

def parseDaemon (node : KdlNode) (daemon : DaemonConfig) : DaemonConfig :=
  node.nodes.foldl DaemonConfig.readChild daemon

inductive EngineMode where
  | auto
  | ebpf
  | proc
  | hybrid
  deriving DecidableEq

/-- `EngineConfig` with its mode. -/
structure EngineSettings extends EngineConfig where
  mode : EngineMode
  deriving DecidableEq

def EngineSettings.default : EngineSettings := { EngineConfig.default with mode := .auto }

def EngineMode.ofName? : String → Option EngineMode
  | "auto" => some .auto
  | "ebpf" => some .ebpf
  | "proc" => some .proc
  | "hybrid" => some .hybrid
  | _ => none

def MigrateAction.ofName? : String → Option MigrateAction
  | "observe" => some .observe
  | "suggest" => some .suggest
  | "force" => some .force
  | _ => none

/-- A boolean, or a string that spells one. -/
def KdlValue.flag (v : KdlValue) : Option Bool :=
  match v.asBool with
  | some b => some b
  | none =>
      match v.asString with
      | some "true" => some true
      | some "false" => some false
      | _ => none

def EngineSettings.readChild (engine : EngineSettings) (child : KdlNode) :
    Except String EngineSettings :=
  match child.name with
  | "mode" =>
      match child.firstString with
      | none => .ok engine
      | some v =>
          match EngineMode.ofName? v with
          | some mode => .ok { engine with mode := mode }
          | none => .error ("engine mode 无效: " ++ v)
  | "scan-interval" =>
      .ok { engine with
        scanInterval := (child.firstInteger.map castU64).getD engine.scanInterval }
  | "lock-interval" =>
      .ok { engine with
        lockInterval := (child.firstInteger.map castU64).getD engine.lockInterval }
  | "dead-cleanup-interval" =>
      .ok { engine with
        deadCleanupInterval := (child.firstInteger.map castU64).getD engine.deadCleanupInterval }
  | "migrate-action" =>
      match child.firstString with
      | none => .ok engine
      | some v =>
          match MigrateAction.ofName? v with
          | some action => .ok { engine with migrateAction := action }
          | none => .error ("migrate-action 无效: " ++ v)
  | "pressure-sensitive" =>
      .ok { engine with
        pressureSensitive := (child.firstValue.bind KdlValue.flag).getD engine.pressureSensitive }
  | _ => .ok engine

def parseEngine (node : KdlNode) (engine : EngineSettings) : Except String EngineSettings :=
  node.nodes.foldlM EngineSettings.readChild engine

/-! ## `parse_kdl` -/

/-- The triple that `parse_kdl` builds. -/
structure ParsedConfig where
  model : ConfigModel
  daemon : DaemonConfig
  engine : EngineSettings

def ParsedConfig.empty : ParsedConfig := ⟨⟨∅⟩, .default, .default⟩

/-- `apps.entry(pkg).or_insert_with(..)` -/
def ConfigModel.app (model : ConfigModel) (pkg : String) : AppModel :=
  (model.apps.lookup pkg).getD (.new pkg)

def ParsedConfig.readNode (c : ParsedConfig) (node : KdlNode) : Except String ParsedConfig :=
  match node.name with
  | "app" =>
      match node.firstString with
      | none => .error "app 节点需要包名字符串"
      | some pkg =>
          .ok { c with model := ⟨c.model.apps.insert pkg ((c.model.app pkg).readNode node)⟩ }
  | "daemon" => .ok { c with daemon := parseDaemon node c.daemon }
  | "engine" => (parseEngine node c.engine).map fun engine => { c with engine := engine }
  | _ => .ok c

/-- `parse_kdl` from the document on. -/
def parseKdl (doc : List KdlNode) : Except String ParsedConfig :=
  doc.foldlM ParsedConfig.readNode .empty

end Threadctl.Core
