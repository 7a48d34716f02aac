import Threadctl.Core.Engine

/-!
# The configuration store

The current snapshot stands behind a mutex, but `reload` holds it only for single
reads and writes: the version is read, the file is loaded, the snapshot is replaced.
Two threads reload, so every call is cut into these steps.
-/

namespace Threadctl.Core

/-- What loading the configuration file gives, short of a version. -/
structure Compiled where
  rules : RuleSet
  engine : EngineConfig

def Compiled.snapshot (c : Compiled) (version : Nat) : ConfigSnapshot where
  version := version
  rules := c.rules
  engine := c.engine

/-- Where a call of `reload` stands. -/
inductive ReloadPoint where
  /-- `cur.version + 1` is fixed, and the file is read next. -/
  | load (version : Nat)
  /-- The new snapshot is ready to replace the current one. -/
  | install (snapshot : ConfigSnapshot)

inductive ReloadResult where
  | running (point : ReloadPoint)
  | ok
  | failed

def beginReload (current : ConfigSnapshot) : ReloadPoint := .load (current.version + 1)

/-- One step of `reload`: the snapshot in the store after it, and how the call goes on.
`loaded` is what the file holds at this moment, if it can be read and parsed. -/
def ReloadPoint.step (loaded : Option Compiled) (store : ConfigSnapshot) :
    ReloadPoint → ConfigSnapshot × ReloadResult
  | .load version =>
      match loaded with
      | none => (store, .failed)
      | some c => (store, .running (.install (c.snapshot version)))
  | .install snapshot => (snapshot, .ok)

inductive HotReload where
  | waiting
  | reloading (point : ReloadPoint)
  /-- `store.current().version` is read next. -/
  | reloaded
  | sending (version : Nat)

/-- What the hot-reload thread and the main loop share. -/
structure Shared where
  store : ConfigSnapshot
  /-- The versions sent and not yet received. -/
  notices : List Nat

/-- One step of the thread; `changed` is its verdict on the file. -/
def HotReload.step (changed : Bool) (loaded : Option Compiled) (sh : Shared) :
    HotReload → Shared × HotReload
  | .waiting => if changed then (sh, .reloading (beginReload sh.store)) else (sh, .waiting)
  | .reloading point =>
      let r := point.step loaded sh.store
      match r.2 with
      | .running point => ({ sh with store := r.1 }, .reloading point)
      | .ok => ({ sh with store := r.1 }, .reloaded)
      | .failed => ({ sh with store := r.1 }, .waiting)
  | .reloaded => (sh, .sending sh.store.version)
  | .sending version => ({ sh with notices := sh.notices ++ [version] }, .waiting)

theorem ReloadPoint.step_store (loaded : Option Compiled) (store : ConfigSnapshot)
    (point : ReloadPoint) :
    (point.step loaded store).1 =
      match point with
      | .load _ => store
      | .install snapshot => snapshot := by
  cases point with
  | load version => cases loaded <;> rfl
  | install snapshot => rfl

theorem HotReload.step_store (changed : Bool) (loaded : Option Compiled) (sh : Shared)
    (h : HotReload) :
    (h.step changed loaded sh).1.store =
      match h with
      | .reloading (.install snapshot) => snapshot
      | _ => sh.store := by
  cases h with
  | waiting => cases changed <;> rfl
  | reloading point =>
      cases point with
      | load version => cases loaded <;> rfl
      | install snapshot => rfl
  | reloaded => rfl
  | sending version => rfl

end Threadctl.Core
