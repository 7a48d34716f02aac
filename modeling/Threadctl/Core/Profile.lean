import Threadctl.Core.Config

/-!
# Built-in profiles

The templates an app can name in one line; the app's own nodes override them.
-/

namespace Threadctl.Core

structure ProfileModel where
  default : PolicyModel
  threads : HashMap String PolicyModel
  threadTypes : HashMap String PolicyModel

def ProfileModel.empty : ProfileModel := ⟨.default, ∅, ∅⟩

def single (k : String) (v : PolicyModel) : HashMap String PolicyModel := AList.singleton k v

def onCluster (name : String) : PolicyModel := { PolicyModel.default with cluster := some name }

def builtinProfiles : List (String × ProfileModel) :=
  [("game", {
      default := onCluster "big"
      threads := ∅
      threadTypes := (single "render"
        { onCluster "prime" with uclampMin := some 700 }).insert "audio" (onCluster "little") }),
   ("audio", {
      default := onCluster "little"
      threads := ∅
      threadTypes := single "audio" { onCluster "big" with sched := some "rr:30" } }),
   ("launcher", {
      default := onCluster "big"
      threads := single "RenderThread" { onCluster "prime" with sched := some "fifo:60" }
      threadTypes := ∅ }),
   ("balanced", { ProfileModel.empty with default := onCluster "big" }),
   ("power-save", { ProfileModel.empty with default := onCluster "little" }),
   ("chat", {
      default := onCluster "big"
      threads := single "RenderThread" (onCluster "prime")
      threadTypes := single "audio" { onCluster "big" with sched := some "rr:30" } }),
   ("video", {
      default := onCluster "little"
      threads := single "RenderThread" (onCluster "big")
      threadTypes := single "audio" (onCluster "big") })]

def builtinProfile (name : String) : Option ProfileModel :=
  (builtinProfiles.find? fun p => p.1 = name).map Prod.snd

end Threadctl.Core
