import Threadctl.Core.Topology

/-!
# Policies

The action a rule resolves to, and the outcome of applying it to a thread.
-/

namespace Threadctl.Core

inductive SchedPolicy where
  | other
  | fifo
  | rr
  | batch
  | idle
  deriving DecidableEq

def SchedPolicy.fromStr (s : String) : Option SchedPolicy :=
  if s = "other" ∨ s = "normal" ∨ s = "" then some .other
  else if s = "fifo" then some .fifo
  else if s = "rr" then some .rr
  else if s = "batch" then some .batch
  else if s = "idle" then some .idle
  else none

def SchedPolicy.isRt : SchedPolicy → Bool
  | .fifo | .rr => true
  | _ => false

/-- A resolved rule.  `cpusetDir` names the cpuset directory of `cpus`; the empty
name means the cpuset channel is not used. -/
structure Policy where
  cpus : CpuSet
  cpusetDir : String
  sched : Option SchedPolicy
  schedPrio : Option Int
  nice : Option Int
  uclampMin : Option Nat
  uclampMax : Option Nat
  deriving DecidableEq, Inhabited

def Policy.setsAny (p : Policy) : Bool :=
  0 < p.cpus.count || p.sched.isSome || p.nice.isSome || p.uclampMin.isSome || p.uclampMax.isSome

/-- Result of applying a policy to one thread. -/
inductive ApplyOutcome where
  | applied
  | exited
  | blockedByCgroup
  | downgraded
  | blockedByPerm
  | einval
  | failed
  | skippedNoCpus
  deriving DecidableEq

end Threadctl.Core
