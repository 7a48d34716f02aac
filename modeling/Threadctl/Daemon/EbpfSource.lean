import Threadctl.Daemon.ProcSource

/-!
# The eBPF event source

Kernel events arrive in a queue.  Forks wait until their command line is there;
processes that run already are found by one scan at the first poll.  The two maps
the kernel filters with are kept in step from here.
-/

namespace Threadctl.Daemon

open Threadctl.Core Threadctl.Support.Text

variable {κ : Type}

/-- A BPF hash map used as a set.  An insertion into a full map fails. -/
structure BpfMap (α : Type) where
  capacity : Nat
  keys : List α

namespace BpfMap

variable {α : Type} [DecidableEq α]

def insert (m : BpfMap α) (key : α) : BpfMap α :=
  if key ∈ m.keys then m
  else if m.keys.length < m.capacity then { m with keys := m.keys ++ [key] }
  else m

def remove (m : BpfMap α) (key : α) : BpfMap α :=
  { m with keys := m.keys.filter (· ≠ key) }

end BpfMap

/-! ## The state -/

def eventFork : Nat := 1

def eventExec : Nat := 2

def eventExit : Nat := 3

/-- A raw kernel event; for a fork `pid` is the child. -/
structure EbpfProcEvent where
  pid : Int
  tid : Int
  eventType : Nat
  deriving DecidableEq

def ebpfPendingMax : Nat := 128

def trackedSyncSecs : Nat := 30

def drainMax : Nat := 256

structure EbpfSource where
  eventRx : List EbpfProcEvent
  cfg : Option ConfigSnapshot
  pending : List PendingProcess
  initialScanDone : Bool
  initialScanned : List Int
  lastTrackedSync : Nat
  /-- `TARGET_COMM_MAP`, as far as it can be opened. -/
  targetComm : Option (BpfMap (List UInt8))
  /-- `TRACKED_TGID_MAP`, as far as it can be opened. -/
  trackedTgid : Option (BpfMap Int)

/-- The smallest power of two that is at least `n`. -/
def nextPowerOfTwo (n : Nat) : Nat := if n ≤ 1 then 1 else 2 ^ (Nat.log2 (n - 1) + 1)

/-- The state after loading, with the maps the object file turned out to have. -/
def EbpfSource.tryNew (cfg : ConfigSnapshot) (now : Nat) (hasTarget hasTracked : Bool) :
    EbpfSource where
  eventRx := []
  cfg := none
  pending := []
  initialScanDone := false
  initialScanned := []
  lastTrackedSync := now
  targetComm :=
    if hasTarget then some ⟨max (nextPowerOfTwo (cfg.rules.pkgs.length * 2)) 64, []⟩ else none
  trackedTgid := if hasTracked then some ⟨1024, []⟩ else none

/-! ## The whitelist keys -/

/-- The first eight bytes, filled up with zeros. -/
def padKey (bytes : List UInt8) : List UInt8 := bytes.take 8 ++ List.replicate (8 - bytes.length) 0

/-- The keys of one package name: its first eight bytes, and its last eight if it is longer. -/
def pkgKeys (pkg : String) : List (List UInt8) :=
  let bytes := pkg.toUTF8.toList
  if bytes.isEmpty then []
  else if 8 < bytes.length then [padKey bytes, bytes.drop (bytes.length - 8)]
  else [padKey bytes]

def targetEntries (pkgs : List String) : List (List UInt8) :=
  ((pkgs.flatMap pkgKeys).insertionSort (· ≤ ·)).dedup

def EbpfSource.updateWhitelist (src : EbpfSource) (cfg : ConfigSnapshot) : EbpfSource :=
  match src.targetComm with
  | none => src
  | some target =>
      let cleared := target.keys.foldl BpfMap.remove target
      { src with targetComm := some ((targetEntries cfg.rules.pkgs).foldl BpfMap.insert cleared) }

def EbpfSource.onConfigChanged (src : EbpfSource) (cfg : ConfigSnapshot) : EbpfSource :=
  { EbpfSource.updateWhitelist { src with cfg := some cfg } cfg with pending := [] }

def EbpfSource.trackedInsert (src : EbpfSource) (tgid : Int) : EbpfSource :=
  { src with trackedTgid := src.trackedTgid.map (·.insert tgid) }

def EbpfSource.trackedRemove (src : EbpfSource) (tgid : Int) : EbpfSource :=
  { src with trackedTgid := src.trackedTgid.map (·.remove tgid) }

/-- Align the map with the tracker: add what is missing, then drop what is stale. -/
def syncTracked (pids : List Int) (m : BpfMap Int) : BpfMap Int :=
  let m := pids.foldl BpfMap.insert m
  (m.keys.filter (· ∉ pids)).foldl BpfMap.remove m

/-! ## The source's functions -/

section Source

variable (fnmatch : String → String → Bool) (env : Env κ)

def initialScanProcess (rules : RuleSet) (r : Round EbpfSource) (pid : Int) :
    Run κ (Round EbpfSource) := do
  let read ← ask (env.readCmdline pid)
  match read.filter (!·.isEmpty) with
  | none => pure r
  | some pkg =>
      if !rules.isInterested fnmatch pkg then pure r
      else
        let r := r.push ((ProcessEvent.fork pid pid).withPkg pkg)
        pure { r with src := { r.src with initialScanned := r.src.initialScanned ++ [pid] } }

def initialScan (r : Round EbpfSource) : Run κ (Round EbpfSource) := do
  match r.src.cfg with
  | none => pure r
  | some cfg => do
      let dir ← ask env.readProcDir
      match dir with
      | none => pure r
      | some names =>
          (names.filterMap parseI32).foldlM (initialScanProcess fnmatch env cfg.rules) r

/-- The first poll scans, the others do not. -/
def scanOnce (src : EbpfSource) : Run κ (Round EbpfSource) := do
  if src.initialScanDone then pure ⟨src, []⟩
  else do
    let r ← initialScan fnmatch env ⟨src, []⟩
    pure { r with src := { r.src with initialScanDone := true } }

/-- A fork is queued unless the scan has found it, it waits already or the queue is full. -/
def handleFork (r : Round EbpfSource) (pid : Int) : Run κ (Round EbpfSource) := do
  if pid ∈ r.src.initialScanned then pure r
  else if r.src.pending.length < ebpfPendingMax ∧ r.src.pending.all (·.pid ≠ pid) then do
    let now ← ask env.instantNow
    pure { r with src := { r.src with pending := r.src.pending ++ [⟨pid, 0, now⟩] } }
  else pure r

def handleExit (r : Round EbpfSource) (ev : EbpfProcEvent) : Run κ (Round EbpfSource) := do
  let s ← get
  let r := if s.tracker.contains ev.pid then r.push (ProcessEvent.exit ev.pid ev.tid) else r
  pure (if ev.tid = ev.pid then { r with src := r.src.trackedRemove ev.pid } else r)

def handleRaw (r : Round EbpfSource) (ev : EbpfProcEvent) : Run κ (Round EbpfSource) := do
  if ev.eventType = eventFork then handleFork env r ev.pid
  else if ev.eventType = eventExec then pure (r.push (ProcessEvent.exec ev.pid))
  else if ev.eventType = eventExit then handleExit r ev
  else pure r

/-- A fork whose command line can be read: a process, or a thread of one. -/
def confirmFork (rules : RuleSet) (r : Round EbpfSource) (pid : Int) (pkg : String) :
    Run κ (Round EbpfSource) := do
  let read ← ask (env.readTgid pid)
  let tgid := read.getD pid
  if tgid = pid then
    if rules.isInterested fnmatch pkg then
      let r := r.push ((ProcessEvent.fork pid pid).withPkg pkg)
      pure { r with src := r.src.trackedInsert tgid }
    else pure r
  else do
    let parent ← ask (env.readCmdline tgid)
    match parent with
    | none => pure r
    | some ppkg =>
        if rules.isInterested fnmatch ppkg then
          let r := r.push (ProcessEvent.threadClone tgid pid ppkg)
          pure { r with src := r.src.trackedInsert tgid }
        else pure r

def keepPending (r : Round EbpfSource) (p : PendingProcess) : Round EbpfSource :=
  { r with src := { r.src with pending := r.src.pending ++ [p] } }

def retryOrDrop (r : Round EbpfSource) (p : PendingProcess) : Run κ (Round EbpfSource) := do
  if p.retryCount < pendingMaxRetries then do
    let now ← ask env.instantNow
    pure (keepPending r ⟨p.pid, p.retryCount + 1, now + backoff p.retryCount⟩)
  else pure r

/-- One entry of the pending queue. -/
def flushFork (rules : RuleSet) (now : Nat) (r : Round EbpfSource) (p : PendingProcess) :
    Run κ (Round EbpfSource) := do
  if now < p.nextRetry then pure (keepPending r p)
  else do
    let alive ← ask (env.isAlive p.pid)
    if !alive then pure r
    else do
      let read ← ask (env.readCmdline p.pid)
      match read.filter (!·.isEmpty) with
      | some pkg => confirmFork fnmatch env rules r p.pid pkg
      | none => retryOrDrop env r p

def EbpfSource.flushPending (r : Round EbpfSource) : Run κ (Round EbpfSource) := do
  if r.src.pending.isEmpty then pure r
  else match r.src.cfg with
    | none => pure r
    | some cfg => do
        let now ← ask env.instantNow
        r.src.pending.foldlM (flushFork fnmatch env cfg.rules now)
          { r with src := { r.src with pending := [] } }

/-- At most 256 raw events of the queue, then the pending forks. -/
def drain (r : Round EbpfSource) : Run κ (Round EbpfSource) := do
  let batch := r.src.eventRx.take drainMax
  let r := { r with src := { r.src with eventRx := r.src.eventRx.drop drainMax } }
  let r ← batch.foldlM (handleRaw env) r
  EbpfSource.flushPending fnmatch env r

/-- Every thirty seconds the map of tracked processes is aligned with the tracker. -/
def periodicSync (src : EbpfSource) : Run κ EbpfSource := do
  let now ← ask env.instantNow
  if trackedSyncSecs ≤ (now - src.lastTrackedSync) / nanosPerSec then do
    let tracked ← pids env
    let done ← ask env.instantNow
    pure { src with
      trackedTgid := src.trackedTgid.map (syncTracked tracked), lastTrackedSync := done }
  else pure src

/-- An empty round sleeps until the deadline or the first pending retry. -/
def sleepRound (r : Round EbpfSource) (deadline : Nat) : Run κ (Round EbpfSource) := do
  if r.events.isEmpty then do
    let wake := r.src.pending.foldl (fun t p => min t p.nextRetry) deadline
    let now ← ask env.instantNow
    if now < wake then do
      ask (env.sleep (wake - now))
      pure r
    else pure r
  else pure r

def EbpfSource.poll (src : EbpfSource) (deadline : Nat) : Run κ (Round EbpfSource) := do
  let r ← scanOnce fnmatch env src
  let r ← drain fnmatch env r
  let synced ← periodicSync env { r.src with initialScanned := [] }
  sleepRound env ⟨synced, r.events⟩ deadline

end Source

end Threadctl.Daemon
