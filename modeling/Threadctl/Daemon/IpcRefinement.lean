import Mathlib.Data.List.Induction
import Threadctl.Daemon.IpcServer

/-!
# The socket brings the requests of the daemon

Seen from the daemon, clients and listening thread only decide which requests come and when.
Each run with the socket is a run of the daemon, in which every request arrives where the
main loop asks for one and is handled at once.
-/

namespace Threadctl.Daemon

open Threadctl.Core Threadctl.Support Threadctl.Support.Runs

variable {κ : Type}

/-! ## The main loop and its requests -/

section Requests

variable {b : Boot κ} {d : DaemonState κ}

/-- Where the main loop is while it handles a request. -/
def Point.serves : Point → Bool
  | .station .ipc | .reloading _ | .doReload .ipc | .relock _ .ipc => true
  | _ => false

/-- How many steps `handle_ipc` still takes. -/
def Point.toReply : Point → Nat
  | .reloading (.load _) => 3
  | .reloading (.install _) => 2
  | .doReload _ | .relock _ _ => 1
  | _ => 0

theorem eq_ipc_of_isIpc {p : Point} (h : p.isIpc = true) : p = .station .ipc := by
  unfold Point.isIpc at h
  split at h
  · rfl
  · exact absurd h Bool.false_ne_true

theorem station_request (a : Answers) {stop : Station} (hstop : stop ≠ .ipc) :
    (b.station a d stop).request = d.request := by
  cases stop with
  | ipc => exact absurd rfl hstop
  | notices =>
      show d.noticesStation.request = d.request
      unfold DaemonState.noticesStation
      split
      · rfl
      · rfl
  | coverage =>
      show (b.coverageStation d).request = d.request
      unfold Boot.coverageStation
      dsimp only
      split
      · split
        · split
          · rfl
          · rfl
        · rfl
      · rfl
  | periodic =>
      show (b.periodicStation d).request = d.request
      unfold Boot.periodicStation
      dsimp only
      split
      · split
        · rfl
        · rfl
      · rfl
  | cleanup =>
      show (b.cleanupStation d).request = d.request
      unfold Boot.cleanupStation
      split
      · rfl
      · rfl
  | poll =>
      have hpolled : ∀ x : Run κ (Source × List ProcessEvent),
          (DaemonState.polled (d.exec x)).request = d.request := fun _ => rfl
      exact hpolled _

theorem reloadStep_request (a : Answers) (point : ReloadPoint) :
    (d.reloadStep a point).request = d.request := by
  unfold DaemonState.reloadStep
  dsimp only
  split
  · rfl
  · rfl
  · rfl

theorem ipcStation_request (a : Answers) : (b.ipcStation a d).request = none := by
  unfold Boot.ipcStation
  cases hreq : d.request with
  | none => rfl
  | some req =>
      dsimp only
      cases req with
      | applyScene name =>
          unfold Boot.handleIpc
          dsimp only
          split
          · rfl
          · rfl
      | status | dump | reload | apply | snapshot | tune => rfl

theorem mainStep_request (h : d.request = none ∨ d.point.isIpc = true) (a : Answers) :
    (b.mainStep a d).request = none := by
  have hkept : d.point.isIpc = false → d.request = none := fun hpoint =>
    h.resolve_right (by rw [hpoint]; exact Bool.false_ne_true)
  unfold Boot.mainStep
  cases hpoint : d.point with
  | top =>
      rw [hpoint] at hkept
      dsimp only
      split
      · exact hkept rfl
      · exact hkept rfl
  | station stop =>
      rw [hpoint] at hkept
      by_cases hstop : stop = .ipc
      · subst hstop
        exact ipcStation_request a
      · have hnone : d.request = none := by
          refine hkept ?_
          cases stop with
          | ipc => exact absurd rfl hstop
          | notices | coverage | periodic | cleanup | poll => rfl
        exact (station_request a hstop).trans hnone
  | reloading point =>
      rw [hpoint] at hkept
      exact (reloadStep_request a point).trans (hkept rfl)
  | doReload | relock | handle | stopped =>
      rw [hpoint] at hkept
      exact hkept rfl

theorem reloadStep_serves (a : Answers) (point : ReloadPoint) :
    (d.reloadStep a point).point.serves = true ∧
      (d.reloadStep a point).point.toReply < (Point.reloading point).toReply := by
  unfold DaemonState.reloadStep
  cases point with
  | load version =>
      cases a.loaded with
      | none => exact ⟨rfl, (by decide : 0 < 3)⟩
      | some c => exact ⟨rfl, (by decide : 2 < 3)⟩
  | install snapshot => exact ⟨rfl, (by decide : 1 < 2)⟩

/-- One step of handling a request. -/
theorem mainStep_serves (h : d.point.serves = true) (hipc : d.point.isIpc = false) (a : Answers) :
    (b.mainStep a d).point.serves = true ∧
      (b.mainStep a d).point.toReply < d.point.toReply := by
  unfold Boot.mainStep
  cases hpoint : d.point with
  | reloading point => exact reloadStep_serves a point
  | doReload next =>
      rw [hpoint] at h
      cases next with
      | ipc => exact ⟨rfl, (by decide : 0 < 1)⟩
      | notices | coverage | periodic | cleanup | poll => exact absurd h Bool.false_ne_true
  | relock now next =>
      rw [hpoint] at h
      cases next with
      | ipc => exact ⟨rfl, (by decide : 0 < 1)⟩
      | notices | coverage | periodic | cleanup | poll => exact absurd h Bool.false_ne_true
  | station stop =>
      rw [hpoint] at h hipc
      cases stop with
      | ipc => exact absurd hipc (by decide)
      | notices | coverage | periodic | cleanup | poll => exact absurd h Bool.false_ne_true
  | top | handle | stopped =>
      rw [hpoint] at h
      exact absurd h Bool.false_ne_true

theorem handleIpc_serves (a : Answers) (req : IpcRequest) :
    (b.handleIpc a d req).point.serves = true ∧ (b.handleIpc a d req).point.toReply ≤ 3 := by
  cases req with
  | applyScene name =>
      unfold Boot.handleIpc
      dsimp only
      split
      · exact ⟨rfl, (by decide : 3 ≤ 3)⟩
      · exact ⟨rfl, (by decide : 0 ≤ 3)⟩
  | reload => exact ⟨rfl, (by decide : 3 ≤ 3)⟩
  | apply pid => exact ⟨rfl, (by decide : 1 ≤ 3)⟩
  | status | dump | snapshot | tune => exact ⟨rfl, (by decide : 0 ≤ 3)⟩

theorem mainStep_takes {req : IpcRequest} (hreq : d.request = some req)
    (hipc : d.point.isIpc = true) (a : Answers) :
    (b.mainStep a d).point.serves = true ∧ (b.mainStep a d).point.toReply ≤ 3 := by
  have hstep : b.mainStep a d = b.handleIpc a { d with request := none } req := by
    unfold Boot.mainStep
    rw [eq_ipc_of_isIpc hipc]
    show b.ipcStation a d = _
    unfold Boot.ipcStation
    rw [hreq]
    rfl
  rw [hstep]
  exact handleIpc_serves a req

end Requests

/-! ## Moves of the daemon -/

/-- The request that a step of the main loop receives, with its connection. -/
def receives (s : IpcState κ) : IpcMove κ → List (Nat × IpcRequest)
  | .main _ =>
      if s.daemon.point.isIpc && s.handling.isNone then
        (s.requests.content.head?.map Prod.swap).toList
      else []
  | _ => []

def daemonMoves (s : IpcState κ) (m : IpcMove κ) : List (Move κ) :=
  match m with
  | .main a =>
      if s.daemon.point.isIpc && s.handling.isSome then []
      else (receives s m).map (fun r => .request r.2) ++ [.main a]
  | .hotReload changed loaded => [.hotReload changed loaded]
  | .kernelEvent ev => [.kernelEvent ev]
  | .kernel k => [.kernel k]
  | .connect | .write _ _ | .close _ | .listen _ _ | .answer _ => []

def Move.request? : Move κ → Option IpcRequest
  | .request req => some req
  | _ => none

/-- A request is received where one is asked for, and none is left over. -/
structure Asking (s : IpcState κ) : Prop where
  request : s.daemon.request = none
  serves : ∀ c, s.handling = some c → s.daemon.point.serves = true

section Steps

variable {b : Boot κ} {s : IpcState κ}

theorem listen_daemon (ok : Bool) (written : Nat) (s : IpcState κ) :
    (s.listen ok written).daemon = s.daemon ∧ (s.listen ok written).handling = s.handling := by
  unfold IpcState.listen
  cases s.listener with
  | accepting =>
      dsimp only
      split
      · exact ⟨rfl, rfl⟩
      · split
        · exact ⟨rfl, rfl⟩
        · exact ⟨rfl, rfl⟩
  | reading c =>
      dsimp only
      split
      · exact ⟨rfl, rfl⟩
      · split
        · split
          · exact ⟨rfl, rfl⟩
          · exact ⟨rfl, rfl⟩
        · exact ⟨rfl, rfl⟩
  | sending c req =>
      dsimp only
      split
      · exact ⟨rfl, rfl⟩
      · exact ⟨rfl, rfl⟩
  | waiting c replies =>
      dsimp only
      split
      · exact ⟨rfl, rfl⟩
      · split
        · exact ⟨rfl, rfl⟩
        · exact ⟨rfl, rfl⟩
  | writing c resp => exact ⟨rfl, rfl⟩

theorem answer_daemon (resp : String) (s : IpcState κ) : (s.answer resp).daemon = s.daemon := by
  unfold IpcState.answer
  split
  · split
    · rfl
    · rfl
  · rfl

/-- What a step of the main loop does with the requests. -/
inductive MainStep (b : Boot κ) (a : Answers) (s s' : IpcState κ) : Prop
  /-- The reply comes first. -/
  | held (hipc : s.daemon.point.isIpc = true) {c : Nat} (hc : s.handling = some c) (hs' : s' = s)
  | received (hipc : s.daemon.point.isIpc = true) (hfree : s.handling = none) {req : IpcRequest}
      {c : Nat} {queue : List (IpcRequest × Nat)}
      (hqueue : s.requests = .connected ((req, c) :: queue))
      (hs' : s' = { s with
        requests := .connected queue
        handling := some c
        daemon := b.step (b.step s.daemon (.request req)) (.main a) })
  | empty (hipc : s.daemon.point.isIpc = true) (hfree : s.handling = none)
      (hqueue : s.requests.content = [])
      (hs' : s' = { s with daemon := b.step s.daemon (.main a) })
  | other (hipc : s.daemon.point.isIpc = false)
      (hs' : s' = { s with
        daemon := b.step s.daemon (.main a)
        requests := if (b.step s.daemon (.main a)).point.isStopped then .disconnected
          else s.requests })

theorem ipcMain_cases (b : Boot κ) (a : Answers) (s : IpcState κ) :
    MainStep b a s (b.ipcMain a s) := by
  unfold Boot.ipcMain
  cases hipc : s.daemon.point.isIpc with
  | false => exact .other hipc rfl
  | true =>
      cases hhandling : s.handling with
      | some c => exact .held hipc hhandling rfl
      | none =>
          have hrecv : MainStep b a s (b.tryRecv a s) := by
            unfold Boot.tryRecv
            cases hqueue : s.requests with
            | disconnected => exact .empty hipc hhandling (by rw [hqueue]; rfl) (by rw [hqueue])
            | connected queue =>
                cases queue with
                | nil => exact .empty hipc hhandling (by rw [hqueue]; rfl) (by rw [hqueue])
                | cons r queue => exact .received hipc hhandling hqueue rfl
          exact hrecv

theorem receives_main {a : Answers} (hipc : s.daemon.point.isIpc = true)
    (hfree : s.handling = none) :
    receives s (.main a) = (s.requests.content.head?.map Prod.swap).toList := by
  unfold receives
  rw [hipc, hfree]
  rfl

/-- The socket changes the daemon by moves of the daemon only. -/
theorem ipcStep_daemon (b : Boot κ) (s : IpcState κ) (m : IpcMove κ) :
    (b.ipcStep s m).daemon = run b.step s.daemon (daemonMoves s m) := by
  cases m with
  | connect | write | close => rfl
  | listen ok written => exact (listen_daemon ok written s).1
  | answer resp => exact answer_daemon resp s
  | hotReload | kernelEvent | kernel => rfl
  | main a =>
      show (b.ipcMain a s).daemon = _
      unfold daemonMoves
      cases ipcMain_cases b a s with
      | held hipc hc hs' =>
          rw [hs', hipc, hc]
          rfl
      | received hipc hfree hqueue hs' =>
          rw [hs', receives_main hipc hfree, hipc, hfree, hqueue]
          rfl
      | empty hipc hfree hqueue hs' =>
          rw [hs', receives_main hipc hfree, hipc, hfree, hqueue]
          rfl
      | other hipc hs' =>
          unfold receives
          rw [hs', hipc]
          rfl

theorem step_request {d : DaemonState κ} (h : d.request = none) (req : IpcRequest) :
    b.step d (.request req) = { d with request := some req } := by
  unfold Boot.step
  rw [h]
  rfl

theorem Asking.step (h : Asking s) (m : IpcMove κ) : Asking (b.ipcStep s m) := by
  cases m with
  | connect | write | close => exact ⟨h.request, h.serves⟩
  | listen ok written =>
      obtain ⟨hdaemon, hhandling⟩ := listen_daemon ok written s
      constructor
      · exact (congrArg DaemonState.request hdaemon).trans h.request
      · intro c hc
        show (s.listen ok written).daemon.point.serves = true
        rw [hdaemon]
        exact h.serves c (hhandling.symm.trans hc)
  | answer resp =>
      have hdaemon := answer_daemon resp s
      constructor
      · exact (congrArg DaemonState.request hdaemon).trans h.request
      · intro c hc
        show (s.answer resp).daemon.point.serves = true
        rw [hdaemon]
        change (s.answer resp).handling = some c at hc
        unfold IpcState.answer at hc
        cases hhandling : s.handling with
        | none =>
            rw [hhandling] at hc
            exact h.serves c hc
        | some c' => exact h.serves c' hhandling
  | hotReload | kernelEvent | kernel => exact ⟨h.request, h.serves⟩
  | main a =>
      show Asking (b.ipcMain a s)
      cases ipcMain_cases b a s with
      | held hipc hc hs' =>
          rw [hs']
          exact h
      | @received hipc hfree req c queue hqueue hs' =>
          have hmain :=
            mainStep_takes (b := b) (d := { s.daemon with request := some req }) rfl hipc a
          rw [hs', step_request h.request]
          constructor
          · exact mainStep_request (d := { s.daemon with request := some req }) (Or.inr hipc) a
          · exact fun _ _ => hmain.1
      | empty hipc hfree hqueue hs' =>
          rw [hs']
          constructor
          · exact mainStep_request (Or.inl h.request) a
          · exact fun c hc => absurd (hfree.symm.trans hc) (by simp)
      | other hipc hs' =>
          rw [hs']
          constructor
          · exact mainStep_request (Or.inl h.request) a
          · exact fun c hc => (mainStep_serves (h.serves c hc) hipc a).1

/-- Every request finds the daemon asking, and is what the step receives. -/
theorem Asking.requests (h : Asking s) (m : IpcMove κ) :
    AtEach b.step (fun d m => m.request?.isSome = true →
        d.request = none ∧ d.point.isIpc = true) s.daemon (daemonMoves s m) ∧
      (daemonMoves s m).filterMap Move.request? = (receives s m).map (·.2) := by
  have hone : ∀ m' : Move κ, m'.request? = none →
      AtEach b.step (fun d m => m.request?.isSome = true →
        d.request = none ∧ d.point.isIpc = true) s.daemon [m'] := by
    intro m' hm'
    refine atEach_cons b.step (fun hsome => ?_) (atEach_nil b.step _ _)
    rw [hm'] at hsome
    exact absurd hsome Bool.false_ne_true
  cases m with
  | connect | write | close | listen | answer => exact ⟨atEach_nil b.step _ _, rfl⟩
  | hotReload | kernelEvent | kernel => exact ⟨hone _ rfl, rfl⟩
  | main a =>
      unfold daemonMoves
      cases hipc : s.daemon.point.isIpc with
      | false =>
          have hnone : receives s (.main a) = [] := by
            unfold receives
            rw [hipc]
            rfl
          rw [hnone]
          exact ⟨hone _ rfl, rfl⟩
      | true =>
          cases hhandling : s.handling with
          | some c =>
              have hnone : receives s (.main a) = [] := by
                unfold receives
                rw [hipc, hhandling]
                rfl
              rw [hnone]
              exact ⟨atEach_nil b.step _ _, rfl⟩
          | none =>
              rw [receives_main hipc hhandling]
              cases s.requests.content.head? with
              | none => exact ⟨hone _ rfl, rfl⟩
              | some r =>
                  refine ⟨atEach_cons b.step (fun _ => ⟨h.request, hipc⟩) ?_, rfl⟩
                  exact atEach_cons b.step (fun hsome => absurd hsome Bool.false_ne_true)
                    (atEach_nil b.step _ _)

end Steps

theorem asking_start (b : Boot κ) (kernel : κ) : Asking (b.ipcStart kernel) :=
  ⟨rfl, nofun⟩

/-- Every run with the socket is a run of the daemon.  Its requests are those received, in
order, and each finds the main loop asking, with no other request left. -/
theorem socket_refines_daemon (b : Boot κ) (kernel : κ) (moves : List (IpcMove κ)) :
    let served := output b.ipcStep daemonMoves (b.ipcStart kernel) moves
    (run b.ipcStep (b.ipcStart kernel) moves).daemon = run b.step (b.start kernel) served ∧
      served.filterMap Move.request? =
        (output b.ipcStep receives (b.ipcStart kernel) moves).map (·.2) ∧
      AtEach b.step (fun d m => m.request?.isSome = true → d.request = none ∧ d.point.isIpc = true)
        (b.start kernel) served := by
  intro served
  induction moves using List.reverseRecOn with
  | nil => exact ⟨rfl, rfl, atEach_nil b.step _ _⟩
  | append_singleton moves m ih =>
      obtain ⟨hdaemon, hrequests, hasking⟩ := ih
      have hinv : Asking (run b.ipcStep (b.ipcStart kernel) moves) :=
        run_invariant b.ipcStep (Q := Asking) (fun s m h => h.step m) (asking_start b kernel) moves
      obtain ⟨hat, hreceived⟩ := hinv.requests (b := b) m
      have hserved : served = output b.ipcStep daemonMoves (b.ipcStart kernel) moves ++
          daemonMoves (run b.ipcStep (b.ipcStart kernel) moves) m :=
        output_concat b.ipcStep daemonMoves (b.ipcStart kernel) moves m
      rw [hserved]
      refine ⟨?_, ?_, atEach_append b.step hasking ?_⟩
      · rw [run_concat, ipcStep_daemon, hdaemon]
        exact (run_append b.step _ _ _).symm
      · rw [List.filterMap_append, hrequests, hreceived, output_concat, List.map_append]
      · have hsame : run b.step (b.start kernel)
            (output b.ipcStep daemonMoves (b.ipcStart kernel) moves) =
              (run b.ipcStep (b.ipcStart kernel) moves).daemon := hdaemon.symm
        rw [hsame]
        exact hat

end Threadctl.Daemon
