import Threadctl.Daemon.Freshness
import Threadctl.Daemon.IpcProtocol

/-!
# When a client is answered

A request that the main loop has received is answered within a few of its steps.  The thread
itself reads one client after the other, so a client that keeps silent holds up all others.
-/

namespace Threadctl.Daemon

open Threadctl.Core Threadctl.Support Threadctl.Support.LineReader Threadctl.Support.Runs
open Threadctl.Support.Text

variable {κ : Type}

section Runs

variable (b : Boot κ) (kernel : κ)

/-! ## The reply comes -/

def IpcMove.isMain : IpcMove κ → Bool
  | .main _ => true
  | _ => false

def IpcMove.isAnswer : IpcMove κ → Bool
  | .answer _ => true
  | _ => false

theorem toReply_le (p : Point) : p.toReply ≤ 3 := by
  cases p with
  | reloading point =>
      cases point with
      | load version => exact Nat.le_refl 3
      | install snapshot => exact Nat.le_succ 2
  | doReload | relock => exact (by decide : 1 ≤ 3)
  | top | station | handle | stopped => exact Nat.zero_le 3

theorem isIpc_of_toReply {p : Point} (hserves : p.serves = true) (h : p.toReply = 0) :
    p.isIpc = true := by
  cases p with
  | reloading point =>
      cases point with
      | load version => exact absurd h (by decide : (3 : Nat) ≠ 0)
      | install snapshot => exact absurd h (by decide : (2 : Nat) ≠ 0)
  | doReload | relock => exact absurd h (by decide : (1 : Nat) ≠ 0)
  | station stop =>
      cases stop with
      | ipc => rfl
      | notices | coverage | periodic | cleanup | poll => exact absurd hserves Bool.false_ne_true
  | top | handle | stopped => exact absurd hserves Bool.false_ne_true

/-- The main loop handles the request of a connection, with so many steps to go. -/
structure Handles (c n : Nat) (s : IpcState κ) : Prop where
  handling : s.handling = some c
  serves : s.daemon.point.serves = true
  left : s.daemon.point.toReply ≤ n

theorem Handles.step {b : Boot κ} {c n : Nat} {s : IpcState κ} (h : Handles c n s)
    {m : IpcMove κ} (hm : m.isAnswer = false) :
    Handles c (n - if m.isMain then 1 else 0) (b.ipcStep s m) := by
  cases m with
  | connect | write | close | hotReload | kernelEvent | kernel =>
      exact ⟨h.handling, h.serves, h.left⟩
  | answer resp => exact absurd hm.symm Bool.false_ne_true
  | listen ok written =>
      obtain ⟨hdaemon, hhandling⟩ := listen_daemon ok written s
      have hpoint : (s.listen ok written).daemon.point = s.daemon.point := by rw [hdaemon]
      refine ⟨hhandling.trans h.handling, ?_, ?_⟩
      · exact (congrArg Point.serves hpoint).trans h.serves
      · exact (congrArg Point.toReply hpoint).trans_le h.left
  | main a =>
      have hleft := h.left
      show Handles c (n - 1) (b.ipcMain a s)
      cases ipcMain_cases b a s with
      | held hipc hc hs' =>
          have hzero : s.daemon.point.toReply = 0 := by
            rw [eq_ipc_of_isIpc hipc]
            rfl
          rw [hs']
          exact ⟨h.handling, h.serves, by omega⟩
      | received hipc hfree hqueue hs' => exact absurd (hfree.symm.trans h.handling) nofun
      | empty hipc hfree hqueue hs' => exact absurd (hfree.symm.trans h.handling) nofun
      | other hipc hs' =>
          obtain ⟨hserves, hless⟩ := mainStep_serves (b := b) h.serves hipc a
          rw [hs']
          refine ⟨h.handling, hserves, ?_⟩
          show (b.mainStep a s.daemon).point.toReply ≤ n - 1
          omega

theorem run_handles {b : Boot κ} {c n : Nat} {s : IpcState κ} (h : Handles c n s)
    {moves : List (IpcMove κ)} (hmoves : ∀ m ∈ moves, m.isAnswer = false) :
    Handles c (n - moves.countP IpcMove.isMain) (run b.ipcStep s moves) := by
  induction moves generalizing n s with
  | nil => exact h
  | cons m moves ih =>
      have hstep := h.step (b := b) (hmoves m List.mem_cons_self)
      have hrest := ih hstep fun m' hm' => hmoves m' (List.mem_cons_of_mem m hm')
      rw [List.countP_cons]
      have hcount : n - (if m.isMain then 1 else 0) - moves.countP IpcMove.isMain =
          n - (moves.countP IpcMove.isMain + if m.isMain then 1 else 0) := by omega
      rw [← hcount]
      exact hrest

/-- A request that the main loop has received can be answered after three more of its steps,
whatever else happens, and the thread then has the reply. -/
theorem received_request_answered {moves rest : List (IpcMove κ)} {c : Nat}
    (hc : (run b.ipcStep (b.ipcStart kernel) moves).handling = some c)
    (hrest : ∀ m ∈ rest, m.isAnswer = false) (hmain : 3 ≤ rest.countP IpcMove.isMain)
    (resp : String) :
    let s := run b.ipcStep (b.ipcStart kernel) (moves ++ rest)
    b.answered kernel (moves ++ rest ++ [.answer resp]) =
        b.answered kernel (moves ++ rest) ++ [(c, resp)] ∧
      (b.ipcStep s (.answer resp)).listener = .waiting c [resp] := by
  intro s
  have hasking := (run_serving b kernel moves).1
  have hstart : Handles c 3 (run b.ipcStep (b.ipcStart kernel) moves) :=
    ⟨hc, hasking.serves c hc, toReply_le _⟩
  have hend : Handles c (3 - rest.countP IpcMove.isMain) s := by
    have hrun := run_handles (b := b) hstart hrest
    rwa [← run_append] at hrun
  have hleft := hend.left
  have hipc : s.daemon.point.isIpc = true := isIpc_of_toReply hend.serves (by omega)
  have hlistener : s.listener = .waiting c [] :=
    ((run_serving b kernel (moves ++ rest)).2.handled hend.handling).1
  constructor
  · have hreplies : replies s (.answer resp) = [(c, resp)] := by
      unfold replies
      rw [hend.handling]
      exact if_pos hipc
    unfold Boot.answered
    rw [output_concat]
    exact congrArg (output b.ipcStep replies (b.ipcStart kernel) (moves ++ rest) ++ ·) hreplies
  · show (s.answer resp).listener = .waiting c [resp]
    unfold IpcState.answer
    rw [hend.handling]
    dsimp only
    rw [if_pos hipc, hlistener]
    exact congrArg (Listener.waiting c) (if_pos rfl)

theorem listen_reads {s : IpcState κ} {c written : Nat} {req : IpcRequest}
    (hlistener : s.listener = .reading c)
    (hline : LineRead lineLimit (s.conns c).sent ∨ (s.conns c).closed = true)
    (hreq : readRequest (s.conns c).sent = some req) :
    s.listen true written = { s with listener := .sending c req } := by
  unfold IpcState.listen
  rw [hlistener]
  dsimp only
  rw [if_neg (by decide), if_pos hline, hreq]

/-- A client connects and writes a command. -/
def clientMoves (bytes : List UInt8) : List (IpcMove Nat) :=
  [.connect, .listen true 0, .write 0 bytes]

/-- The thread passes the request on, and the main loop receives it. -/
def requestMoves : List (IpcMove Nat) := [.listen true 0, .listen true 0, .main {}, .main {}]

theorem run_clientMoves (bytes : List UInt8) :
    (run quietBoot.ipcStep (quietBoot.ipcStart 0) (clientMoves bytes)).listener = .reading 0 ∧
      ((run quietBoot.ipcStep (quietBoot.ipcStart 0) (clientMoves bytes)).conns 0).sent = bytes :=
  ⟨rfl, rfl⟩

theorem run_requestMoves {bytes : List UInt8} (hline : LineRead lineLimit bytes)
    (hreq : readRequest bytes = some .status) :
    (run quietBoot.ipcStep (quietBoot.ipcStart 0) (clientMoves bytes ++ requestMoves)).handling =
      some 0 := by
  obtain ⟨hlistener, hsent⟩ := run_clientMoves bytes
  rw [← hsent] at hline hreq
  rw [run_append]
  show (run quietBoot.ipcStep ((run quietBoot.ipcStep (quietBoot.ipcStart 0)
    (clientMoves bytes)).listen true 0) [.listen true 0, .main {}, .main {}]).handling = some 0
  rw [listen_reads hlistener (Or.inl hline) hreq]
  rfl

theorem readRequest_status :
    LineRead lineLimit (cliCommand "status" ++ []) ∧
      readRequest (cliCommand "status" ++ []) = some .status := by
  have hparse : parseRequest "status" = .status :=
    parseRequest_words (r := .status) trivial (splitWhitespace_word (by decide))
  rw [← hparse]
  exact readRequest_cliCommand (by decide) (by decide) []

/-- `status` is answered. -/
theorem status_answered :
    let moves := clientMoves (cliCommand "status" ++ []) ++ requestMoves
    let s := run quietBoot.ipcStep (quietBoot.ipcStart 0) (moves ++ [.main {}, .main {}, .main {}])
    (quietBoot.ipcStep s (.answer "ok")).listener = .waiting 0 ["ok"] := by
  have hc := run_requestMoves readRequest_status.1 readRequest_status.2
  have hrest : ∀ m ∈ ([.main {}, .main {}, .main {}] : List (IpcMove Nat)), m.isAnswer = false := by
    decide
  have hmain : 3 ≤ ([.main {}, .main {}, .main {}] : List (IpcMove Nat)).countP IpcMove.isMain := by
    decide
  exact (received_request_answered quietBoot 0 hc hrest hmain "ok").2

/-! ## A client that keeps silent -/

/-- No call of the thread fails. -/
def IpcMove.succeeds : IpcMove κ → Bool
  | .listen ok _ => ok
  | _ => true

/-- A whole line has come on the connection, or its end. -/
def IpcState.HasLine (s : IpcState κ) (c : Nat) : Prop :=
  LineRead lineLimit (s.conns c).sent ∨ (s.conns c).closed = true

/-- No connection has gone, and what has come on this one is still there. -/
structure Later (c : Nat) (s s' : IpcState κ) : Prop where
  count : s.count ≤ s'.count
  line : c < s.count → s.HasLine c → s'.HasLine c

section Later

variable {c : Nat} {s s' s'' : IpcState κ}

theorem later_of_conns (hcount : s'.count = s.count) (hconns : s'.conns = s.conns) :
    Later c s s' := by
  refine ⟨hcount.ge, fun _ h => ?_⟩
  unfold IpcState.HasLine
  rw [hconns]
  exact h

theorem Later.trans (h : Later c s s') (h' : Later c s' s'') : Later c s s'' :=
  ⟨h.count.trans h'.count, fun hc hline => h'.line (hc.trans_le h.count) (h.line hc hline)⟩

theorem later_modifyConn {c' : Nat} {f : Conn → Conn}
    (hextends : Extends (s.conns c') (f (s.conns c'))) : Later c s (s.modifyConn c' f) := by
  refine ⟨le_rfl, fun _ h => ?_⟩
  unfold IpcState.HasLine IpcState.modifyConn
  dsimp only
  by_cases hc : c = c'
  · subst hc
    rw [Function.update_self]
    exact (hextends h).1
  · rw [Function.update_of_ne hc]
    exact h

theorem later_hangUp (c' : Nat) : Later c s (s.hangUp c') :=
  have hconn : Later c s (s.modifyConn c' fun conn => { conn with hungUp := true }) :=
    later_modifyConn (extends_same rfl id)
  hconn.trans (later_of_conns rfl rfl)

theorem later_listen (ok : Bool) (written : Nat) : Later c s (s.listen ok written) := by
  cases listen_cases ok written s with
  | blocked hs' | accepted _ _ hs' | read _ _ _ hs' | sent _ _ hs' | replied _ hs' =>
      exact later_of_conns (by rw [hs']) (by rw [hs'])
  | @refused c' rest _ _ hs' =>
      have hskip : Later c s { s with backlog := rest } := later_of_conns rfl rfl
      rw [hs']
      exact hskip.trans (later_hangUp c')
  | unread _ hs' | unsent _ _ hs' | dropped _ _ hs' =>
      rw [hs']
      exact later_hangUp _
  | written _ _ hs' =>
      rw [hs']
      exact (later_modifyConn (extends_same rfl id)).trans (later_hangUp _)

theorem later_step (b : Boot κ) (m : IpcMove κ) : Later c s (b.ipcStep s m) := by
  cases m with
  | connect =>
      refine ⟨Nat.le_succ _, fun hc h => ?_⟩
      have hconn : (b.ipcStep s .connect).conns c = s.conns c :=
        Function.update_of_ne (Nat.ne_of_lt hc) _ _
      unfold IpcState.HasLine
      rw [hconn]
      exact h
  | write c' bytes =>
      exact later_modifyConn (f := fun conn => conn.write bytes) (extends_write _ bytes)
  | close c' =>
      exact later_modifyConn (f := fun conn => { conn with closed := true })
        (extends_same rfl fun _ => rfl)
  | listen ok written => exact later_listen ok written
  | main a =>
      show Later c s (b.ipcMain a s)
      cases ipcMain_cases b a s with
      | held _ _ hs' | received _ _ _ hs' | empty _ _ _ hs' | other _ hs' =>
          exact later_of_conns (by rw [hs']) (by rw [hs'])
  | answer resp =>
      show Later c s (s.answer resp)
      unfold IpcState.answer
      split
      · split
        · exact later_of_conns rfl rfl
        · exact later_of_conns rfl rfl
      · exact later_of_conns rfl rfl
  | hotReload | kernelEvent | kernel => exact later_of_conns rfl rfl

end Later

/-- The thread waits for the rest of a line, and has no request with the main loop. -/
structure Stuck (c : Nat) (s : IpcState κ) : Prop where
  listener : s.listener = .reading c
  unread : ¬ s.HasLine c
  idle : Idle s

theorem Stuck.quiet {c : Nat} {s : IpcState κ} (h : Stuck c s) (m : IpcMove κ) :
    receives s m = [] ∧ replies s m = [] := by
  obtain ⟨hempty, hfree⟩ := h.idle
  cases m with
  | main a =>
      refine ⟨?_, rfl⟩
      unfold receives
      dsimp only
      rw [hempty]
      split
      · rfl
      · rfl
  | answer resp =>
      refine ⟨rfl, ?_⟩
      unfold replies
      rw [hfree]
  | connect | write | close | listen | hotReload | kernelEvent | kernel => exact ⟨rfl, rfl⟩

/-- As long as no line has come the thread goes on waiting. -/
theorem Stuck.step {b : Boot κ} {c : Nat} {s : IpcState κ} (h : Stuck c s) {m : IpcMove κ}
    (hm : m.succeeds = true) (hunread : ¬ (b.ipcStep s m).HasLine c) :
    Stuck c (b.ipcStep s m) := by
  obtain ⟨hempty, hfree⟩ := h.idle
  cases m with
  | connect | write | close | hotReload | kernelEvent | kernel =>
      exact ⟨h.listener, hunread, h.idle⟩
  | listen ok written =>
      have hok : ok = true := hm
      have hblocked : s.listen ok written = s := by
        unfold IpcState.listen
        rw [h.listener, hok]
        dsimp only
        rw [if_neg (by decide)]
        exact if_neg h.unread
      show Stuck c (s.listen ok written)
      rw [hblocked]
      exact h
  | answer resp =>
      have hsame : s.answer resp = s := by
        unfold IpcState.answer
        rw [hfree]
      show Stuck c (s.answer resp)
      rw [hsame]
      exact h
  | main a =>
      show Stuck c (b.ipcMain a s)
      cases ipcMain_cases b a s with
      | held hipc hc hs' => exact absurd (hfree.symm.trans hc) nofun
      | received hipc hfree hqueue hs' =>
          rw [hqueue] at hempty
          exact absurd hempty (List.cons_ne_nil _ _)
      | empty hipc hfree hqueue hs' =>
          rw [hs']
          exact ⟨h.listener, h.unread, h.idle⟩
      | other hipc hs' =>
          rw [hs']
          refine ⟨h.listener, h.unread, ?_, hfree⟩
          show Channel.content (if _ then _ else _) = []
          split
          · rfl
          · exact hempty

/-- A client that is accepted keeps the thread to itself until it has sent a whole line or
stopped writing: nobody's request is received before, and nobody is answered. -/
theorem silent_client_blocks {moves rest : List (IpcMove κ)} {c : Nat}
    (hreading : (run b.ipcStep (b.ipcStart kernel) moves).listener = .reading c)
    (hunread : ¬ (run b.ipcStep (b.ipcStart kernel) (moves ++ rest)).HasLine c)
    (hrest : ∀ m ∈ rest, m.succeeds = true) :
    (run b.ipcStep (b.ipcStart kernel) (moves ++ rest)).listener = .reading c ∧
      b.received kernel (moves ++ rest) = b.received kernel moves ∧
      b.answered kernel (moves ++ rest) = b.answered kernel moves := by
  have hserving := (run_serving b kernel moves).2
  have hidle := hserving.idle (by rw [hreading]; nofun)
  have hknown : c < (run b.ipcStep (b.ipcStart kernel) moves).count := by
    refine hserving.known c ?_
    unfold IpcState.line
    rw [hreading]
    exact List.mem_append_right _ (List.mem_append_right _ List.mem_cons_self)
  have hlater : ∀ rest, Later c (run b.ipcStep (b.ipcStart kernel) moves)
      (run b.ipcStep (b.ipcStart kernel) (moves ++ rest)) := by
    intro rest
    rw [run_append]
    exact run_invariant b.ipcStep (fun _ m h => h.trans (later_step b m))
      (later_of_conns rfl rfl) rest
  suffices h : Stuck c (run b.ipcStep (b.ipcStart kernel) (moves ++ rest)) ∧
      b.received kernel (moves ++ rest) = b.received kernel moves ∧
      b.answered kernel (moves ++ rest) = b.answered kernel moves from
    ⟨h.1.listener, h.2⟩
  induction rest using List.reverseRecOn with
  | nil =>
      rw [List.append_nil] at hunread ⊢
      exact ⟨⟨hreading, hunread, hidle⟩, rfl, rfl⟩
  | append_singleton rest m ih =>
      rw [← List.append_assoc, run_concat] at hunread
      have hbefore : ¬ (run b.ipcStep (b.ipcStart kernel) (moves ++ rest)).HasLine c := by
        intro hline
        have hstill : c < (run b.ipcStep (b.ipcStart kernel) (moves ++ rest)).count :=
          hknown.trans_le (hlater rest).count
        exact hunread ((later_step b m).line hstill hline)
      obtain ⟨hstuck, hreceived, hanswered⟩ := ih hbefore fun m' hm' =>
        hrest m' (List.mem_append_left _ hm')
      obtain ⟨hreceives, hreplies⟩ := hstuck.quiet m
      rw [← List.append_assoc]
      refine ⟨?_, ?_, ?_⟩
      · rw [run_concat]
        exact hstuck.step (hrest m (List.mem_append_right _ (List.mem_singleton_self m))) hunread
      · rw [← hreceived]
        unfold Boot.received
        rw [output_concat, hreceives, List.append_nil]
      · rw [← hanswered]
        unfold Boot.answered
        rw [output_concat, hreplies, List.append_nil]

/-- The first client sends a command byte by byte, and no line feed yet; the second one sends
a whole line. -/
def slowClient : List (IpcMove Nat) :=
  [.connect, .write 0 (textBytes "s"), .write 1 (cliCommand "status"), .listen true 0, .main {},
    .write 0 (textBytes "t"), .listen true 0, .main {}, .main {}]

/-- Nobody is answered while the first client has not sent its line. -/
theorem second_client_waits :
    quietBoot.answered 0 ([.connect, .listen true 0] ++ slowClient) = [] := by
  have hunread : ¬ (run quietBoot.ipcStep (quietBoot.ipcStart 0)
      ([.connect, .listen true 0] ++ slowClient)).HasLine 0 := by
    have hsent : ((run quietBoot.ipcStep (quietBoot.ipcStart 0)
        ([.connect, .listen true 0] ++ slowClient)).conns 0).sent = textBytes "st" := by
      decide +kernel
    have hopen : ((run quietBoot.ipcStep (quietBoot.ipcStart 0)
        ([.connect, .listen true 0] ++ slowClient)).conns 0).closed = false := by decide +kernel
    unfold IpcState.HasLine
    rw [hsent, hopen]
    decide +kernel
  have hrest : ∀ m ∈ slowClient, m.succeeds = true := by decide
  have hreading :
      (run quietBoot.ipcStep (quietBoot.ipcStart 0) [.connect, .listen true 0]).listener =
        .reading 0 := rfl
  exact (silent_client_blocks quietBoot 0 hreading hunread hrest).2.2

end Runs

end Threadctl.Daemon
