import Mathlib.Logic.Function.Basic
import Threadctl.Daemon.IpcText
import Threadctl.Support.Channel
import Threadctl.Support.Runs

/-!
# The control socket

Clients, the thread that listens on the socket and the main loop.  The thread serves one
connection after the other: it reads a command, sends it to the main loop together with the
sending end of a new channel, waits for the reply and writes it back.
-/

namespace Threadctl.Daemon

open Threadctl.Core Threadctl.Support Threadctl.Support.LineReader Threadctl.Support.Runs

variable {κ : Type}

/-! ## States -/

/-- A connection, as its two ends left it. -/
structure Conn where
  /-- What the client has written. -/
  sent : List UInt8
  /-- The client writes no more. -/
  closed : Bool
  /-- What the server has written. -/
  received : List UInt8
  /-- The server has dropped its end. -/
  hungUp : Bool
  deriving DecidableEq

def Conn.new : Conn := ⟨[], false, [], false⟩

/-- Where the thread is; connections are named by numbers. -/
inductive Listener where
  | accepting
  | reading (c : Nat)
  | sending (c : Nat) (req : IpcRequest)
  /-- In `reply_rx.recv()`, with what the channel holds. -/
  | waiting (c : Nat) (replies : List String)
  | writing (c : Nat) (resp : String)

structure IpcState (κ : Type) where
  conns : Nat → Conn
  /-- The number of the next connection. -/
  count : Nat
  /-- Connections not accepted yet. -/
  backlog : List Nat
  listener : Listener
  /-- A request travels with its `reply_tx`, named by the connection. -/
  requests : Channel (IpcRequest × Nat)
  /-- The main loop holds the `reply_tx` of this connection. -/
  handling : Option Nat
  daemon : DaemonState κ

/-- `Move` without the requests, which come from the socket. -/
inductive IpcMove (κ : Type) where
  | connect
  | write (c : Nat) (bytes : List UInt8)
  | close (c : Nat)
  /-- The thread goes on; without `ok` its call fails, a write after so many bytes. -/
  | listen (ok : Bool) (written : Nat)
  | main (a : Answers)
  /-- The main loop sends what `handle_ipc` returned. -/
  | answer (resp : String)
  | hotReload (changed : Bool) (loaded : Option Compiled)
  | kernelEvent (ev : EbpfProcEvent)
  | kernel (k : κ)

/-! ## Steps -/

section Clients

def IpcState.modifyConn (s : IpcState κ) (c : Nat) (f : Conn → Conn) : IpcState κ :=
  { s with conns := Function.update s.conns c (f (s.conns c)) }

def IpcState.connect (s : IpcState κ) : IpcState κ :=
  { s with
    conns := Function.update s.conns s.count .new
    count := s.count + 1
    backlog := s.backlog ++ [s.count] }

def Conn.write (conn : Conn) (bytes : List UInt8) : Conn :=
  if conn.closed || conn.hungUp then conn else { conn with sent := conn.sent ++ bytes }

end Clients

section Thread

/-- The connection is dropped, and the next one accepted. -/
def IpcState.hangUp (s : IpcState κ) (c : Nat) : IpcState κ :=
  { s.modifyConn c fun conn => { conn with hungUp := true } with listener := .accepting }

/-- The `reply_tx` of the connection still exists. -/
def IpcState.replySender (s : IpcState κ) (c : Nat) : Bool :=
  decide (s.handling = some c) ||
    match s.requests with
    | .connected queue => queue.any fun r => r.2 == c
    | .disconnected => false

/-- One step of the thread; where a call blocks nothing happens. -/
def IpcState.listen (ok : Bool) (written : Nat) (s : IpcState κ) : IpcState κ :=
  match s.listener with
  | .accepting =>
      match s.backlog with
      | [] => s
      | c :: rest =>
          -- `incoming` and `try_clone` may fail
          if ok then { s with backlog := rest, listener := .reading c }
          else { s with backlog := rest }.hangUp c
  | .reading c =>
      let conn := s.conns c
      if !ok then s.hangUp c
      else if LineRead lineLimit conn.sent ∨ conn.closed = true then
        match readRequest conn.sent with
        | none => s.hangUp c
        | some req => { s with listener := .sending c req }
      else s
  | .sending c req =>
      match s.requests.send (req, c) with
      | (.ok _, requests) => { s with requests := requests, listener := .waiting c [] }
      | (.error _, _) => s.hangUp c
  | .waiting c replies =>
      match replies with
      | resp :: _ => { s with listener := .writing c resp }
      | [] => if s.replySender c then s else s.hangUp c
  | .writing c resp =>
      let bytes := if ok then textBytes resp else (textBytes resp).take written
      (s.modifyConn c fun conn => { conn with received := bytes }).hangUp c

end Thread

section Loop

/-- The main loop is about to ask for a request, or done with one. -/
def Point.isIpc : Point → Bool
  | .station .ipc => true
  | _ => false

def Point.isStopped : Point → Bool
  | .stopped => true
  | _ => false

variable (b : Boot κ)

/-- `ipc_rx.try_recv()` -/
def Boot.tryRecv (a : Answers) (s : IpcState κ) : IpcState κ :=
  match s.requests with
  | .connected ((req, c) :: queue) =>
      { s with
        requests := .connected queue
        handling := some c
        daemon := b.step (b.step s.daemon (.request req)) (.main a) }
  | _ => { s with daemon := b.step s.daemon (.main a) }

/-- One step of the main loop.  The reply is sent before anything else is received, and at
the end of the loop its receiver is dropped. -/
def Boot.ipcMain (a : Answers) (s : IpcState κ) : IpcState κ :=
  if s.daemon.point.isIpc then
    if s.handling.isSome then s else b.tryRecv a s
  else
    let d := b.step s.daemon (.main a)
    { s with
      daemon := d
      requests := if d.point.isStopped then .disconnected else s.requests }

/-- The reply goes to the channel that came with the request. -/
def Listener.reply (resp : String) (c : Nat) : Listener → Listener
  | .waiting c' replies => .waiting c' (if c' = c then replies ++ [resp] else replies)
  | l => l

/-- `reply_tx.send(resp)`, once `handle_ipc` has returned. -/
def IpcState.answer (resp : String) (s : IpcState κ) : IpcState κ :=
  match s.handling with
  | some c =>
      if s.daemon.point.isIpc then
        { s with listener := s.listener.reply resp c, handling := none }
      else s
  | none => s

def Boot.ipcStep (s : IpcState κ) : IpcMove κ → IpcState κ
  | .connect => s.connect
  | .write c bytes => s.modifyConn c fun conn => conn.write bytes
  | .close c => s.modifyConn c fun conn => { conn with closed := true }
  | .listen ok written => s.listen ok written
  | .main a => b.ipcMain a s
  | .answer resp => s.answer resp
  | .hotReload changed loaded => { s with daemon := b.step s.daemon (.hotReload changed loaded) }
  | .kernelEvent ev => { s with daemon := b.step s.daemon (.kernelEvent ev) }
  | .kernel k => { s with daemon := b.step s.daemon (.kernel k) }

def Boot.ipcStart (kernel : κ) : IpcState κ where
  conns _ := .new
  count := 0
  backlog := []
  listener := .accepting
  requests := .connected []
  handling := none
  daemon := b.start kernel

end Loop

end Threadctl.Daemon
