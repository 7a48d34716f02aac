import Threadctl.Daemon.IpcRefinement

/-!
# What a client can rely on

The thread has at most one request with the main loop, and a client is only ever sent the
reply to its own request.  Requests are handled in the order in which the clients connected.
-/

namespace Threadctl.Daemon

open Threadctl.Core Threadctl.Support Threadctl.Support.LineReader Threadctl.Support.Runs

variable {κ : Type}

/-- What a step of the thread does. -/
inductive ListenStep (s s' : IpcState κ) : Prop
  | blocked (hs' : s' = s)
  | accepted {c : Nat} {rest : List Nat} (hlistener : s.listener = .accepting)
      (hbacklog : s.backlog = c :: rest)
      (hs' : s' = { s with backlog := rest, listener := .reading c })
  | refused {c : Nat} {rest : List Nat} (hlistener : s.listener = .accepting)
      (hbacklog : s.backlog = c :: rest) (hs' : s' = { s with backlog := rest }.hangUp c)
  | unread {c : Nat} (hlistener : s.listener = .reading c) (hs' : s' = s.hangUp c)
  | read {c : Nat} {req : IpcRequest} (hlistener : s.listener = .reading c)
      (hline : LineRead lineLimit (s.conns c).sent ∨ (s.conns c).closed = true)
      (hreq : readRequest (s.conns c).sent = some req)
      (hs' : s' = { s with listener := .sending c req })
  | sent {c : Nat} {req : IpcRequest} {queue : List (IpcRequest × Nat)}
      (hlistener : s.listener = .sending c req) (hqueue : s.requests = .connected queue)
      (hs' : s' = { s with
        requests := .connected (queue ++ [(req, c)]), listener := .waiting c [] })
  | unsent {c : Nat} {req : IpcRequest} (hlistener : s.listener = .sending c req)
      (hqueue : s.requests = .disconnected) (hs' : s' = s.hangUp c)
  | replied {c : Nat} {resp : String} {rest : List String}
      (hlistener : s.listener = .waiting c (resp :: rest))
      (hs' : s' = { s with listener := .writing c resp })
  | dropped {c : Nat} (hlistener : s.listener = .waiting c [])
      (hsender : s.replySender c = false) (hs' : s' = s.hangUp c)
  | written {c : Nat} {resp : String} {bytes : List UInt8}
      (hlistener : s.listener = .writing c resp) (hbytes : bytes <+: textBytes resp)
      (hs' : s' = (s.modifyConn c fun conn => { conn with received := bytes }).hangUp c)

theorem listen_cases (ok : Bool) (written : Nat) (s : IpcState κ) :
    ListenStep s (s.listen ok written) := by
  unfold IpcState.listen
  cases hlistener : s.listener with
  | accepting =>
      dsimp only
      cases hbacklog : s.backlog with
      | nil => exact .blocked rfl
      | cons c rest =>
          cases ok with
          | true => exact .accepted hlistener hbacklog rfl
          | false => exact .refused hlistener hbacklog rfl
  | reading c =>
      dsimp only
      split
      · exact .unread hlistener rfl
      · split
        · rename_i hline
          cases hreq : readRequest (s.conns c).sent with
          | none => exact .unread hlistener rfl
          | some req => exact .read hlistener hline hreq rfl
        · exact .blocked rfl
  | sending c req =>
      dsimp only
      cases hqueue : s.requests with
      | connected queue => exact .sent hlistener hqueue rfl
      | disconnected => exact .unsent hlistener hqueue rfl
  | waiting c replies =>
      cases replies with
      | cons resp rest => exact .replied hlistener rfl
      | nil =>
          dsimp only
          split
          · exact .blocked rfl
          · rename_i hsender
            exact .dropped hlistener (by simpa using hsender) rfl
  | writing c resp =>
      refine .written hlistener ?_ rfl
      split
      · exact List.prefix_refl _
      · exact List.take_prefix _ _

/-! ## The invariant -/

/-- The connection has brought a line with this request, and nothing can change it. -/
def Spoke (conns : Nat → Conn) (c : Nat) (req : IpcRequest) : Prop :=
  (LineRead lineLimit (conns c).sent ∨ (conns c).closed = true) ∧
    readRequest (conns c).sent = some req

/-- The connection whose request is not sent yet. -/
def Listener.fresh : Listener → List Nat
  | .reading c | .sending c _ => [c]
  | _ => []

/-- All connections from the first request received to the last in the backlog. -/
def IpcState.line (s : IpcState κ) (received : List (Nat × IpcRequest)) : List Nat :=
  received.map (·.1) ++ (s.requests.content.map (·.2) ++ (s.listener.fresh ++ s.backlog))

/-- The thread, the channel of the requests and the main loop agree on whose turn it is. -/
inductive Phase (answered : List (Nat × String)) :
    Listener → Channel (IpcRequest × Nat) → Option Nat → Prop
  | accepting {requests} (hempty : requests.content = []) : Phase answered .accepting requests none
  | reading {c requests} (hempty : requests.content = []) :
      Phase answered (.reading c) requests none
  | sending {c req requests} (hempty : requests.content = []) :
      Phase answered (.sending c req) requests none
  | queued {c req} : Phase answered (.waiting c []) (.connected [(req, c)]) none
  | handled {c} : Phase answered (.waiting c []) (.connected []) (some c)
  | replied {c resp requests} (hempty : requests.content = []) (hresp : (c, resp) ∈ answered) :
      Phase answered (.waiting c [resp]) requests none
  | dropped {c} : Phase answered (.waiting c []) .disconnected none
  | writing {c resp requests} (hempty : requests.content = []) (hresp : (c, resp) ∈ answered) :
      Phase answered (.writing c resp) requests none

structure Serving (received : List (Nat × IpcRequest)) (answered : List (Nat × String))
    (s : IpcState κ) : Prop where
  order : (s.line received).Pairwise (· < ·)
  known : ∀ c ∈ s.line received, c < s.count
  phase : Phase answered s.listener s.requests s.handling
  replied : received.map (·.1) = answered.map (·.1) ++ s.handling.toList
  spoke : ∀ r ∈ received, Spoke s.conns r.1 r.2
  queued : ∀ r ∈ s.requests.content, Spoke s.conns r.2 r.1
  sending : ∀ c req, s.listener = .sending c req → Spoke s.conns c req
  delivered : ∀ c, (s.conns c).received ≠ [] → ∃ resp, (c, resp) ∈ answered ∧
    (s.conns c).received <+: textBytes resp

section Conns

variable {s : IpcState κ}

/-- Only bytes after the line may come. -/
def Extends (conn conn' : Conn) : Prop :=
  (LineRead lineLimit conn.sent ∨ conn.closed = true) →
    (LineRead lineLimit conn'.sent ∨ conn'.closed = true) ∧
      readRequest conn'.sent = readRequest conn.sent

theorem extends_same {conn conn' : Conn} (hsent : conn'.sent = conn.sent)
    (hclosed : conn.closed = true → conn'.closed = true) : Extends conn conn' := by
  intro h
  rw [hsent]
  exact ⟨h.imp_right hclosed, rfl⟩

theorem extends_write (conn : Conn) (bytes : List UInt8) : Extends conn (conn.write bytes) := by
  intro h
  unfold Conn.write
  split
  · exact ⟨h, rfl⟩
  · rename_i hopen
    rcases h with hline | hclosed
    · refine ⟨Or.inl (hline.append bytes), ?_⟩
      unfold readRequest
      dsimp only
      rw [readLine_append hline]
    · rw [hclosed] at hopen
      exact absurd rfl hopen

theorem Spoke.update {conns : Nat → Conn} {c : Nat} {req : IpcRequest} (h : Spoke conns c req)
    {c' : Nat} {conn : Conn} (hconn : Extends (conns c') conn) :
    Spoke (Function.update conns c' conn) c req := by
  unfold Spoke
  by_cases hc : c = c'
  · subst hc
    rw [Function.update_self]
    obtain ⟨hline, hreq⟩ := hconn h.1
    exact ⟨hline, hreq.trans h.2⟩
  · rw [Function.update_of_ne hc]
    exact h

end Conns

/-! ## Steps keep the invariant -/

section Steps

variable {received : List (Nat × IpcRequest)} {answered : List (Nat × String)} {s : IpcState κ}

def Idle (s : IpcState κ) : Prop := s.requests.content = [] ∧ s.handling = none

theorem Serving.idle (h : Serving received answered s)
    (hlistener : ∀ c replies, s.listener ≠ .waiting c replies) : Idle s := by
  have hphase := h.phase
  unfold Idle
  generalize s.listener = l at hphase hlistener
  generalize s.requests = requests at hphase ⊢
  generalize s.handling = o at hphase ⊢
  cases hphase with
  | accepting hempty | reading hempty | sending hempty => exact ⟨hempty, rfl⟩
  | writing hempty hresp => exact ⟨hempty, rfl⟩
  | queued | handled | replied | dropped => exact absurd rfl (hlistener _ _)

theorem Serving.modifyConn (h : Serving received answered s) {c : Nat} {f : Conn → Conn}
    (hextends : Extends (s.conns c) (f (s.conns c)))
    (hdelivered : (f (s.conns c)).received ≠ [] → ∃ resp, (c, resp) ∈ answered ∧
      (f (s.conns c)).received <+: textBytes resp) :
    Serving received answered (s.modifyConn c f) where
  order := h.order
  known := h.known
  phase := h.phase
  replied := h.replied
  spoke r hr := (h.spoke r hr).update hextends
  queued r hr := (h.queued r hr).update hextends
  sending c req hl := (h.sending c req hl).update hextends
  delivered c' hne := by
    show ∃ resp, (c', resp) ∈ answered ∧
      (Function.update s.conns c (f (s.conns c)) c').received <+: textBytes resp
    change (Function.update s.conns c (f (s.conns c)) c').received ≠ [] at hne
    by_cases hc : c' = c
    · subst hc
      rw [Function.update_self] at hne ⊢
      exact hdelivered hne
    · rw [Function.update_of_ne hc] at hne ⊢
      exact h.delivered c' hne

theorem Serving.touch (h : Serving received answered s) {c : Nat} {f : Conn → Conn}
    (hextends : Extends (s.conns c) (f (s.conns c)))
    (hsame : (f (s.conns c)).received = (s.conns c).received) :
    Serving received answered (s.modifyConn c f) := by
  refine h.modifyConn hextends fun hne => ?_
  rw [hsame] at hne ⊢
  exact h.delivered c hne

theorem Serving.order_of_sublist (h : Serving received answered s) {line : List Nat}
    (hline : line.Sublist (s.line received)) :
    line.Pairwise (· < ·) ∧ ∀ c ∈ line, c < s.count :=
  ⟨h.order.sublist hline, fun c hc => h.known c (hline.subset hc)⟩

theorem Serving.hangUp (h : Serving received answered s) (hidle : Idle s) (c : Nat) :
    Serving received answered (s.hangUp c) := by
  obtain ⟨hempty, hfree⟩ := hidle
  have hconn := h.touch (c := c) (f := fun conn => { conn with hungUp := true })
    (extends_same rfl id) rfl
  have hline : List.Sublist (received.map (fun r => r.1) ++
      (s.requests.content.map (fun r => r.2) ++ ([] ++ s.backlog))) (s.line received) := by
    refine (List.Sublist.refl _).append ((List.Sublist.refl _).append ?_)
    exact (List.nil_sublist _).append (List.Sublist.refl _)
  obtain ⟨horder, hknown⟩ := h.order_of_sublist hline
  exact { hconn with
    order := horder
    known := hknown
    phase := hfree ▸ .accepting hempty
    sending := nofun }

theorem Serving.listen (h : Serving received answered s) (ok : Bool) (written : Nat) :
    Serving received answered (s.listen ok written) := by
  have hphase := h.phase
  cases listen_cases ok written s with
  | blocked hs' => rwa [hs']
  | @accepted c rest hlistener hbacklog hs' =>
      obtain ⟨hempty, hfree⟩ := h.idle (by rw [hlistener]; nofun)
      have hline : List.Sublist (received.map (fun r => r.1) ++
          (s.requests.content.map (fun r => r.2) ++ ([c] ++ rest))) (s.line received) := by
        unfold IpcState.line
        rw [hlistener, hbacklog]
        exact List.Sublist.refl _
      obtain ⟨horder, hknown⟩ := h.order_of_sublist hline
      rw [hs']
      exact { h with
        order := horder
        known := hknown
        phase := hfree ▸ .reading hempty
        sending := nofun }
  | @refused c rest hlistener hbacklog hs' =>
      have hidle := h.idle (by rw [hlistener]; nofun)
      have hline : List.Sublist (received.map (fun r => r.1) ++
          (s.requests.content.map (fun r => r.2) ++ (s.listener.fresh ++ rest)))
          (s.line received) := by
        unfold IpcState.line
        rw [hbacklog]
        exact (List.Sublist.refl _).append ((List.Sublist.refl _).append
          ((List.Sublist.refl _).append (List.sublist_cons_self c rest)))
      obtain ⟨horder, hknown⟩ := h.order_of_sublist hline
      have hskip : Serving received answered { s with backlog := rest } :=
        { h with order := horder, known := hknown }
      rw [hs']
      exact hskip.hangUp hidle c
  | @unread c hlistener hs' =>
      rw [hs']
      exact h.hangUp (h.idle (by rw [hlistener]; nofun)) c
  | @read c req hlistener hline hreq hs' =>
      obtain ⟨hempty, hfree⟩ := h.idle (by rw [hlistener]; nofun)
      have hsame : List.Sublist (received.map (fun r => r.1) ++
          (s.requests.content.map (fun r => r.2) ++ ([c] ++ s.backlog))) (s.line received) := by
        unfold IpcState.line
        rw [hlistener]
        exact List.Sublist.refl _
      obtain ⟨horder, hknown⟩ := h.order_of_sublist hsame
      rw [hs']
      exact { h with
        order := horder
        known := hknown
        phase := hfree ▸ .sending hempty
        sending := by
          intro c' req' hsending
          obtain ⟨rfl, rfl⟩ := Listener.sending.inj hsending
          exact ⟨hline, hreq⟩ }
  | @sent c req queue hlistener hqueue hs' =>
      obtain ⟨hempty, hfree⟩ := h.idle (by rw [hlistener]; nofun)
      have hnil : queue = [] := by
        rw [hqueue] at hempty
        exact hempty
      subst hnil
      have hsame : List.Sublist (received.map (fun r => r.1) ++ ([c] ++ ([] ++ s.backlog)))
          (s.line received) := by
        unfold IpcState.line
        rw [hlistener, hempty]
        exact List.Sublist.refl _
      obtain ⟨horder, hknown⟩ := h.order_of_sublist hsame
      rw [hs']
      exact { h with
        order := horder
        known := hknown
        phase := hfree ▸ .queued
        queued := by
          intro r hr
          rw [List.mem_singleton.mp hr]
          exact h.sending c req hlistener
        sending := nofun }
  | @unsent c req hlistener hqueue hs' =>
      rw [hs']
      exact h.hangUp (h.idle (by rw [hlistener]; nofun)) c
  | @replied c resp rest hlistener hs' =>
      have hline : List.Sublist (received.map (fun r => r.1) ++
          (s.requests.content.map (fun r => r.2) ++ ([] ++ s.backlog))) (s.line received) := by
        unfold IpcState.line
        rw [hlistener]
        exact List.Sublist.refl _
      obtain ⟨horder, hknown⟩ := h.order_of_sublist hline
      have hwriting : Phase answered (.writing c resp) s.requests s.handling := by
        rw [hlistener] at hphase
        generalize s.handling = o at hphase ⊢
        cases hphase with
        | replied hempty hresp => exact .writing hempty hresp
      rw [hs']
      exact { h with
        order := horder
        known := hknown
        phase := hwriting
        sending := nofun }
  | @dropped c hlistener hsender hs' =>
      have hidle : Idle s := by
        rw [hlistener] at hphase
        unfold IpcState.replySender at hsender
        unfold Idle
        generalize s.handling = o at hphase hsender ⊢
        generalize s.requests = requests at hphase hsender ⊢
        cases hphase with
        | queued => exact absurd hsender (by simp)
        | handled => exact absurd hsender (by simp)
        | dropped => exact ⟨rfl, rfl⟩
      rw [hs']
      exact h.hangUp hidle c
  | @written c resp bytes hlistener hbytes hs' =>
      have hidle := h.idle (by rw [hlistener]; nofun)
      have hresp : (c, resp) ∈ answered := by
        rw [hlistener] at hphase
        generalize s.handling = o at hphase
        cases hphase with
        | writing hempty hresp => exact hresp
      have hconn := h.modifyConn (c := c) (f := fun conn => { conn with received := bytes })
        (extends_same rfl id) fun _ => ⟨resp, hresp, hbytes⟩
      rw [hs']
      exact hconn.hangUp hidle c

theorem Serving.connect (h : Serving received answered s) :
    Serving received answered s.connect := by
  have hnew : ∀ c, c < s.count → Function.update s.conns s.count Conn.new c = s.conns c :=
    fun c hc => Function.update_of_ne (Nat.ne_of_lt hc) _ _
  have hspoke : ∀ {c req}, c < s.count → Spoke s.conns c req →
      Spoke (Function.update s.conns s.count Conn.new) c req := by
    intro c req hc hspoke
    unfold Spoke
    rw [hnew c hc]
    exact hspoke
  have hline : s.connect.line received = s.line received ++ [s.count] := by
    unfold IpcState.line IpcState.connect
    simp only [List.append_assoc]
  constructor
  · rw [hline, List.pairwise_append]
    refine ⟨h.order, List.pairwise_singleton _ _, fun c hc c' hc' => ?_⟩
    rw [List.mem_singleton.mp hc']
    exact h.known c hc
  · intro c hc
    rw [hline, List.mem_append] at hc
    show c < s.count + 1
    rcases hc with hold | hlast
    · have hlt := h.known c hold
      omega
    · have heq := List.mem_singleton.mp hlast
      omega
  · exact h.phase
  · exact h.replied
  · intro r hr
    refine hspoke (h.known r.1 ?_) (h.spoke r hr)
    exact List.mem_append_left _ (List.mem_map_of_mem hr)
  · intro r hr
    refine hspoke (h.known r.2 ?_) (h.queued r hr)
    exact List.mem_append_right _ (List.mem_append_left _ (List.mem_map_of_mem hr))
  · intro c req hsending
    refine hspoke (h.known c ?_) (h.sending c req hsending)
    have hfresh : c ∈ s.listener.fresh := by
      rw [show s.listener = .sending c req from hsending]
      exact List.mem_singleton_self c
    exact List.mem_append_right _ (List.mem_append_right _ (List.mem_append_left _ hfresh))
  · intro c hne
    change (Function.update s.conns s.count Conn.new c).received ≠ [] at hne
    show ∃ resp, (c, resp) ∈ answered ∧
      (Function.update s.conns s.count Conn.new c).received <+: textBytes resp
    by_cases hc : c = s.count
    · subst hc
      rw [Function.update_self] at hne
      exact absurd rfl hne
    · rw [Function.update_of_ne hc] at hne ⊢
      exact h.delivered c hne

def replies (s : IpcState κ) : IpcMove κ → List (Nat × String)
  | .answer resp =>
      match s.handling with
      | some c => if s.daemon.point.isIpc then [(c, resp)] else []
      | none => []
  | _ => []

theorem Serving.handled (h : Serving received answered s) {c : Nat} (hc : s.handling = some c) :
    s.listener = .waiting c [] ∧ s.requests = .connected [] := by
  have hphase := h.phase
  rw [hc] at hphase
  generalize s.listener = l at hphase ⊢
  generalize s.requests = requests at hphase ⊢
  cases hphase with
  | handled => exact ⟨rfl, rfl⟩

/-- While a request is in the channel the thread waits for the reply, and no other request
is there. -/
theorem Serving.pending (h : Serving received answered s) {req : IpcRequest} {c : Nat}
    {queue : List (IpcRequest × Nat)} (hqueue : s.requests = .connected ((req, c) :: queue)) :
    s.listener = .waiting c [] ∧ queue = [] := by
  have hphase := h.phase
  rw [hqueue] at hphase
  generalize s.listener = l at hphase ⊢
  generalize s.handling = o at hphase
  cases hphase with
  | accepting hempty | reading hempty | sending hempty => exact absurd hempty (List.cons_ne_nil _ _)
  | replied hempty hresp | writing hempty hresp => exact absurd hempty (List.cons_ne_nil _ _)
  | queued => exact ⟨rfl, rfl⟩

/-- The main loop sends the reply, and the thread has it. -/
theorem Serving.answer (h : Serving received answered s) (resp : String) :
    Serving received (answered ++ replies s (.answer resp)) (s.answer resp) := by
  unfold IpcState.answer replies
  cases hhandling : s.handling with
  | none =>
      dsimp only
      rw [List.append_nil]
      exact h
  | some c =>
      dsimp only
      split
      · obtain ⟨hlistener, hrequests⟩ := h.handled hhandling
        have hlistener' : s.listener.reply resp c = .waiting c [resp] := by
          rw [hlistener]
          exact congrArg (Listener.waiting c) (if_pos rfl)
        have hline : List.Sublist (received.map (fun r => r.1) ++
            (s.requests.content.map (fun r => r.2) ++ ([] ++ s.backlog))) (s.line received) := by
          unfold IpcState.line
          rw [hlistener]
          exact List.Sublist.refl _
        obtain ⟨horder, hknown⟩ := h.order_of_sublist hline
        have hreplied := h.replied
        rw [hhandling] at hreplied
        rw [hlistener']
        constructor
        · exact horder
        · exact hknown
        · rw [hrequests]
          exact .replied rfl (List.mem_append_right _ (List.mem_singleton_self _))
        · rw [List.map_append, hreplied]
          exact (List.append_nil _).symm
        · exact h.spoke
        · exact h.queued
        · exact nofun
        · intro c' hne
          obtain ⟨resp', hmem, hprefix⟩ := h.delivered c' hne
          exact ⟨resp', List.mem_append_left _ hmem, hprefix⟩
      · rw [List.append_nil]
        exact h

theorem not_stopped_of_serves {p : Point} (h : p.serves = true) : p.isStopped = false := by
  cases p with
  | stopped => exact absurd h Bool.false_ne_true
  | top | station | reloading | doReload | relock | handle => rfl

/-- The main loop takes the request that waits, or drops it as it stops. -/
theorem Serving.main (h : Serving received answered s) {b : Boot κ} (hasking : Asking s)
    (a : Answers) : Serving (received ++ receives s (.main a)) answered (b.ipcMain a s) := by
  cases ipcMain_cases b a s with
  | held hipc hc hs' =>
      have hnone : receives s (.main a) = [] := by
        unfold receives
        rw [hipc, hc]
        rfl
      rw [hs', hnone, List.append_nil]
      exact h
  | @received hipc hfree req c queue hqueue hs' =>
      obtain ⟨hlistener, rfl⟩ := h.pending hqueue
      have hreceives : receives s (.main a) = [(c, req)] := by
        rw [receives_main hipc hfree, hqueue]
        rfl
      have hline : List.Sublist ((received ++ [(c, req)]).map (fun r => r.1) ++
          ([] ++ (s.listener.fresh ++ s.backlog))) (s.line received) := by
        unfold IpcState.line
        rw [hqueue, List.map_append, List.append_assoc]
        exact List.Sublist.refl _
      obtain ⟨horder, hknown⟩ := h.order_of_sublist hline
      have hreplied := h.replied
      rw [hfree] at hreplied
      rw [hs', hreceives]
      constructor
      · exact horder
      · exact hknown
      · show Phase answered s.listener (.connected []) (some c)
        rw [hlistener]
        exact .handled
      · rw [List.map_append, hreplied, Option.toList_none, List.append_nil]
        rfl
      · intro r hr
        rcases List.mem_append.mp hr with hold | hnew
        · exact h.spoke r hold
        · rw [List.mem_singleton.mp hnew]
          exact h.queued (req, c) (by rw [hqueue]; exact List.mem_singleton_self _)
      · exact nofun
      · exact h.sending
      · exact h.delivered
  | empty hipc hfree hqueue hs' =>
      have hnone : receives s (.main a) = [] := by
        rw [receives_main hipc hfree, hqueue]
        rfl
      rw [hs', hnone, List.append_nil]
      exact { h with }
  | other hipc hs' =>
      have hnone : receives s (.main a) = [] := by
        unfold receives
        rw [hipc]
        rfl
      rw [hs', hnone, List.append_nil]
      cases hstopped : (b.step s.daemon (.main a)).point.isStopped with
      | false => exact { h with }
      | true =>
          have hfree : s.handling = none := by
            cases hhandling : s.handling with
            | none => rfl
            | some c =>
                have hserves := (mainStep_serves (b := b) (hasking.serves c hhandling) hipc a).1
                exact absurd ((not_stopped_of_serves hserves).symm.trans hstopped)
                  Bool.false_ne_true
          have hline : List.Sublist (received.map (fun r => r.1) ++
              ([] ++ (s.listener.fresh ++ s.backlog))) (s.line received) :=
            (List.Sublist.refl _).append ((List.nil_sublist _).append (List.Sublist.refl _))
          obtain ⟨horder, hknown⟩ := h.order_of_sublist hline
          have hphase : Phase answered s.listener .disconnected s.handling := by
            have hphase := h.phase
            rw [hfree] at hphase ⊢
            generalize s.listener = l at hphase ⊢
            generalize s.requests = requests at hphase
            cases hphase with
            | accepting hempty => exact .accepting rfl
            | reading hempty => exact .reading rfl
            | sending hempty => exact .sending rfl
            | queued | dropped => exact .dropped
            | replied hempty hresp => exact .replied rfl hresp
            | writing hempty hresp => exact .writing rfl hresp
          exact { h with
            order := horder
            known := hknown
            phase := hphase
            queued := nofun }

theorem Serving.step (h : Serving received answered s) {b : Boot κ} (hasking : Asking s)
    (m : IpcMove κ) :
    Serving (received ++ receives s m) (answered ++ replies s m) (b.ipcStep s m) := by
  have hquiet : ∀ {m : IpcMove κ} {s' : IpcState κ}, receives s m = [] → replies s m = [] →
      Serving received answered s' →
        Serving (received ++ receives s m) (answered ++ replies s m) s' := by
    intro m s' hreceives hreplies hs'
    rw [hreceives, hreplies, List.append_nil, List.append_nil]
    exact hs'
  cases m with
  | main a =>
      rw [show replies s (.main a) = [] from rfl, List.append_nil]
      exact h.main hasking a
  | answer resp =>
      rw [show receives s (.answer resp) = [] from rfl, List.append_nil]
      exact h.answer resp
  | connect => exact hquiet rfl rfl h.connect
  | write c bytes =>
      have hwritten : ((s.conns c).write bytes).received = (s.conns c).received := by
        unfold Conn.write
        split
        · rfl
        · rfl
      exact hquiet rfl rfl (h.touch (f := fun conn => conn.write bytes) (extends_write _ bytes)
        hwritten)
  | close c =>
      exact hquiet rfl rfl (h.touch (f := fun conn => { conn with closed := true })
        (extends_same rfl fun _ => rfl) rfl)
  | listen ok written => exact hquiet rfl rfl (h.listen ok written)
  | hotReload | kernelEvent | kernel => exact hquiet rfl rfl { h with }

end Steps

/-! ## Runs -/

section Runs

variable (b : Boot κ) (kernel : κ)

theorem serving_start : Serving [] [] (b.ipcStart kernel) where
  order := List.Pairwise.nil
  known := nofun
  phase := .accepting rfl
  replied := rfl
  spoke := nofun
  queued := nofun
  sending := nofun
  delivered _ hne := absurd rfl hne

/-- The requests received so far, each with its connection. -/
def Boot.received (moves : List (IpcMove κ)) : List (Nat × IpcRequest) :=
  output b.ipcStep receives (b.ipcStart kernel) moves

/-- The replies sent so far, each with its connection. -/
def Boot.answered (moves : List (IpcMove κ)) : List (Nat × String) :=
  output b.ipcStep replies (b.ipcStart kernel) moves

theorem run_serving (moves : List (IpcMove κ)) :
    Asking (run b.ipcStep (b.ipcStart kernel) moves) ∧
      Serving (b.received kernel moves) (b.answered kernel moves)
        (run b.ipcStep (b.ipcStart kernel) moves) := by
  induction moves using List.reverseRecOn with
  | nil => exact ⟨asking_start b kernel, serving_start b kernel⟩
  | append_singleton moves m ih =>
      obtain ⟨hasking, hserving⟩ := ih
      unfold Boot.received Boot.answered
      rw [run_concat, output_concat, output_concat]
      exact ⟨hasking.step m, hserving.step hasking m⟩

/-- Whatever the clients write and however the threads take turns: requests are received in
the order of their connections, each connection at most once, and each is what its connection
says.  Replies are sent in the same order, with at most one outstanding, and what a client is
sent is the reply to its own request. -/
theorem clients_served_in_turn (moves : List (IpcMove κ)) :
    let s := run b.ipcStep (b.ipcStart kernel) moves
    let received := b.received kernel moves
    let answered := b.answered kernel moves
    (received.map (·.1)).Pairwise (· < ·) ∧
      (∀ r ∈ received, readRequest (s.conns r.1).sent = some r.2) ∧
      received.map (·.1) = answered.map (·.1) ++ s.handling.toList ∧
      s.requests.content.length + s.handling.toList.length ≤ 1 ∧
      ∀ c, (s.conns c).received ≠ [] → ∃ req resp, (c, req) ∈ received ∧ (c, resp) ∈ answered ∧
        (s.conns c).received <+: textBytes resp := by
  intro s received answered
  have hserving : Serving received answered s := (run_serving b kernel moves).2
  refine ⟨?_, fun r hr => (hserving.spoke r hr).2, hserving.replied, ?_, fun c hne => ?_⟩
  · exact hserving.order.sublist (List.sublist_append_left _ _)
  · have hphase := hserving.phase
    generalize s.listener = l at hphase
    generalize s.requests = requests at hphase ⊢
    generalize s.handling = o at hphase ⊢
    cases hphase with
    | accepting hempty | reading hempty | sending hempty => rw [hempty]; decide
    | replied hempty hresp | writing hempty hresp => rw [hempty]; decide
    | queued => exact Nat.le_refl 1
    | handled => exact Nat.le_refl 1
    | dropped => exact Nat.zero_le 1
  · obtain ⟨resp, hresp, hprefix⟩ := hserving.delivered c hne
    have hmem : c ∈ received.map (·.1) := by
      rw [hserving.replied]
      exact List.mem_append_left _ (List.mem_map_of_mem hresp)
    obtain ⟨r, hr, rfl⟩ := List.mem_map.mp hmem
    exact ⟨r.2, resp, hr, hresp, hprefix⟩

end Runs

end Threadctl.Daemon
