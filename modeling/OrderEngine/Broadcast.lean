import OrderEngine.ConnectionRegistry
import OrderEngine.SendSteps

/-!
# TcpServer: broadcast

`broadcast` sends a message to each connection of the map that is up, and holds
`connections_mutex_` meanwhile: no connection enters or leaves the map, but the threads go on with
all else. Nothing keeps a connection's own thread out of its buffers: a `send`, the broadcast's or
a handler's, goes step by step, and a `handleWrite` erases what it has written in a step of its own.
-/
namespace Broadcast

open EpollPoller TcpConnection TcpServer ServerShape ConnectionRegistry OutputStream SendSteps

/-- What a thread does with a connection's output: a `send`, or a `handleWrite` that has written. -/
inductive Use where
  | sends (sending : Sending)
  | writes (write : WriteResult)
  deriving DecidableEq, Repr

/-- The server, the message of the broadcast under way with the entries that are left, and what
the broadcast, under `none`, and the threads of the sub-reactors are in the middle of. -/
structure State where
  server : Server
  sending : Option (List UInt8 × List (Nat × ConnId))
  uses : Option Nat → Option (ConnId × Use)

def State.use (s : State) (who : Option Nat) (use : Option (ConnId × Use)) : State :=
  { s with uses := Function.update s.uses who use }

/-- A server that has just started. -/
def started : State where
  server := start
  sending := none
  uses _ := none

inductive Call where
  | server (a : Action)
  | broadcast (message : List UInt8) (order : List (Nat × ConnId))
  | visit
  | done
  | userSend (j : Nat) (c : ConnId) (data : List UInt8)
  | send (who : Option Nat) (write : WriteResult)
  | handleWrite (j : Nat) (write : WriteResult)
  | handleWriteEnds (j : Nat)
  deriving DecidableEq, Repr

/-- The steps that take `connections_mutex_`. -/
def locks : Action → Bool
  | .register => true
  | .remove _ => true
  | _ => false

/-- The sub-reactor on whose thread a step is taken, if it is not the accepting one. -/
def thread : Action → Option Nat
  | .accept _ _ _ => none
  | a => loopOf a

/-- A `send`, or a `handleWrite` with something to write: those are taken in their own steps. -/
def splits (s : Server) : Action → Bool
  | .userSend _ _ _ _ => true
  | .callback j _ _ =>
    match (s.loops j).stack with
    | .event c (.write :: _) :: _ => !(s.conn c).outputBuffer.isEmpty
    | _ => false
  | _ => false

/-- A broadcast has the mutex, or the thread is in the middle of a `send` or a `handleWrite`. -/
def blocked (s : State) (a : Action) : Bool :=
  (s.sending.isSome && locks a) || splits s.server a ||
    (thread a).any (fun j => (s.uses (some j)).isSome)

/-- A step of the server; `broadcast` up to its loop, a round of the loop up to its call of `send`,
and its return; or a step of a `send` or a `handleWrite`. The loop goes through the
`std::unordered_map` in any order. -/
def step (s : State) : Call → Option State
  | .server a =>
    if blocked s a then none
    else (TcpServer.step s.server a).map (fun server => { s with server := server })
  | .broadcast message order =>
    Runs.guarded (s.sending = none ∧ order.Perm s.server.connections)
      { s with sending := some (message, order) }
  | .visit =>
    match s.uses none, s.sending with
    | none, some (message, (_, c) :: rest) =>
      if (s.server.conn c).isConnected then
        some ({ s with sending := some (message, rest) }.use none
          (some (c, .sends (.called message))))
      else some { s with sending := some (message, rest) }
    | _, _ => none
  | .done =>
    match s.uses none, s.sending with
    | none, some (_, []) => some { s with sending := none }
    | _, _ => none
  | .userSend j c data =>
    Runs.guarded (s.uses (some j) = none ∧ s.server.UserMayUse j c)
      (s.use (some j) (some (c, .sends (.called data))))
  | .send who write =>
    match s.uses who with
    | some (c, .sends sending) =>
      let next := sending.next (s.server.conn c) write
      Runs.guarded (write.Fits sending.data.length)
        ({ s with server := s.server.setConn c next.1 }.use who
          (next.2.map (fun sending => (c, .sends sending))))
    | _ => none
  | .handleWrite j write =>
    match (s.server.loops j).stack with
    | .event c (.write :: _) :: _ =>
      Runs.guarded (s.uses (some j) = none ∧ (s.server.conn c).outputBuffer ≠ [] ∧
          write.Fits (s.server.conn c).outputBuffer.length)
        (s.use (some j) (some (c, .writes write)))
    | _ => none
  | .handleWriteEnds j =>
    match s.uses (some j) with
    | some (_, .writes write) =>
      (TcpServer.step s.server (.callback j (.failed .wouldBlock) write)).map
        (fun server => { s with server := server }.use (some j) none)
    | _ => none

/-- The connections in the map when a broadcast begins, in the order in which it takes them. -/
def begun (_ : State) : Call → List ConnId
  | .broadcast _ order => order.map Prod.snd
  | _ => []

/-- The connection that the loop comes to. -/
def visited (s : State) : Call → List ConnId
  | .visit =>
    match s.sending with
    | some (_, (_, c) :: _) => [c]
    | _ => []
  | _ => []

/-- The connections that the loop has still to come to. -/
def left (s : State) : List ConnId :=
  match s.sending with
  | some (_, rest) => rest.map Prod.snd
  | none => []

/-- The data of a `send` to the connection, at the step from which on it does not return -1. -/
def sent (c : ConnId) (s : State) : Call → List UInt8
  | .send who write =>
    match s.uses who with
    | some (d, .sends sending) => if d = c then sending.sent (s.server.conn d) write else []
    | _ => []
  | _ => []

/-- The bytes that the kernel accepts for the connection. -/
def accepted (c : ConnId) (s : State) : Call → List UInt8
  | .send who write =>
    match s.uses who with
    | some (d, .sends sending) => if d = c then sending.accepted write else []
    | _ => []
  | .handleWrite j write =>
    match (s.server.loops j).stack with
    | .event d (.write :: _) :: _ =>
      if d = c then written (s.server.conn d).outputBuffer write else []
    | _ => []
  | _ => []

def outputBuffer (c : ConnId) (s : State) : List UInt8 := (s.server.conn c).outputBuffer

/-- How many bytes of the connection's buffer a `handleWrite` has written and not yet erased. -/
def taken (c : ConnId) : Option (ConnId × Use) → Nat
  | some (d, .writes write) => if d = c then write.count.getD 0 else 0
  | _ => 0

/-- What a `send` to the connection has still to append. -/
def rest (c : ConnId) : Option (ConnId × Use) → List UInt8
  | some (d, .sends sending) => if d = c then sending.rest else []
  | _ => []

/-- The bytes that wait for the kernel: those of the buffer that it has not taken yet, and those
that a `send` on the connection's own thread or of the broadcast has still to append. -/
def waiting (c : ConnId) (s : State) : List UInt8 :=
  let own := s.uses (some (s.server.reactorOf c))
  (outputBuffer c s).drop (taken c own) ++ (rest c own ++ rest c (s.uses none))

/-- The use is a `send` to the connection. -/
def sendsTo (c : ConnId) : Option (ConnId × Use) → Bool
  | some (d, .sends _) => d = c
  | _ => false

/-- A `send` to the connection is under way. -/
def sendUnderWay (c : ConnId) (s : State) : Bool :=
  sendsTo c (s.uses none) || sendsTo c (s.uses (some (s.server.reactorOf c)))

/-- The connection to which the step calls `send`. -/
def calls (s : State) : Call → Option ConnId
  | .visit =>
    match s.sending with
    | some (_, (_, c) :: _) => if (s.server.conn c).isConnected then some c else none
    | _ => none
  | .userSend _ c _ => some c
  | _ => none

/-- No `send` to a connection is called while another one to it is under way. -/
def Serial (s : State) (call : Call) : Prop := ∀ c ∈ calls s call, sendUnderWay c s = false

instance (s : State) (call : Call) : Decidable (Serial s call) :=
  inferInstanceAs (Decidable (∀ c ∈ calls s call, sendUnderWay c s = false))

/-- What a step can do. -/
inductive Outcome (s : State) : Call → State → Prop where
  | server (a : Action) (server : Server) (hblocked : blocked s a = false)
      (hstep : TcpServer.step s.server a = some server) :
      Outcome s (.server a) { s with server := server }
  | broadcast (message : List UInt8) (order : List (Nat × ConnId)) (hidle : s.sending = none)
      (hperm : order.Perm s.server.connections) :
      Outcome s (.broadcast message order) { s with sending := some (message, order) }
  | calls (message : List UInt8) (fd : Nat) (c : ConnId) (rest : List (Nat × ConnId))
      (hfree : s.uses none = none) (hsending : s.sending = some (message, (fd, c) :: rest))
      (hup : (s.server.conn c).isConnected = true) :
      Outcome s .visit ({ s with sending := some (message, rest) }.use none
        (some (c, .sends (.called message))))
  | skips (message : List UInt8) (fd : Nat) (c : ConnId) (rest : List (Nat × ConnId))
      (hsending : s.sending = some (message, (fd, c) :: rest))
      (hdown : (s.server.conn c).isConnected = false) :
      Outcome s .visit { s with sending := some (message, rest) }
  | done (message : List UInt8) (hsending : s.sending = some (message, [])) :
      Outcome s .done { s with sending := none }
  | userSend (j : Nat) (c : ConnId) (data : List UInt8) (hfree : s.uses (some j) = none)
      (hmay : s.server.UserMayUse j c) :
      Outcome s (.userSend j c data) (s.use (some j) (some (c, .sends (.called data))))
  | sends (who : Option Nat) (write : WriteResult) (c : ConnId) (sending : Sending)
      (huse : s.uses who = some (c, .sends sending)) (hfits : write.Fits sending.data.length) :
      Outcome s (.send who write)
        ({ s with server := s.server.setConn c (sending.next (s.server.conn c) write).1 }.use who
          ((sending.next (s.server.conn c) write).2.map (fun sending => (c, .sends sending))))
  | writes (j : Nat) (write : WriteResult) (c : ConnId) (todo : List Callback)
      (stack : List Frame) (hfree : s.uses (some j) = none)
      (hstack : (s.server.loops j).stack = .event c (.write :: todo) :: stack)
      (hbuffer : (s.server.conn c).outputBuffer ≠ [])
      (hfits : write.Fits (s.server.conn c).outputBuffer.length) :
      Outcome s (.handleWrite j write) (s.use (some j) (some (c, .writes write)))
  | erases (j : Nat) (c : ConnId) (write : WriteResult) (server : Server)
      (huse : s.uses (some j) = some (c, .writes write))
      (hstep : TcpServer.step s.server (.callback j (.failed .wouldBlock) write) = some server) :
      Outcome s (.handleWriteEnds j) ({ s with server := server }.use (some j) none)

theorem outcome_of_step {s t : State} {call : Call} (h : step s call = some t) :
    Outcome s call t := by
  cases call with
  | server a =>
    simp only [step] at h
    split at h
    · cases h
    · rename_i hfree
      obtain ⟨server, hstep, rfl⟩ := Option.map_eq_some_iff.mp h
      exact .server a server (by simpa using hfree) hstep
  | broadcast message order =>
    obtain ⟨⟨hidle, hperm⟩, rfl⟩ := Runs.guarded_eq_some.mp h
    exact .broadcast message order hidle hperm
  | visit =>
    simp only [step] at h
    split at h
    · rename_i message fd c rest hfree hsending
      split at h
      · rename_i hup
        cases h
        exact .calls message fd c rest hfree hsending hup
      · rename_i hdown
        cases h
        exact .skips message fd c rest hsending (by simpa using hdown)
    · cases h
  | done =>
    simp only [step] at h
    split at h
    · rename_i message _ hsending
      cases h
      exact .done _ hsending
    · cases h
  | userSend j c data =>
    obtain ⟨⟨hfree, hmay⟩, rfl⟩ := Runs.guarded_eq_some.mp h
    exact .userSend j c data hfree hmay
  | send who write =>
    simp only [step] at h
    split at h
    · rename_i c sending huse
      obtain ⟨hfits, rfl⟩ := Runs.guarded_eq_some.mp h
      exact .sends who write c sending huse hfits
    · cases h
  | handleWrite j write =>
    simp only [step] at h
    split at h
    · rename_i c todo stack hstack
      obtain ⟨⟨hfree, hbuffer, hfits⟩, rfl⟩ := Runs.guarded_eq_some.mp h
      exact .writes j write c todo stack hfree hstack hbuffer hfits
    · cases h
  | handleWriteEnds j =>
    simp only [step] at h
    split at h
    · rename_i c write huse
      obtain ⟨server, hstep, rfl⟩ := Option.map_eq_some_iff.mp h
      exact .erases j c write server huse hstep
    · cases h

/-- The map holds each connection at most once, and only accepted ones. -/
structure MapOk (s : Server) : Prop where
  entries : ∀ e ∈ s.connections, e.2 < s.accepted
  nodup : (entryIds s).Nodup
  handing : ∀ c, s.accepting = some c → c ∉ entryIds s

theorem mapOk_filter {s : Server} (h : MapOk s) (p : Nat × ConnId → Bool) :
    (∀ e ∈ s.connections.filter p, e.2 < s.accepted) ∧
      ((s.connections.filter p).map Prod.snd).Nodup ∧
      ∀ c ∈ (s.connections.filter p).map Prod.snd, c ∈ entryIds s := by
  have hsub : ((s.connections.filter p).map Prod.snd).Sublist (entryIds s) :=
    List.Sublist.map _ List.filter_sublist
  exact ⟨fun e he => h.entries e (List.mem_of_mem_filter he), h.nodup.sublist hsub,
    fun c hc => hsub.subset hc⟩

theorem mapOk_register {s : Server} (hshape : Shape s) (h : MapOk s) {c : ConnId}
    (haccepting : s.accepting = some c) :
    MapOk { s.insertConnection (s.conn c).sockfd c with accepting := none } := by
  obtain ⟨hentries, hnodup, hids⟩ := mapOk_filter h (fun e => e.1 ≠ (s.conn c).sockfd)
  constructor
  · intro e he
    cases List.mem_append.mp he with
    | inl hold => exact hentries e hold
    | inr hnew =>
      rw [List.mem_singleton.mp hnew]
      exact hshape.accepting c haccepting
  · have hids' : entryIds { s.insertConnection (s.conn c).sockfd c with accepting := none } =
        (s.connections.filter (fun e => e.1 ≠ (s.conn c).sockfd)).map Prod.snd ++ [c] := by
      simp [entryIds, Server.insertConnection]
    rw [hids']
    apply List.nodup_append.mpr
    refine ⟨hnodup, List.nodup_singleton c, ?_⟩
    rintro d hd d' hd' rfl
    rw [List.mem_singleton.mp hd'] at hd
    exact h.handing c haccepting (hids c hd)
  · intro d hd
    cases hd

theorem mapOk_step {s s' : Server} {a : Action} (hshape : Shape s) (h : MapOk s)
    (hstep : TcpServer.step s a = some s') : MapOk s' := by
  have houtcome := TcpServer.outcome_of_step hstep
  cases ha : internal a with
  | true =>
    have hsame := sameMap_internal houtcome ha
    have hids : entryIds s' = entryIds s := by rw [entryIds, hsame.connections, entryIds]
    constructor
    · rw [hsame.connections, hsame.accepted]
      exact h.entries
    · rw [hids]
      exact h.nodup
    · rw [hids, hsame.accepting]
      exact h.handing
  | false =>
    cases houtcome with
    | accept fd reactor messageCallback hidle =>
      constructor
      · intro e he
        exact Nat.lt_succ_of_lt (h.entries e he)
      · exact h.nodup
      · intro c hc hmem
        cases hc
        obtain ⟨e, he, heq⟩ := List.mem_map.mp hmem
        have hlt := h.entries e he
        rw [heq] at hlt
        exact Nat.lt_irrefl _ hlt
    | register c haccepting => exact mapOk_register hshape h haccepting
    | remove j c stack =>
      obtain ⟨hentries, hnodup, hids⟩ := mapOk_filter h (fun e => e.1 ≠ (s.conn c).sockfd)
      constructor
      · exact hentries
      · exact hnodup
      · intro d hd hmem
        exact h.handing d hd (hids d hmem)
    | _ => cases ha

/-- Only the steps that take the mutex change the map. -/
theorem connections_of_free {s s' : Server} {a : Action} (hstep : TcpServer.step s a = some s')
    (hfree : locks a = false) : s'.connections = s.connections := by
  have houtcome := TcpServer.outcome_of_step hstep
  cases ha : internal a with
  | true => exact (sameMap_internal houtcome ha).connections
  | false =>
    cases houtcome with
    | accept => rfl
    | register | remove => cases hfree
    | _ => cases ha

/-- The numbers that are not given out yet have no bytes. -/
def Fresh (s : Server) : Prop := ∀ c, s.accepted ≤ c → (s.conn c).outputBuffer = []

theorem buffer_setConn (s : Server) (d : ConnId) (conn : Connection) (c : ConnId) :
    ((s.setConn d conn).conn c).outputBuffer =
      if d = c then conn.outputBuffer else (s.conn c).outputBuffer := by
  by_cases hdc : d = c
  · subst hdc
    simp
  · rw [conn_setConn_of_ne (Ne.symm hdc), if_neg hdc]

theorem buffer_closeConnection (s : Server) (j : Nat) (d : ConnId) (stack : List Frame)
    (c : ConnId) :
    ((s.closeConnection j d stack).conn c).outputBuffer = (s.conn c).outputBuffer := by
  rcases closeConnection_cases s j d stack with ⟨_, heq⟩ | ⟨_, heq⟩
  · rw [heq]
    simp only [conn_notify, conn_setStack, buffer_setConn]
    split
    · rename_i hdc
      rw [hdc]
    · rfl
  · rw [heq, conn_setStack]

theorem buffer_react (s : Server) (j : Nat) (d : ConnId) (stack : List Frame)
    (r : Connection × Connection.Reaction) (c : ConnId) :
    ((s.react j d stack r).conn c).outputBuffer =
      if d = c then r.1.outputBuffer else (s.conn c).outputBuffer := by
  obtain ⟨conn, reaction⟩ := r
  cases reaction with
  | nothing => exact buffer_setConn s d conn c
  | message => exact buffer_setConn s d conn c
  | close => exact (buffer_closeConnection _ j d stack c).trans (buffer_setConn s d conn c)

theorem buffer_handleRead (conn : Connection) (read : ReadResult) :
    (conn.handleRead read).1.outputBuffer = conn.outputBuffer := by
  obtain ⟨bytes, h⟩ := handleRead_eq conn read
  rw [h]

/-- `handleWrite` erases what the kernel has taken. -/
theorem buffer_handleWrite (conn : Connection) (write : WriteResult) :
    (conn.handleWrite write).1.outputBuffer = conn.outputBuffer.drop (write.count.getD 0) := by
  have hconserves := handleWrite_conserves conn write
  have hcut : written conn.outputBuffer write ++ conn.outputBuffer.drop (write.count.getD 0) =
      conn.outputBuffer := List.take_append_drop _ _
  exact List.append_cancel_left (hconserves.symm.trans hcut.symm)

/-- A step of the server that is taken as it is leaves all buffers as they are. -/
theorem buffer_server {s server : Server} {a : Action} (hfresh : Fresh s)
    (hstep : TcpServer.step s a = some server) (hsplits : splits s a = false) (c : ConnId) :
    (server.conn c).outputBuffer = (s.conn c).outputBuffer := by
  cases TcpServer.outcome_of_step hstep with
  | accept fd reactor messageCallback =>
    by_cases hc : c = s.accepted
    · subst hc
      rw [hfresh _ (Nat.le_refl _)]
      simp [Server.handOver, Connection.create, Connection.setMessageCallback]
    · simp [Server.handOver, hc]
  | register | poll | dispatch | eventDone | remove => rfl
  | runTask j succeeds d =>
    by_cases hc : c = d
    · subst hc
      simp [Server.setUp, Connection.setChannel, Connection.establishConnection]
    · simp [Server.setUp, hc]
  | callback j read write d cb todo stack hstack =>
    rw [buffer_react]
    split
    · rename_i hdc
      subst hdc
      cases cb with
      | close | error => rfl
      | read => exact buffer_handleRead _ read
      | write =>
        have hempty : (s.conn d).outputBuffer = [] := by simpa [splits, hstack] using hsplits
        simp [Server.callback, Connection.handleWrite, hempty]
    · rfl
  | userClose j d => exact buffer_closeConnection s j d _ c
  | userSend => cases hsplits
  | userReturns j f stack =>
    cases f with
    | message d =>
      simp only [Server.userReturns, conn_setStack, buffer_setConn]
      split
      · rename_i hdc
        rw [hdc]
        rfl
      · rfl
    | closed d =>
      simp only [Server.userReturns, conn_setStack, buffer_setConn]
      split
      · rename_i hdc
        rw [hdc]
        rfl
      · rfl
    | event | established | removing => rfl

theorem accepted_server {s server : Server} {a : Action}
    (hstep : TcpServer.step s a = some server) : s.accepted ≤ server.accepted := by
  have houtcome := TcpServer.outcome_of_step hstep
  cases ha : internal a with
  | true => exact Nat.le_of_eq (sameMap_internal houtcome ha).accepted.symm
  | false =>
    cases houtcome with
    | accept => exact Nat.le_succ _
    | register | remove => exact Nat.le_refl _
    | _ => cases ha

/-- The stack of a thread is changed by that thread only. -/
theorem stack_of_ne {s server : Server} {a : Action} (hstep : TcpServer.step s a = some server)
    {j : Nat} (hj : thread a ≠ some j) : (server.loops j).stack = (s.loops j).stack := by
  cases TcpServer.outcome_of_step hstep with
  | accept fd reactor messageCallback =>
    by_cases hreactor : j = reactor
    · subst hreactor
      simp [Server.handOver]
    · simp [Server.handOver, hreactor]
  | _ => rw [loops_of_ne hstep hj]

/-- A thread uses an accepted connection of its own, and a `handleWrite` that has written is on top
of its stack, with the bytes in the buffer. -/
structure UseOk (s : Server) (who : Option Nat) (c : ConnId) (use : Use) : Prop where
  accepted : c < s.accepted
  own : ∀ j, who = some j → s.reactorOf c = j
  writes : ∀ write, use = .writes write →
    ∃ j todo stack, who = some j ∧ (s.loops j).stack = .event c (.write :: todo) :: stack ∧
      (s.conn c).outputBuffer ≠ [] ∧ write.Fits (s.conn c).outputBuffer.length

/-- What holds of every reachable state. -/
structure Well (s : State) : Prop where
  shape : Shape s.server
  map : MapOk s.server
  fresh : Fresh s.server
  remaining : ∀ message rest, s.sending = some (message, rest) →
    ∃ visited, (visited ++ rest).Perm s.server.connections
  uses : ∀ who c use, s.uses who = some (c, use) → UseOk s.server who c use

/-- A use goes on where its thread and the front of its buffer are left alone. -/
theorem useOk_mono {s t : Server} {who : Option Nat} {c : ConnId} {use : Use}
    (h : UseOk s who c use) (haccepted : s.accepted ≤ t.accepted)
    (hreactor : t.reactorOf c = s.reactorOf c)
    (hstack : ∀ j, who = some j → (t.loops j).stack = (s.loops j).stack)
    (hbuffer : ∀ write, use = .writes write →
      (s.conn c).outputBuffer <+: (t.conn c).outputBuffer) : UseOk t who c use := by
  refine ⟨Nat.lt_of_lt_of_le h.accepted haccepted, ?_, ?_⟩
  · intro j hj
    rw [hreactor]
    exact h.own j hj
  · intro write hwrite
    obtain ⟨j, todo, stack, hj, htop, hne, hfits⟩ := h.writes write hwrite
    have hfront := hbuffer write hwrite
    refine ⟨j, todo, stack, hj, (hstack j hj).trans htop, hfront.ne_nil hne, ?_⟩
    intro n hn
    exact Nat.le_trans (hfits n hn) hfront.length_le

/-- A step of a `send` as a step of the server. -/
theorem setConn_next {s : Server} (hshape : Shape s) (hmap : MapOk s) {c : ConnId}
    (hc : c < s.accepted) (write : WriteResult) (sending : Sending) :
    Shape (s.setConn c (sending.next (s.conn c) write).1) ∧
      MapOk (s.setConn c (sending.next (s.conn c) write).1) ∧
      ∀ d, (s.conn d).outputBuffer <+:
        ((s.setConn c (sending.next (s.conn c) write).1).conn d).outputBuffer := by
  have hnext := next_cases (s.conn c) write sending
  have hmoves : MovesBytes (s.conn c) (sending.next (s.conn c) write).1 := by
    rcases hnext with h | ⟨data, _, h⟩ <;> rw [h] <;> exact ⟨rfl, rfl, rfl⟩
  have hself : s.loops = Function.update s.loops (s.reactorOf c) (s.loops (s.reactorOf c)) := by
    simp
  refine ⟨?_, ⟨hmap.entries, hmap.nodup, hmap.handing⟩, ?_⟩
  · exact shape_restack hshape ⟨hc, rfl⟩ hmoves rfl rfl rfl hself rfl (hshape.loops _).frames
      (fun _ => rfl)
  · intro d
    rw [buffer_setConn]
    split
    · rename_i hcd
      subst hcd
      rcases hnext with h | ⟨data, _, h⟩
      · rw [h]
      · rw [h]
        exact List.prefix_append _ _
    · exact List.prefix_refl _

/-- The end of a `handleWrite`: its buffer loses what has been written, and nothing else changes. -/
theorem erases_cases {s : State} (hs : Well s) {j : Nat} {c : ConnId} {write : WriteResult}
    {server : Server} (huse : s.uses (some j) = some (c, .writes write))
    (hstep : TcpServer.step s.server (.callback j (.failed .wouldBlock) write) = some server)
    (d : ConnId) : (server.conn d).outputBuffer =
      if c = d then (outputBuffer c s).drop (write.count.getD 0) else outputBuffer d s := by
  obtain ⟨i, todo, stack, hi, hstack, _⟩ := (hs.uses _ _ _ huse).writes write rfl
  cases hi
  cases TcpServer.outcome_of_step hstep with
  | callback j read write e cb todo' stack' htop =>
    rw [hstack] at htop
    cases htop
    rw [buffer_react]
    split
    · exact buffer_handleWrite _ write
    · rfl

theorem use_self (s : State) (who : Option Nat) (use : Option (ConnId × Use)) :
    (s.use who use).uses who = use := Function.update_self _ _ _

theorem use_of_ne {s : State} {who who' : Option Nat} (h : who' ≠ who)
    (use : Option (ConnId × Use)) : (s.use who use).uses who' = s.uses who' :=
  Function.update_of_ne h _ _

/-- The uses after a step in which one thread goes on to a use or gives it up. -/
theorem uses_use {s : State} {server : Server} {who : Option Nat} {use : Option (ConnId × Use)}
    (hnew : ∀ c u, use = some (c, u) → UseOk server who c u)
    (hold : ∀ who' ≠ who, ∀ c u, s.uses who' = some (c, u) → UseOk server who' c u) :
    ∀ who' c u, (s.use who use).uses who' = some (c, u) → UseOk server who' c u := by
  intro who' c u huse
  by_cases hwho : who' = who
  · subst hwho
    rw [use_self] at huse
    exact hnew c u huse
  · rw [use_of_ne hwho] at huse
    exact hold who' hwho c u huse

theorem well_step (s : State) (call : Call) (t : State) (hs : Well s)
    (h : step s call = some t) : Well t := by
  cases outcome_of_step h with
  | server a server hblocked hstep =>
    simp only [blocked, Bool.or_eq_false_iff] at hblocked
    obtain ⟨⟨hlocks, hsplits⟩, hthread⟩ := hblocked
    have hbuffer := buffer_server hs.fresh hstep hsplits
    have haccepted := accepted_server hstep
    refine ⟨shape_step _ a _ hs.shape hstep, mapOk_step hs.shape hs.map hstep, ?_, ?_, ?_⟩
    · intro c hc
      rw [hbuffer]
      exact hs.fresh c (Nat.le_trans haccepted hc)
    · intro message rest hsending
      have hsending : s.sending = some (message, rest) := hsending
      have hfree : locks a = false := by simpa [hsending] using hlocks
      rw [connections_of_free hstep hfree]
      exact hs.remaining message rest hsending
    · intro who c use huse
      have hold := hs.uses who c use huse
      refine useOk_mono hold haccepted (reactorOf_step hstep hold.accepted) ?_ ?_
      · rintro j rfl
        apply stack_of_ne hstep
        intro hj
        have hnone : s.uses (some j) = none := by simpa [hj] using hthread
        rw [hnone] at huse
        cases huse
      · intro _ _
        rw [hbuffer]
  | broadcast message order hidle hperm =>
    refine ⟨hs.shape, hs.map, hs.fresh, ?_, hs.uses⟩
    intro message' rest hsending
    cases hsending
    exact ⟨[], hperm⟩
  | calls message fd c rest hfree hsending hup =>
    obtain ⟨visited, hperm⟩ := hs.remaining message _ hsending
    refine ⟨hs.shape, hs.map, hs.fresh, ?_, ?_⟩
    · intro message' rest' hsending'
      cases hsending'
      exact ⟨visited ++ [(fd, c)], by rw [List.append_assoc]; exact hperm⟩
    · apply uses_use
      · rintro _ _ ⟨⟩
        have hc := hs.map.entries (fd, c) (hperm.subset (by simp))
        exact ⟨hc, nofun, nofun⟩
      · exact fun who _ => hs.uses who
  | skips message fd c rest hsending =>
    obtain ⟨visited, hperm⟩ := hs.remaining message _ hsending
    refine ⟨hs.shape, hs.map, hs.fresh, ?_, hs.uses⟩
    intro message' rest' hsending'
    cases hsending'
    exact ⟨visited ++ [(fd, c)], by rw [List.append_assoc]; exact hperm⟩
  | done message hsending =>
    refine ⟨hs.shape, hs.map, hs.fresh, ?_, hs.uses⟩
    intro message rest hsending
    cases hsending
  | userSend j c data hfree hmay =>
    refine ⟨hs.shape, hs.map, hs.fresh, hs.remaining, ?_⟩
    apply uses_use
    · rintro _ _ ⟨⟩
      refine ⟨hmay.2.1, ?_, nofun⟩
      rintro _ ⟨⟩
      exact hmay.2.2
    · exact fun who _ => hs.uses who
  | sends who write c sending huse hfits =>
    have hok := hs.uses who c _ huse
    obtain ⟨hshape, hmap, hbuffer⟩ := setConn_next hs.shape hs.map hok.accepted write sending
    refine ⟨hshape, hmap, ?_, hs.remaining, ?_⟩
    · intro d hd
      have hne : c ≠ d := Nat.ne_of_lt (Nat.lt_of_lt_of_le hok.accepted hd)
      exact (buffer_setConn s.server c _ d).trans ((if_neg hne).trans (hs.fresh d hd))
    · apply uses_use
      · intro d use hnext
        obtain ⟨next, _, heq⟩ := Option.map_eq_some_iff.mp hnext
        cases heq
        exact ⟨hok.accepted, hok.own, nofun⟩
      · intro who' _ d use huse'
        exact useOk_mono (hs.uses who' d use huse') (Nat.le_refl _) rfl (fun _ _ => rfl)
          (fun _ _ => hbuffer d)
  | writes j write c todo stack hfree hstack hne hfits =>
    have howned := (owned_of_stack hs.shape hstack).1
    refine ⟨hs.shape, hs.map, hs.fresh, hs.remaining, ?_⟩
    apply uses_use
    · rintro _ _ ⟨⟩
      refine ⟨howned.1, ?_, ?_⟩
      · rintro _ ⟨⟩
        exact howned.2
      · rintro _ ⟨⟩
        exact ⟨j, todo, stack, rfl, hstack, hne, hfits⟩
    · exact fun who _ => hs.uses who
  | erases j c write server huse hstep =>
    have hok := hs.uses _ c _ huse
    have hbuffer := erases_cases hs huse hstep
    have haccepted := accepted_server hstep
    refine ⟨shape_step _ _ _ hs.shape hstep, mapOk_step hs.shape hs.map hstep, ?_, ?_, ?_⟩
    · intro d hd
      have hne : c ≠ d := Nat.ne_of_lt (Nat.lt_of_lt_of_le hok.accepted (Nat.le_trans haccepted hd))
      exact (hbuffer d).trans ((if_neg hne).trans (hs.fresh d (Nat.le_trans haccepted hd)))
    · intro message rest hsending
      have hsame := connections_of_free hstep rfl
      exact hsame ▸ hs.remaining message rest hsending
    · apply uses_use
      · nofun
      · intro who hwho d use huse'
        have hold := hs.uses who d use huse'
        refine useOk_mono hold haccepted (reactorOf_step hstep hold.accepted) ?_ ?_
        · rintro i rfl
          exact stack_of_ne hstep (fun hi => hwho hi.symm)
        · -- another `handleWrite` is another thread's, and so another connection's
          intro write' hwrite'
          obtain ⟨i, _, _, rfl, _⟩ := hold.writes write' hwrite'
          have hne : c ≠ d := by
            rintro rfl
            exact hwho (congrArg some ((hold.own i rfl).symm.trans (hok.own j rfl)))
          have hsame : (server.conn d).outputBuffer = outputBuffer d s :=
            (hbuffer d).trans (if_neg hne)
          exact hsame ▸ List.prefix_refl _

theorem well_started : Well started := by
  refine ⟨shape_start, ⟨?_, ?_, ?_⟩, ?_, ?_, ?_⟩ <;>
    simp [started, start, entryIds, Fresh, Connection.create]

@[simp] theorem taken_none (c : ConnId) : taken c none = 0 := rfl

@[simp] theorem taken_sends (c d : ConnId) (sending : Sending) :
    taken c (some (d, .sends sending)) = 0 := rfl

@[simp] theorem rest_none (c : ConnId) : rest c none = [] := rfl

@[simp] theorem rest_writes (c d : ConnId) (write : WriteResult) :
    rest c (some (d, .writes write)) = [] := rfl

theorem rest_of_not_sends {c : ConnId} {use : Option (ConnId × Use)} (h : sendsTo c use = false) :
    rest c use = [] := by
  cases use with
  | none => rfl
  | some u =>
    obtain ⟨d, use⟩ := u
    cases use with
    | writes => rfl
    | sends sending =>
      have hne : d ≠ c := by simpa [sendsTo] using h
      simp [rest, hne]

/-- The kernel has taken no more than the buffer holds. -/
theorem taken_le {s : State} (hs : Well s) (c : ConnId) (who : Option Nat) :
    taken c (s.uses who) ≤ (outputBuffer c s).length := by
  cases huse : s.uses who with
  | none => exact Nat.zero_le _
  | some u =>
    obtain ⟨d, use⟩ := u
    cases use with
    | sends => exact Nat.zero_le _
    | writes write =>
      simp only [taken]
      split
      · rename_i hdc
        subst hdc
        obtain ⟨_, _, _, _, _, _, hfits⟩ := (hs.uses who d _ huse).writes write rfl
        cases hcount : write.count with
        | none => exact Nat.zero_le _
        | some n => exact hfits n hcount
      · exact Nat.zero_le _

/-- What a use says, all uses go on to say where one is replaced by another that says the same. -/
theorem uses_congr {View : Type} {s t : State} {who : Option Nat} {use : Option (ConnId × Use)}
    (view : Option (ConnId × Use) → View) (huses : t.uses = Function.update s.uses who use)
    (hsame : view use = view (s.uses who)) (who' : Option Nat) :
    view (t.uses who') = view (s.uses who') := by
  rw [huses]
  by_cases hwho : who' = who
  · rw [hwho, Function.update_self, hsame]
  · rw [Function.update_of_ne hwho]

/-- What waits stays where the buffer and what is in the middle of it do. -/
theorem waiting_congr {s t : State} {c : ConnId} (hbuffer : outputBuffer c t = outputBuffer c s)
    (hreactor : t.server.reactorOf c = s.server.reactorOf c)
    (htaken : ∀ who, taken c (t.uses who) = taken c (s.uses who))
    (hrest : ∀ who, rest c (t.uses who) = rest c (s.uses who)) : waiting c t = waiting c s := by
  simp only [waiting, hbuffer, hreactor, htaken, hrest]

theorem unused {s : State} {c : ConnId} (h : ∀ who use, s.uses who ≠ some (c, use))
    (who : Option Nat) : taken c (s.uses who) = 0 ∧ rest c (s.uses who) = [] := by
  cases huse : s.uses who with
  | none => exact ⟨rfl, rfl⟩
  | some u =>
    obtain ⟨d, use⟩ := u
    have hne : d ≠ c := by
      rintro rfl
      exact h who use huse
    cases use <;> simp [taken, rest, hne]

/-- Where no thread is in the middle of something, what waits is the buffer. -/
theorem waiting_eq_buffer {s : State} {c : ConnId} (htaken : ∀ who, taken c (s.uses who) = 0)
    (hrest : ∀ who, rest c (s.uses who) = []) : waiting c s = outputBuffer c s := by
  simp [waiting, htaken, hrest]

/-- A step of the server that leaves the buffer and the uses of a connection as they are. -/
theorem waiting_server {s t : State} (hs : Well s) {a : Action}
    (hstep : TcpServer.step s.server a = some t.server) {c : ConnId}
    (hbuffer : outputBuffer c t = outputBuffer c s)
    (htaken : ∀ who, taken c (t.uses who) = taken c (s.uses who))
    (hrest : ∀ who, rest c (t.uses who) = rest c (s.uses who)) : waiting c t = waiting c s := by
  by_cases hc : c < s.server.accepted
  · exact waiting_congr hbuffer (reactorOf_step hstep hc) htaken hrest
  · have hunused := unused (s := s) (c := c)
      (fun who use huse => hc (hs.uses who c use huse).accepted)
    rw [waiting_eq_buffer (fun who => (hunused who).1) (fun who => (hunused who).2),
      waiting_eq_buffer (fun who => (htaken who).trans (hunused who).1)
        (fun who => (hrest who).trans (hunused who).2), hbuffer]

/-- Where only one thread may be in a `send` to the connection, it has what is not in the buffer. -/
theorem waiting_alone {s : State} {c : ConnId} {who : Option Nat}
    (hwho : who = none ∨ who = some (s.server.reactorOf c))
    (halone : ∀ who' ≠ who, sendsTo c (s.uses who') = false) :
    waiting c s = (outputBuffer c s).drop (taken c (s.uses (some (s.server.reactorOf c)))) ++
      rest c (s.uses who) := by
  rcases hwho with rfl | rfl
  · simp [waiting, rest_of_not_sends (halone (some (s.server.reactorOf c)) nofun)]
  · simp [waiting, rest_of_not_sends (halone none nofun)]

/-- What holds of every state that is reached while sends to one connection do not overlap. -/
structure Apart (s : State) : Prop where
  well : Well s
  alone : ∀ c who who', sendsTo c (s.uses who) = true → sendsTo c (s.uses who') = true → who = who'
  direct : ∀ who c data, s.uses who = some (c, .sends (.direct data)) → outputBuffer c s = []

theorem sendsTo_iff {c : ConnId} {use : Option (ConnId × Use)} :
    sendsTo c use = true ↔ ∃ sending, use = some (c, .sends sending) := by
  cases use with
  | none => simp [sendsTo]
  | some u =>
    obtain ⟨d, use⟩ := u
    cases use <;> simp [sendsTo]

/-- A connection is used by its own thread and by the broadcast only. -/
theorem who_of_use {s : State} (hs : Well s) {who : Option Nat} {c : ConnId} {use : Use}
    (huse : s.uses who = some (c, use)) : who = none ∨ who = some (s.server.reactorOf c) := by
  cases who with
  | none => exact .inl rfl
  | some j => exact .inr (congrArg some ((hs.uses _ c use huse).own j rfl).symm)

theorem not_sends_of_serial {s : State} (hs : Well s) {c : ConnId}
    (h : sendUnderWay c s = false) (who : Option Nat) : sendsTo c (s.uses who) = false := by
  obtain ⟨hbroadcast, hown⟩ := Bool.or_eq_false_iff.mp h
  by_contra hsends
  obtain ⟨sending, huse⟩ := sendsTo_iff.mp (by simpa using hsends)
  rcases who_of_use hs huse with rfl | rfl
  · exact hsends hbroadcast
  · exact hsends hown

/-- A step in which one thread goes on to a use or gives it up. -/
theorem apart_use {s t : State} (hs : Apart s) (ht : Well t) {who : Option Nat}
    {use : Option (ConnId × Use)} (huses : t.uses = Function.update s.uses who use)
    (hnew : ∀ c who', sendsTo c use = true → sendsTo c (s.uses who') = true → who' = who)
    (hbuffer : ∀ c data, use = some (c, .sends (.direct data)) → outputBuffer c t = [])
    (hother : ∀ who' ≠ who, ∀ c data, s.uses who' = some (c, .sends (.direct data)) →
      outputBuffer c t = []) : Apart t := by
  refine ⟨ht, ?_, ?_⟩
  · intro c who₁ who₂ h₁ h₂
    rw [huses] at h₁ h₂
    by_cases hwho₁ : who₁ = who
    · by_cases hwho₂ : who₂ = who
      · rw [hwho₁, hwho₂]
      · rw [hwho₁, Function.update_self] at h₁
        rw [Function.update_of_ne hwho₂] at h₂
        rw [hwho₁, hnew c who₂ h₁ h₂]
    · rw [Function.update_of_ne hwho₁] at h₁
      by_cases hwho₂ : who₂ = who
      · rw [hwho₂, Function.update_self] at h₂
        rw [hwho₂, hnew c who₁ h₂ h₁]
      · rw [Function.update_of_ne hwho₂] at h₂
        exact hs.alone c who₁ who₂ h₁ h₂
  · intro who' c data huse
    rw [huses] at huse
    by_cases hwho : who' = who
    · rw [hwho, Function.update_self] at huse
      exact hbuffer c data huse
    · rw [Function.update_of_ne hwho] at huse
      exact hother who' hwho c data huse

theorem apart_step (s : State) (call : Call) (t : State) (hs : Apart s) (hserial : Serial s call)
    (h : step s call = some t) : Apart t := by
  have ht := well_step s call t hs.well h
  -- a `send` is called where no other one to the connection is under way
  have hcalled : ∀ c sending, c ∈ calls s call → ∀ d who' who,
      sendsTo d (some (c, .sends sending)) = true → sendsTo d (s.uses who') = true →
        who' = who := by
    intro c sending hc d who' who hnew hold
    have hcd : c = d := by simpa [sendsTo] using hnew
    subst hcd
    rw [not_sends_of_serial hs.well (hserial c hc)] at hold
    cases hold
  cases outcome_of_step h with
  | server a server hblocked hstep =>
    simp only [blocked, Bool.or_eq_false_iff] at hblocked
    refine ⟨ht, hs.alone, ?_⟩
    intro who c data huse
    exact (buffer_server hs.well.fresh hstep hblocked.1.2 c).trans (hs.direct who c data huse)
  | broadcast | skips | done => exact ⟨ht, hs.alone, hs.direct⟩
  | calls message fd c rest hfree hsending hup =>
    have hc : c ∈ calls s .visit := by simp [calls, hsending, hup]
    exact apart_use hs ht rfl (fun d who' => hcalled c _ hc d who' none) nofun
      (fun who _ => hs.direct who)
  | userSend j c data hfree hmay =>
    exact apart_use hs ht rfl (fun d who' => hcalled c _ rfl d who' (some j)) nofun
      (fun who _ => hs.direct who)
  | sends who write c sending huse hfits =>
    refine apart_use hs ht rfl ?_ ?_ ?_
    · intro d who' hnew hold
      obtain ⟨_, hnext⟩ := sendsTo_iff.mp hnew
      obtain ⟨_, _, heq⟩ := Option.map_eq_some_iff.mp hnext
      cases heq
      exact hs.alone c who' who hold (sendsTo_iff.mpr ⟨sending, huse⟩)
    · intro d data hnext
      obtain ⟨next, hnext, heq⟩ := Option.map_eq_some_iff.mp hnext
      cases heq
      exact (buffer_setConn s.server c _ c).trans ((if_pos rfl).trans (next_direct hnext))
    · intro who' hwho d data huse'
      have hne : c ≠ d := by
        rintro rfl
        exact hwho (hs.alone c who' who (sendsTo_iff.mpr ⟨_, huse'⟩) (sendsTo_iff.mpr ⟨_, huse⟩))
      exact (buffer_setConn s.server c _ d).trans ((if_neg hne).trans (hs.direct who' d data huse'))
  | writes j write c todo stack hfree hstack hne hfits =>
    exact apart_use hs ht rfl nofun nofun (fun who _ => hs.direct who)
  | erases j c write server huse hstep =>
    refine apart_use hs ht rfl nofun nofun ?_
    intro who _ d data huse'
    have hempty := hs.direct who d data huse'
    obtain ⟨_, _, _, _, _, hfull, _⟩ := (hs.well.uses _ c _ huse).writes write rfl
    have hne : c ≠ d := by
      rintro rfl
      exact hfull hempty
    exact (erases_cases hs.well huse hstep d).trans ((if_neg hne).trans hempty)

theorem apart_started : Apart started := ⟨well_started, nofun, nofun⟩

theorem taken_next (c d : ConnId) (next : Option Sending) :
    taken c (next.map (fun sending => (d, .sends sending))) = 0 := by
  cases next <;> rfl

theorem rest_next (c d : ConnId) (next : Option Sending) :
    rest c (next.map (fun sending => (d, .sends sending))) =
      if d = c then next.elim [] Sending.rest else [] := by
  cases next <;> simp [rest]

/-- A `send` that has been called only has nothing to append. -/
theorem waiting_called {s t : State} {who : Option Nat} {d : ConnId} {data : List UInt8}
    (hfree : s.uses who = none) (hserver : t.server = s.server)
    (huses : t.uses = Function.update s.uses who (some (d, .sends (.called data)))) {c : ConnId} :
    waiting c t = waiting c s := by
  refine waiting_congr ?_ ?_ ?_ ?_
  · rw [outputBuffer, hserver, outputBuffer]
  · rw [hserver]
  · exact uses_congr (taken c) huses (by simp [hfree])
  · exact uses_congr (rest c) huses (by simp [hfree, rest, Sending.rest])

/-- A step of a `send`, with no other one to the connection under way. -/
theorem conserves_send {s t : State} (hs : Apart s) {who : Option Nat} {c : ConnId}
    {sending : Sending} {write : WriteResult} (huse : s.uses who = some (c, .sends sending))
    (hfits : write.Fits sending.data.length)
    (hserver : t.server = s.server.setConn c (sending.next (s.server.conn c) write).1)
    (huses : t.uses = Function.update s.uses who
      ((sending.next (s.server.conn c) write).2.map (fun next => (c, .sends next)))) :
    waiting c s ++ sending.sent (s.server.conn c) write =
      sending.accepted write ++ waiting c t := by
  have hwho := who_of_use hs.well huse
  have halone : ∀ who' ≠ who, sendsTo c (s.uses who') = false := by
    intro who' hne
    by_contra hsends
    exact hne (hs.alone c who' who (by simpa using hsends) (sendsTo_iff.mpr ⟨sending, huse⟩))
  have hreactor : t.server.reactorOf c = s.server.reactorOf c := by rw [hserver]; rfl
  have htaken : ∀ who', taken c (t.uses who') = taken c (s.uses who') :=
    uses_congr (taken c) huses (by rw [taken_next, huse, taken_sends])
  have hbuffer : outputBuffer c t = (sending.next (s.server.conn c) write).1.outputBuffer := by
    rw [outputBuffer, hserver, buffer_setConn, if_pos rfl]
  have hbefore : waiting c s =
      (outputBuffer c s).drop (taken c (s.uses (some (s.server.reactorOf c)))) ++ sending.rest := by
    rw [waiting_alone hwho halone, huse, rest, if_pos rfl]
  have hafter : waiting c t =
      (outputBuffer c t).drop (taken c (s.uses (some (s.server.reactorOf c)))) ++
        (sending.next (s.server.conn c) write).2.elim [] Sending.rest := by
    rw [waiting_alone (by rwa [hreactor]) ?_, hreactor, htaken, huses, Function.update_self,
      rest_next, if_pos rfl]
    intro who' hne
    rw [huses, Function.update_of_ne hne]
    exact halone who' hne
  rw [hbefore, hafter, hbuffer]
  refine next_conserves (s.server.conn c) hfits (taken_le hs.well c _) ?_
  rintro data rfl
  exact hs.direct who c data huse

/-- A step gives out at the front of what waits for the connection and takes in at its back. -/
theorem conserves_step (c : ConnId) (s : State) (call : Call) (t : State) (hs : Apart s)
    (h : step s call = some t) : Flow.Conserves (waiting c) (sent c) (accepted c) s call t := by
  rw [Flow.Conserves]
  cases outcome_of_step h with
  | server a server hblocked hstep =>
    simp only [blocked, Bool.or_eq_false_iff] at hblocked
    have hbuffer := buffer_server hs.well.fresh hstep hblocked.1.2 c
    simp only [sent, accepted, List.append_nil, List.nil_append]
    exact Eq.symm (waiting_server hs.well hstep hbuffer (fun _ => rfl) (fun _ => rfl))
  | broadcast | skips | done =>
    simp only [sent, accepted, List.append_nil, List.nil_append]
    rfl
  | calls message fd d rest' hfree =>
    simp only [sent, accepted, List.append_nil, List.nil_append]
    symm
    apply waiting_called hfree
    · rfl
    · rfl
  | userSend j d data hfree =>
    simp only [sent, accepted, List.append_nil, List.nil_append]
    symm
    apply waiting_called hfree
    · rfl
    · rfl
  | sends who write d sending huse hfits =>
    simp only [sent, accepted, huse]
    by_cases hdc : d = c
    · subst hdc
      rw [if_pos rfl, if_pos rfl]
      exact conserves_send hs huse hfits rfl rfl
    · rw [if_neg hdc, if_neg hdc, List.append_nil, List.nil_append]
      refine Eq.symm (waiting_congr ?_ rfl ?_ ?_)
      · exact (buffer_setConn s.server d _ c).trans (if_neg hdc)
      · apply uses_congr (taken c) rfl
        rw [huse, taken_sends, taken_next]
      · apply uses_congr (rest c) rfl
        rw [huse, rest_next, rest, if_neg hdc, if_neg hdc]
  | writes j write d todo stack hfree hstack =>
    have hown : s.server.reactorOf d = j := (owned_of_stack hs.well.shape hstack).1.2
    simp only [sent, accepted, hstack, List.append_nil]
    by_cases hdc : d = c
    · subst hdc
      have hcut : outputBuffer d s =
          written (outputBuffer d s) write ++ (outputBuffer d s).drop (write.count.getD 0) :=
        (List.take_append_drop _ _).symm
      have hbefore : waiting d s = outputBuffer d s ++ rest d (s.uses none) := by
        simp [waiting, hown, hfree]
      have hafter : waiting d (s.use (some j) (some (d, .writes write))) =
          (outputBuffer d s).drop (write.count.getD 0) ++ rest d (s.uses none) := by
        simp [waiting, State.use, outputBuffer, hown, taken]
      rw [if_pos rfl, hbefore, hafter, ← List.append_assoc]
      exact congrArg (· ++ rest d (s.uses none)) hcut
    · rw [if_neg hdc, List.nil_append]
      refine Eq.symm (waiting_congr rfl rfl ?_ ?_)
      · apply uses_congr (taken c) rfl
        simp [hfree, taken, hdc]
      · apply uses_congr (rest c) rfl
        simp [hfree]
  | erases j d write server huse hstep =>
    have hok := hs.well.uses _ d _ huse
    have hown := hok.own j rfl
    have hbuffer := erases_cases hs.well huse hstep
    simp only [sent, accepted, List.append_nil, List.nil_append]
    by_cases hdc : d = c
    · subst hdc
      have hreactor : server.reactorOf d = j := (reactorOf_step hstep hok.accepted).trans hown
      have hbefore : waiting d s =
          (outputBuffer d s).drop (write.count.getD 0) ++ rest d (s.uses none) := by
        simp [waiting, hown, huse, taken]
      have hafter : waiting d ({ s with server := server }.use (some j) none) =
          (server.conn d).outputBuffer ++ rest d (s.uses none) := by
        simp [waiting, State.use, outputBuffer, hreactor]
      rw [hbefore, hafter, hbuffer, if_pos rfl]
    · refine Eq.symm (waiting_server hs.well hstep ?_ ?_ ?_)
      · exact (hbuffer c).trans (if_neg hdc)
      · apply uses_congr (taken c) rfl
        simp [huse, taken, hdc]
      · apply uses_congr (rest c) rfl
        simp [huse]

/-- Whether the step begins a broadcast. -/
def broadcasts : Call → Bool
  | .broadcast _ _ => true
  | _ => false

/-- Without a broadcast, no two sends to one connection overlap: all are on its own thread. -/
theorem serial_of_handlers {calls : List Call} {t : State}
    (hnone : ∀ call ∈ calls, broadcasts call = false)
    (hrun : Runs.exec step started calls = some t) : Runs.Along step Serial started calls := by
  refine Runs.along_exec (fun s => s.sending = none ∧ s.uses none = none) ?_ ?_ ⟨rfl, rfl⟩ hnone
    hrun
  · rintro s call t ⟨hsending, huses⟩ hcall h
    cases outcome_of_step h with
    | server => exact ⟨hsending, huses⟩
    | broadcast => cases hcall
    | calls _ _ _ _ _ hother | skips _ _ _ _ hother | done _ hother =>
      rw [hsending] at hother
      cases hother
    | userSend | writes | erases =>
      exact ⟨hsending, (use_of_ne (Option.some_ne_none _).symm _).trans huses⟩
    | sends who write c sending huse =>
      refine ⟨hsending, (use_of_ne ?_ _).trans huses⟩
      rintro rfl
      rw [huses] at huse
      cases huse
  · rintro s call t ⟨hsending, huses⟩ _ h c hc
    cases outcome_of_step h with
    | userSend j d data hfree hmay =>
      cases hc
      simp [sendUnderWay, huses, hmay.2.2, hfree, sendsTo]
    | calls _ _ _ _ _ hother | skips _ _ _ _ hother =>
      rw [hsending] at hother
      cases hother
    | _ => cases hc

/-- In every run of the server, with broadcasts, in which no two sends to one connection overlap,
the kernel has accepted for each connection the data of the sends to it that did not return -1, a
handler's or a broadcast's, in their order, save what still waits. -/
theorem streams_intact {calls : List Call} {t : State}
    (hrun : Runs.exec step started calls = some t) (hserial : Runs.Along step Serial started calls)
    (c : ConnId) :
    Flow.emitted step (accepted c) started calls ++ waiting c t =
      Flow.emitted step (sent c) started calls := by
  have hflow := Flow.conserved_along Apart apart_step
    (fun s a t hs _ h => conserves_step c s a t hs h) apart_started hserial hrun
  exact hflow.symm

/-- A broadcast to two connections, the later one first, of which the kernel takes a byte only. The
handler sends to the same connection when the broadcast has gone on to the other one. -/
def twoConnections : List Call :=
  [.server (.accept 7 0 true), .server .register, .server (.runTask 0 true),
    .server (.userReturns 0), .server (.accept 8 0 true), .server .register,
    .server (.runTask 0 true), .broadcast [1, 2] [(8, 1), (7, 0)], .visit,
    .send none ⟨none, .wouldBlock⟩, .send none ⟨none, .wouldBlock⟩,
    .send none ⟨some 1, .wouldBlock⟩, .send none ⟨none, .wouldBlock⟩, .visit, .userSend 0 1 [9], .send none ⟨none, .wouldBlock⟩,
    .send (some 0) ⟨none, .wouldBlock⟩, .send (some 0) ⟨none, .wouldBlock⟩]

theorem streams_intact_two : ∃ t, Runs.exec step started twoConnections = some t ∧
    Flow.emitted step (accepted 1) started twoConnections ++ waiting 1 t =
      Flow.emitted step (sent 1) started twoConnections ∧
    Flow.emitted step (sent 1) started twoConnections = [1, 2, 9] := by
  have hrun : Runs.exec step started twoConnections = some _ := rfl
  exact ⟨_, hrun, streams_intact hrun (by decide) 1, by decide⟩

/-- Where a handler sends between the broadcast's look at the empty buffer and its write, the kernel
is given the broadcast's bytes between those of the handler. -/
def overlapping : List Call :=
  [.server (.accept 7 0 true), .server .register, .server (.runTask 0 true),
    .broadcast [1, 2] [(7, 0)], .visit, .send none ⟨none, .wouldBlock⟩,
    .send none ⟨none, .wouldBlock⟩, .userSend 0 0 [8, 9], .send (some 0) ⟨none, .wouldBlock⟩,
    .send (some 0) ⟨none, .wouldBlock⟩, .send (some 0) ⟨some 1, .wouldBlock⟩,
    .send none ⟨some 2, .wouldBlock⟩, .send (some 0) ⟨none, .wouldBlock⟩]

example : (Runs.exec step started overlapping).map (waiting 0) = some [9] ∧
    Flow.emitted step (accepted 0) started overlapping = [8, 1, 2] := by decide

/-- A broadcast comes to the connections in the order in which it takes them. -/
theorem visits_step (s : State) (call : Call) (t : State) (h : step s call = some t) :
    Flow.Conserves left begun visited s call t := by
  rw [Flow.Conserves]
  cases outcome_of_step h with
  | broadcast message order hidle => simp [begun, visited, left, hidle]
  | calls message fd c rest hfree hsending => simp [begun, visited, left, State.use, hsending]
  | skips message fd c rest hsending => simp [begun, visited, left, hsending]
  | done message hsending => simp [begun, visited, left, hsending]
  | server | userSend | sends | writes | erases => simp [begun, visited, left, State.use]

/-- A broadcast takes the connections that are in the map when it begins, each once, in any
order. -/
def TakesMap (s : State) : Call → Prop
  | .broadcast message order => ∀ t, step s (.broadcast message order) = some t →
      (begun s (.broadcast message order)).Perm (entryIds s.server) ∧
        (begun s (.broadcast message order)).Nodup
  | _ => True

theorem takesMap_of_well {s : State} (hs : Well s) (call : Call) : TakesMap s call := by
  cases call with
  | broadcast message order =>
    intro t h
    obtain ⟨⟨_, hperm⟩, _⟩ := Runs.guarded_eq_some.mp h
    have hids : (order.map Prod.snd).Perm (entryIds s.server) := hperm.map Prod.snd
    exact ⟨hids, hids.nodup_iff.mpr hs.map.nodup⟩
  | _ => trivial

/-- What a broadcast has left are connections of the map. -/
theorem left_of_well {s : State} (hs : Well s) :
    (left s).Nodup ∧ left s ⊆ entryIds s.server := by
  cases hsending : s.sending with
  | none => simp [left, hsending]
  | some sending =>
    obtain ⟨message, rest⟩ := sending
    obtain ⟨visited, hperm⟩ := hs.remaining message rest hsending
    have hids : (visited.map Prod.snd ++ rest.map Prod.snd).Perm (entryIds s.server) := by
      rw [← List.map_append]
      exact hperm.map Prod.snd
    have hnodup := hids.nodup_iff.mpr hs.map.nodup
    simp only [left, hsending]
    exact ⟨(List.nodup_append.mp hnodup).2.1,
      fun c hc => hids.subset (List.mem_append_right _ hc)⟩

/-- In every run, each broadcast takes the connections that are in the map when it begins, each
once, and the broadcasts come to all of them in turn, whatever the threads do meanwhile; what a broadcast
under way has left is in the map still. -/
theorem broadcast_visits {calls : List Call} {t : State}
    (hrun : Runs.exec step started calls = some t) :
    Runs.Along step TakesMap started calls ∧
      Flow.emitted step visited started calls ++ left t = Flow.emitted step begun started calls ∧
      (left t).Nodup ∧ left t ⊆ entryIds t.server := by
  have hwell := Runs.invariant_exec Well well_step well_started hrun
  refine ⟨?_, ?_, left_of_well hwell⟩
  · exact Runs.along_invariant Well well_step (fun s a hs => takesMap_of_well hs a) well_started
      calls
  · exact Flow.taken_eq visits_step rfl hrun

theorem broadcast_visits_two : ∃ t, Runs.exec step started twoConnections = some t ∧
    Flow.emitted step visited started twoConnections ++ left t =
      Flow.emitted step begun started twoConnections ∧
    Flow.emitted step visited started twoConnections = [1, 0] := by
  have hrun : Runs.exec step started twoConnections = some _ := rfl
  exact ⟨_, hrun, (broadcast_visits hrun).2.1, by decide⟩

end Broadcast
