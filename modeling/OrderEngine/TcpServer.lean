import OrderEngine.TcpConnection

/-!
# TcpServer: the accepting thread and the sub-reactors

The main loop's thread accepts connections and hands each to a sub-reactor; each
sub-reactor's thread runs the set-up tasks and dispatches events. What a thread is
in the middle of is a stack of frames, because the callbacks of the user may close
and use connections again. A server without `connection_callback_` behaves as one
whose callback returns at once.
-/
namespace TcpServer

open EpollPoller TcpConnection

abbrev ConnId := Nat

/-- A call on the stack of a sub-reactor's thread. -/
inductive Frame where
  /-- `Channel::handleEvent`, with the callbacks that it has still to make -/
  | event (c : ConnId) (todo : List Callback)
  /-- the set-up task, in `connection_callback_` -/
  | established (c : ConnId)
  /-- `handleRead`, in `message_callback_` -/
  | message (c : ConnId)
  /-- `closeConnection`, in the close callback before `removeConnection` has erased -/
  | removing (c : ConnId)
  /-- `closeConnection`, in the close callback's `connection_callback_` -/
  | closed (c : ConnId)
  deriving DecidableEq, Repr

def Frame.conn : Frame → ConnId
  | .event c _ => c
  | .established c => c
  | .message c => c
  | .removing c => c
  | .closed c => c

/-- Whether the frame runs code of the user. -/
def Frame.userCode : Frame → Bool
  | .established _ => true
  | .message _ => true
  | .closed _ => true
  | _ => false

/-- Whether the frame is the `closeConnection` of the connection. -/
def Frame.closes (c : ConnId) (f : Frame) : Bool := f = .removing c ∨ f = .closed c

/-- A callback that the server has invoked. -/
inductive Notice where
  | connection (c : ConnId) (connected : Bool)
  | message (c : ConnId)
  | close (c : ConnId)
  deriving DecidableEq, Repr

/-- A sub-reactor: its queued set-up tasks, the active channels of the last poll that
it has still to dispatch, its thread's stack, and its poller. -/
structure Loop where
  tasks : List ConnId
  active : List (ConnId × EventMask)
  stack : List Frame
  poller : Poller ConnId

def Loop.empty : Loop where
  tasks := []
  active := []
  stack := []
  poller := .empty

/-- The connections in the order of their accepts, the map `connections_`, and the
connection that `handleNewConnection` has handed over and not yet inserted. -/
structure Server where
  accepted : Nat
  conn : ConnId → Connection
  reactorOf : ConnId → Nat
  connections : List (Nat × ConnId)
  accepting : Option ConnId
  loops : Nat → Loop
  notices : List Notice

/-- A server that has just started. -/
def start : Server where
  accepted := 0
  conn _ := .create 0
  reactorOf _ := 0
  connections := []
  accepting := none
  loops _ := .empty
  notices := []

namespace Server

def setConn (s : Server) (c : ConnId) (conn : Connection) : Server :=
  { s with conn := Function.update s.conn c conn }

def setLoop (s : Server) (j : Nat) (l : Loop) : Server :=
  { s with loops := Function.update s.loops j l }

def setStack (s : Server) (j : Nat) (stack : List Frame) : Server :=
  s.setLoop j { s.loops j with stack := stack }

def notify (s : Server) (notice : Notice) : Server := { s with notices := s.notices ++ [notice] }

/-- The shared pointers to a connection: its entry in `connections_`, the argument of
`handleNewConnection`, the closure of its queued set-up task, the callbacks of the
channel that it owns, and the calls on its thread's stack. -/
def strongRefs (s : Server) (c : ConnId) : Nat :=
  s.connections.countP (fun e => e.2 = c) +
  (if s.accepting = some c then 1 else 0) +
  (s.loops (s.reactorOf c)).tasks.count c +
  (if (s.conn c).channel.isSome then 4 else 0) +
  (s.loops (s.reactorOf c)).stack.countP (fun f => f.conn = c)

/-- The kernel gives a socket an fd that no open socket has. -/
def FdFree (s : Server) (fd : Nat) : Prop :=
  ∀ c < s.accepted, 0 < s.strongRefs c → (s.conn c).sockfd ≠ fd

instance (s : Server) (fd : Nat) : Decidable (s.FdFree fd) :=
  inferInstanceAs (Decidable (∀ c < s.accepted, _))

/-- `connections_[connfd] = conn`. -/
def insertConnection (s : Server) (fd : Nat) (c : ConnId) : Server :=
  { s with connections := s.connections.filter (fun e => e.1 ≠ fd) ++ [(fd, c)] }

/-- `connections_.erase(fd)`. -/
def eraseConnection (s : Server) (fd : Nat) : Server :=
  { s with connections := s.connections.filter (fun e => e.1 ≠ fd) }

def getConnectionCount (s : Server) : Nat := s.connections.length

/-- `handleNewConnection` up to the insertion. The sub-reactor is the next in turn, and
the main loop's thread is not the one that constructed it, so `runInLoop` queues. -/
def handOver (s : Server) (fd reactor : Nat) (messageCallback : Bool) : Server :=
  { s with
    accepted := s.accepted + 1
    conn := Function.update s.conn s.accepted
      ((Connection.create fd).setMessageCallback messageCallback)
    reactorOf := Function.update s.reactorOf s.accepted reactor
    accepting := some s.accepted
    loops := Function.update s.loops reactor
      { s.loops reactor with tasks := (s.loops reactor).tasks ++ [s.accepted] } }

/-- The set-up task, up to its call of `connection_callback_`. -/
def setUp (s : Server) (j : Nat) (c : ConnId) (rest : List ConnId) (succeeds : Bool) : Server :=
  let enabled := (s.loops j).poller.enableReading c (Channel.create (s.conn c).sockfd) succeeds
  { s with
    conn := Function.update s.conn c ((s.conn c).setChannel enabled.2).establishConnection
    loops := Function.update s.loops j
      { s.loops j with tasks := rest, stack := [.established c], poller := enabled.1 }
    notices := s.notices ++ [.connection c true] }

/-- `closeConnection` on the thread of the sub-reactor `j`, up to `removeConnection`. -/
def closeConnection (s : Server) (j : Nat) (c : ConnId) (stack : List Frame) : Server :=
  match (s.conn c).beginClose with
  | some conn => ((s.setConn c conn).setStack j (.removing c :: stack)).notify (.close c)
  | none => s.setStack j stack

/-- What a callback of the connection's channel does to the connection. -/
def callback (conn : Connection) (read : ReadResult) (write : WriteResult) :
    Callback → Connection × Connection.Reaction
  | .close => (conn, .close)
  | .error => (conn, .close)
  | .read => conn.handleRead read
  | .write => conn.handleWrite write

/-- The callback and what follows from it; `stack` is what it returns to. -/
def react (s : Server) (j : Nat) (c : ConnId) (stack : List Frame) :
    Connection × Connection.Reaction → Server
  | (conn, .nothing) => (s.setConn c conn).setStack j stack
  | (conn, .message) => ((s.setConn c conn).setStack j (.message c :: stack)).notify (.message c)
  | (conn, .close) => (s.setConn c conn).closeConnection j c stack

/-- `removeConnection`, and the call of `connection_callback_` after it. -/
def removeConnection (s : Server) (j : Nat) (c : ConnId) (stack : List Frame) : Server :=
  ((s.eraseConnection (s.conn c).sockfd).setStack j (.closed c :: stack)).notify
    (.connection c (s.conn c).isConnected)

/-- The return of a callback of the user. -/
def userReturns (s : Server) (j : Nat) (stack : List Frame) : Frame → Server
  | .message c => (s.setConn c (s.conn c).messageReturns).setStack j stack
  | .closed c => (s.setConn c (s.conn c).endClose).setStack j stack
  | _ => s.setStack j stack

/-- The thread of the sub-reactor is in code of the user, which may use a connection of
that sub-reactor: `state_` and the buffers are unsynchronised, so no other thread may. -/
def UserMayUse (s : Server) (j : Nat) (c : ConnId) : Prop :=
  (s.loops j).stack.head?.any Frame.userCode = true ∧ c < s.accepted ∧ s.reactorOf c = j

instance (s : Server) (j : Nat) (c : ConnId) : Decidable (s.UserMayUse j c) :=
  inferInstanceAs (Decidable (_ ∧ _))

/-- The channel is in the interest set of the sub-reactor's poller. -/
def Registered (s : Server) (j : Nat) (c : ConnId) : Prop :=
  ((s.loops j).poller.interest (s.conn c).sockfd).any (fun e => e.1 = c) = true

instance (s : Server) (j : Nat) (c : ConnId) : Decidable (s.Registered j c) :=
  inferInstanceAs (Decidable (_ = true))

end Server

inductive Action where
  | accept (fd reactor : Nat) (messageCallback : Bool)
  | register
  | runTask (j : Nat) (succeeds : Bool)
  | poll (j : Nat) (active : List (ConnId × EventMask))
  | dispatch (j : Nat)
  | callback (j : Nat) (read : ReadResult) (write : WriteResult)
  | eventDone (j : Nat)
  | userClose (j : Nat) (c : ConnId)
  | userSend (j : Nat) (c : ConnId) (data : List UInt8) (write : WriteResult)
  | userReturns (j : Nat)
  | remove (j : Nat)
  deriving DecidableEq, Repr

/-- The sub-reactor that a step concerns. -/
def loopOf : Action → Option Nat
  | .accept _ reactor _ => some reactor
  | .register => none
  | .runTask j _ | .poll j _ | .dispatch j | .callback j _ _ | .eventDone j | .userClose j _
  | .userSend j _ _ _ | .userReturns j | .remove j => some j

/-- One step of the accepting thread or of the thread of the sub-reactor `j`. -/
def step (s : Server) : Action → Option Server
  | .accept fd reactor messageCallback =>
    Runs.guarded (s.accepting = none ∧ s.FdFree fd) (s.handOver fd reactor messageCallback)
  | .register =>
    match s.accepting with
    | some c => some { s.insertConnection (s.conn c).sockfd c with accepting := none }
    | none => none
  | .runTask j succeeds =>
    match (s.loops j).tasks with
    | c :: rest =>
      Runs.guarded ((s.loops j).stack = [] ∧ (s.loops j).active = []) (s.setUp j c rest succeeds)
    | [] => none
  | .poll j active =>
    Runs.guarded ((s.loops j).stack = [] ∧ (s.loops j).active = [] ∧
        ∀ e ∈ active, s.Registered j e.1)
      (s.setLoop j { s.loops j with active := active })
  | .dispatch j =>
    match (s.loops j).active with
    | (c, revents) :: rest =>
      Runs.guarded ((s.loops j).stack = [])
        (s.setLoop j
          { s.loops j with active := rest, stack := [.event c (handleEvent revents)] })
    | [] => none
  | .callback j read write =>
    match (s.loops j).stack with
    | .event c (cb :: todo) :: stack =>
      Runs.guarded (read.Fits ∧ write.Fits (s.conn c).outputBuffer.length)
        (s.react j c (.event c todo :: stack) (Server.callback (s.conn c) read write cb))
    | _ => none
  | .eventDone j =>
    match (s.loops j).stack with
    | .event _ [] :: stack => some (s.setStack j stack)
    | _ => none
  | .userClose j c =>
    Runs.guarded (s.UserMayUse j c) (s.closeConnection j c (s.loops j).stack)
  | .userSend j c data write =>
    Runs.guarded (s.UserMayUse j c ∧ write.Fits data.length)
      (s.setConn c ((s.conn c).send data write).1)
  | .userReturns j =>
    match (s.loops j).stack with
    | f :: stack => Runs.guarded (f.userCode = true) (s.userReturns j stack f)
    | [] => none
  | .remove j =>
    match (s.loops j).stack with
    | .removing c :: stack => some (s.removeConnection j c stack)
    | _ => none

/-- What a step can do, one case for each outcome. -/
inductive Outcome (s : Server) : Action → Server → Prop where
  | accept (fd reactor : Nat) (messageCallback : Bool) (hidle : s.accepting = none)
      (hfree : s.FdFree fd) :
      Outcome s (.accept fd reactor messageCallback) (s.handOver fd reactor messageCallback)
  | register (c : ConnId) (haccepting : s.accepting = some c) :
      Outcome s .register { s.insertConnection (s.conn c).sockfd c with accepting := none }
  | runTask (j : Nat) (succeeds : Bool) (c : ConnId) (rest : List ConnId)
      (htasks : (s.loops j).tasks = c :: rest) (hstack : (s.loops j).stack = [])
      (hactive : (s.loops j).active = []) :
      Outcome s (.runTask j succeeds) (s.setUp j c rest succeeds)
  | poll (j : Nat) (active : List (ConnId × EventMask)) (hstack : (s.loops j).stack = [])
      (hregistered : ∀ e ∈ active, s.Registered j e.1) :
      Outcome s (.poll j active)
        (s.setLoop j { s.loops j with active := active })
  | dispatch (j : Nat) (c : ConnId) (revents : EventMask) (rest : List (ConnId × EventMask))
      (hactive : (s.loops j).active = (c, revents) :: rest) (hstack : (s.loops j).stack = []) :
      Outcome s (.dispatch j)
        (s.setLoop j
          { s.loops j with active := rest, stack := [.event c (handleEvent revents)] })
  | callback (j : Nat) (read : ReadResult) (write : WriteResult) (c : ConnId) (cb : Callback)
      (todo : List Callback) (stack : List Frame)
      (hstack : (s.loops j).stack = .event c (cb :: todo) :: stack) :
      Outcome s (.callback j read write)
        (s.react j c (.event c todo :: stack) (Server.callback (s.conn c) read write cb))
  | eventDone (j : Nat) (c : ConnId) (stack : List Frame)
      (hstack : (s.loops j).stack = .event c [] :: stack) :
      Outcome s (.eventDone j) (s.setStack j stack)
  | userClose (j : Nat) (c : ConnId) (hmay : s.UserMayUse j c) :
      Outcome s (.userClose j c) (s.closeConnection j c (s.loops j).stack)
  | userSend (j : Nat) (c : ConnId) (data : List UInt8) (write : WriteResult)
      (hmay : s.UserMayUse j c) :
      Outcome s (.userSend j c data write) (s.setConn c ((s.conn c).send data write).1)
  | userReturns (j : Nat) (f : Frame) (stack : List Frame)
      (hstack : (s.loops j).stack = f :: stack) (huser : f.userCode = true) :
      Outcome s (.userReturns j) (s.userReturns j stack f)
  | remove (j : Nat) (c : ConnId) (stack : List Frame)
      (hstack : (s.loops j).stack = .removing c :: stack) :
      Outcome s (.remove j) (s.removeConnection j c stack)

theorem outcome_of_step {s s' : Server} {a : Action} (h : step s a = some s') :
    Outcome s a s' := by
  cases a with
  | accept fd reactor messageCallback =>
    obtain ⟨⟨hidle, hfree⟩, rfl⟩ := Runs.guarded_eq_some.mp h
    exact .accept fd reactor messageCallback hidle hfree
  | register =>
    simp only [step] at h
    split at h
    · rename_i c haccepting
      cases h
      exact .register c haccepting
    · cases h
  | runTask j succeeds =>
    simp only [step] at h
    split at h
    · rename_i c rest htasks
      obtain ⟨⟨hstack, hactive⟩, rfl⟩ := Runs.guarded_eq_some.mp h
      exact .runTask j succeeds c rest htasks hstack hactive
    · cases h
  | poll j active =>
    obtain ⟨⟨hstack, _, hregistered⟩, rfl⟩ := Runs.guarded_eq_some.mp h
    exact .poll j active hstack hregistered
  | dispatch j =>
    simp only [step] at h
    split at h
    · rename_i c revents rest hactive
      obtain ⟨hstack, rfl⟩ := Runs.guarded_eq_some.mp h
      exact .dispatch j c revents rest hactive hstack
    · cases h
  | callback j read write =>
    simp only [step] at h
    split at h
    · rename_i c cb todo stack hstack
      obtain ⟨_, rfl⟩ := Runs.guarded_eq_some.mp h
      exact .callback j read write c cb todo stack hstack
    · cases h
  | eventDone j =>
    simp only [step] at h
    split at h
    · rename_i c stack hstack
      cases h
      exact .eventDone j c stack hstack
    · cases h
  | userClose j c =>
    obtain ⟨hmay, rfl⟩ := Runs.guarded_eq_some.mp h
    exact .userClose j c hmay
  | userSend j c data write =>
    obtain ⟨⟨hmay, _⟩, rfl⟩ := Runs.guarded_eq_some.mp h
    exact .userSend j c data write hmay
  | userReturns j =>
    simp only [step] at h
    split at h
    · rename_i f stack hstack
      obtain ⟨huser, rfl⟩ := Runs.guarded_eq_some.mp h
      exact .userReturns j f stack hstack huser
    · cases h
  | remove j =>
    simp only [step] at h
    split at h
    · rename_i c stack hstack
      cases h
      exact .remove j c stack hstack
    · cases h

/-- An accept leaves the other connections as they are. -/
theorem handOver_of_lt {s : Server} {c : ConnId} (hc : c < s.accepted) (fd reactor : Nat)
    (messageCallback : Bool) :
    (s.handOver fd reactor messageCallback).conn c = s.conn c ∧
      (s.handOver fd reactor messageCallback).reactorOf c = s.reactorOf c := by
  have hne : c ≠ s.accepted := Nat.ne_of_lt hc
  simp [Server.handOver, Function.update_of_ne hne]

theorem handOver_last (s : Server) (fd reactor : Nat) (messageCallback : Bool) :
    (s.handOver fd reactor messageCallback).conn s.accepted =
        (Connection.create fd).setMessageCallback messageCallback ∧
      (s.handOver fd reactor messageCallback).reactorOf s.accepted = reactor := by
  simp [Server.handOver]

@[simp] theorem loops_setConn (s : Server) (c : ConnId) (conn : Connection) :
    (s.setConn c conn).loops = s.loops := rfl

@[simp] theorem loops_notify (s : Server) (notice : Notice) : (s.notify notice).loops = s.loops :=
  rfl

@[simp] theorem loops_eraseConnection (s : Server) (fd : Nat) :
    (s.eraseConnection fd).loops = s.loops := rfl

@[simp] theorem conn_setConn_self (s : Server) (c : ConnId) (conn : Connection) :
    (s.setConn c conn).conn c = conn := Function.update_self _ _ _

theorem conn_setConn_of_ne {s : Server} {c d : ConnId} (h : d ≠ c) (conn : Connection) :
    (s.setConn c conn).conn d = s.conn d := Function.update_of_ne h _ _

@[simp] theorem conn_setStack (s : Server) (j : Nat) (stack : List Frame) :
    (s.setStack j stack).conn = s.conn := rfl

@[simp] theorem conn_notify (s : Server) (notice : Notice) : (s.notify notice).conn = s.conn := rfl

@[simp] theorem conn_eraseConnection (s : Server) (fd : Nat) :
    (s.eraseConnection fd).conn = s.conn := rfl

@[simp] theorem reactorOf_setConn (s : Server) (c : ConnId) (conn : Connection) :
    (s.setConn c conn).reactorOf = s.reactorOf := rfl

@[simp] theorem reactorOf_setStack (s : Server) (j : Nat) (stack : List Frame) :
    (s.setStack j stack).reactorOf = s.reactorOf := rfl

@[simp] theorem reactorOf_notify (s : Server) (notice : Notice) :
    (s.notify notice).reactorOf = s.reactorOf := rfl

@[simp] theorem reactorOf_eraseConnection (s : Server) (fd : Nat) :
    (s.eraseConnection fd).reactorOf = s.reactorOf := rfl

@[simp] theorem accepted_setConn (s : Server) (c : ConnId) (conn : Connection) :
    (s.setConn c conn).accepted = s.accepted := rfl

@[simp] theorem accepted_setStack (s : Server) (j : Nat) (stack : List Frame) :
    (s.setStack j stack).accepted = s.accepted := rfl

@[simp] theorem accepted_notify (s : Server) (notice : Notice) :
    (s.notify notice).accepted = s.accepted := rfl

@[simp] theorem accepted_eraseConnection (s : Server) (fd : Nat) :
    (s.eraseConnection fd).accepted = s.accepted := rfl

@[simp] theorem stack_setStack_self (s : Server) (j : Nat) (stack : List Frame) :
    ((s.setStack j stack).loops j).stack = stack := by
  simp [Server.setStack, Server.setLoop]

theorem poller_setLoop {s : Server} {j : Nat} {l : Loop} (h : l.poller = (s.loops j).poller)
    (i : Nat) : ((s.setLoop j l).loops i).poller = (s.loops i).poller := by
  unfold Server.setLoop
  by_cases hi : i = j
  · simp only [hi, Function.update_self, h]
  · simp only [Function.update_of_ne hi]

@[simp] theorem poller_setStack (s : Server) (j : Nat) (stack : List Frame) (i : Nat) :
    ((s.setStack j stack).loops i).poller = (s.loops i).poller := by
  refine poller_setLoop ?_ i
  rfl

theorem state_setConn {s : Server} {c : ConnId} {conn : Connection}
    (h : conn.state = (s.conn c).state) (d : ConnId) :
    ((s.setConn c conn).conn d).state = (s.conn d).state := by
  unfold Server.setConn
  by_cases hd : d = c
  · simp only [hd, Function.update_self, h]
  · simp only [Function.update_of_ne hd]

theorem closeConnection_cases (s : Server) (j : Nat) (c : ConnId) (stack : List Frame) :
    (s.conn c).state = .kConnected ∧ s.closeConnection j c stack =
        ((s.setConn c { s.conn c with state := .kDisconnecting }).setStack j
          (.removing c :: stack)).notify (.close c) ∨
      (s.conn c).state ≠ .kConnected ∧ s.closeConnection j c stack = s.setStack j stack := by
  unfold Server.closeConnection Connection.beginClose
  by_cases h : (s.conn c).state = .kConnected
  · simp [h]
  · simp [h]

/-- An operation that moves bytes only. -/
structure MovesBytes (conn conn' : Connection) : Prop where
  state : conn'.state = conn.state
  channel : conn'.channel = conn.channel
  sockfd : conn'.sockfd = conn.sockfd

theorem movesBytes_send (conn : Connection) (data : List UInt8) (write : WriteResult) :
    MovesBytes conn (conn.send data write).1 :=
  ⟨send_state conn data write, send_channel conn data write, send_sockfd conn data write⟩

theorem movesBytes_handleRead (conn : Connection) (read : ReadResult) :
    MovesBytes conn (conn.handleRead read).1 := by
  obtain ⟨bytes, h⟩ := handleRead_eq conn read
  rw [h]
  exact ⟨rfl, rfl, rfl⟩

theorem movesBytes_handleWrite (conn : Connection) (write : WriteResult) :
    MovesBytes conn (conn.handleWrite write).1 := by
  obtain ⟨n, h⟩ := handleWrite_eq conn write
  rw [h]
  exact ⟨rfl, rfl, rfl⟩

theorem movesBytes_callback (conn : Connection) (read : ReadResult) (write : WriteResult)
    (cb : Callback) : MovesBytes conn (Server.callback conn read write cb).1 := by
  cases cb with
  | close => exact ⟨rfl, rfl, rfl⟩
  | error => exact ⟨rfl, rfl, rfl⟩
  | read => exact movesBytes_handleRead conn read
  | write => exact movesBytes_handleWrite conn write

/-- A callback that goes on to close the connection has not changed it before. -/
theorem callback_close {conn : Connection} {read : ReadResult} {write : WriteResult}
    {cb : Callback} (h : (Server.callback conn read write cb).2 = .close) :
    (Server.callback conn read write cb).1 = conn := by
  cases cb with
  | close => rfl
  | error => rfl
  | read => exact handleRead_close h
  | write => exact handleWrite_close h

theorem react_close {s : Server} {c : ConnId} {read : ReadResult} {write : WriteResult}
    {cb : Callback} (h : (Server.callback (s.conn c) read write cb).2 = .close) (j : Nat)
    (stack : List Frame) :
    s.react j c stack (Server.callback (s.conn c) read write cb) = s.closeConnection j c stack := by
  have hconn := callback_close h
  generalize Server.callback (s.conn c) read write cb = r at h hconn ⊢
  obtain ⟨conn, reaction⟩ := r
  cases h
  cases hconn
  simp [Server.react, Server.setConn]

/-- What a callback of a channel leads to: nothing further, the message callback, or
`closeConnection`. -/
theorem react_cases (s : Server) (j : Nat) (c : ConnId) (stack : List Frame) (read : ReadResult)
    (write : WriteResult) (cb : Callback) :
    (∃ conn, MovesBytes (s.conn c) conn ∧
      s.react j c stack (Server.callback (s.conn c) read write cb) =
        (s.setConn c conn).setStack j stack) ∨
    (∃ conn, MovesBytes (s.conn c) conn ∧
      s.react j c stack (Server.callback (s.conn c) read write cb) =
        ((s.setConn c conn).setStack j (.message c :: stack)).notify (.message c)) ∨
    (Server.callback (s.conn c) read write cb).2 = .close ∧
      s.react j c stack (Server.callback (s.conn c) read write cb) =
        s.closeConnection j c stack := by
  have hmoves := movesBytes_callback (s.conn c) read write cb
  have hclose := fun h => @react_close s c read write cb h j stack
  generalize Server.callback (s.conn c) read write cb = r at hmoves hclose ⊢
  obtain ⟨conn, reaction⟩ := r
  cases reaction with
  | nothing => exact .inl ⟨conn, hmoves, rfl⟩
  | message => exact .inr (.inl ⟨conn, hmoves, rfl⟩)
  | close => exact .inr (.inr ⟨rfl, hclose rfl⟩)

/-- `closeConnection` changes no loop but its own, where it pushes at most a frame, and leaves the
accepting thread alone. -/
theorem loops_closeConnection (s : Server) (j : Nat) (c : ConnId) (stack : List Frame) :
    ∃ more, (more = [] ∨ more = [.removing c]) ∧
      (s.closeConnection j c stack).accepting = s.accepting ∧
      (s.closeConnection j c stack).loops =
        Function.update s.loops j { s.loops j with stack := more ++ stack } := by
  rcases closeConnection_cases s j c stack with ⟨_, heq⟩ | ⟨_, heq⟩
  · exact ⟨[.removing c], .inr rfl, by rw [heq]; rfl, by rw [heq]; rfl⟩
  · exact ⟨[], .inl rfl, by rw [heq]; rfl, by rw [heq]; rfl⟩

/-- So does what follows a callback of a channel. -/
theorem loops_react (s : Server) (j : Nat) (c : ConnId) (stack : List Frame)
    (r : Connection × Connection.Reaction) :
    ∃ more, (more = [] ∨ more = [.removing c] ∨ more = [.message c]) ∧
      (s.react j c stack r).accepting = s.accepting ∧
      (s.react j c stack r).loops =
        Function.update s.loops j { s.loops j with stack := more ++ stack } := by
  obtain ⟨conn, reaction⟩ := r
  cases reaction with
  | nothing => exact ⟨[], .inl rfl, rfl, rfl⟩
  | message => exact ⟨[.message c], .inr (.inr rfl), rfl, rfl⟩
  | close =>
    obtain ⟨more, hmore, hloops⟩ := loops_closeConnection (s.setConn c conn) j c stack
    exact ⟨more, hmore.imp_right .inl, hloops⟩

/-- A step leaves the loops of the other sub-reactors as they are. -/
theorem loops_of_ne {s t : Server} {a : Action} (h : step s a = some t) {j : Nat}
    (hj : loopOf a ≠ some j) : t.loops j = s.loops j := by
  have hother : ∀ {i : Nat} {l : Loop}, loopOf a = some i → t.loops = Function.update s.loops i l →
      t.loops j = s.loops j := by
    rintro i l hi hloops
    rw [hloops, Function.update_of_ne]
    rintro rfl
    exact hj hi
  cases outcome_of_step h with
  | accept | poll | dispatch | eventDone | remove | runTask => exact hother rfl rfl
  | register | userSend => rfl
  | callback i read write c cb todo stack =>
    obtain ⟨more, _, _, hloops⟩ := loops_react s i c (.event c todo :: stack)
      (Server.callback (s.conn c) read write cb)
    exact hother rfl hloops
  | userClose i c =>
    obtain ⟨more, _, _, hloops⟩ := loops_closeConnection s i c (s.loops i).stack
    exact hother rfl hloops
  | userReturns i f stack => cases f <;> exact hother rfl rfl

/-- The sub-reactor of a connection stays the same. -/
theorem reactorOf_step {s t : Server} {a : Action} (h : step s a = some t) {c : ConnId}
    (hc : c < s.accepted) : t.reactorOf c = s.reactorOf c := by
  have hclose : ∀ (s : Server) j d stack,
      (s.closeConnection j d stack).reactorOf = s.reactorOf := by
    intro s j d stack
    rcases closeConnection_cases s j d stack with ⟨_, heq⟩ | ⟨_, heq⟩ <;> rw [heq] <;> rfl
  cases outcome_of_step h with
  | accept fd reactor messageCallback => exact (handOver_of_lt hc fd reactor messageCallback).2
  | register | poll | dispatch | eventDone | remove | runTask | userSend => rfl
  | userClose j d => rw [hclose]
  | userReturns j f stack => cases f <;> rfl
  | callback j read write d cb todo stack =>
    generalize Server.callback (s.conn d) read write cb = r
    obtain ⟨conn, reaction⟩ := r
    cases reaction with
    | nothing | message => rfl
    | close => exact congrFun (hclose (s.setConn d conn) j d _) c

end TcpServer
