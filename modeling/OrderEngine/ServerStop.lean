import OrderEngine.TcpServer

/-!
# TcpServer::stop

The thread that started the server stops its loops, joins their threads, and then
closes the registered connections one by one while it holds `connections_mutex_`.
What it calls there is followed down to `removeConnection`, with the mutex and the
iteration over the map as part of the state.
-/
namespace ServerStop

open EpollPoller TcpConnection TcpServer

/-- What ends the thread's progress: a second lock of a mutex that it holds, or an
erasure from the map that it iterates over. -/
inductive Fault where
  | selfDeadlock
  | erasedWhileIterating
  deriving DecidableEq, Repr

/-- The server as the stopping thread sees it in the closing phase. -/
structure Closing where
  server : Server
  mutexHeld : Bool
  iterating : Bool

/-- What the user's `connection_callback_` does when it is told of a closed connection. -/
abbrev ConnectionCallback := ConnId → Closing → Except Fault Closing

/-- `std::lock_guard` on `connections_mutex_`, a plain `std::mutex`. -/
def lock (s : Closing) : Except Fault Closing :=
  if s.mutexHeld then .error .selfDeadlock else .ok { s with mutexHeld := true }

def unlock (s : Closing) : Closing := { s with mutexHeld := false }

/-- `connections_.erase(fd)`. -/
def erase (fd : Nat) (s : Closing) : Except Fault Closing :=
  if s.iterating && s.server.connections.any (fun e => e.1 = fd) then .error .erasedWhileIterating
  else .ok { s with server := s.server.eraseConnection fd }

/-- `getConnectionCount`, as the log line of `removeConnection` calls it. -/
def getConnectionCount (s : Closing) : Except Fault (Nat × Closing) := do
  let s ← lock s
  return (s.server.getConnectionCount, unlock s)

def removeConnection (c : ConnId) (s : Closing) : Except Fault Closing := do
  let s ← lock s
  let s ← erase (s.server.conn c).sockfd s
  let (_, s) ← getConnectionCount (unlock s)
  return s

/-- The close callback that `handleNewConnection` sets. -/
def closeCallback (callback : ConnectionCallback) (c : ConnId) (s : Closing) :
    Except Fault Closing := do
  let s ← removeConnection c s
  callback c
    { s with server := s.server.notify (.connection c (s.server.conn c).isConnected) }

/-- `TcpConnection::closeConnection`, run to its end. -/
def closeConnection (callback : ConnectionCallback) (c : ConnId) (s : Closing) :
    Except Fault Closing :=
  match (s.server.conn c).beginClose with
  | none => .ok s
  | some conn => do
    let s ← closeCallback callback c
      { s with server := (s.server.setConn c conn).notify (.close c) }
    return { s with server := s.server.setConn c (s.server.conn c).endClose }

/-- `for (auto& pair : connections_) pair.second->closeConnection();`. -/
def closeAll (callback : ConnectionCallback) : List (Nat × ConnId) → Closing →
    Except Fault Closing
  | [], s => .ok s
  | (_, c) :: rest, s => do
    let s ← closeConnection callback c s
    closeAll callback rest s

/-- The last block of `stop`: lock, close all, clear, unlock. -/
def closeConnections (callback : ConnectionCallback) (s : Closing) : Except Fault Closing := do
  let s ← lock s
  let s ← closeAll callback s.server.connections { s with iterating := true }
  return unlock { s with iterating := false, server := { s.server with connections := [] } }

/-- The members of the server that `stop` uses before it closes the connections, which
are taken as the threads of the loops leave them. -/
structure Host where
  running : Bool
  acceptChannel : Option Channel
  listenFd : Option Nat
  mainQuit : Bool
  subQuits : List Bool
  threads : Nat
  server : Server

/-- `stop` up to the closing of the connections: no accept channel, no listening
socket, every loop told to quit, every thread joined. -/
def stopLoops (h : Host) : Host :=
  { h with
    running := false
    acceptChannel := none
    listenFd := none
    mainQuit := true
    subQuits := h.subQuits.map (fun _ => true)
    threads := 0 }

/-- `TcpServer::stop()`. -/
def stop (callback : ConnectionCallback) (h : Host) : Except Fault Host :=
  if h.running then do
    let h := stopLoops h
    let s ← closeConnections callback ⟨h.server, false, false⟩
    return { h with server := s.server }
  else .ok h

/-- The notices of closed connections that `stop` has added for a connection. -/
def closedNotices (before after : Server) (c : ConnId) : Nat :=
  (after.notices.drop before.notices.length).count (.connection c false)

/-- `stop` runs to its end, and no registered connection is left in the map or
connected, or was not reported closed exactly once. -/
def Completes (callback : ConnectionCallback) (h : Host) : Prop :=
  ∃ h', stop callback h = .ok h' ∧ h'.server.connections = [] ∧
    ∀ e ∈ h.server.connections, (h.server.conn e.2).state = .kConnected →
      (h'.server.conn e.2).state = .kDisconnected ∧ closedNotices h.server h'.server e.2 = 1

theorem lock_held {s : Closing} (h : s.mutexHeld = true) : lock s = .error .selfDeadlock := by
  simp [lock, h]

/-- A connection that is not connected is passed over. -/
theorem closeConnection_idle {callback : ConnectionCallback} {c : ConnId} {s : Closing}
    (h : (s.server.conn c).state ≠ .kConnected) : closeConnection callback c s = .ok s := by
  simp [closeConnection, Connection.beginClose, h]

/-- A connected one leads back to the mutex that the thread holds. -/
theorem closeConnection_connected {callback : ConnectionCallback} {c : ConnId} {s : Closing}
    (hheld : s.mutexHeld = true) (h : (s.server.conn c).state = .kConnected) :
    closeConnection callback c s = .error .selfDeadlock := by
  have hremove : ∀ server, removeConnection c { s with server := server } =
      .error .selfDeadlock := by
    intro server
    simp only [removeConnection, lock_held (s := { s with server := server }) hheld]
    rfl
  simp only [closeConnection, Connection.beginClose, h, if_true, closeCallback, hremove]
  rfl

/-- The closing loop gets through exactly the connections that are not connected. -/
theorem closeAll_eq (callback : ConnectionCallback) (entries : List (Nat × ConnId)) {s : Closing}
    (hheld : s.mutexHeld = true) :
    closeAll callback entries s =
      if ∀ e ∈ entries, (s.server.conn e.2).state ≠ .kConnected then .ok s
      else .error .selfDeadlock := by
  induction entries with
  | nil => simp [closeAll]
  | cons e rest ih =>
    obtain ⟨fd, c⟩ := e
    by_cases hc : (s.server.conn c).state = .kConnected
    · have hno : ¬ ∀ e ∈ (fd, c) :: rest, (s.server.conn e.2).state ≠ .kConnected := by
        intro h
        exact h (fd, c) (by simp) hc
      rw [if_neg hno]
      simp only [closeAll, closeConnection_connected hheld hc]
      rfl
    · simp only [closeAll, closeConnection_idle hc]
      simp only [bind, Except.bind, ih, List.forall_mem_cons, ne_eq, hc, not_false_eq_true,
        true_and]

theorem closeConnections_eq (callback : ConnectionCallback) (server : Server) :
    closeConnections callback ⟨server, false, false⟩ =
      if ∀ e ∈ server.connections, (server.conn e.2).state ≠ .kConnected then
        .ok ⟨{ server with connections := [] }, false, false⟩
      else .error .selfDeadlock := by
  have hall := closeAll_eq callback server.connections (s := ⟨server, true, true⟩) rfl
  have hlock : lock ⟨server, false, false⟩ = .ok ⟨server, true, false⟩ := rfl
  by_cases hidle : ∀ e ∈ server.connections, (server.conn e.2).state ≠ .kConnected
  · rw [if_pos hidle] at hall ⊢
    simp only [closeConnections, hlock, bind, Except.bind, hall]
    rfl
  · rw [if_neg hidle] at hall ⊢
    simp only [closeConnections, hlock, bind, Except.bind, hall]

/-- `stop` of a running server ends, or locks its mutex a second time. -/
theorem stop_eq (callback : ConnectionCallback) {h : Host} (hrunning : h.running = true) :
    stop callback h =
      if ∀ e ∈ h.server.connections, (h.server.conn e.2).state ≠ .kConnected then
        .ok { stopLoops h with server := { h.server with connections := [] } }
      else .error .selfDeadlock := by
  have hclose := closeConnections_eq callback h.server
  have hserver : (stopLoops h).server = h.server := rfl
  by_cases hidle : ∀ e ∈ h.server.connections, (h.server.conn e.2).state ≠ .kConnected
  · rw [if_pos hidle] at hclose ⊢
    simp only [stop, hrunning, if_true, bind, Except.bind, hserver, hclose]
    rfl
  · rw [if_neg hidle] at hclose ⊢
    simp only [stop, hrunning, if_true, bind, Except.bind, hserver, hclose]

/-- A running server's `stop` closes its connections and returns exactly when no
registered connection is connected, whatever the user's callback does. -/
theorem completes_iff (callback : ConnectionCallback) {h : Host} (hrunning : h.running = true) :
    Completes callback h ↔ ∀ e ∈ h.server.connections, (h.server.conn e.2).state ≠ .kConnected := by
  constructor
  · rintro ⟨h', hstop, _⟩
    rw [stop_eq callback hrunning] at hstop
    by_contra hno
    rw [if_neg hno] at hstop
    cases hstop
  · intro hidle
    refine ⟨_, by rw [stop_eq callback hrunning, if_pos hidle], rfl, ?_⟩
    intro e he hstate
    exact absurd hstate (hidle e he)

/-- A server with one connection, set up and registered under fd 7. -/
def oneConnection : List Action :=
  [.accept 7 0 true, .register, .runTask 0 true, .userReturns 0]

def hostOf (server : Server) : Host where
  running := true
  acceptChannel := some { Channel.create 3 with events := kReadEvent, index := .kAdded }
  listenFd := some 3
  mainQuit := false
  subQuits := [false]
  threads := 2
  server := server

/-- A server with one registered connection that no task has set up. -/
def oneConnecting : Server :=
  { start with accepted := 1, conn := fun _ => .create 7, connections := [(7, 0)] }

theorem connecting_completes : Completes (fun _ s => .ok s) (hostOf oneConnecting) :=
  (completes_iff (fun _ s => .ok s) rfl).mpr (by decide)

/-- With one connected client it locks `connections_mutex_` while it holds it. -/
theorem connected_deadlocks : ∃ s, Runs.exec step start oneConnection = some s ∧
    (s.conn 0).state = .kConnected ∧ (7, 0) ∈ s.connections ∧
      ∀ callback, ¬ Completes callback (hostOf s) := by
  refine ⟨_, rfl, by decide, by decide, ?_⟩
  rintro callback ⟨h', hstop, _⟩
  rw [stop_eq callback rfl, if_neg (by decide)] at hstop
  cases hstop

end ServerStop
