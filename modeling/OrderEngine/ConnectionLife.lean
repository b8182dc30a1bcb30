import OrderEngine.MessageOrder
import Mathlib.Algebra.BigOperators.Group.Finset.Piecewise
import Mathlib.Algebra.BigOperators.Group.Finset.Basic

/-!
# The life of a connection and what its user is told

`closeConnection` may be asked for by a hang-up, an error, a read, a write or the user, and
again from inside the callbacks that it makes itself. What `connection_callback_` has been
told of a connection follows from how far the life of the connection has got.
-/
namespace ConnectionLife

open EpollPoller TcpConnection TcpServer ServerShape ConnectionRegistry ConnectionChannels
  MessageOrder

/-- The calls of `connection_callback_` for the connection, each with the value that
`isConnected()` had then. -/
def connectionCallbacks (notices : List Notice) (c : ConnId) : List Bool :=
  notices.filterMap fun
    | .connection d connected => if d = c then some connected else none
    | _ => none

/-- How often `connection_callback_` was called with this value of `isConnected()`. -/
def notifications (notices : List Notice) (connected : Bool) : Nat :=
  notices.countP fun
    | .connection _ value => value = connected
    | _ => false

/-- The state that follows in the life of a connection. -/
def nextState : ConnState → Option ConnState
  | .kConnecting => some .kConnected
  | .kConnected => some .kDisconnecting
  | .kDisconnecting => some .kDisconnected
  | .kDisconnected => none

/-- Each accepted connection stays in its state or goes on to the next one, and a new one
starts in `kConnecting`. -/
structure MovesOn (s s' : Server) : Prop where
  accepted : s.accepted ≤ s'.accepted
  moves : ∀ c < s.accepted, (s'.conn c).state = (s.conn c).state ∨
    nextState (s.conn c).state = some (s'.conn c).state
  starts : ∀ c < s'.accepted, s.accepted ≤ c → (s'.conn c).state = .kConnecting

/-- No thread is in a task or in the handler of an event. -/
def Idle (s : Server) : Prop := ∀ j, (s.loops j).stack = []

def connectedConnections (s : Server) : Finset ConnId :=
  (Finset.range s.accepted).filter (fun c => (s.conn c).state = .kConnected)

/-- No message of a connection precedes the news that it is connected. -/
def ConnectedFirst (notices : List Notice) : Prop :=
  ∀ c earlier later, notices = earlier ++ .message c :: later → .connection c true ∈ earlier

/-- What the user has been told: of each connection at most that it is connected and then
that it is not, no message before the first of these, and at rest as many more times the
first as there are connections in `kConnected`. -/
structure Notifies (s : Server) : Prop where
  once : ∀ c, connectionCallbacks s.notices c <+: [true, false]
  first : ConnectedFirst s.notices
  balance : Idle s → (notifications s.notices true : Int) - notifications s.notices false =
    (connectedConnections s).card

/-- The calls of `connection_callback_` that the life of the connection accounts for. -/
def due (s : Server) (c : ConnId) : List Bool :=
  if c < s.accepted then
    match (s.conn c).state with
    | .kConnecting => []
    | .kConnected => [true]
    | .kDisconnecting =>
      -- `removeConnection` comes before the callback
      if .closed c ∈ (s.loops (s.reactorOf c)).stack then [true, false] else [true]
    | .kDisconnected => [true, false]
  else []

/-- The user has been told what was due. -/
def Announced (s : Server) : Prop := ∀ c, connectionCallbacks s.notices c = due s c

@[simp] theorem connectionCallbacks_append (notices added : List Notice) (c : ConnId) :
    connectionCallbacks (notices ++ added) c =
      connectionCallbacks notices c ++ connectionCallbacks added c := by
  simp [connectionCallbacks]

@[simp] theorem connectionCallbacks_connection (c d : ConnId) (connected : Bool) :
    connectionCallbacks [.connection d connected] c = if d = c then [connected] else [] := by
  by_cases h : d = c <;> simp [connectionCallbacks, h]

@[simp] theorem connectionCallbacks_message (c d : ConnId) :
    connectionCallbacks [.message d] c = [] := rfl

@[simp] theorem connectionCallbacks_close (c d : ConnId) :
    connectionCallbacks [.close d] c = [] := rfl

/-- What is due stays the same with the state and the close's call of the callback. -/
theorem due_congr {s s' : Server} {c : ConnId} (haccepted : s'.accepted = s.accepted)
    (hstate : (s'.conn c).state = (s.conn c).state)
    (hclosed : .closed c ∈ (s'.loops (s'.reactorOf c)).stack ↔
      .closed c ∈ (s.loops (s.reactorOf c)).stack) : due s' c = due s c := by
  unfold due
  rw [haccepted, hstate]
  simp only [hclosed]

theorem closed_setLoop {s : Server} {j : Nat} {l : Loop} {c : ConnId}
    (h : .closed c ∈ l.stack ↔ .closed c ∈ (s.loops j).stack) (i : Nat) :
    .closed c ∈ ((s.setLoop j l).loops i).stack ↔ .closed c ∈ (s.loops i).stack := by
  unfold Server.setLoop
  by_cases hi : i = j
  · simp only [hi, Function.update_self, h]
  · simp only [Function.update_of_ne hi]

/-- A step of a thread that moves bytes only, and keeps the closes in their callback. -/
theorem due_setBoth {s : Server} {j : Nat} {c d : ConnId} {conn : Connection} {l : Loop}
    (hstate : conn.state = (s.conn c).state)
    (hclosed : .closed d ∈ l.stack ↔ .closed d ∈ (s.loops j).stack) :
    due ((s.setConn c conn).setLoop j l) d = due s d :=
  due_congr rfl (state_setConn hstate d) (closed_setLoop hclosed _)

theorem due_setLoop {s : Server} {j : Nat} {d : ConnId} {l : Loop}
    (hclosed : .closed d ∈ l.stack ↔ .closed d ∈ (s.loops j).stack) :
    due (s.setLoop j l) d = due s d :=
  due_congr rfl rfl (closed_setLoop hclosed _)

/-- A close in its callback belongs to a connection that is going down. -/
theorem disconnecting_of_closed {s : Server} (h : Shape s) {j : Nat} {c : ConnId}
    (hmem : .closed c ∈ (s.loops j).stack) : (s.conn c).state = .kDisconnecting := by
  have howned : Owned s j c := (h.loops j).frames _ hmem
  have hclosing := closings_eq h howned
  by_contra hstate
  rw [if_neg hstate] at hclosing
  exact not_mem_of_closings (by simp) hclosing hmem

theorem due_closeConnection {s : Server} (h : Shape s) {j : Nat} {c d : ConnId}
    {stack : List Frame} (howned : Owned s j c)
    (hclosed : .closed d ∈ stack ↔ .closed d ∈ (s.loops j).stack) :
    due (s.closeConnection j c stack) d = due s d := by
  rcases closeConnection_cases s j c stack with ⟨hup, heq⟩ | ⟨_, heq⟩
  · rw [heq]
    by_cases hd : d = c
    · subst hd
      have hnot : .closed d ∉ stack := by
        rw [hclosed]
        intro hmem
        rw [disconnecting_of_closed h hmem] at hup
        cases hup
      simp [due, howned.1, howned.2, hup, hnot]
    · refine due_congr rfl ?_ ?_
      · simp [conn_setConn_of_ne hd]
      · exact closed_setLoop (by simpa [hd] using hclosed) _
  · rw [heq]
    exact due_setLoop hclosed

/-- A step that tells what becomes due. -/
theorem announced_of_due {s s' : Server} {added : List Notice} (h : Announced s)
    (hnotices : s'.notices = s.notices ++ added)
    (hdue : ∀ c, due s' c = due s c ++ connectionCallbacks added c) : Announced s' := by
  intro c
  rw [hnotices, connectionCallbacks_append, h c, hdue]

theorem announced_of_same {s s' : Server} (h : Announced s) (hnotices : s'.notices = s.notices)
    (hdue : ∀ c, due s' c = due s c) : Announced s' := by
  intro c
  rw [hnotices, hdue]
  exact h c

theorem announced_closeConnection {s : Server} (hshape : Shape s) (h : Announced s) {j : Nat}
    {c : ConnId} {stack : List Frame} (howned : Owned s j c)
    (hclosed : ∀ d, .closed d ∈ stack ↔ .closed d ∈ (s.loops j).stack) :
    Announced (s.closeConnection j c stack) := by
  have hdue : ∀ d, due (s.closeConnection j c stack) d = due s d :=
    fun d => due_closeConnection hshape howned (hclosed d)
  rcases closeConnection_cases s j c stack with ⟨_, heq⟩ | ⟨_, heq⟩
  · have hnotices : (s.closeConnection j c stack).notices = s.notices ++ [.close c] := by
      rw [heq]
      rfl
    apply announced_of_due h hnotices
    intro d
    rw [hdue, connectionCallbacks_close, List.append_nil]
  · have hnotices : (s.closeConnection j c stack).notices = s.notices := by
      rw [heq]
      rfl
    exact announced_of_same h hnotices hdue

/-- Nothing is due for a connection that is just accepted. -/
theorem due_handOver (s : Server) (fd reactor : Nat) (messageCallback : Bool) (c : ConnId) :
    due (s.handOver fd reactor messageCallback) c = due s c := by
  by_cases hc : c < s.accepted
  · obtain ⟨hconn, hreactor⟩ := handOver_of_lt hc fd reactor messageCallback
    have hstack : ((s.handOver fd reactor messageCallback).loops (s.reactorOf c)).stack =
        (s.loops (s.reactorOf c)).stack := by
      by_cases hj : s.reactorOf c = reactor
      · simp [Server.handOver, hj]
      · simp [Server.handOver, Function.update_of_ne hj]
    have hc' : c < (s.handOver fd reactor messageCallback).accepted := Nat.lt_succ_of_lt hc
    simp only [due, hc, hc', if_true, hconn, hreactor, hstack]
  · by_cases hlast : c = s.accepted
    · subst hlast
      simp [due, (handOver_last s fd reactor messageCallback).1, Connection.create,
        Connection.setMessageCallback]
    · have hc' : ¬ c < (s.handOver fd reactor messageCallback).accepted := by
        intro hlt
        exact hc (Nat.lt_of_le_of_ne (Nat.le_of_lt_succ hlt) hlast)
      simp only [due, hc, hc', if_false]

/-- The set-up task tells that the connection is there. -/
theorem announced_runTask {s : Server} (hshape : Shape s) (h : Announced s) {j : Nat}
    {c : ConnId} {rest : List ConnId} (htasks : (s.loops j).tasks = c :: rest)
    (hstack : (s.loops j).stack = []) (succeeds : Bool) :
    Announced (s.setUp j c rest succeeds) := by
  obtain ⟨howned, hstate, _⟩ := connecting_of_tasks hshape htasks
  have hsetUp : s.setUp j c rest succeeds =
      ((s.setConn c _).setLoop j _).notify (.connection c true) := rfl
  have hnotices : (s.setUp j c rest succeeds).notices = s.notices ++ [.connection c true] := rfl
  apply announced_of_due h hnotices
  intro d
  rw [connectionCallbacks_connection]
  by_cases hd : d = c
  · subst hd
    simp [due, howned.1, hstate, Server.setUp, Connection.establishConnection]
  · rw [if_neg (Ne.symm hd), List.append_nil]
    apply due_congr
    · rfl
    · simp [Server.setUp, Function.update_of_ne hd]
    · rw [hsetUp]
      exact closed_setLoop (by simp [hstack]) _

theorem announced_callback {s : Server} (hshape : Shape s) (h : Announced s) {j : Nat}
    {c : ConnId} {cb : Callback} {todo : List Callback} {stack : List Frame}
    (hstack : (s.loops j).stack = .event c (cb :: todo) :: stack) (read : ReadResult)
    (write : WriteResult) :
    Announced (s.react j c (.event c todo :: stack)
      (Server.callback (s.conn c) read write cb)) := by
  have hclosed : ∀ d, .closed d ∈ (.event c todo :: stack : List Frame) ↔
      .closed d ∈ (s.loops j).stack := by
    intro d
    simp [hstack]
  rcases react_cases s j c (.event c todo :: stack) read write cb with
    ⟨conn, hmoves, heq⟩ | ⟨conn, hmoves, heq⟩ | ⟨_, heq⟩
  · rw [heq]
    exact announced_of_same h rfl (fun d => due_setBoth hmoves.state (hclosed d))
  · rw [heq]
    have hdue : ∀ d,
        due ((s.setConn c conn).setStack j (.message c :: .event c todo :: stack)) d = due s d :=
      fun d => due_setBoth hmoves.state (by simpa using hclosed d)
    apply @announced_of_due _ _ [.message c] h rfl
    intro d
    rw [connectionCallbacks_message, List.append_nil]
    exact hdue d
  · rw [heq]
    exact announced_closeConnection hshape h (owned_of_stack hshape hstack).1 hclosed

/-- The return of the close's callback moves the state, and what was due stays so. -/
theorem due_userReturns {s : Server} (hshape : Shape s) {j : Nat} {f : Frame}
    {stack : List Frame} (hstack : (s.loops j).stack = f :: stack) (d : ConnId) :
    due (s.userReturns j stack f) d = due s d := by
  cases f with
  | event c todo => exact due_setLoop (by simp [hstack])
  | removing c => exact due_setLoop (by simp [hstack])
  | established c => exact due_setLoop (by simp [hstack])
  | message c =>
    have hstate : (s.conn c).messageReturns.state = (s.conn c).state := rfl
    exact due_setBoth hstate (by simp [hstack])
  | closed c =>
    by_cases hd : d = c
    · subst hd
      have howned : Owned s j d := (owned_of_stack hshape hstack).1
      have hstate := (disconnecting_of_stack (c := d) hshape hstack (by simp)).1
      have hmem : .closed d ∈ (s.loops j).stack := by simp [hstack]
      simp [due, howned.1, howned.2, hstate, hmem, Server.userReturns, Connection.endClose]
    · apply due_congr
      · rfl
      · simp [Server.userReturns, conn_setConn_of_ne hd]
      · exact closed_setLoop (by simp [hstack, hd]) _

/-- `removeConnection` comes back to the close, which tells that the connection is gone. -/
theorem announced_remove {s : Server} (hshape : Shape s) (h : Announced s) {j : Nat}
    {c : ConnId} {stack : List Frame} (hstack : (s.loops j).stack = .removing c :: stack) :
    Announced (s.removeConnection j c stack) := by
  have howned : Owned s j c := (owned_of_stack hshape hstack).1
  obtain ⟨hstate, hrest⟩ := disconnecting_of_stack (c := c) hshape hstack (by simp)
  have hnot : .closed c ∉ stack := not_mem_of_closings (by simp) hrest
  have hnotices : (s.removeConnection j c stack).notices =
      s.notices ++ [.connection c false] := by
    simp [Server.removeConnection, Server.notify, Server.setStack, Server.setLoop,
      Server.eraseConnection, Connection.isConnected, hstate]
  apply announced_of_due h hnotices
  intro d
  rw [connectionCallbacks_connection]
  by_cases hd : d = c
  · subst hd
    simp [due, howned.1, howned.2, hstate, hstack, hnot, Server.removeConnection]
  · rw [if_neg (Ne.symm hd), List.append_nil]
    apply due_congr
    · rfl
    · rfl
    · exact closed_setLoop (by simp [hstack, hd]) _

theorem announced_step {s s' : Server} {a : Action} (hshape : Shape s) (h : Announced s)
    (houtcome : Outcome s a s') : Announced s' := by
  cases houtcome with
  | accept fd reactor messageCallback =>
    exact announced_of_same h rfl (due_handOver s fd reactor messageCallback)
  | register => exact h
  | runTask j succeeds c rest htasks hstack =>
    exact announced_runTask hshape h htasks hstack succeeds
  | poll =>
    apply announced_of_same h
    · rfl
    · intro d
      apply due_setLoop
      exact Iff.rfl
  | dispatch j c revents rest _ hstack =>
    exact announced_of_same h rfl (fun d => due_setLoop (by simp [hstack]))
  | callback j read write c cb todo stack hstack =>
    exact announced_callback hshape h hstack read write
  | eventDone j c stack hstack =>
    exact announced_of_same h rfl (fun d => due_setLoop (by simp [hstack]))
  | userClose j c hmay => exact announced_closeConnection hshape h hmay.2 (fun _ => Iff.rfl)
  | userSend j c data write =>
    apply announced_of_same h
    · rfl
    · intro d
      apply due_congr
      · rfl
      · exact state_setConn (send_state _ data write) d
      · exact Iff.rfl
  | userReturns j f stack hstack =>
    have hnotices : (s.userReturns j stack f).notices = s.notices := by
      cases f <;> rfl
    exact announced_of_same h hnotices (due_userReturns hshape hstack)
  | remove j c stack hstack => exact announced_remove hshape h hstack

theorem announced_start : Announced start := by
  intro c
  simp [start, due, connectionCallbacks]

/-- The sub-reactor may still dispatch events to the connection: it is in its handler,
active, or in the interest set. -/
def Serves (l : Loop) (c : ConnId) : Prop :=
  (∃ todo, .event c todo ∈ l.stack) ∨ (∃ revents, (c, revents) ∈ l.active) ∨
    ∃ fd mask, l.poller.interest fd = some (c, mask)

/-- Only connections that have been set up are served. -/
def ServesSetUp (s : Server) : Prop :=
  ∀ j c, Serves (s.loops j) c → (s.conn c).state ≠ .kConnecting

theorem owned_of_serves {s : Server} (h : Shape s) {j : Nat} {c : ConnId}
    (hserves : Serves (s.loops j) c) : Owned s j c := by
  rcases hserves with ⟨todo, hmem⟩ | ⟨revents, hmem⟩ | ⟨fd, mask, hinterest⟩
  · exact (h.loops j).frames _ hmem
  · exact (h.loops j).active _ hmem
  · exact ((h.loops j).interest fd c mask hinterest).1

theorem serves_update {s : Server} {j : Nat} {l : Loop} {c : ConnId}
    (h : Serves l c → Serves (s.loops j) c) {i : Nat}
    (hserves : Serves (Function.update s.loops j l i) c) : Serves (s.loops i) c := by
  by_cases hi : i = j
  · subst hi
    rw [Function.update_self] at hserves
    exact h hserves
  · rw [Function.update_of_ne hi] at hserves
    exact hserves

/-- The calls of a thread change, and its handlers are those of before. -/
theorem serves_setStack {s : Server} {j : Nat} {stack : List Frame} {c : ConnId}
    (h : ∀ todo, .event c todo ∈ stack → ∃ todo', .event c todo' ∈ (s.loops j).stack) {i : Nat}
    (hserves : Serves ((s.setStack j stack).loops i) c) : Serves (s.loops i) c := by
  refine serves_update ?_ hserves
  rintro (⟨todo, hmem⟩ | hrest)
  · exact .inl (h todo hmem)
  · exact .inr hrest

theorem serves_closeConnection {s : Server} {j : Nat} {c d : ConnId} {stack : List Frame}
    (h : ∀ todo, .event d todo ∈ stack → ∃ todo', .event d todo' ∈ (s.loops j).stack) {i : Nat}
    (hserves : Serves ((s.closeConnection j c stack).loops i) d) : Serves (s.loops i) d := by
  rcases closeConnection_cases s j c stack with ⟨_, heq⟩ | ⟨_, heq⟩
  · rw [heq] at hserves
    have hpush : ∀ todo, .event d todo ∈ .removing c :: stack →
        ∃ todo', .event d todo' ∈ (s.loops j).stack := by
      intro todo hmem
      exact h todo (by simpa using hmem)
    exact serves_setStack hpush hserves
  · rw [heq] at hserves
    exact serves_setStack h hserves

/-- The set-up task lets its sub-reactor serve the new connection only. -/
theorem serves_runTask {s : Server} {j : Nat} {c d : ConnId} {rest : List ConnId}
    {succeeds : Bool} (hd : d ≠ c) {i : Nat}
    (hserves : Serves ((s.setUp j c rest succeeds).loops i) d) : Serves (s.loops i) d := by
  refine serves_update (l := setUpLoop s j c rest succeeds) ?_ hserves
  rintro (⟨todo, hmem⟩ | hactive | ⟨fd, mask, hinterest⟩)
  · simp [setUpLoop] at hmem
  · exact .inr (.inl hactive)
  · refine .inr (.inr ⟨fd, mask, ?_⟩)
    simp only [setUpLoop, enableReading_create] at hinterest
    split at hinterest
    · by_cases hfd : fd = (s.conn c).sockfd
      · rw [hfd, Function.update_self] at hinterest
        cases hinterest
        exact absurd rfl hd
      · rw [Function.update_of_ne hfd] at hinterest
        exact hinterest
    · exact hinterest

/-- A poll makes active what is in the interest set. -/
theorem serves_poll {s : Server} {j : Nat} {active : List (ConnId × EventMask)}
    (hregistered : ∀ e ∈ active, s.Registered j e.1) {c : ConnId} {i : Nat}
    (hserves : Serves ((s.setLoop j { s.loops j with active := active }).loops i) c) :
    Serves (s.loops i) c := by
  refine serves_update ?_ hserves
  rintro (hevent | ⟨revents, hmem⟩ | hinterest)
  · exact .inl hevent
  · obtain ⟨mask, hinterest⟩ := interest_of_registered (hregistered _ hmem)
    exact .inr (.inr ⟨_, mask, hinterest⟩)
  · exact .inr (.inr hinterest)

/-- A dispatch enters the handler of what is active. -/
theorem serves_dispatch {s : Server} {j : Nat} {c d : ConnId} {revents : EventMask}
    {rest : List (ConnId × EventMask)} (hactive : (s.loops j).active = (d, revents) :: rest)
    {i : Nat}
    (hserves : Serves ((s.setLoop j
      { s.loops j with active := rest, stack := [.event d (handleEvent revents)] }).loops i) c) :
    Serves (s.loops i) c := by
  refine serves_update ?_ hserves
  rintro (⟨todo, hmem⟩ | ⟨revents', hmem⟩ | hinterest)
  · obtain ⟨rfl, _⟩ : c = d ∧ todo = handleEvent revents := by simpa using hmem
    exact .inr (.inl ⟨revents, by simp [hactive]⟩)
  · exact .inr (.inl ⟨revents', by simp [hactive, show (c, revents') ∈ rest from hmem]⟩)
  · exact .inr (.inr hinterest)

theorem serves_callback {s : Server} {j : Nat} {c d : ConnId} {cb : Callback}
    {todo : List Callback} {stack : List Frame}
    (hstack : (s.loops j).stack = .event d (cb :: todo) :: stack) {read : ReadResult}
    {write : WriteResult} {i : Nat}
    (hserves : Serves ((s.react j d (.event d todo :: stack)
      (Server.callback (s.conn d) read write cb)).loops i) c) : Serves (s.loops i) c := by
  have hsub : ∀ todo', .event c todo' ∈ .event d todo :: stack →
      ∃ todo', .event c todo' ∈ (s.loops j).stack := by
    intro todo' hmem
    rw [hstack]
    rcases List.mem_cons.mp hmem with heq | hmem
    · cases heq
      exact ⟨cb :: todo, List.mem_cons_self⟩
    · exact ⟨todo', List.mem_cons_of_mem _ hmem⟩
  rcases react_cases s j d (.event d todo :: stack) read write cb with
    ⟨conn, _, heq⟩ | ⟨conn, _, heq⟩ | ⟨_, heq⟩
  · rw [heq] at hserves
    exact @serves_setStack (s.setConn d conn) _ _ _ hsub _ hserves
  · rw [heq] at hserves
    have hpush : ∀ todo', .event c todo' ∈ .message d :: .event d todo :: stack →
        ∃ todo', .event c todo' ∈ (s.loops j).stack := by
      intro todo' hmem
      exact hsub todo' (by simpa using hmem)
    exact @serves_setStack (s.setConn d conn) _ _ _ hpush _ hserves
  · rw [heq] at hserves
    exact serves_closeConnection hsub hserves

/-- What a step lets a sub-reactor serve, it has served before or has just set up. -/
theorem serves_step {s s' : Server} {a : Action} (h : Outcome s a s') {i : Nat} {c : ConnId}
    (hserves : Serves (s'.loops i) c) :
    Serves (s.loops i) c ∨ (s'.conn c).state = .kConnected := by
  cases h with
  | accept fd reactor =>
    have hkept : Serves { s.loops reactor with
        tasks := (s.loops reactor).tasks ++ [s.accepted] } c → Serves (s.loops reactor) c := id
    exact .inl (serves_update hkept hserves)
  | register => exact .inl hserves
  | runTask j succeeds d rest =>
    by_cases hd : c = d
    · subst hd
      right
      simp [Server.setUp, Connection.establishConnection]
    · exact .inl (serves_runTask hd hserves)
  | poll j active _ hregistered => exact .inl (serves_poll hregistered hserves)
  | dispatch j d revents rest hactive => exact .inl (serves_dispatch hactive hserves)
  | callback j read write d cb todo stack hstack => exact .inl (serves_callback hstack hserves)
  | eventDone j d stack hstack =>
    left
    refine serves_setStack ?_ hserves
    intro todo hmem
    exact ⟨todo, by simp [hstack, hmem]⟩
  | userClose j d =>
    left
    refine serves_closeConnection ?_ hserves
    intro todo hmem
    exact ⟨todo, hmem⟩
  | userSend => exact .inl hserves
  | userReturns j f stack hstack =>
    left
    have hsub : ∀ todo, .event c todo ∈ stack → ∃ todo', .event c todo' ∈ (s.loops j).stack := by
      intro todo hmem
      exact ⟨todo, by simp [hstack, hmem]⟩
    cases f <;> exact serves_setStack hsub hserves
  | remove j d stack hstack =>
    left
    have hsub : ∀ todo, .event c todo ∈ .closed d :: stack →
        ∃ todo', .event c todo' ∈ (s.loops j).stack := by
      intro todo hmem
      exact ⟨todo, by simpa [hstack] using hmem⟩
    exact serves_setStack hsub hserves

theorem movesOn_step {s s' : Server} {a : Action} (hshape : Shape s) (h : Outcome s a s') :
    MovesOn s s' := by
  refine ⟨accepted_le h, ?_, ?_⟩
  · intro c hc
    rcases state_step hshape h hc with
      hsame | ⟨hbefore, hafter⟩ | ⟨_, hbefore, hafter⟩ | ⟨hbefore, hafter⟩
    · exact .inl hsame
    · exact .inr (by rw [hbefore, hafter]; rfl)
    · exact .inr (by rw [hbefore, hafter]; rfl)
    · exact .inr (by rw [hbefore, hafter]; rfl)
  · intro c hc hnew
    exact connecting_of_new h hc (Nat.not_lt_of_le hnew)

theorem servesSetUp_start : ServesSetUp start := by
  intro j c hserves
  simp [Serves, start, Loop.empty, Poller.empty] at hserves

theorem servesSetUp_step {s s' : Server} {a : Action} (hshape : Shape s) (h : ServesSetUp s)
    (houtcome : Outcome s a s') : ServesSetUp s' := by
  intro j c hserves
  rcases serves_step houtcome hserves with hbefore | hup
  · have hstate := h j c hbefore
    rcases (movesOn_step hshape houtcome).moves c (owned_of_serves hshape hbefore).1 with
      hsame | hnext
    · rw [hsame]
      exact hstate
    · intro hconnecting
      rw [hconnecting] at hnext
      cases hs : (s.conn c).state <;> simp [hs, nextState] at hnext
  · simp [hup]

theorem connectedFirst_append {notices added : List Notice} (h : ConnectedFirst notices)
    (hadded : ∀ c, .message c ∈ added → .connection c true ∈ notices) :
    ConnectedFirst (notices ++ added) := by
  intro c earlier later heq
  rcases List.append_eq_append_iff.mp heq with ⟨mid, rfl, hmid⟩ | ⟨mid, hmid, hlater⟩
  · have hmem : .message c ∈ added := by
      rw [hmid]
      exact List.mem_append_right _ List.mem_cons_self
    exact List.mem_append_left _ (hadded c hmem)
  · cases mid with
    | nil =>
      rw [List.append_nil] at hmid
      rw [← hmid]
      have hmem : .message c ∈ added := by
        rw [← List.nil_append added, ← hlater]
        exact List.mem_cons_self
      exact hadded c hmem
    | cons n mid =>
      cases hlater
      exact h c earlier mid hmid

theorem mem_connectionCallbacks {notices : List Notice} {c : ConnId} {connected : Bool} :
    connected ∈ connectionCallbacks notices c ↔ .connection c connected ∈ notices := by
  induction notices with
  | nil => simp [connectionCallbacks]
  | cons n notices ih =>
    rw [← List.singleton_append, connectionCallbacks_append, List.mem_append, List.mem_append, ih]
    cases n with
    | connection d value =>
      by_cases hd : d = c
      · simp [hd]
      · simp [hd, Ne.symm hd]
    | message d => simp
    | close d => simp

/-- The connection whose bytes a step reads has been set up, and its user told so. -/
theorem told_of_reads {s : Server} {a : Action} {c : ConnId} (hshape : Shape s)
    (h : Announced s) (hserves : ServesSetUp s) (hreads : reads s a = some c) :
    .connection c true ∈ s.notices := by
  have hserved : ∃ j, Serves (s.loops j) c := by
    unfold reads at hreads
    split at hreads
    · rename_i j bytes write
      split at hreads
      · rename_i d todo stack hstack
        split at hreads
        · cases hreads
          exact ⟨j, .inl ⟨_, by rw [hstack]; exact List.mem_cons_self⟩⟩
        · cases hreads
      · cases hreads
    · cases hreads
  obtain ⟨j, hserved⟩ := hserved
  have hstate := hserves j c hserved
  have hc := (owned_of_serves hshape hserved).1
  rw [← mem_connectionCallbacks, h c]
  unfold due
  rw [if_pos hc]
  cases hs : (s.conn c).state with
  | kConnecting => exact absurd hs hstate
  | kConnected => simp
  | kDisconnecting =>
    dsimp only
    split <;> simp
  | kDisconnected => simp

theorem connectedFirst_step {s s' : Server} {a : Action} (hshape : Shape s) (h : Announced s)
    (hserves : ServesSetUp s) (hfirst : ConnectedFirst s.notices) (houtcome : Outcome s a s') :
    ConnectedFirst s'.notices := by
  cases says_step houtcome with
  | quiet added hadded hnotices =>
    rw [hnotices]
    apply connectedFirst_append hfirst
    intro c hmem
    obtain ⟨d, connected, hn⟩ := hadded _ hmem
    cases hn
  | closes c _ hnotices =>
    rw [hnotices]
    exact connectedFirst_append hfirst (by simp)
  | passes c hreads hnotices =>
    rw [hnotices]
    apply connectedFirst_append hfirst
    intro d hmem
    obtain rfl : d = c := by simpa using hmem
    exact told_of_reads hshape h hserves hreads

theorem due_prefix (s : Server) (c : ConnId) : due s c <+: [true, false] := by
  unfold due
  split
  · cases (s.conn c).state with
    | kConnecting => exact List.nil_prefix
    | kConnected => exact ⟨[false], rfl⟩
    | kDisconnecting =>
      dsimp only
      split
      · exact List.prefix_rfl
      · exact ⟨[false], rfl⟩
    | kDisconnected => exact List.prefix_rfl
  · exact List.nil_prefix

/-- At rest a connection has been told to be connected once more than not to be, exactly
when it is in `kConnected`. -/
theorem due_idle {s : Server} (hshape : Shape s) (hidle : Idle s) {c : ConnId}
    (hc : c < s.accepted) :
    (due s c).count true =
      (due s c).count false + if (s.conn c).state = .kConnected then 1 else 0 := by
  have hclosing := (hshape.conns c hc).closing
  rw [hidle] at hclosing
  unfold due
  rw [if_pos hc]
  cases hs : (s.conn c).state with
  | kConnecting => rfl
  | kConnected => rfl
  | kDisconnecting => simp [hs] at hclosing
  | kDisconnected => rfl

/-- The notifications are those of the accepted connections. -/
theorem notifications_eq_sum {notices : List Notice} {n : Nat}
    (h : ∀ c, n ≤ c → connectionCallbacks notices c = []) (connected : Bool) :
    notifications notices connected =
      ∑ c ∈ Finset.range n, (connectionCallbacks notices c).count connected := by
  induction notices using List.reverseRecOn with
  | nil => simp [notifications, connectionCallbacks]
  | append_singleton notices notice ih =>
    simp only [connectionCallbacks_append, List.append_eq_nil_iff] at h
    have hbefore := ih (fun c hc => (h c hc).1)
    simp only [connectionCallbacks_append, List.count_append, Finset.sum_add_distrib, ← hbefore]
    cases notice with
    | connection d value =>
      have hd : d < n := by
        by_contra hle
        have hnone := (h d (Nat.le_of_not_lt hle)).2
        simp at hnone
      by_cases hvalue : value = connected
      · simp [notifications, hvalue, apply_ite (List.count connected), hd]
      · simp [notifications, hvalue, apply_ite (List.count connected)]
    | message d => simp [notifications]
    | close d => simp [notifications]

theorem balance_idle {s : Server} (hshape : Shape s) (h : Announced s) (hidle : Idle s) :
    notifications s.notices true =
      notifications s.notices false + (connectedConnections s).card := by
  have hnone : ∀ c, s.accepted ≤ c → connectionCallbacks s.notices c = [] := by
    intro c hc
    rw [h c]
    exact if_neg (Nat.not_lt_of_le hc)
  rw [notifications_eq_sum hnone, notifications_eq_sum hnone, connectedConnections,
    Finset.card_filter, ← Finset.sum_add_distrib]
  apply Finset.sum_congr rfl
  intro c hc
  rw [h c]
  exact due_idle hshape hidle (Finset.mem_range.mp hc)

/-- What holds of a server throughout its runs. -/
structure Living (s : Server) : Prop where
  shape : Shape s
  announced : Announced s
  serves : ServesSetUp s
  first : ConnectedFirst s.notices

theorem living_start : Living start := by
  refine ⟨shape_start, announced_start, servesSetUp_start, ?_⟩
  intro c earlier later heq
  simp [start] at heq

theorem living_step (s : Server) (a : Action) (s' : Server) (h : Living s)
    (hstep : step s a = some s') : Living s' := by
  have houtcome := outcome_of_step hstep
  exact ⟨shape_step s a s' h.shape hstep, announced_step h.shape h.announced houtcome,
    servesSetUp_step h.shape h.serves houtcome,
    connectedFirst_step h.shape h.announced h.serves h.first houtcome⟩

theorem notifies_of_living {s : Server} (h : Living s) : Notifies s := by
  refine ⟨?_, h.first, ?_⟩
  · intro c
    rw [h.announced c]
    exact due_prefix s c
  · intro hidle
    have hbalance := balance_idle h.shape h.announced hidle
    omega

/-- In every run each connection goes through its states in their order, and in every state
of the run the user has been told of its life accordingly. -/
theorem told_once (acts : List Action) :
    Runs.Along step (fun s a => ∀ s', step s a = some s' → MovesOn s s') start acts ∧
      Runs.Throughout step Notifies start acts := by
  constructor
  · refine Runs.along_invariant Living living_step ?_ living_start acts
    intro s a h s' hstep
    exact movesOn_step h.shape (outcome_of_step hstep)
  · exact Runs.throughout_mono (fun s h => notifies_of_living h)
      (Runs.throughout_invariant Living living_step living_start acts)

/-- The connection callback of a close closes once more, which tells nothing. -/
example : (Runs.exec step start [.accept 7 0 true, .register, .runTask 0 true, .userReturns 0,
    .poll 0 [(0, epollIn)], .dispatch 0, .callback 0 .closed ⟨none, .wouldBlock⟩, .remove 0,
    .userClose 0 0, .userReturns 0, .eventDone 0]).map (fun s => connectionCallbacks s.notices 0) =
    some [true, false] := by decide

end ConnectionLife
