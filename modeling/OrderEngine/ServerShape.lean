import OrderEngine.TcpServer

/-!
# The shape of a reachable server

What holds of every reachable state and carries the results about connections:
each call and each task of a sub-reactor belongs to a connection of it, a
connection waits in the task queue exactly until it is set up, its closing is on
the stack exactly while it is in `kDisconnecting`, and no socket's fd is ever
given to another one, because every accepted connection stays referenced.
-/
namespace ServerShape

open EpollPoller TcpConnection TcpServer

/-- The connection was accepted and handed to the sub-reactor. -/
def Owned (s : Server) (j : Nat) (c : ConnId) : Prop := c < s.accepted ∧ s.reactorOf c = j

structure LoopOk (s : Server) (j : Nat) (l : Loop) : Prop where
  frames : ∀ f ∈ l.stack, Owned s j f.conn
  queued : ∀ c ∈ l.tasks, Owned s j c
  active : ∀ e ∈ l.active, Owned s j e.1
  interest : ∀ fd c mask, l.poller.interest fd = some (c, mask) →
    Owned s j c ∧ (s.conn c).sockfd = fd

/-- How often the connection's `closeConnection` is on the stack. -/
def closings (c : ConnId) (stack : List Frame) : Nat := stack.countP (Frame.closes c)

structure ConnOk (conn : Connection) (l : Loop) (c : ConnId) : Prop where
  waiting : l.tasks.count c = if conn.state = .kConnecting then 1 else 0
  closing : closings c l.stack = if conn.state = .kDisconnecting then 1 else 0
  channel : conn.state ≠ .kConnecting → conn.channel.isSome = true

structure Shape (s : Server) : Prop where
  loops : ∀ j, LoopOk s j (s.loops j)
  conns : ∀ c < s.accepted, ConnOk (s.conn c) (s.loops (s.reactorOf c)) c
  fds : ∀ c < s.accepted, ∀ d < s.accepted, (s.conn c).sockfd = (s.conn d).sockfd → c = d
  accepting : ∀ c, s.accepting = some c → c < s.accepted

@[simp] theorem closings_nil (c : ConnId) : closings c [] = 0 := rfl

@[simp] theorem closings_cons (c : ConnId) (f : Frame) (stack : List Frame) :
    closings c (f :: stack) = closings c stack + if f.closes c then 1 else 0 := by
  simp [closings, List.countP_cons]

@[simp] theorem closes_event (c d : ConnId) (todo : List Callback) :
    (Frame.event d todo).closes c = false := by simp [Frame.closes]

@[simp] theorem closes_established (c d : ConnId) : (Frame.established d).closes c = false := by
  simp [Frame.closes]

@[simp] theorem closes_message (c d : ConnId) : (Frame.message d).closes c = false := by
  simp [Frame.closes]

@[simp] theorem closes_removing (c d : ConnId) : (Frame.removing d).closes c = decide (d = c) := by
  simp [Frame.closes]

@[simp] theorem closes_closed (c d : ConnId) : (Frame.closed d).closes c = decide (d = c) := by
  simp [Frame.closes]

theorem conn_of_closes {c : ConnId} {f : Frame} (h : f.closes c = true) : f.conn = c := by
  simp only [Frame.closes, decide_eq_true_eq] at h
  rcases h with rfl | rfl <;> rfl

theorem not_mem_of_closings {c : ConnId} {f : Frame} {stack : List Frame}
    (hcloses : f.closes c = true) (h : closings c stack = 0) : f ∉ stack := by
  intro hmem
  rw [closings, List.countP_eq_zero] at h
  exact h f hmem hcloses

theorem shape_start : Shape start := by
  refine ⟨?_, ?_, ?_, ?_⟩
  · intro j
    refine ⟨?_, ?_, ?_, ?_⟩ <;> simp [start, Loop.empty, Poller.empty]
  · simp [start]
  · simp [start]
  · simp [start]

/-- An accepted connection is referenced: by its queued task until it is set up, and
from then on by the callbacks of the channel that it owns itself. -/
theorem strongRefs_pos {s : Server} (h : Shape s) {c : ConnId} (hc : c < s.accepted) :
    0 < s.strongRefs c := by
  have hconn := h.conns c hc
  unfold Server.strongRefs
  by_cases hstate : (s.conn c).state = .kConnecting
  · have hwaiting := hconn.waiting
    simp only [hstate, if_true] at hwaiting
    omega
  · have hchannel := hconn.channel hstate
    simp only [hchannel, if_true]
    omega

theorem loopOk_of_eq {s s' : Server} {j : Nat} {l : Loop} (h : LoopOk s j l)
    (haccepted : s'.accepted = s.accepted) (hreactor : s'.reactorOf = s.reactorOf)
    (hfd : ∀ d, (s'.conn d).sockfd = (s.conn d).sockfd) : LoopOk s' j l := by
  have howned : ∀ c, Owned s j c → Owned s' j c := by
    intro c hc
    unfold Owned
    rw [haccepted, hreactor]
    exact hc
  refine ⟨fun f hf => howned _ (h.frames f hf), fun c hc => howned _ (h.queued c hc),
    fun e he => howned _ (h.active e he), ?_⟩
  intro fd c mask hinterest
  obtain ⟨hc, hsock⟩ := h.interest fd c mask hinterest
  exact ⟨howned c hc, (hfd c).trans hsock⟩

/-- A step of one sub-reactor's thread, on its loop and its connections. -/
theorem shape_move {s s' : Server} {j : Nat} {l : Loop} (h : Shape s)
    (haccepted : s'.accepted = s.accepted) (hreactor : s'.reactorOf = s.reactorOf)
    (haccepting : s'.accepting = s.accepting) (hloops : s'.loops = Function.update s.loops j l)
    (hfd : ∀ d, (s'.conn d).sockfd = (s.conn d).sockfd)
    (hother : ∀ d, s.reactorOf d ≠ j → s'.conn d = s.conn d) (hl : LoopOk s j l)
    (hconn : ∀ d, Owned s j d → ConnOk (s'.conn d) l d) : Shape s' := by
  refine ⟨?_, ?_, ?_, ?_⟩
  · intro i
    rw [hloops]
    by_cases hi : i = j
    · rw [hi, Function.update_self]
      exact loopOk_of_eq hl haccepted hreactor hfd
    · rw [Function.update_of_ne hi]
      exact loopOk_of_eq (h.loops i) haccepted hreactor hfd
  · intro d hd
    rw [haccepted] at hd
    rw [hreactor, hloops]
    by_cases hi : s.reactorOf d = j
    · rw [hi, Function.update_self]
      exact hconn d ⟨hd, hi⟩
    · rw [Function.update_of_ne hi, hother d hi]
      exact h.conns d hd
  · intro c hc d hd hsame
    rw [haccepted] at hc hd
    rw [hfd, hfd] at hsame
    exact h.fds c hc d hd hsame
  · intro c hc
    rw [haccepting] at hc
    rw [haccepted]
    exact h.accepting c hc

/-- A step that changes one connection and the stack of its sub-reactor's thread. -/
theorem shape_stack {s s' : Server} {j : Nat} {c : ConnId} {conn : Connection}
    {stack : List Frame} (h : Shape s) (howned : Owned s j c)
    (haccepted : s'.accepted = s.accepted) (hreactor : s'.reactorOf = s.reactorOf)
    (haccepting : s'.accepting = s.accepting)
    (hloops : s'.loops = Function.update s.loops j { s.loops j with stack := stack })
    (hconn : s'.conn = Function.update s.conn c conn)
    (hfd : conn.sockfd = (s.conn c).sockfd) (hchannel : conn.channel = (s.conn c).channel)
    (hstate : conn.state = .kConnecting ↔ (s.conn c).state = .kConnecting)
    (hframes : ∀ f ∈ stack, Owned s j f.conn)
    (hclosing : closings c stack = if conn.state = .kDisconnecting then 1 else 0)
    (hrest : ∀ d, d ≠ c → closings d stack = closings d (s.loops j).stack) : Shape s' := by
  have hloop := h.loops j
  refine shape_move h haccepted hreactor haccepting hloops ?_ ?_
    ⟨hframes, hloop.queued, hloop.active, hloop.interest⟩ ?_
  · intro d
    rw [hconn]
    by_cases hd : d = c
    · rw [hd, Function.update_self, hfd]
    · rw [Function.update_of_ne hd]
  · intro d hd
    have hne : d ≠ c := by
      rintro rfl
      exact hd howned.2
    rw [hconn, Function.update_of_ne hne]
  · intro d hd
    have hold := h.conns d hd.1
    rw [hd.2] at hold
    rw [hconn]
    by_cases hdc : d = c
    · rw [hdc] at hold ⊢
      rw [Function.update_self]
      refine ⟨?_, hclosing, ?_⟩
      · simp only [hstate]
        exact hold.waiting
      · intro hne
        rw [hchannel]
        exact hold.channel (fun hc => hne (hstate.mpr hc))
    · rw [Function.update_of_ne hdc]
      exact ⟨hold.waiting, by simpa only [hrest d hdc] using hold.closing, hold.channel⟩

theorem owned_of_stack {s : Server} (h : Shape s) {j : Nat} {f : Frame} {stack : List Frame}
    (hstack : (s.loops j).stack = f :: stack) :
    Owned s j f.conn ∧ ∀ g ∈ stack, Owned s j g.conn := by
  have hframes := (h.loops j).frames
  rw [hstack] at hframes
  exact ⟨hframes f (by simp), fun g hg => hframes g (by simp [hg])⟩

/-- What the thread's stack says about the state of a connection. -/
theorem closings_eq {s : Server} (h : Shape s) {j : Nat} {c : ConnId} (howned : Owned s j c) :
    closings c (s.loops j).stack = if (s.conn c).state = .kDisconnecting then 1 else 0 := by
  have hconn := h.conns c howned.1
  rw [howned.2] at hconn
  exact hconn.closing

/-- A connection whose `closeConnection` is on top of the stack is in `kDisconnecting`,
and no call below closes it. -/
theorem disconnecting_of_stack {s : Server} (h : Shape s) {j : Nat} {c : ConnId} {f : Frame}
    {stack : List Frame} (hstack : (s.loops j).stack = f :: stack) (hcloses : f.closes c = true) :
    (s.conn c).state = .kDisconnecting ∧ closings c stack = 0 := by
  have howned : Owned s j c := by
    rw [← conn_of_closes hcloses]
    exact (owned_of_stack h hstack).1
  have hclosing := closings_eq h howned
  rw [hstack, closings_cons, if_pos hcloses] at hclosing
  split at hclosing
  · rename_i hstate
    exact ⟨hstate, by omega⟩
  · omega

/-- A connection with a queued set-up task is in `kConnecting`, and has only that task. -/
theorem connecting_of_tasks {s : Server} (h : Shape s) {j : Nat} {c : ConnId}
    {rest : List ConnId} (htasks : (s.loops j).tasks = c :: rest) :
    Owned s j c ∧ (s.conn c).state = .kConnecting ∧ rest.count c = 0 := by
  have howned : Owned s j c := (h.loops j).queued c (by simp [htasks])
  have hwaiting := (h.conns c howned.1).waiting
  rw [howned.2, htasks, List.count_cons_self] at hwaiting
  split at hwaiting
  · rename_i hstate
    exact ⟨howned, hstate, by omega⟩
  · omega

theorem owned_handOver {s : Server} {j : Nat} {c : ConnId} (h : Owned s j c) (fd reactor : Nat)
    (messageCallback : Bool) : Owned (s.handOver fd reactor messageCallback) j c :=
  ⟨Nat.lt_succ_of_lt h.1, (handOver_of_lt h.1 fd reactor messageCallback).2.trans h.2⟩

theorem loopOk_handOver {s : Server} {j : Nat} {l : Loop} (h : LoopOk s j l) (fd reactor : Nat)
    (messageCallback : Bool) : LoopOk (s.handOver fd reactor messageCallback) j l := by
  refine ⟨fun f hf => owned_handOver (h.frames f hf) _ _ _,
    fun c hc => owned_handOver (h.queued c hc) _ _ _,
    fun e he => owned_handOver (h.active e he) _ _ _, ?_⟩
  intro fd' c mask hinterest
  obtain ⟨hc, hsock⟩ := h.interest fd' c mask hinterest
  refine ⟨owned_handOver hc _ _ _, ?_⟩
  rw [(handOver_of_lt hc.1 fd reactor messageCallback).1, hsock]

/-- The next connection to be accepted is in no queue and on no stack. -/
theorem unseen_of_loopOk {s : Server} {j : Nat} {l : Loop} (h : LoopOk s j l) :
    l.tasks.count s.accepted = 0 ∧ closings s.accepted l.stack = 0 := by
  constructor
  · rw [List.count_eq_zero]
    intro hmem
    exact Nat.lt_irrefl _ (h.queued _ hmem).1
  · rw [closings, List.countP_eq_zero]
    intro f hf hcloses
    have hlt := (h.frames f hf).1
    rw [conn_of_closes hcloses] at hlt
    exact Nat.lt_irrefl _ hlt

/-- The new connection waits in the queue of its sub-reactor, behind the others. -/
theorem connOk_handOver {s : Server} (h : Shape s) (fd reactor : Nat) (messageCallback : Bool)
    {c : ConnId} (hc : c < s.accepted + 1) :
    ConnOk ((s.handOver fd reactor messageCallback).conn c)
      ((s.handOver fd reactor messageCallback).loops
        ((s.handOver fd reactor messageCallback).reactorOf c)) c := by
  by_cases hlast : c = s.accepted
  · obtain ⟨hqueue, hclosing⟩ := unseen_of_loopOk (h.loops reactor)
    obtain ⟨hconn, hreactor⟩ := handOver_last s fd reactor messageCallback
    rw [hlast, hconn, hreactor]
    simp only [Server.handOver, Function.update_self]
    refine ⟨?_, hclosing, ?_⟩
    · simp [Connection.create, Connection.setMessageCallback, List.count_append, hqueue]
    · simp [Connection.create, Connection.setMessageCallback]
  · have hlt : c < s.accepted := Nat.lt_of_le_of_ne (Nat.le_of_lt_succ hc) hlast
    have hold := h.conns c hlt
    obtain ⟨hconn, hreactor⟩ := handOver_of_lt hlt fd reactor messageCallback
    rw [hconn, hreactor]
    simp only [Server.handOver]
    by_cases hj : s.reactorOf c = reactor
    · rw [hj] at hold ⊢
      rw [Function.update_self]
      refine ⟨?_, hold.closing, hold.channel⟩
      simpa [List.count_append, List.count_singleton, Ne.symm hlast] using hold.waiting
    · rw [Function.update_of_ne hj]
      exact hold

/-- The kernel gave the new socket an fd that no accepted connection has. -/
theorem fds_handOver {s : Server} (h : Shape s) {fd : Nat} (hfree : s.FdFree fd) (reactor : Nat)
    (messageCallback : Bool) {c d : ConnId} (hc : c < s.accepted + 1) (hd : d < s.accepted + 1)
    (hsame : ((s.handOver fd reactor messageCallback).conn c).sockfd =
      ((s.handOver fd reactor messageCallback).conn d).sockfd) : c = d := by
  have hself : ((s.handOver fd reactor messageCallback).conn s.accepted).sockfd = fd := by
    rw [(handOver_last s fd reactor messageCallback).1]
    rfl
  have hother : ∀ e < s.accepted, ((s.handOver fd reactor messageCallback).conn e).sockfd ≠ fd := by
    intro e he
    rw [(handOver_of_lt he fd reactor messageCallback).1]
    exact hfree e he (strongRefs_pos h he)
  rcases Nat.lt_succ_iff_lt_or_eq.mp hc with hc | rfl
  · rcases Nat.lt_succ_iff_lt_or_eq.mp hd with hd | rfl
    · rw [(handOver_of_lt hc fd reactor messageCallback).1,
        (handOver_of_lt hd fd reactor messageCallback).1] at hsame
      exact h.fds c hc d hd hsame
    · rw [hself] at hsame
      exact absurd hsame (hother c hc)
  · rcases Nat.lt_succ_iff_lt_or_eq.mp hd with hd | rfl
    · rw [hself] at hsame
      exact absurd hsame.symm (hother d hd)
    · rfl

theorem shape_accept {s : Server} (h : Shape s) {fd : Nat} (hfree : s.FdFree fd) (reactor : Nat)
    (messageCallback : Bool) : Shape (s.handOver fd reactor messageCallback) := by
  refine ⟨?_, fun c hc => connOk_handOver h fd reactor messageCallback hc,
    fun c hc d hd => fds_handOver h hfree reactor messageCallback hc hd, ?_⟩
  · intro j
    have hl := loopOk_handOver (h.loops j) fd reactor messageCallback
    by_cases hj : j = reactor
    · subst hj
      have hnew : Owned (s.handOver fd j messageCallback) j s.accepted :=
        ⟨Nat.lt_succ_self _, (handOver_last s fd j messageCallback).2⟩
      have hqueued : ∀ c ∈ (s.loops j).tasks ++ [s.accepted],
          Owned (s.handOver fd j messageCallback) j c :=
        List.forall_mem_append.mpr ⟨hl.queued, List.forall_mem_singleton.mpr hnew⟩
      simp only [Server.handOver, Function.update_self]
      exact ⟨hl.frames, hqueued, hl.active, hl.interest⟩
    · simp only [Server.handOver, Function.update_of_ne hj]
      exact hl
  · intro c hc
    cases hc
    exact Nat.lt_succ_self _

theorem shape_register {s : Server} (h : Shape s) (fd : Nat) (c : ConnId) :
    Shape { s.insertConnection fd c with accepting := none } := by
  refine ⟨?_, h.conns, h.fds, ?_⟩
  · intro j
    exact loopOk_of_eq (h.loops j) rfl rfl (fun _ => rfl)
  · intro d hd
    cases hd

/-- The loop that the set-up task leaves in the user's connection callback. -/
def setUpLoop (s : Server) (j : Nat) (c : ConnId) (rest : List ConnId) (succeeds : Bool) : Loop :=
  { s.loops j with
    tasks := rest
    stack := [.established c]
    poller :=
      ((s.loops j).poller.enableReading c (Channel.create (s.conn c).sockfd) succeeds).1 }

theorem loopOk_setUp {s : Server} (h : Shape s) {j : Nat} {c : ConnId} {rest : List ConnId}
    (htasks : (s.loops j).tasks = c :: rest) (succeeds : Bool) :
    LoopOk s j (setUpLoop s j c rest succeeds) := by
  have hloop := h.loops j
  obtain ⟨howned, _, _⟩ := connecting_of_tasks h htasks
  refine ⟨List.forall_mem_singleton.mpr howned, ?_, hloop.active, ?_⟩
  · intro d hd
    exact hloop.queued d (by simp [htasks, show d ∈ rest from hd])
  · intro fd d mask hinterest
    simp only [setUpLoop, enableReading_create] at hinterest
    split at hinterest
    · by_cases hfd : fd = (s.conn c).sockfd
      · rw [hfd, Function.update_self] at hinterest
        cases hinterest
        exact ⟨howned, hfd.symm⟩
      · rw [Function.update_of_ne hfd] at hinterest
        exact hloop.interest fd d mask hinterest
    · exact hloop.interest fd d mask hinterest

theorem connOk_setUp {s : Server} (h : Shape s) {j : Nat} {c : ConnId} {rest : List ConnId}
    (htasks : (s.loops j).tasks = c :: rest) (hstack : (s.loops j).stack = []) (succeeds : Bool)
    {d : ConnId} (hd : Owned s j d) :
    ConnOk ((s.setUp j c rest succeeds).conn d) (setUpLoop s j c rest succeeds) d := by
  have hold := h.conns d hd.1
  rw [hd.2] at hold
  by_cases hdc : d = c
  · subst hdc
    obtain ⟨_, _, hrest⟩ := connecting_of_tasks h htasks
    simp only [Server.setUp, Function.update_self]
    refine ⟨?_, ?_, ?_⟩
    · simp [setUpLoop, Connection.establishConnection, hrest]
    · simp [setUpLoop, Connection.establishConnection]
    · simp [Connection.establishConnection, Connection.setChannel]
  · simp only [Server.setUp, Function.update_of_ne hdc]
    have hcount : (s.loops j).tasks.count d = rest.count d := by
      rw [htasks, List.count_cons_of_ne (Ne.symm hdc)]
    refine ⟨hcount.symm.trans hold.waiting, ?_, hold.channel⟩
    have hclosing := hold.closing
    rw [hstack] at hclosing
    simpa [setUpLoop] using hclosing

theorem shape_runTask {s : Server} (h : Shape s) {j : Nat} {c : ConnId} {rest : List ConnId}
    (htasks : (s.loops j).tasks = c :: rest) (hstack : (s.loops j).stack = []) (succeeds : Bool) :
    Shape (s.setUp j c rest succeeds) := by
  obtain ⟨howned, _, _⟩ := connecting_of_tasks h htasks
  refine shape_move h rfl rfl rfl rfl ?_ ?_ (loopOk_setUp h htasks succeeds)
    (fun d hd => connOk_setUp h htasks hstack succeeds hd)
  · intro d
    by_cases hd : d = c
    · subst hd
      simp [Server.setUp, Connection.setChannel, Connection.establishConnection]
    · simp [Server.setUp, Function.update_of_ne hd]
  · intro d hd
    have hne : d ≠ c := by
      rintro rfl
      exact hd howned.2
    simp [Server.setUp, Function.update_of_ne hne]

/-- `closeConnection` on a thread whose stack is otherwise as it was. -/
theorem shape_closeConnection {s : Server} (h : Shape s) {j : Nat} {c : ConnId}
    {stack : List Frame} (howned : Owned s j c) (hframes : ∀ f ∈ stack, Owned s j f.conn)
    (hsame : ∀ d, closings d stack = closings d (s.loops j).stack) :
    Shape (s.closeConnection j c stack) := by
  have hclosing := closings_eq h howned
  rcases closeConnection_cases s j c stack with ⟨hstate, heq⟩ | ⟨hstate, heq⟩
  · rw [heq]
    refine shape_stack h howned rfl rfl rfl rfl rfl rfl rfl ?_ ?_ ?_ ?_
    · simp [hstate]
    · exact List.forall_mem_cons.mpr ⟨howned, hframes⟩
    · rw [hstate] at hclosing
      simp [hsame, hclosing]
    · intro d hd
      simp [hsame, Ne.symm hd]
  · rw [heq]
    have hconn : (s.setStack j stack).conn = Function.update s.conn c (s.conn c) := by
      simp [Server.setStack, Server.setLoop]
    exact shape_stack h howned rfl rfl rfl rfl hconn rfl rfl Iff.rfl hframes
      (by rw [hsame, hclosing]) (fun d _ => hsame d)

/-- A call on the stack is replaced or returns, and the closings stay as they are. -/
theorem shape_restack {s s' : Server} {j : Nat} {c : ConnId} {conn : Connection}
    {stack : List Frame} (h : Shape s) (howned : Owned s j c) (hmoves : MovesBytes (s.conn c) conn)
    (haccepted : s'.accepted = s.accepted) (hreactor : s'.reactorOf = s.reactorOf)
    (haccepting : s'.accepting = s.accepting)
    (hloops : s'.loops = Function.update s.loops j { s.loops j with stack := stack })
    (hconn : s'.conn = Function.update s.conn c conn)
    (hframes : ∀ f ∈ stack, Owned s j f.conn)
    (hsame : ∀ d, closings d stack = closings d (s.loops j).stack) : Shape s' := by
  refine shape_stack h howned haccepted hreactor haccepting hloops hconn hmoves.sockfd
    hmoves.channel (by rw [hmoves.state]) hframes ?_ (fun d _ => hsame d)
  rw [hsame, closings_eq h howned, hmoves.state]

theorem movesBytes_refl (conn : Connection) : MovesBytes conn conn := ⟨rfl, rfl, rfl⟩

theorem shape_callback {s : Server} (h : Shape s) {j : Nat} {c : ConnId} {cb : Callback}
    {todo : List Callback} {stack : List Frame}
    (hstack : (s.loops j).stack = .event c (cb :: todo) :: stack) (read : ReadResult)
    (write : WriteResult) :
    Shape (s.react j c (.event c todo :: stack) (Server.callback (s.conn c) read write cb)) := by
  obtain ⟨howned, htail⟩ := owned_of_stack h hstack
  have hframes : ∀ f ∈ Frame.event c todo :: stack, Owned s j f.conn :=
    List.forall_mem_cons.mpr ⟨howned, htail⟩
  have hsame : ∀ d, closings d (.event c todo :: stack) = closings d (s.loops j).stack := by
    intro d
    simp [hstack]
  rcases react_cases s j c (.event c todo :: stack) read write cb with
    ⟨conn, hmoves, heq⟩ | ⟨conn, hmoves, heq⟩ | ⟨_, heq⟩
  · rw [heq]
    exact shape_restack h howned hmoves rfl rfl rfl rfl rfl hframes hsame
  · rw [heq]
    refine shape_restack h howned hmoves rfl rfl rfl rfl rfl
      (List.forall_mem_cons.mpr ⟨howned, hframes⟩) ?_
    intro d
    rw [closings_cons, hsame]
    simp
  · rw [heq]
    exact shape_closeConnection h howned hframes hsame

theorem shape_userReturns {s : Server} (h : Shape s) {j : Nat} {f : Frame} {stack : List Frame}
    (hstack : (s.loops j).stack = f :: stack) (huser : f.userCode = true) :
    Shape (s.userReturns j stack f) := by
  obtain ⟨howned, htail⟩ := owned_of_stack h hstack
  have hself : ∀ c, s.conn = Function.update s.conn c (s.conn c) := by simp
  cases f with
  | event c todo => cases huser
  | removing c => cases huser
  | established c =>
    exact shape_restack h howned (movesBytes_refl _) rfl rfl rfl rfl (hself c) htail
      (by simp [hstack])
  | message c =>
    have howned : Owned s j c := howned
    have hmoves : MovesBytes (s.conn c) (s.conn c).messageReturns := ⟨rfl, rfl, rfl⟩
    exact shape_restack h howned hmoves rfl rfl rfl rfl rfl htail (by simp [hstack])
  | closed c =>
    have howned : Owned s j c := howned
    obtain ⟨hstate, hrest⟩ := disconnecting_of_stack (c := c) h hstack (by simp)
    refine shape_stack h howned rfl rfl rfl rfl rfl rfl rfl ?_ htail ?_ ?_
    · simp [Connection.endClose, hstate]
    · simpa [Connection.endClose] using hrest
    · intro d hd
      simp [hstack, Ne.symm hd]

theorem shape_remove {s : Server} (h : Shape s) {j : Nat} {c : ConnId} {stack : List Frame}
    (hstack : (s.loops j).stack = .removing c :: stack) :
    Shape (s.removeConnection j c stack) := by
  obtain ⟨howned, htail⟩ := owned_of_stack h hstack
  have hself : s.conn = Function.update s.conn c (s.conn c) := by simp
  exact shape_restack h howned (movesBytes_refl _) rfl rfl rfl rfl hself
    (List.forall_mem_cons.mpr ⟨howned, htail⟩) (by simp [hstack])

theorem shape_dispatch {s : Server} (h : Shape s) {j : Nat} {c : ConnId} {revents : EventMask}
    {rest : List (ConnId × EventMask)} (hactive : (s.loops j).active = (c, revents) :: rest)
    (hstack : (s.loops j).stack = []) :
    Shape (s.setLoop j
      { s.loops j with active := rest, stack := [.event c (handleEvent revents)] }) := by
  have hloop := h.loops j
  have hall := hloop.active
  rw [hactive] at hall
  refine shape_move (j := j) h rfl rfl rfl rfl (fun _ => rfl) (fun _ _ => rfl)
    ⟨?_, hloop.queued, ?_, hloop.interest⟩ ?_
  · intro f hf
    rw [List.mem_singleton.mp hf]
    exact hall (c, revents) (by simp)
  · intro e he
    exact hall e (by simp [he])
  · intro d hd
    have hold := h.conns d hd.1
    rw [hd.2] at hold
    have hclosing := hold.closing
    rw [hstack] at hclosing
    have hevent : closings d [.event c (handleEvent revents)] = closings d [] := by simp
    exact ⟨hold.waiting, hevent.trans hclosing, hold.channel⟩

/-- A registered channel is in the interest set under the fd of its connection. -/
theorem interest_of_registered {s : Server} {j : Nat} {c : ConnId} (h : s.Registered j c) :
    ∃ mask, (s.loops j).poller.interest (s.conn c).sockfd = some (c, mask) := by
  obtain ⟨⟨d, mask⟩, hinterest, hsame⟩ := (Option.any_eq_true _ _).mp h
  obtain rfl : d = c := of_decide_eq_true hsame
  exact ⟨mask, hinterest⟩

theorem shape_poll {s : Server} (h : Shape s) {j : Nat} {active : List (ConnId × EventMask)}
    (hregistered : ∀ e ∈ active, s.Registered j e.1) :
    Shape (s.setLoop j { s.loops j with active := active }) := by
  have hloop := h.loops j
  refine shape_move (j := j) h rfl rfl rfl rfl (fun _ => rfl) (fun _ _ => rfl)
    ⟨hloop.frames, hloop.queued, ?_, hloop.interest⟩ ?_
  · intro e he
    obtain ⟨mask, hinterest⟩ := interest_of_registered (hregistered e he)
    exact (hloop.interest _ e.1 mask hinterest).1
  · intro d hd
    have hold := h.conns d hd.1
    rw [hd.2] at hold
    exact ⟨hold.waiting, hold.closing, hold.channel⟩

/-- Every step keeps the shape. -/
theorem shape_step (s : Server) (a : Action) (s' : Server) (h : Shape s)
    (hstep : step s a = some s') : Shape s' := by
  cases outcome_of_step hstep with
  | accept fd reactor messageCallback _ hfree =>
    exact shape_accept h hfree reactor messageCallback
  | register c => exact shape_register h _ c
  | runTask j succeeds c rest htasks hstack => exact shape_runTask h htasks hstack succeeds
  | poll j active _ hregistered => exact shape_poll h hregistered
  | dispatch j c revents rest hactive hstack => exact shape_dispatch h hactive hstack
  | callback j read write c cb todo stack hstack => exact shape_callback h hstack read write
  | eventDone j c stack hstack =>
    obtain ⟨howned, htail⟩ := owned_of_stack h hstack
    have hself : s.conn = Function.update s.conn c (s.conn c) := by simp
    exact shape_restack h howned (movesBytes_refl _) rfl rfl rfl rfl hself htail
      (by simp [hstack])
  | userClose j c hmay =>
    exact shape_closeConnection h hmay.2 (h.loops j).frames (fun _ => rfl)
  | userSend j c data write hmay =>
    have hself : s.loops = Function.update s.loops j { s.loops j with stack := (s.loops j).stack } := by
      simp
    exact shape_restack h hmay.2 (movesBytes_send _ data write) rfl rfl rfl hself rfl
      (h.loops j).frames (fun _ => rfl)
  | userReturns j f stack hstack huser => exact shape_userReturns h hstack huser
  | remove j c stack hstack => exact shape_remove h hstack

/-- Every state that a started server reaches has the shape. -/
theorem shape_reachable {s : Server} (h : Runs.Reachable (· = start) step s) : Shape s := by
  refine Runs.invariant_reachable Shape ?_ shape_step h
  rintro s₀ rfl
  exact shape_start

end ServerShape
