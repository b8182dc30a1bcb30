import OrderEngine.ServerShape

/-!
# The map of connections

`handleNewConnection` hands the set-up task to a sub-reactor first and inserts the
connection into `connections_` afterwards. As long as no connection is closed and
erased in between, the map holds exactly the connections that have not been closed.
-/
namespace ConnectionRegistry

open EpollPoller TcpConnection TcpServer ServerShape

def live : ConnState → Bool
  | .kConnecting => true
  | .kConnected => true
  | _ => false

/-- The connection has not been taken out of the map: it is not closed, or its
`removeConnection` has still to erase it. -/
def Expected (s : Server) (c : ConnId) : Prop :=
  live (s.conn c).state = true ∨ .removing c ∈ (s.loops (s.reactorOf c)).stack

def entryIds (s : Server) : List ConnId := s.connections.map Prod.snd

/-- The map holds the expected connections, each under the fd of its socket. -/
structure Registry (s : Server) : Prop where
  keys : ∀ e ∈ s.connections, e.2 < s.accepted ∧ e.1 = (s.conn e.2).sockfd
  nodup : (entryIds s).Nodup
  handing : ∀ c, s.accepting = some c → Expected s c ∧ c ∉ entryIds s
  entered : ∀ c < s.accepted, s.accepting ≠ some c → (c ∈ entryIds s ↔ Expected s c)

/-- The step does not erase the connection that `handleNewConnection` has still to insert. -/
def InsertedFirst (s : Server) : Action → Prop
  | .remove j => ∀ c, (s.loops j).stack.head? = some (.removing c) → s.accepting ≠ some c
  | _ => True

/-- No accept is under way, and every sub-reactor waits in its poll. -/
def Quiescent (s : Server) : Prop :=
  s.accepting = none ∧
    ∀ j, (s.loops j).tasks = [] ∧ (s.loops j).active = [] ∧ (s.loops j).stack = []

/-- The accepted connections that are not closed. -/
def openConnections (s : Server) : List ConnId :=
  (List.range s.accepted).filter (fun c => (s.conn c).state ≠ .kDisconnected)

/-- A closed connection whose `handleNewConnection` has returned is not in the map,
and at rest the map counts the connections that are not closed. -/
structure Deregisters (s : Server) : Prop where
  closed : ∀ c < s.accepted, s.accepting ≠ some c → (s.conn c).state = .kDisconnected →
    c ∉ entryIds s
  count : Quiescent s → s.getConnectionCount = (openConnections s).length

/-- The expected connections stay the same when a thread's stack keeps the
connections that it removes. -/
theorem expected_setLoop {s : Server} {j : Nat} {l : Loop}
    (h : ∀ d, .removing d ∈ l.stack ↔ .removing d ∈ (s.loops j).stack) (d : ConnId) :
    Expected (s.setLoop j l) d ↔ Expected s d := by
  unfold Expected Server.setLoop
  by_cases hj : s.reactorOf d = j
  · simp only [hj, Function.update_self, h]
  · simp only [Function.update_of_ne hj]

/-- They stay the same when no connection dies. -/
theorem expected_setConn {s : Server} {c : ConnId} {conn : Connection}
    (h : live conn.state = live (s.conn c).state) (d : ConnId) :
    Expected (s.setConn c conn) d ↔ Expected s d := by
  unfold Expected Server.setConn
  by_cases hd : d = c
  · simp only [hd, Function.update_self, h]
  · simp only [Function.update_of_ne hd]

theorem expected_setBoth {s : Server} {j : Nat} {c : ConnId} {conn : Connection} {l : Loop}
    (hlive : live conn.state = live (s.conn c).state)
    (hremoving : ∀ d, .removing d ∈ l.stack ↔ .removing d ∈ (s.loops j).stack) (d : ConnId) :
    Expected ((s.setConn c conn).setLoop j l) d ↔ Expected s d := by
  refine (expected_setLoop ?_ d).trans (expected_setConn hlive d)
  exact hremoving

/-- Closing a connection leaves it expected: it is taken out of the map later. -/
theorem expected_closeConnection {s : Server} {j : Nat} {c : ConnId} {stack : List Frame}
    (howned : Owned s j c)
    (hremoving : ∀ d, .removing d ∈ stack ↔ .removing d ∈ (s.loops j).stack) (d : ConnId) :
    Expected (s.closeConnection j c stack) d ↔ Expected s d := by
  rcases closeConnection_cases s j c stack with ⟨hstate, heq⟩ | ⟨_, heq⟩
  · rw [heq]
    by_cases hd : d = c
    · subst hd
      have hbefore : Expected s d := .inl (by simp [hstate, live])
      have hafter : .removing d ∈ (Function.update s.loops j
          { s.loops j with stack := .removing d :: stack } (s.reactorOf d)).stack := by
        rw [howned.2, Function.update_self]
        simp
      exact iff_of_true (.inr hafter) hbefore
    · unfold Expected
      simp only [Server.notify, Server.setStack, Server.setLoop, Server.setConn,
        Function.update_of_ne hd]
      by_cases hj : s.reactorOf d = j
      · rw [hj, Function.update_self]
        simp [hd, hremoving]
      · rw [Function.update_of_ne hj]
  · rw [heq]
    exact expected_setLoop hremoving d

theorem expected_callback {s : Server} {j : Nat} {c : ConnId} {cb : Callback}
    {todo : List Callback} {stack : List Frame} (howned : Owned s j c)
    (hstack : (s.loops j).stack = .event c (cb :: todo) :: stack) (read : ReadResult)
    (write : WriteResult) (d : ConnId) :
    Expected (s.react j c (.event c todo :: stack) (Server.callback (s.conn c) read write cb)) d ↔
      Expected s d := by
  have hremoving : ∀ d, .removing d ∈ (.event c todo :: stack : List Frame) ↔
      .removing d ∈ (s.loops j).stack := by
    intro d
    simp [hstack]
  rcases react_cases s j c (.event c todo :: stack) read write cb with
    ⟨conn, hmoves, heq⟩ | ⟨conn, hmoves, heq⟩ | ⟨_, heq⟩
  · rw [heq]
    exact expected_setBoth (by rw [hmoves.state]) hremoving d
  · rw [heq]
    refine expected_setBoth (by rw [hmoves.state]) ?_ d
    intro d
    simpa using hremoving d
  · rw [heq]
    exact expected_closeConnection howned hremoving d

theorem expected_userReturns {s : Server} (h : Shape s) {j : Nat} {f : Frame}
    {stack : List Frame} (hstack : (s.loops j).stack = f :: stack) (huser : f.userCode = true)
    (d : ConnId) : Expected (s.userReturns j stack f) d ↔ Expected s d := by
  obtain ⟨howned, _⟩ := owned_of_stack h hstack
  have hremoving : ∀ d, .removing d ∈ stack ↔ .removing d ∈ (s.loops j).stack := by
    intro d
    cases f <;> simp_all [Frame.userCode]
  cases f with
  | event c todo => cases huser
  | removing c => cases huser
  | established c => exact expected_setLoop hremoving d
  | message c =>
    have hlive : live (s.conn c).messageReturns.state = live (s.conn c).state := rfl
    exact expected_setBoth hlive hremoving d
  | closed c =>
    obtain ⟨hstate, _⟩ := disconnecting_of_stack (c := c) h hstack (by simp)
    have hdead : live (s.conn c).endClose.state = live (s.conn c).state := by
      rw [hstate]
      rfl
    exact expected_setBoth hdead hremoving d

theorem expected_runTask {s : Server} (h : Shape s) {j : Nat} {c : ConnId} {rest : List ConnId}
    (htasks : (s.loops j).tasks = c :: rest) (hstack : (s.loops j).stack = []) (succeeds : Bool)
    (d : ConnId) : Expected (s.setUp j c rest succeeds) d ↔ Expected s d := by
  obtain ⟨_, hstate, _⟩ := connecting_of_tasks h htasks
  have hlive : live ConnState.kConnected = live (s.conn c).state := by
    rw [hstate]
    rfl
  have hsetUp : s.setUp j c rest succeeds =
      ((s.setConn c _).setLoop j _).notify (.connection c true) := rfl
  rw [hsetUp]
  exact expected_setBoth hlive (by simp [hstack]) d

/-- Only `removeConnection` makes a connection unexpected, and only its own. -/
theorem expected_remove {s : Server} (h : Shape s) {j : Nat} {c : ConnId} {stack : List Frame}
    (hstack : (s.loops j).stack = .removing c :: stack) (d : ConnId) :
    Expected (s.removeConnection j c stack) d ↔ Expected s d ∧ d ≠ c := by
  obtain ⟨howned, _⟩ := owned_of_stack h hstack
  have howned : Owned s j c := howned
  obtain ⟨hstate, hrest⟩ := disconnecting_of_stack (c := c) h hstack (by simp)
  have hgone : .removing c ∉ stack := not_mem_of_closings (by simp) hrest
  by_cases hd : d = c
  · subst hd
    have hno : ¬ Expected (s.removeConnection j d stack) d := by
      rintro (hlive | hmem)
      · simp [Server.removeConnection, hstate, live] at hlive
      · simp [Server.removeConnection, howned.2, hgone] at hmem
    simp [hno]
  · unfold Expected
    simp only [Server.removeConnection, Server.notify, Server.setStack, Server.setLoop,
      Server.eraseConnection]
    by_cases hj : s.reactorOf d = j
    · rw [hj, Function.update_self, hstack]
      simp [hd]
    · rw [Function.update_of_ne hj]
      simp [hd]

theorem expected_accept {s : Server} {d : ConnId} (hd : d < s.accepted) (fd reactor : Nat)
    (messageCallback : Bool) :
    Expected (s.handOver fd reactor messageCallback) d ↔ Expected s d := by
  obtain ⟨hconn, hreactor⟩ := handOver_of_lt hd fd reactor messageCallback
  unfold Expected
  rw [hconn, hreactor]
  simp only [Server.handOver]
  by_cases hj : s.reactorOf d = reactor
  · rw [hj, Function.update_self]
  · rw [Function.update_of_ne hj]

/-- Nothing that the map of connections depends on has changed. -/
structure SameMap (s s' : Server) : Prop where
  accepted : s'.accepted = s.accepted
  reactorOf : s'.reactorOf = s.reactorOf
  accepting : s'.accepting = s.accepting
  connections : s'.connections = s.connections
  sockfd : ∀ d, (s'.conn d).sockfd = (s.conn d).sockfd

theorem sockfd_update {s : Server} {c : ConnId} {conn : Connection}
    (h : conn.sockfd = (s.conn c).sockfd) (d : ConnId) :
    (Function.update s.conn c conn d).sockfd = (s.conn d).sockfd := by
  by_cases hd : d = c
  · rw [hd, Function.update_self, h]
  · rw [Function.update_of_ne hd]

theorem sameMap_closeConnection (s : Server) (j : Nat) (c : ConnId) (stack : List Frame) :
    SameMap s (s.closeConnection j c stack) := by
  rcases closeConnection_cases s j c stack with ⟨_, heq⟩ | ⟨_, heq⟩ <;> rw [heq]
  · exact ⟨rfl, rfl, rfl, rfl, sockfd_update rfl⟩
  · exact ⟨rfl, rfl, rfl, rfl, fun _ => rfl⟩

/-- The actions that neither accept a connection nor change the map. -/
def internal : Action → Bool
  | .accept _ _ _ => false
  | .register => false
  | .remove _ => false
  | _ => true

theorem sameMap_internal {s s' : Server} {a : Action} (h : Outcome s a s')
    (ha : internal a = true) : SameMap s s' := by
  cases h with
  | accept => cases ha
  | register => cases ha
  | remove => cases ha
  | runTask j succeeds c => exact ⟨rfl, rfl, rfl, rfl, sockfd_update rfl⟩
  | poll => exact ⟨rfl, rfl, rfl, rfl, fun _ => rfl⟩
  | dispatch => exact ⟨rfl, rfl, rfl, rfl, fun _ => rfl⟩
  | callback j read write c cb todo stack =>
    rcases react_cases s j c (.event c todo :: stack) read write cb with
      ⟨conn, hmoves, heq⟩ | ⟨conn, hmoves, heq⟩ | ⟨_, heq⟩ <;> rw [heq]
    · exact ⟨rfl, rfl, rfl, rfl, sockfd_update hmoves.sockfd⟩
    · exact ⟨rfl, rfl, rfl, rfl, sockfd_update hmoves.sockfd⟩
    · exact sameMap_closeConnection s j c _
  | eventDone => exact ⟨rfl, rfl, rfl, rfl, fun _ => rfl⟩
  | userClose j c => exact sameMap_closeConnection s j c _
  | userSend j c data write =>
    exact ⟨rfl, rfl, rfl, rfl, sockfd_update (send_sockfd _ data write)⟩
  | userReturns j f stack =>
    cases f with
    | message c => exact ⟨rfl, rfl, rfl, rfl, sockfd_update rfl⟩
    | closed c => exact ⟨rfl, rfl, rfl, rfl, sockfd_update rfl⟩
    | _ => exact ⟨rfl, rfl, rfl, rfl, fun _ => rfl⟩

/-- They keep the expected connections. -/
theorem expected_internal {s s' : Server} {a : Action} (hshape : Shape s) (h : Outcome s a s')
    (ha : internal a = true) (d : ConnId) : Expected s' d ↔ Expected s d := by
  cases h with
  | accept => cases ha
  | register => cases ha
  | remove => cases ha
  | runTask j succeeds c rest htasks hstack =>
    exact expected_runTask hshape htasks hstack succeeds d
  | poll =>
    refine expected_setLoop ?_ d
    exact fun _ => Iff.rfl
  | dispatch j c revents rest _ hstack => exact expected_setLoop (by simp [hstack]) d
  | callback j read write c cb todo stack hstack =>
    exact expected_callback (owned_of_stack hshape hstack).1 hstack read write d
  | eventDone j c stack hstack => exact expected_setLoop (by simp [hstack]) d
  | userClose j c hmay => exact expected_closeConnection hmay.2 (fun _ => Iff.rfl) d
  | userSend => exact expected_setConn (by rw [send_state]) d
  | userReturns j f stack hstack huser => exact expected_userReturns hshape hstack huser d

theorem registry_of_sameMap {s s' : Server} (h : Registry s) (hsame : SameMap s s')
    (hexpected : ∀ d, Expected s' d ↔ Expected s d) : Registry s' := by
  have hids : entryIds s' = entryIds s := by rw [entryIds, hsame.connections, entryIds]
  refine ⟨?_, ?_, ?_, ?_⟩
  · rw [hsame.connections, hsame.accepted]
    intro e he
    obtain ⟨hlt, hkey⟩ := h.keys e he
    exact ⟨hlt, by rw [hsame.sockfd, hkey]⟩
  · rw [hids]
    exact h.nodup
  · rw [hsame.accepting, hids]
    intro c hc
    rw [hexpected]
    exact h.handing c hc
  · rw [hsame.accepting, hsame.accepted, hids]
    intro c hc hne
    rw [hexpected]
    exact h.entered c hc hne

theorem registry_start : Registry start := by
  refine ⟨?_, ?_, ?_, ?_⟩ <;> simp [start, entryIds]

theorem registry_accept {s : Server} (h : Registry s) (hidle : s.accepting = none)
    (fd reactor : Nat) (messageCallback : Bool) :
    Registry (s.handOver fd reactor messageCallback) := by
  have hids : ∀ c ∈ entryIds s, c < s.accepted := by
    intro c hc
    obtain ⟨e, he, rfl⟩ := List.mem_map.mp hc
    exact (h.keys e he).1
  refine ⟨?_, h.nodup, ?_, ?_⟩
  · intro e he
    obtain ⟨hlt, hkey⟩ := h.keys e he
    refine ⟨Nat.lt_succ_of_lt hlt, ?_⟩
    rw [hkey, (handOver_of_lt hlt fd reactor messageCallback).1]
  · intro c hc
    cases hc
    refine ⟨.inl ?_, fun hmem => Nat.lt_irrefl _ (hids _ hmem)⟩
    rw [(handOver_last s fd reactor messageCallback).1]
    rfl
  · intro c hc hne
    have hlt : c < s.accepted := by
      apply Nat.lt_of_le_of_ne (Nat.le_of_lt_succ hc)
      rintro rfl
      exact hne rfl
    rw [expected_accept hlt]
    exact h.entered c hlt (by simp [hidle])

/-- The insertion replaces no entry, since no other connection has the fd. -/
theorem connections_insert {s : Server} (hshape : Shape s) (h : Registry s) {c : ConnId}
    (haccepting : s.accepting = some c) :
    (s.insertConnection (s.conn c).sockfd c).connections =
      s.connections ++ [((s.conn c).sockfd, c)] := by
  have hc := hshape.accepting c haccepting
  have hkept : s.connections.filter (fun e => e.1 ≠ (s.conn c).sockfd) = s.connections := by
    rw [List.filter_eq_self]
    intro e he
    obtain ⟨hlt, hkey⟩ := h.keys e he
    rw [decide_eq_true_eq, hkey]
    intro hsame
    have hec := hshape.fds _ hlt _ hc hsame
    exact (h.handing c haccepting).2 (List.mem_map.mpr ⟨e, he, hec⟩)
  rw [Server.insertConnection, hkept]

theorem registry_register {s : Server} (hshape : Shape s) (h : Registry s) {c : ConnId}
    (haccepting : s.accepting = some c) :
    Registry { s.insertConnection (s.conn c).sockfd c with accepting := none } := by
  obtain ⟨hexpected, hnew⟩ := h.handing c haccepting
  have hentries := connections_insert hshape h haccepting
  have hids : entryIds { s.insertConnection (s.conn c).sockfd c with accepting := none } =
      entryIds s ++ [c] := by
    simp [entryIds, hentries]
  refine ⟨?_, ?_, ?_, ?_⟩
  · intro e he
    rw [hentries] at he
    rcases List.mem_append.mp he with hold | hlast
    · exact h.keys e hold
    · rw [List.mem_singleton.mp hlast]
      exact ⟨hshape.accepting c haccepting, rfl⟩
  · rw [hids]
    exact List.nodup_append.mpr ⟨h.nodup, by simp, by
      intro d hd d' hd'
      rw [List.mem_singleton.mp hd']
      rintro rfl
      exact hnew hd⟩
  · intro d hd
    cases hd
  · intro d hd _
    rw [hids]
    have hsame : Expected { s.insertConnection (s.conn c).sockfd c with accepting := none } d ↔
        Expected s d := Iff.rfl
    rw [hsame]
    by_cases hdc : d = c
    · subst hdc
      simp [hexpected]
    · have hne : s.accepting ≠ some d := by
        rw [haccepting]
        simp [Ne.symm hdc]
      rw [← h.entered d hd hne]
      simp [hdc]

/-- The erasure takes out the closing connection alone. -/
theorem registry_remove {s : Server} (hshape : Shape s) (h : Registry s) {j : Nat} {c : ConnId}
    {stack : List Frame} (hstack : (s.loops j).stack = .removing c :: stack)
    (hinserted : s.accepting ≠ some c) : Registry (s.removeConnection j c stack) := by
  obtain ⟨howned, _⟩ := owned_of_stack hshape hstack
  have hc : c < s.accepted := howned.1
  have hmem : ∀ e ∈ s.connections, e.1 ≠ (s.conn c).sockfd ↔ e.2 ≠ c := by
    intro e he
    obtain ⟨hlt, hkey⟩ := h.keys e he
    rw [hkey]
    refine not_congr ⟨fun hsame => hshape.fds _ hlt _ hc hsame, ?_⟩
    intro hsame
    rw [hsame]
  have hids : ∀ d, d ∈ entryIds (s.removeConnection j c stack) ↔ d ∈ entryIds s ∧ d ≠ c := by
    intro d
    have hleft : entryIds (s.removeConnection j c stack) =
        (s.connections.filter (fun e => e.1 ≠ (s.conn c).sockfd)).map Prod.snd := rfl
    rw [hleft]
    simp only [entryIds, List.mem_map, List.mem_filter, decide_eq_true_eq]
    constructor
    · rintro ⟨e, ⟨he, hkey⟩, rfl⟩
      exact ⟨⟨e, he, rfl⟩, (hmem e he).mp hkey⟩
    · rintro ⟨⟨e, he, rfl⟩, hne⟩
      exact ⟨e, ⟨he, (hmem e he).mpr hne⟩, rfl⟩
  refine ⟨?_, ?_, ?_, ?_⟩
  · intro e he
    exact h.keys e (List.mem_of_mem_filter he)
  · exact h.nodup.sublist (List.Sublist.map _ List.filter_sublist)
  · intro d hd
    have hd : s.accepting = some d := hd
    have hne : d ≠ c := by
      rintro rfl
      exact hinserted hd
    obtain ⟨hexpected, hnew⟩ := h.handing d hd
    exact ⟨(expected_remove hshape hstack d).mpr ⟨hexpected, hne⟩, fun hin => hnew ((hids d).mp hin).1⟩
  · intro d hd hne
    rw [hids, expected_remove hshape hstack, h.entered d hd hne]

theorem registry_step (s : Server) (a : Action) (s' : Server) (h : Shape s ∧ Registry s)
    (hinserted : InsertedFirst s a) (hstep : step s a = some s') : Shape s' ∧ Registry s' := by
  obtain ⟨hshape, hregistry⟩ := h
  refine ⟨shape_step s a s' hshape hstep, ?_⟩
  have houtcome := outcome_of_step hstep
  cases ha : internal a with
  | true =>
    exact registry_of_sameMap hregistry (sameMap_internal houtcome ha)
      (expected_internal hshape houtcome ha)
  | false =>
    cases houtcome with
    | accept fd reactor messageCallback hidle =>
      exact registry_accept hregistry hidle fd reactor messageCallback
    | register c haccepting => exact registry_register hshape hregistry haccepting
    | remove j c stack hstack =>
      exact registry_remove hshape hregistry hstack (hinserted c (by simp [hstack]))
    | _ => cases ha

theorem not_removing {s : Server} (h : Shape s) {c : ConnId} (hc : c < s.accepted)
    (hstate : (s.conn c).state ≠ .kDisconnecting) :
    .removing c ∉ (s.loops (s.reactorOf c)).stack := by
  intro hmem
  have hpos : 0 < closings c (s.loops (s.reactorOf c)).stack :=
    List.countP_pos_iff.mpr ⟨_, hmem, by simp⟩
  have hclosing := (h.conns c hc).closing
  rw [if_neg hstate] at hclosing
  omega

/-- At rest a connection is expected exactly when it is not closed. -/
theorem expected_at_rest {s : Server} (h : Shape s) {c : ConnId} (hc : c < s.accepted)
    (hstack : (s.loops (s.reactorOf c)).stack = []) :
    Expected s c ↔ (s.conn c).state ≠ .kDisconnected := by
  have hclosing := (h.conns c hc).closing
  rw [hstack, closings_nil] at hclosing
  unfold Expected
  rw [hstack]
  cases hstate : (s.conn c).state <;> simp_all [live]

theorem deregisters_of_registry {s : Server} (hshape : Shape s) (h : Registry s) :
    Deregisters s := by
  constructor
  · intro c hc hne hstate hmem
    rcases (h.entered c hc hne).mp hmem with hlive | hremoving
    · rw [hstate] at hlive
      cases hlive
    · exact not_removing hshape hc (by simp [hstate]) hremoving
  · rintro ⟨hidle, hrest⟩
    have hopen : (openConnections s).Nodup := List.nodup_range.filter _
    have hperm : (entryIds s).Perm (openConnections s) := by
      apply (List.perm_ext_iff_of_nodup h.nodup hopen).mpr
      intro c
      simp only [openConnections, List.mem_filter, List.mem_range, decide_eq_true_eq]
      constructor
      · intro hmem
        obtain ⟨e, he, rfl⟩ := List.mem_map.mp hmem
        have hc := (h.keys e he).1
        have hexpected := (h.entered e.2 hc (by simp [hidle])).mp hmem
        exact ⟨hc, (expected_at_rest hshape hc (hrest _).2.2).mp hexpected⟩
      · rintro ⟨hc, hstate⟩
        exact (h.entered c hc (by simp [hidle])).mpr
          ((expected_at_rest hshape hc (hrest _).2.2).mpr hstate)
    calc s.getConnectionCount = (entryIds s).length := by simp [Server.getConnectionCount, entryIds]
      _ = (openConnections s).length := hperm.length_eq

/-- In a run in which every connection is inserted before it is erased, the map loses
each connection with its close. -/
theorem deregisters {acts : List Action} (h : Runs.Along step InsertedFirst start acts) :
    Runs.Throughout step Deregisters start acts :=
  Runs.throughout_mono (fun _ hs => deregisters_of_registry hs.1 hs.2)
    (Runs.throughout_of_step (fun s => Shape s ∧ Registry s) registry_step
      ⟨shape_start, registry_start⟩ h)

/-- A connection that its own connection callback closes, once it is inserted, until the server is
at rest. -/
theorem deregisters_closed_in_callback : Runs.Throughout step Deregisters start
    [.accept 7 0 true, .register, .runTask 0 true, .userClose 0 0, .remove 0, .userReturns 0,
      .userReturns 0] := by
  apply deregisters
  apply Runs.along_of_enabled rfl trivial
  apply Runs.along_of_enabled rfl trivial
  apply Runs.along_of_enabled rfl trivial
  apply Runs.along_of_enabled rfl trivial
  apply Runs.along_of_enabled rfl
  · intro c _ haccepting
    cases haccepting
  · apply Runs.along_of_enabled rfl trivial
    exact Runs.along_of_enabled rfl trivial trivial

/-- The peer closes at once: the sub-reactor sets the connection up, reads the end of
the stream and closes it before `handleNewConnection` inserts it. -/
def earlyClose : List Action :=
  [.accept 7 0 true, .runTask 0 true, .userReturns 0, .poll 0 [(0, epollIn)], .dispatch 0,
    .callback 0 .closed ⟨none, .wouldBlock⟩, .remove 0, .userReturns 0, .eventDone 0, .register]

theorem early_close_stays : ∃ s, Runs.exec step start earlyClose = some s ∧
    s.getConnectionCount = 1 ∧ openConnections s = [] ∧ ¬ Deregisters s := by
  refine ⟨_, rfl, by decide, by decide, ?_⟩
  intro h
  exact h.closed 0 (by decide) (by decide) (by decide) (by decide)

end ConnectionRegistry
