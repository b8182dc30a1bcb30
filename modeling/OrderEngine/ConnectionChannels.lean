import OrderEngine.ConnectionRegistry

/-!
# Closed connections and the interest set

The set-up task registers a connection's channel with the poller of its
sub-reactor. `closeConnection` only moves the state and takes the connection out of
the map: no path that closes a connection disables or removes its channel.
-/
namespace ConnectionChannels

open EpollPoller TcpConnection TcpServer ServerShape ConnectionRegistry

/-- What the interest set of the connection's poller holds for its fd. -/
def interestOf (s : Server) (c : ConnId) : Option (ConnId × EventMask) :=
  (s.loops (s.reactorOf c)).poller.interest (s.conn c).sockfd

/-- The thread of the connection's sub-reactor is in none of its handlers. -/
def NoHandler (s : Server) (c : ConnId) : Prop :=
  ∀ f ∈ (s.loops (s.reactorOf c)).stack, f.conn ≠ c

instance (s : Server) (c : ConnId) : Decidable (NoHandler s c) :=
  inferInstanceAs (Decidable (∀ f ∈ (s.loops (s.reactorOf c)).stack, _))

/-- A closed connection with no handler running is out of the interest set. -/
def Unregistered (s : Server) : Prop :=
  ∀ c < s.accepted, (s.conn c).state = .kDisconnected → NoHandler s c → interestOf s c = none

/-- The connection that a step is asked to close: by a hang-up or an error, by what a
handler read or wrote, or by the user. -/
def asksToClose (s : Server) : Action → Option ConnId
  | .callback j read write =>
    match (s.loops j).stack with
    | .event c (cb :: _) :: _ =>
      if (Server.callback (s.conn c) read write cb).2 = .close then some c else none
    | _ => none
  | .userClose _ c => some c
  | _ => none

/-- The step closes no connection whose channel is registered. -/
def SparesRegistered (s : Server) (a : Action) : Prop :=
  ∀ c, asksToClose s a = some c → (s.conn c).state = .kConnected → interestOf s c = none

theorem poller_closeConnection (s : Server) (j : Nat) (c : ConnId) (stack : List Frame)
    (i : Nat) : ((s.closeConnection j c stack).loops i).poller = (s.loops i).poller := by
  rcases closeConnection_cases s j c stack with ⟨_, heq⟩ | ⟨_, heq⟩ <;> simp [heq]

/-- Only the set-up task uses a poller. -/
theorem poller_kept {s s' : Server} {a : Action} (h : Outcome s a s')
    (ha : ∀ j succeeds, a ≠ .runTask j succeeds) (i : Nat) :
    (s'.loops i).poller = (s.loops i).poller := by
  cases h with
  | accept fd reactor =>
    by_cases hi : i = reactor
    · simp [Server.handOver, hi]
    · simp [Server.handOver, Function.update_of_ne hi]
  | register => rfl
  | runTask j succeeds => exact absurd rfl (ha j succeeds)
  | poll j active =>
    refine poller_setLoop ?_ i
    rfl
  | dispatch j =>
    refine poller_setLoop ?_ i
    rfl
  | callback j read write c cb todo stack =>
    rcases react_cases s j c (.event c todo :: stack) read write cb with
      ⟨conn, _, heq⟩ | ⟨conn, _, heq⟩ | ⟨_, heq⟩
    · simp [heq]
    · simp [heq]
    · rw [heq]
      exact poller_closeConnection s j c _ i
  | eventDone j => simp
  | userClose j c => exact poller_closeConnection s j c _ i
  | userSend => rfl
  | userReturns j f stack => cases f <;> simp [Server.userReturns]
  | remove j c stack => simp [Server.removeConnection]

/-- What is in an interest set stays there. -/
theorem interest_kept {s s' : Server} {a : Action} (h : Outcome s a s') {i fd : Nat}
    {e : ConnId × EventMask} (he : (s.loops i).poller.interest fd = some e) :
    (s'.loops i).poller.interest fd = some e := by
  by_cases ha : ∃ j succeeds, a = .runTask j succeeds
  · obtain ⟨j, succeeds, rfl⟩ := ha
    cases h with
    | runTask _ _ c rest htasks =>
      by_cases hi : i = j
      · subst hi
        simp only [Server.setUp, Function.update_self, enableReading_create]
        split
        · rename_i hnew
          have hne : fd ≠ (s.conn c).sockfd := by
            rintro rfl
            simp [he] at hnew
          rw [Function.update_of_ne hne, he]
        · exact he
      · simp only [Server.setUp, Function.update_of_ne hi]
        exact he
  · rw [poller_kept h (fun j succeeds hj => ha ⟨j, succeeds, hj⟩), he]

/-- A connection stays with its sub-reactor and its socket. -/
theorem place_kept {s s' : Server} {a : Action} (h : Outcome s a s') {c : ConnId}
    (hc : c < s.accepted) :
    s'.reactorOf c = s.reactorOf c ∧ (s'.conn c).sockfd = (s.conn c).sockfd := by
  cases ha : internal a with
  | true =>
    have hsame := sameMap_internal h ha
    exact ⟨by rw [hsame.reactorOf], hsame.sockfd c⟩
  | false =>
    cases h with
    | accept fd reactor messageCallback =>
      obtain ⟨hconn, hreactor⟩ := handOver_of_lt hc fd reactor messageCallback
      exact ⟨hreactor, by rw [hconn]⟩
    | register => exact ⟨rfl, rfl⟩
    | remove => exact ⟨rfl, rfl⟩
    | _ => cases ha

/-- What a step does to the state of a connection: nothing, or the next move of its life. -/
def StateMoves (asked : Prop) (before after : ConnState) : Prop :=
  after = before ∨ before = .kConnecting ∧ after = .kConnected ∨
    asked ∧ before = .kConnected ∧ after = .kDisconnecting ∨
      before = .kDisconnecting ∧ after = .kDisconnected

theorem closeConnection_moves (s : Server) (j : Nat) (c d : ConnId) (stack : List Frame) :
    StateMoves (d = c) (s.conn d).state ((s.closeConnection j c stack).conn d).state := by
  rcases closeConnection_cases s j c stack with ⟨hstate, heq⟩ | ⟨_, heq⟩
  · rw [heq]
    by_cases hd : d = c
    · subst hd
      simp [StateMoves, hstate]
    · simp [StateMoves, conn_setConn_of_ne hd]
  · rw [heq]
    exact .inl rfl

/-- Each step moves the states along the life of a connection, and closes only the
connection that it is asked to close. -/
theorem state_step {s s' : Server} {a : Action} (hshape : Shape s) (h : Outcome s a s')
    {c : ConnId} (hc : c < s.accepted) :
    StateMoves (asksToClose s a = some c) (s.conn c).state (s'.conn c).state := by
  cases h with
  | accept fd reactor messageCallback =>
    rw [(handOver_of_lt hc fd reactor messageCallback).1]
    exact .inl rfl
  | register => exact .inl rfl
  | runTask j succeeds d rest htasks =>
    by_cases hd : c = d
    · subst hd
      have hstate := (connecting_of_tasks hshape htasks).2.1
      simp [StateMoves, hstate, Server.setUp, Connection.establishConnection]
    · simp [StateMoves, Server.setUp, Function.update_of_ne hd]
  | poll => exact .inl rfl
  | dispatch => exact .inl rfl
  | callback j read write d cb todo stack hstack =>
    rcases react_cases s j d (.event d todo :: stack) read write cb with
      ⟨conn, hmoves, heq⟩ | ⟨conn, hmoves, heq⟩ | ⟨hreaction, heq⟩
    · rw [heq]
      exact .inl (state_setConn hmoves.state c)
    · rw [heq]
      exact .inl (state_setConn hmoves.state c)
    · rw [heq]
      have hmoves := closeConnection_moves s j d c (.event d todo :: stack)
      simpa [asksToClose, hstack, hreaction, eq_comm] using hmoves
  | eventDone => exact .inl rfl
  | userClose j d =>
    simpa [asksToClose, eq_comm] using closeConnection_moves s j d c (s.loops j).stack
  | userSend j d data write => exact .inl (state_setConn (send_state _ data write) c)
  | userReturns j f stack hstack =>
    cases f with
    | message d =>
      have hstate : (s.conn d).messageReturns.state = (s.conn d).state := rfl
      exact .inl (state_setConn hstate c)
    | closed d =>
      by_cases hd : c = d
      · subst hd
        have hstate := (disconnecting_of_stack (c := c) hshape hstack (by simp)).1
        simp [StateMoves, hstate, Server.userReturns, Connection.endClose]
      · simp [StateMoves, Server.userReturns, conn_setConn_of_ne hd]
    | _ => exact .inl rfl
  | remove => exact .inl rfl

/-- A connection that is up leaves that state only in a step that is asked to close it. -/
theorem dies_when_asked {s s' : Server} {a : Action} (hshape : Shape s) (h : Outcome s a s')
    {c : ConnId} (hc : c < s.accepted) (hlive : live (s.conn c).state = true)
    (hdead : live (s'.conn c).state = false) :
    asksToClose s a = some c ∧ (s.conn c).state = .kConnected := by
  rcases state_step hshape h hc with hsame | ⟨_, hup⟩ | ⟨hasked, hup, _⟩ | ⟨hdown, _⟩
  · rw [hsame, hlive] at hdead
    cases hdead
  · rw [hup] at hdead
    cases hdead
  · exact ⟨hasked, hup⟩
  · rw [hdown] at hlive
    cases hlive

/-- A connection that is up and asked to close goes down. -/
theorem closed_when_asked {s s' : Server} {a : Action} {c : ConnId} (hshape : Shape s)
    (h : Outcome s a s') (hasked : asksToClose s a = some c)
    (hup : (s.conn c).state = .kConnected) :
    c < s.accepted ∧ (s'.conn c).state = .kDisconnecting := by
  have hclosed : ∀ j stack, ((s.closeConnection j c stack).conn c).state = .kDisconnecting := by
    intro j stack
    rcases closeConnection_cases s j c stack with ⟨_, heq⟩ | ⟨hdown, _⟩
    · simp [heq]
    · exact absurd hup hdown
  cases h with
  | callback j read write d cb todo stack hstack =>
    have howned : Owned s j d := (owned_of_stack hshape hstack).1
    simp only [asksToClose, hstack] at hasked
    split at hasked
    · rename_i hclose
      cases hasked
      rw [react_close hclose]
      exact ⟨howned.1, hclosed j _⟩
    · cases hasked
  | userClose j d hmay =>
    cases hasked
    exact ⟨hmay.2.1, hclosed j _⟩
  | _ => cases hasked

/-- A closed connection never comes back. -/
theorem dead_stays {s s' : Server} {a : Action} (hshape : Shape s) (h : Outcome s a s')
    {c : ConnId} (hc : c < s.accepted) (hdead : live (s.conn c).state = false) :
    live (s'.conn c).state = false := by
  rcases state_step hshape h hc with hsame | ⟨hup, _⟩ | ⟨_, hup, _⟩ | ⟨_, hdown⟩
  · rw [hsame, hdead]
  · rw [hup] at hdead
    cases hdead
  · rw [hup] at hdead
    cases hdead
  · rw [hdown]
    rfl

/-- A step adds to the closed connections the one that it is asked to close, if that is up. -/
theorem dead_iff {s s' : Server} {a : Action} (hshape : Shape s) (h : Outcome s a s')
    {c : ConnId} (hc : c < s.accepted) :
    live (s'.conn c).state = false ↔
      live (s.conn c).state = false ∨
        asksToClose s a = some c ∧ (s.conn c).state = .kConnected := by
  constructor
  · intro hdead
    cases hlive : live (s.conn c).state with
    | true => exact .inr (dies_when_asked hshape h hc hlive hdead)
    | false => exact .inl rfl
  · rintro (hdead | ⟨hasked, hup⟩)
    · exact dead_stays hshape h hc hdead
    · rw [(closed_when_asked hshape h hasked hup).2]
      rfl

/-- The closed connections are out of the interest sets. -/
def ClosedOut (s : Server) : Prop :=
  ∀ c < s.accepted, live (s.conn c).state = false → interestOf s c = none

/-- No step enters an old connection in an interest set, unless it sets it up. -/
theorem interestOf_kept {s s' : Server} {a : Action} (hshape : Shape s) (h : Outcome s a s')
    {c : ConnId} (hc : c < s.accepted) (hstate : (s.conn c).state ≠ .kConnecting) :
    interestOf s' c = interestOf s c := by
  obtain ⟨hreactor, hsockfd⟩ := place_kept h hc
  unfold interestOf
  rw [hreactor, hsockfd]
  by_cases ha : ∃ j succeeds, a = .runTask j succeeds
  · obtain ⟨j, succeeds, rfl⟩ := ha
    cases h with
    | runTask _ _ d rest htasks =>
      by_cases hj : s.reactorOf c = j
      · obtain ⟨howned, hconnecting, _⟩ := connecting_of_tasks hshape htasks
        have hne : (s.conn c).sockfd ≠ (s.conn d).sockfd := by
          intro hsame
          rw [hshape.fds c hc d howned.1 hsame] at hstate
          exact hstate hconnecting
        simp only [Server.setUp, hj, Function.update_self, enableReading_create]
        split
        · rw [Function.update_of_ne hne]
        · rfl
      · simp only [Server.setUp, Function.update_of_ne hj]
  · rw [poller_kept h (fun j succeeds hj => ha ⟨j, succeeds, hj⟩)]

/-- A connection that is accepted just now waits for its set-up task. -/
theorem connecting_of_new {s s' : Server} {a : Action} (h : Outcome s a s') {c : ConnId}
    (hc : c < s'.accepted) (hnew : ¬ c < s.accepted) : (s'.conn c).state = .kConnecting := by
  cases ha : internal a with
  | true =>
    rw [(sameMap_internal h ha).accepted] at hc
    exact absurd hc hnew
  | false =>
    cases h with
    | accept fd reactor messageCallback =>
      have hlast : c = s.accepted := Nat.le_antisymm (Nat.le_of_lt_succ hc) (Nat.le_of_not_lt hnew)
      subst hlast
      rw [(handOver_last s fd reactor messageCallback).1]
      rfl
    | register => exact absurd hc hnew
    | remove => exact absurd hc hnew
    | _ => cases ha

theorem live_of_new {s s' : Server} {a : Action} (h : Outcome s a s') {c : ConnId}
    (hc : c < s'.accepted) (hnew : ¬ c < s.accepted) : live (s'.conn c).state = true := by
  rw [connecting_of_new h hc hnew]
  rfl

/-- A step that closes no registered connection leaves the closed ones unregistered. -/
theorem closedOut_step (s : Server) (a : Action) (s' : Server) (h : Shape s ∧ ClosedOut s)
    (hspares : SparesRegistered s a) (hstep : step s a = some s') : Shape s' ∧ ClosedOut s' := by
  obtain ⟨hshape, hout⟩ := h
  have houtcome := outcome_of_step hstep
  refine ⟨shape_step s a s' hshape hstep, ?_⟩
  intro c hc hdead
  by_cases hold : c < s.accepted
  · cases hlive : live (s.conn c).state with
    | true =>
      obtain ⟨hasked, hstate⟩ := dies_when_asked hshape houtcome hold hlive hdead
      rw [interestOf_kept hshape houtcome hold (by simp [hstate])]
      exact hspares c hasked hstate
    | false =>
      have hstate : (s.conn c).state ≠ .kConnecting := by
        intro hconnecting
        rw [hconnecting] at hlive
        cases hlive
      rw [interestOf_kept hshape houtcome hold hstate]
      exact hout c hold hlive
  · rw [live_of_new houtcome hc hold] at hdead
    cases hdead

/-- In a run that closes no connection while its channel is registered, every closed
connection is out of the interest set of its poller. -/
theorem unregistered {acts : List Action} (h : Runs.Along step SparesRegistered start acts) :
    Runs.Throughout step Unregistered start acts := by
  have hstart : ClosedOut start := by
    intro c hc
    cases hc
  refine Runs.throughout_mono ?_
    (Runs.throughout_of_step (fun s => Shape s ∧ ClosedOut s) closedOut_step
      ⟨shape_start, hstart⟩ h)
  rintro s ⟨_, hout⟩ c hc hstate _
  exact hout c hc (by rw [hstate]; rfl)

/-- The registration of a connection fails, and its own connection callback closes it. -/
theorem unregistered_without_registration : Runs.Throughout step Unregistered start
    [.accept 7 0 true, .register, .runTask 0 false, .userClose 0 0, .remove 0, .userReturns 0,
      .userReturns 0] := by
  apply unregistered
  apply Runs.along_of_enabled rfl (by intro c hc; cases hc)
  apply Runs.along_of_enabled rfl (by intro c hc; cases hc)
  apply Runs.along_of_enabled rfl (by intro c hc; cases hc)
  apply Runs.along_of_enabled rfl (by intro c hc _; cases hc; rfl)
  apply Runs.along_of_enabled rfl (by intro c hc; cases hc)
  apply Runs.along_of_enabled rfl (by intro c hc; cases hc)
  exact Runs.along_of_enabled rfl (by intro c hc; cases hc) trivial

theorem accepted_le {s s' : Server} {a : Action} (h : Outcome s a s') :
    s.accepted ≤ s'.accepted := by
  cases ha : internal a with
  | true => rw [(sameMap_internal h ha).accepted]
  | false =>
    cases h with
    | accept => exact Nat.le_succ _
    | register => exact Nat.le_refl _
    | remove => exact Nat.le_refl _
    | _ => cases ha

/-- Once a connection is registered it stays so, whatever closes it. -/
theorem registered_stays {s s' : Server} {acts : List Action} {c : ConnId}
    {e : ConnId × EventMask} (hc : c < s.accepted) (he : interestOf s c = some e)
    (hrun : Runs.exec step s acts = some s') : c < s'.accepted ∧ interestOf s' c = some e := by
  refine Runs.invariant_exec (fun s => c < s.accepted ∧ interestOf s c = some e) ?_ ⟨hc, he⟩ hrun
  rintro s a s' ⟨hc, he⟩ hstep
  have houtcome := outcome_of_step hstep
  obtain ⟨hreactor, hsockfd⟩ := place_kept houtcome hc
  refine ⟨Nat.lt_of_lt_of_le hc (accepted_le houtcome), ?_⟩
  unfold interestOf
  rw [hreactor, hsockfd]
  exact interest_kept houtcome he

/-- So a registered connection that is ever closed breaks the property. -/
theorem registered_close_breaks {s s' : Server} {acts : List Action} {c : ConnId}
    (hc : c < s.accepted) (hregistered : interestOf s c ≠ none)
    (hrun : Runs.exec step s acts = some s') (hstate : (s'.conn c).state = .kDisconnected)
    (hidle : NoHandler s' c) : ¬ Unregistered s' := by
  obtain ⟨e, he⟩ := Option.ne_none_iff_exists'.mp hregistered
  obtain ⟨hc', he'⟩ := registered_stays hc he hrun
  intro h
  rw [h c hc' hstate hidle] at he'
  cases he'

/-- The peer of a connection closes it in the usual way. -/
def peerCloses : List Action :=
  [.accept 7 0 true, .register, .runTask 0 true, .userReturns 0, .poll 0 [(0, epollIn)],
    .dispatch 0, .callback 0 .closed ⟨none, .wouldBlock⟩, .remove 0, .userReturns 0, .eventDone 0]

/-- The closed connection is still registered, so the next poll finds it readable. -/
theorem peer_closes_registered : ∃ s, Runs.exec step start peerCloses = some s ∧
    (step s (.poll 0 [(0, epollIn)])).isSome = true ∧ ¬ Unregistered s := by
  refine ⟨_, rfl, by decide, ?_⟩
  intro h
  have hnone := h 0 (by decide) (by decide) (by decide)
  exact absurd hnone (by decide)

end ConnectionChannels
