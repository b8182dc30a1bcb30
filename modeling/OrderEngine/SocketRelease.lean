import OrderEngine.ConnectionChannels

/-!
# Closed connections and their sockets

A socket is closed by the destructor of its connection. The callbacks of a
connection's channel capture the connection, and the connection owns the channel: from
its set-up on a connection refers to itself and is never destroyed.
-/
namespace SocketRelease

open EpollPoller TcpConnection TcpServer ServerShape ConnectionRegistry ConnectionChannels

/-- No accept under way, no queued task and no call on a stack has the connection. -/
structure Unheld (s : Server) (c : ConnId) : Prop where
  accept : s.accepting ≠ some c
  task : c ∉ (s.loops (s.reactorOf c)).tasks
  call : NoHandler s c

/-- The accepted connections that `~TcpConnection` has not destroyed. -/
def openSockets (s : Server) : List ConnId :=
  (List.range s.accepted).filter (fun c => 0 < s.strongRefs c)

/-- A closed and erased connection that nothing holds has no reference left, and at
rest the open sockets are those of the connections that are not closed. -/
structure Releases (s : Server) : Prop where
  closed : ∀ c < s.accepted, (s.conn c).state = .kDisconnected → c ∉ entryIds s → Unheld s c →
    s.strongRefs c = 0
  rest : Quiescent s → openSockets s = openConnections s

/-- The step closes no connection that is up. -/
def ClosesNone (s : Server) (a : Action) : Prop :=
  ∀ c, asksToClose s a = some c → (s.conn c).state ≠ .kConnected

/-- The four callbacks of its channel refer to a connection that has been set up. -/
theorem strongRefs_channel {s : Server} (h : Shape s) {c : ConnId} (hc : c < s.accepted)
    (hstate : (s.conn c).state ≠ .kConnecting) : 4 ≤ s.strongRefs c := by
  have hchannel := (h.conns c hc).channel hstate
  unfold Server.strongRefs
  rw [if_pos hchannel]
  omega

/-- So the property breaks wherever a closed connection is erased and let go. -/
theorem closed_breaks {s : Server} (h : Shape s) {c : ConnId} (hc : c < s.accepted)
    (hstate : (s.conn c).state = .kDisconnected) (herased : c ∉ entryIds s)
    (hunheld : Unheld s c) : ¬ Releases s := by
  intro hreleases
  have hzero := hreleases.closed c hc hstate herased hunheld
  have hrefs := strongRefs_channel h hc (by simp [hstate])
  omega

/-- Every socket that was ever accepted is still open. -/
theorem openSockets_eq {s : Server} (h : Shape s) : openSockets s = List.range s.accepted := by
  unfold openSockets
  rw [List.filter_eq_self]
  intro c hc
  exact decide_eq_true (strongRefs_pos h (List.mem_range.mp hc))

/-- Some accepted connection has been closed. -/
def SomeDead (s : Server) : Prop := ∃ c < s.accepted, live (s.conn c).state = false

theorem someDead_step {s s' : Server} {a : Action} (hshape : Shape s) (h : Outcome s a s')
    (hdead : SomeDead s) : SomeDead s' := by
  obtain ⟨c, hc, hstate⟩ := hdead
  exact ⟨c, Nat.lt_of_lt_of_le hc (accepted_le h), dead_stays hshape h hc hstate⟩

theorem noneDead_step {s s' : Server} {a : Action} (hshape : Shape s) (h : Outcome s a s')
    (hcloses : ClosesNone s a) (hlive : ¬ SomeDead s) : ¬ SomeDead s' := by
  rintro ⟨c, hc, hdead⟩
  by_cases hold : c < s.accepted
  · cases hstate : live (s.conn c).state with
    | true =>
      obtain ⟨hasked, hup⟩ := dies_when_asked hshape h hold hstate hdead
      exact hcloses c hasked hup
    | false => exact hlive ⟨c, hold, hstate⟩
  · rw [live_of_new h hc hold] at hdead
    cases hdead

theorem releases_of_noneDead {s : Server} (hshape : Shape s) (h : ¬ SomeDead s) : Releases s := by
  have hlive : ∀ c < s.accepted, (s.conn c).state ≠ .kDisconnected := by
    intro c hc hstate
    exact h ⟨c, hc, by rw [hstate]; rfl⟩
  constructor
  · intro c hc hstate
    exact absurd hstate (hlive c hc)
  · intro _
    rw [openSockets_eq hshape, openConnections, eq_comm, List.filter_eq_self]
    intro c hc
    exact decide_eq_true (hlive c (List.mem_range.mp hc))

/-- At rest a connection is in the middle of no close, so the property finds all those
that were closed. -/
theorem noneDead_at_rest {s : Server} (hshape : Shape s) (hrest : Quiescent s)
    (h : Releases s) : ¬ SomeDead s := by
  rintro ⟨c, hc, hdead⟩
  have hsockets := h.rest hrest
  rw [openSockets_eq hshape, openConnections, eq_comm, List.filter_eq_self] at hsockets
  have hopen := of_decide_eq_true (hsockets c (List.mem_range.mpr hc))
  have hclosing := (hshape.conns c hc).closing
  rw [(hrest.2 (s.reactorOf c)).2.2, closings_nil] at hclosing
  cases hstate : (s.conn c).state <;> simp_all [live]

/-- The sockets follow the connections in every run that closes no connection; and a run
that comes to rest with them right has closed none. -/
theorem sockets_released {acts : List Action} :
    (Runs.Along step ClosesNone start acts → Runs.Throughout step Releases start acts) ∧
      ∀ s, Runs.exec step start acts = some s → Quiescent s → Releases s →
        Runs.Along step ClosesNone start acts := by
  constructor
  · intro hal
    have hstart : ¬ SomeDead start := by
      rintro ⟨c, hc, _⟩
      cases hc
    have hinv : Runs.Throughout step (fun s => Shape s ∧ ¬ SomeDead s) start acts := by
      refine Runs.throughout_of_step _ ?_ ⟨shape_start, hstart⟩ hal
      rintro s a s' ⟨hshape, hlive⟩ hcloses hstep
      exact ⟨shape_step s a s' hshape hstep,
        noneDead_step hshape (outcome_of_step hstep) hcloses hlive⟩
    exact Runs.throughout_mono (fun s hs => releases_of_noneDead hs.1 hs.2) hinv
  · intro s hrun hrest hreleases
    have hshape : Shape s := shape_reachable ⟨start, acts, rfl, hrun⟩
    refine Runs.along_of_unmarked Shape (fun _ => True) SomeDead shape_step ?_ ?_ shape_start
      Runs.throughout_trivial hrun (noneDead_at_rest hshape hrest hreleases)
    · intro t a t' ht hdead hstep _
      exact someDead_step ht (outcome_of_step hstep) hdead
    · intro t a t' ht hcloses hstep _
      simp only [ClosesNone, not_forall, not_not] at hcloses
      obtain ⟨c, hasked, hup⟩ := hcloses
      obtain ⟨hc, hstate⟩ := closed_when_asked ht (outcome_of_step hstep) hasked hup
      exact ⟨c, Nat.lt_of_lt_of_le hc (accepted_le (outcome_of_step hstep)), by rw [hstate]; rfl⟩

/-- A connection is accepted, set up and used, and the server comes to rest. -/
theorem sockets_released_unclosed : Runs.Throughout step Releases start
    [.accept 7 0 true, .register, .runTask 0 true, .userSend 0 0 [1] ⟨some 1, .wouldBlock⟩,
      .userReturns 0] := by
  apply sockets_released.1
  apply Runs.along_of_enabled rfl (by intro c hc; cases hc)
  apply Runs.along_of_enabled rfl (by intro c hc; cases hc)
  apply Runs.along_of_enabled rfl (by intro c hc; cases hc)
  apply Runs.along_of_enabled rfl (by intro c hc; cases hc)
  exact Runs.along_of_enabled rfl (by intro c hc; cases hc) trivial

/-- The peer of the only connection closes it, and the server comes to rest with the
closed connection's socket open. -/
theorem socket_stays_open : ∃ s, Runs.exec step start peerCloses = some s ∧
    openConnections s = [] ∧ openSockets s = [0] ∧ s.strongRefs 0 = 4 ∧ ¬ Releases s := by
  refine ⟨_, rfl, by decide, by decide, by decide, ?_⟩
  intro h
  have hzero := h.closed 0 (by decide) (by decide) (by decide) ⟨by decide, by decide, by decide⟩
  exact absurd hzero (by decide)

end SocketRelease
