import OrderEngine.ConnectionBalance
import OrderEngine.Library.Potential

/-!
# TcpServer: the accept loop

The kernel queues the connections that clients have made. When the listening socket is
readable, the main loop calls `acceptConnection`, which takes them from the queue until
`accept4` finds none or fails, and deals them to the sub-reactors.
-/
namespace AcceptLoop

open ReactorPool ConnectionBalance

/-- A client's connection. -/
abbrev Peer := Nat

/-- What a call of `accept4` comes to: an fd, or an errno. The socket does not block, so the call
fails with `EAGAIN` when the queue is empty. Another error may use up a connection. -/
inductive Result where
  | connfd (fd : Nat)
  | eagain
  | eintr
  | error (dropsFirst : Bool)
  deriving DecidableEq, Repr

/-- The kernel's queue, whether the main loop is in `acceptConnection`, and the server with
its counter. -/
structure State where
  backlog : List Peer
  accepting : Bool
  server : Server
  deriving DecidableEq, Repr

/-- A server that listens, and to which nobody has connected yet. -/
def listening (configured hardwareConcurrency : BitVec 32) : State where
  backlog := []
  accepting := false
  server := (server configured hardwareConcurrency).start

/-- One round of the loop in `acceptConnection`; `none` also where `handleNewConnection` finds no
sub-reactor and is undefined. -/
def acceptConnection (s : State) : Result → Option State
  | .connfd _ =>
    Runs.guarded (s.backlog ≠ [] ∧ s.server.selected.isSome = true)
      { s with backlog := s.backlog.tail, server := s.server.handleNewConnection }
  | .eagain => Runs.guarded (s.backlog = []) { s with accepting := false }
  | .eintr => some s
  | .error false => some { s with accepting := false }
  | .error true =>
    Runs.guarded (s.backlog ≠ []) { s with backlog := s.backlog.tail, accepting := false }

inductive Action where
  | connect (peer : Peer)
  | poll
  | accept4 (result : Result)
  deriving DecidableEq, Repr

/-- A client connects, or the poll of the main loop reports the socket, or the loop goes round. -/
def step (s : State) : Action → Option State
  | .connect peer => some { s with backlog := s.backlog ++ [peer] }
  | .poll =>
    Runs.guarded (s.accepting = false ∧ s.backlog ≠ []) { s with accepting := true }
  | .accept4 result => if s.accepting then acceptConnection s result else none

/-- A connection that has left the queue: the number of its sub-reactor, or none where an error
has used it up. -/
structure Settled where
  peer : Peer
  reactor : Option Int
  deriving DecidableEq, Repr

/-- The client, where its connection has been handed to a sub-reactor. -/
def Settled.handed (c : Settled) : Option Peer := c.reactor.map (fun _ => c.peer)

/-- The connection has been handed to none of `n` sub-reactors or to one of them. -/
def Settled.Within (n : Nat) (c : Settled) : Prop := ∀ j ∈ c.reactor, 0 ≤ j ∧ j.toNat < n

def connected (_ : State) : Action → List Peer
  | .connect peer => [peer]
  | _ => []

def settled (s : State) : Action → List Settled
  | .accept4 (.connfd _) =>
    (s.backlog.take 1).map (fun peer => { peer := peer, reactor := some s.server.reactorIndex })
  | .accept4 (.error true) =>
    (s.backlog.take 1).map (fun peer => { peer := peer, reactor := none })
  | _ => []

/-- What a step can do, one case for each outcome. -/
inductive Outcome (s : State) : Action → State → Prop where
  | connect (peer : Peer) : Outcome s (.connect peer) { s with backlog := s.backlog ++ [peer] }
  | poll (hidle : s.accepting = false) (hready : s.backlog ≠ []) :
      Outcome s .poll { s with accepting := true }
  | accepts (fd : Nat) (peer : Peer) (rest : List Peer) (haccepting : s.accepting = true)
      (hbacklog : s.backlog = peer :: rest) (hselected : s.server.selected.isSome = true) :
      Outcome s (.accept4 (.connfd fd))
        { s with backlog := rest, server := s.server.handleNewConnection }
  | drained (haccepting : s.accepting = true) (hbacklog : s.backlog = []) :
      Outcome s (.accept4 .eagain) { s with accepting := false }
  | interrupted (haccepting : s.accepting = true) : Outcome s (.accept4 .eintr) s
  | fails (haccepting : s.accepting = true) :
      Outcome s (.accept4 (.error false)) { s with accepting := false }
  | drops (peer : Peer) (rest : List Peer) (haccepting : s.accepting = true)
      (hbacklog : s.backlog = peer :: rest) :
      Outcome s (.accept4 (.error true)) { s with backlog := rest, accepting := false }

theorem outcome_of_step {s t : State} {a : Action} (h : step s a = some t) : Outcome s a t := by
  cases a with
  | connect peer =>
    cases h
    exact .connect peer
  | poll =>
    obtain ⟨⟨hidle, hready⟩, rfl⟩ := Runs.guarded_eq_some.mp h
    exact .poll hidle hready
  | accept4 result =>
    simp only [step] at h
    split at h
    · rename_i haccepting
      cases result with
      | connfd fd =>
        obtain ⟨⟨hready, hselected⟩, rfl⟩ := Runs.guarded_eq_some.mp h
        obtain ⟨peer, rest, hbacklog⟩ := List.exists_cons_of_ne_nil hready
        rw [hbacklog, List.tail_cons]
        exact .accepts fd peer rest haccepting hbacklog hselected
      | eagain =>
        obtain ⟨hbacklog, rfl⟩ := Runs.guarded_eq_some.mp h
        exact .drained haccepting hbacklog
      | eintr =>
        cases h
        exact .interrupted haccepting
      | error dropsFirst =>
        cases dropsFirst with
        | false =>
          cases h
          exact .fails haccepting
        | true =>
          obtain ⟨hready, rfl⟩ := Runs.guarded_eq_some.mp h
          obtain ⟨peer, rest, hbacklog⟩ := List.exists_cons_of_ne_nil hready
          rw [hbacklog, List.tail_cons]
          exact .drops peer rest haccepting hbacklog
    · cases h

/-- What connects joins the queue at its back, and what is settled leaves it at its front. -/
theorem conserves_step (s : State) (a : Action) (t : State) (h : step s a = some t) :
    Flow.Conserves State.backlog connected (fun s a => (settled s a).map Settled.peer) s a t := by
  cases outcome_of_step h with
  | connect | poll | drained | interrupted | fails =>
    simp [Flow.Conserves, connected, settled]
  | accepts _ _ _ _ hbacklog | drops _ _ _ hbacklog =>
    simp [Flow.Conserves, connected, settled, hbacklog]

/-- What a step is to the pool of sub-reactors. -/
def dealing (_ : State) : Action → List ReactorPool.Action
  | .accept4 (.connfd _) => [.handleNewConnection]
  | _ => []

theorem running_step (s : State) (a : Action) (t : State) (hs : s.server.running = true)
    (h : step s a = some t) : t.server.running = true := by
  cases outcome_of_step h <;> exact hs

theorem dealing_step (s : State) (a : Action) (t : State) (hs : s.server.running = true)
    (h : step s a = some t) :
    Runs.exec ReactorPool.step s.server (dealing s a) = some t.server := by
  cases outcome_of_step h with
  | connect | poll | drained | interrupted | fails | drops => rfl
  | accepts =>
    exact Runs.exec_cons_iff.mpr ⟨_, Runs.guarded_eq_some.mpr ⟨hs, rfl⟩, rfl⟩

/-- The pool deals what the accept loop hands over. -/
theorem assigned_step (s : State) (a : Action) (t : State) (hs : s.server.running = true)
    (h : step s a = some t) :
    Flow.emitted ReactorPool.step assigned s.server (dealing s a) =
      (settled s a).filterMap Settled.reactor := by
  cases outcome_of_step h with
  | connect | poll | drained | interrupted | fails => rfl
  | drops _ _ _ hbacklog => simp [dealing, settled, hbacklog, Flow.emitted]
  | accepts _ _ _ _ hbacklog =>
    have hstep : ReactorPool.step s.server .handleNewConnection =
        some s.server.handleNewConnection := Runs.guarded_eq_some.mpr ⟨hs, rfl⟩
    rw [dealing, Flow.emitted_cons hstep]
    simp [settled, hbacklog, assigned, Flow.emitted]

section
variable (configured hardwareConcurrency : BitVec 32)

/-- The connections that are made in the run, and those that leave the queue. -/
def arrivals (acts : List Action) : List Peer :=
  Flow.emitted step connected (listening configured hardwareConcurrency) acts

def settlements (acts : List Action) : List Settled :=
  Flow.emitted step settled (listening configured hardwareConcurrency) acts

/-- The numbers of the sub-reactors, in the order of the connections handed over. -/
def reactors (acts : List Action) : List Int :=
  (settlements configured hardwareConcurrency acts).filterMap Settled.reactor

end

/-- The connections that are handed over take turns. -/
theorem reactors_eq {configured hardwareConcurrency : BitVec 32} {acts : List Action}
    {t : State} (hrun : Runs.exec step (listening configured hardwareConcurrency) acts = some t) :
    reactors configured hardwareConcurrency acts =
      (List.range (reactors configured hardwareConcurrency acts).length).map
        (turn (server configured hardwareConcurrency).threadNum) := by
  have hpool := Flow.exec_emitted (fun s => s.server.running = true) State.server dealing
    running_step dealing_step rfl hrun
  have hemit := Flow.emitted_emitted (fun s => s.server.running = true) State.server dealing
    running_step dealing_step assigned_step rfl hrun
  rw [Flow.emitted_filterMap] at hemit
  have hturns := assigned_eq (k := 0) rfl hpool
  simp only [Nat.zero_add] at hturns
  rw [hemit] at hturns
  have hlength := congrArg List.length hturns
  simp only [List.length_map, List.length_range] at hlength
  rw [reactors, settlements, hlength]
  exact hturns

/-- The sub-reactor that is selected is one of the pool. -/
theorem within_of_selected {s : Server} (h : s.selected.isSome = true) :
    0 ≤ s.reactorIndex ∧ s.reactorIndex.toNat < s.subReactors.length := by
  unfold Server.selected at h
  split at h
  · cases h
  · obtain ⟨r, hr⟩ := Option.isSome_iff_exists.mp h
    exact ⟨by omega, (List.getElem?_eq_some_iff.mp hr).1⟩

theorem pool_step (n : Nat) (s : State) (a : Action) (t : State)
    (hs : s.server.subReactors.length = n) (h : step s a = some t) :
    t.server.subReactors.length = n := by
  cases outcome_of_step h <;> exact hs

theorem within_step (n : Nat) (s : State) (a : Action) (t : State)
    (hs : s.server.subReactors.length = n) (h : step s a = some t) :
    ∀ c ∈ settled s a, c.Within n := by
  intro c hc
  cases outcome_of_step h with
  | connect | poll | drained | interrupted | fails => cases hc
  | accepts _ _ _ _ hbacklog hselected =>
    simp only [settled, hbacklog, List.take_succ_cons, List.take_zero, List.map_cons,
      List.map_nil, List.mem_singleton] at hc
    subst hc
    rintro _ ⟨⟩
    rw [← hs]
    exact within_of_selected hselected
  | drops _ _ _ hbacklog =>
    simp only [settled, hbacklog, List.take_succ_cons, List.take_zero, List.map_cons,
      List.map_nil, List.mem_singleton] at hc
    subst hc
    nofun

/-- In every run the connections leave the queue in the order in which they were made: none is
lost, doubled or overtaken on the way, and those that no error uses up are dealt to the
sub-reactors of the pool in turn. -/
theorem accepted_in_order {configured hardwareConcurrency : BitVec 32} {acts : List Action}
    {t : State} (hrun : Runs.exec step (listening configured hardwareConcurrency) acts = some t) :
    (settlements configured hardwareConcurrency acts).map Settled.peer ++ t.backlog =
        arrivals configured hardwareConcurrency acts ∧
      reactors configured hardwareConcurrency acts =
        (List.range (reactors configured hardwareConcurrency acts).length).map
          (turn (server configured hardwareConcurrency).threadNum) ∧
      ∀ c ∈ settlements configured hardwareConcurrency acts,
        c.Within t.server.subReactors.length := by
  refine ⟨?_, reactors_eq hrun, ?_⟩
  · have htaken := Flow.taken_eq conserves_step rfl hrun
    rw [Flow.emitted_map] at htaken
    exact htaken
  · have hpool := Runs.invariant_exec _ (pool_step _) rfl hrun
    rw [hpool]
    exact Flow.emitted_invariant _ (pool_step _) (within_step _) rfl

/-- Three connections, of which an interrupted and a failing call of `accept4` delay the second
and an error uses up the third. -/
def threeConnect : List Action :=
  [.connect 7, .poll, .connect 8, .accept4 (.connfd 5), .accept4 .eintr, .accept4 (.error false),
    .poll, .accept4 (.connfd 6), .connect 9, .accept4 (.error true)]

theorem accepted_in_order_three :
    ∃ t, Runs.exec step (listening 2 8) threeConnect = some t ∧
      (settlements 2 8 threeConnect).map Settled.peer ++ t.backlog = arrivals 2 8 threeConnect ∧
      (∀ c ∈ settlements 2 8 threeConnect, c.Within 2) ∧
      settlements 2 8 threeConnect = [⟨7, some 0⟩, ⟨8, some 1⟩, ⟨9, none⟩] := by
  have hrun : Runs.exec step (listening 2 8) threeConnect = some _ := rfl
  obtain ⟨hqueue, _, hpool⟩ := accepted_in_order hrun
  exact ⟨_, hrun, hqueue, hpool, by decide⟩

/-- A call of `accept4` that no signal interrupts. -/
def Completed (a : Action) : Bool :=
  match a with
  | .accept4 .eintr => false
  | .accept4 _ => true
  | _ => false

/-- How often the loop can still go round: once for each waiting connection, and once more. -/
def State.rounds (s : State) : Nat := s.backlog.length + if s.accepting then 1 else 0

theorem rounds_step {s t : State} {a : Action} (h : step s a = some t) (hone : a ≠ .poll) :
    (if Completed a then 1 else 0) + t.rounds ≤ s.rounds + (connected s a).length := by
  cases outcome_of_step h with
  | poll => exact absurd rfl hone
  | connect peer =>
    simp only [Completed, State.rounds, connected, List.length_append, List.length_singleton,
      Bool.false_eq_true, if_false]
    omega
  | accepts _ _ _ haccepting hbacklog =>
    simp [Completed, State.rounds, connected, haccepting, hbacklog]
    omega
  | drops _ _ haccepting hbacklog =>
    simp [Completed, State.rounds, connected, haccepting, hbacklog]
    omega
  | drained haccepting | fails haccepting =>
    simp [Completed, State.rounds, connected, haccepting]
    omega
  | interrupted => simp [Completed, State.rounds, connected]

/-- One call of `acceptConnection` makes at most one completed call of `accept4` for each
connection that waits or comes meanwhile, and one more: it goes round for ever only if clients
connect or signals come for ever. -/
theorem calls_bounded {s t : State} {acts : List Action} (hrun : Runs.exec step s acts = some t)
    (hone : .poll ∉ acts) :
    acts.countP Completed + t.rounds ≤
      s.rounds + (Flow.emitted step connected s acts).length := by
  have hal : Runs.Along step (fun _ a => a ≠ .poll) s acts := by
    apply Runs.along_of_forall
    rintro a ha rfl
    exact hone ha
  have hbound := Potential.total_le (fun _ => True) _ State.rounds (fun _ _ _ _ _ _ => trivial)
    (fun _ _ _ _ hne h => rounds_step h hne) trivial hal hrun
  rwa [Potential.total_count hrun, Potential.total_length] at hbound

/-- While no error comes, a call of `acceptConnection` that is to end takes the queue. -/
theorem drains_backlog {s t : State} {acts : List Action} (hrun : Runs.exec step s acts = some t)
    (herror : ∀ dropsFirst, .accept4 (.error dropsFirst) ∉ acts)
    (hbegins : s.accepting = true) (hends : t.accepting = false) :
    s.backlog <+: (Flow.emitted step settled s acts).map Settled.peer := by
  induction acts generalizing s with
  | nil =>
    cases hrun
    rw [hbegins] at hends
    cases hends
  | cons a rest ih =>
    obtain ⟨u, hu, hrest⟩ := Runs.exec_cons_iff.mp hrun
    have herror' : ∀ dropsFirst, .accept4 (.error dropsFirst) ∉ rest := by
      intro dropsFirst hmem
      exact herror dropsFirst (List.mem_cons_of_mem _ hmem)
    rw [Flow.emitted_cons hu, List.map_append]
    cases outcome_of_step hu with
    | connect peer =>
      have htail := ih hrest herror' hbegins
      exact List.IsPrefix.trans (List.prefix_append s.backlog [peer]) htail
    | poll hidle =>
      rw [hidle] at hbegins
      cases hbegins
    | accepts fd peer backlog _ hbacklog =>
      have htail := ih hrest herror' hbegins
      rw [hbacklog]
      simpa [settled, hbacklog] using htail
    | drained _ hbacklog =>
      rw [hbacklog]
      exact List.nil_prefix
    | interrupted => exact ih hrest herror' hbegins
    | fails | drops => exact absurd List.mem_cons_self (herror _)

theorem settled_handed {s : State} {acts : List Action}
    (herror : ∀ dropsFirst, .accept4 (.error dropsFirst) ∉ acts) :
    ∀ c ∈ Flow.emitted step settled s acts, c.reactor ≠ none := by
  induction acts generalizing s with
  | nil => simp [Flow.emitted]
  | cons a rest ih =>
    cases hstep : step s a with
    | none => simp [Flow.emitted, hstep]
    | some u =>
      rw [Flow.emitted_cons hstep]
      intro c hc
      cases List.mem_append.mp hc with
      | inl hfirst =>
        clear hc
        cases outcome_of_step hstep with
        | connect | poll | drained | interrupted => simp [settled] at hfirst
        | accepts _ _ _ _ hbacklog =>
          simp only [settled, hbacklog, List.take_succ_cons, List.take_zero, List.map_cons,
            List.map_nil, List.mem_singleton] at hfirst
          rw [hfirst]
          simp
        | fails | drops => exact absurd List.mem_cons_self (herror _)
      | inr hlater =>
        apply ih _ c hlater
        intro dropsFirst hmem
        exact herror dropsFirst (List.mem_cons_of_mem _ hmem)

/-- A call of `acceptConnection` that ends without an error has handed every connection that
waited when it began to a sub-reactor of the pool, in their order and before any other. -/
theorem acceptConnection_takes_queue {s t : State} {acts : List Action}
    (hrun : Runs.exec step s acts = some t)
    (herror : ∀ dropsFirst, .accept4 (.error dropsFirst) ∉ acts)
    (hbegins : s.accepting = true) (hends : t.accepting = false) :
    s.backlog <+: (Flow.emitted step settled s acts).map Settled.peer ∧
      ∀ c ∈ Flow.emitted step settled s acts,
        c.reactor ≠ none ∧ c.Within s.server.subReactors.length := by
  refine ⟨drains_backlog hrun herror hbegins hends, ?_⟩
  intro c hc
  exact ⟨settled_handed herror c hc,
    Flow.emitted_invariant _ (pool_step _) (within_step _) rfl c hc⟩

/-- Two connections wait, and a third comes meanwhile. -/
def threeWait : State := { listening 2 8 with backlog := [7, 8], accepting := true }

def takesThree : List Action :=
  [.accept4 (.connfd 5), .connect 9, .accept4 (.connfd 6), .accept4 .eintr, .accept4 (.connfd 8),
    .accept4 .eagain]

theorem acceptConnection_takes_queue_three :
    [7, 8] <+: (Flow.emitted step settled threeWait takesThree).map Settled.peer ∧
      ∀ c ∈ Flow.emitted step settled threeWait takesThree, c.reactor ≠ none ∧ c.Within 2 := by
  have hrun : Runs.exec step threeWait takesThree = some _ := rfl
  exact acceptConnection_takes_queue hrun (by decide) rfl rfl

theorem calls_bounded_three :
    ∃ t, Runs.exec step threeWait takesThree = some t ∧
      takesThree.countP Completed + t.rounds ≤
        threeWait.rounds + (Flow.emitted step connected threeWait takesThree).length ∧
      takesThree.countP Completed = 4 := by
  have hrun : Runs.exec step threeWait takesThree = some _ := rfl
  exact ⟨_, hrun, calls_bounded hrun (by decide), by decide⟩

end AcceptLoop
