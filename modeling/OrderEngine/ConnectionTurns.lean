import OrderEngine.AcceptLoop
import OrderEngine.ConnectionRegistry
import OrderEngine.LoopSchedule
import OrderEngine.Library.SideBySide

/-!
# From the kernel's queue to the sub-reactors

The accept loop and the server side by side: an `accept4` that gives a connection is at once the
`handleNewConnection` of the server, with the sub-reactor that the counter selects. The clients'
connections are set up in turn, and in the order in which the clients have connected.
-/
namespace ConnectionTurns

open TcpServer SideBySide
open AcceptLoop (Peer Settled)
open ConnectionBalance (threadNum)
open ReactorPool (turn)

abbrev State := AcceptLoop.State × Server

inductive Action where
  | listener (a : AcceptLoop.Action)
  | server (a : TcpServer.Action)
  deriving DecidableEq, Repr

/-- The index of the sub-reactor that `handleNewConnection` computes. -/
def reactorIndex (s : State) : Nat := s.1.server.reactorIndex.toNat

/-- `acceptConnection` calls `handleNewConnection`, and goes round when it has returned; the server
accepts in no other way. -/
def wiring (messageCallback : Bool) :
    Wiring AcceptLoop.State Server AcceptLoop.Action TcpServer.Action Action where
  left
    | _, .listener a => some a
    | _, .server _ => none
  right
    | s, .listener (.accept4 (.connfd fd)) => some (.accept fd (reactorIndex s) messageCallback)
    | _, .listener _ => none
    | _, .server a => some a
  admits
    | s, .listener (.accept4 _) => s.2.accepting.isNone
    | _, .server (.accept _ _ _) => false
    | _, _ => true

def step (messageCallback : Bool) : State → Action → Option State :=
  SideBySide.step (wiring messageCallback) AcceptLoop.step TcpServer.step

/-- A server that listens, and to which nobody has connected yet. -/
def listening (configured hardwareConcurrency : BitVec 32) : State :=
  (AcceptLoop.listening configured hardwareConcurrency, start)

def IsAccept : TcpServer.Action → Bool
  | .accept _ _ _ => true
  | _ => false

/-- What a step can do, one case for each outcome. -/
inductive Outcome (messageCallback : Bool) (s : State) : Action → State → Prop where
  | deals (fd : Nat) (peer : Peer) (rest : List Peer)
      (hselected : s.1.server.selected.isSome = true) (hbacklog : s.1.backlog = peer :: rest) :
      Outcome messageCallback s (.listener (.accept4 (.connfd fd)))
        ({ s.1 with backlog := rest, server := s.1.server.handleNewConnection },
          s.2.handOver fd (reactorIndex s) messageCallback)
  | listens (a : AcceptLoop.Action) (l : AcceptLoop.State) (hserver : l.server = s.1.server)
      (hnone : (AcceptLoop.settled s.1 a).filterMap Settled.handed = [])
      (hright : (wiring messageCallback).right s (.listener a) = none) :
      Outcome messageCallback s (.listener a) (l, s.2)
  | serves (a : TcpServer.Action) (r : Server) (ha : IsAccept a = false)
      (hstep : TcpServer.step s.2 a = some r) : Outcome messageCallback s (.server a) (s.1, r)

theorem outcome_of_step {messageCallback : Bool} {s t : State} {a : Action}
    (h : step messageCallback s a = some t) : Outcome messageCallback s a t := by
  obtain ⟨hadmits, hleft, hright⟩ := step_eq_some.mp h
  obtain ⟨l, r⟩ := t
  cases a with
  | server a =>
    cases hleft
    refine .serves a r ?_ (Runs.exec_singleton.symm.trans hright)
    cases a <;> first | rfl | cases hadmits
  | listener a =>
    cases AcceptLoop.outcome_of_step (Runs.exec_singleton.symm.trans hleft) with
    | accepts fd peer rest haccepting hbacklog hselected =>
      cases TcpServer.outcome_of_step (Runs.exec_singleton.symm.trans hright)
      exact .deals fd peer rest hselected hbacklog
    | connect | poll | drained | interrupted | fails =>
      cases hright
      exact .listens _ _ rfl rfl rfl
    | drops peer rest _ hbacklog =>
      cases hright
      exact .listens _ _ rfl (by simp [AcceptLoop.settled, hbacklog, Settled.handed]) rfl

/-- A step of the server that is no accept leaves the number of its accepts. -/
theorem not_accept {s t : Server} {a : TcpServer.Action} (ha : IsAccept a = false)
    (h : TcpServer.step s a = some t) : t.accepted = s.accepted := by
  have houtcome := TcpServer.outcome_of_step h
  cases hinternal : ConnectionRegistry.internal a with
  | true => exact (ConnectionRegistry.sameMap_internal houtcome hinternal).accepted
  | false =>
    cases houtcome with
    | accept => cases ha
    | register | remove => rfl
    | _ => cases hinternal

section
variable {configured hardwareConcurrency : BitVec 32} {messageCallback : Bool}

/-- The counter counts the accepts, and has not come to a negative remainder. -/
structure Counted (m : Nat) (s : State) : Prop where
  threads : s.1.server.threadNum = m
  counter : s.1.server.nextReactor = BitVec.ofNat 32 s.2.accepted
  nonneg : ∀ k < s.2.accepted, 0 ≤ turn m k

/-- The sub-reactor that is selected is the next in turn. -/
theorem turn_selected {m : Nat} {s : State} (hs : Counted m s)
    (hselected : s.1.server.selected.isSome = true) :
    0 ≤ turn m s.2.accepted ∧ reactorIndex s = s.2.accepted % m := by
  have hindex : s.1.server.reactorIndex = turn m s.2.accepted := by
    rw [ReactorPool.Server.reactorIndex, hs.threads, hs.counter, turn]
  have hnonneg : 0 ≤ turn m s.2.accepted := by
    rw [← hindex]
    unfold ReactorPool.Server.selected at hselected
    split at hselected
    · cases hselected
    · omega
  have hwithin : ReactorPool.Within m (s.2.accepted + 1) := by
    apply ReactorPool.within_of_turn
    intro k hk
    rcases Nat.lt_succ_iff_lt_or_eq.mp hk with hlt | rfl
    · exact hs.nonneg k hlt
    · exact hnonneg
  refine ⟨hnonneg, ?_⟩
  rw [reactorIndex, hindex, ReactorPool.turn_of_within hwithin (Nat.lt_succ_self _)]
  rfl

theorem counted_step (m : Nat) (s : State) (a : Action) (t : State) (hs : Counted m s)
    (h : step messageCallback s a = some t) : Counted m t := by
  cases outcome_of_step h with
  | deals fd peer rest hselected =>
    refine ⟨hs.threads, ?_, ?_⟩
    · change s.1.server.nextReactor + 1 = BitVec.ofNat 32 (s.2.accepted + 1)
      rw [hs.counter, BitVec.ofNat_add]
      rfl
    · intro k hk
      rcases Nat.lt_succ_iff_lt_or_eq.mp hk with hlt | rfl
      · exact hs.nonneg k hlt
      · exact (turn_selected hs hselected).1
  | listens a l hserver =>
    refine ⟨?_, ?_, hs.nonneg⟩
    · exact (congrArg ReactorPool.Server.threadNum hserver).trans hs.threads
    · exact (congrArg ReactorPool.Server.nextReactor hserver).trans hs.counter
  | serves a r ha hstep =>
    have haccepted := not_accept ha hstep
    refine ⟨hs.threads, ?_, ?_⟩
    · rw [hs.counter, haccepted]
    · rw [haccepted]
      exact hs.nonneg

/-- The connections that are handed to the sub-reactor `j`, in turn. -/
def dealt (m j n : Nat) : List ConnId := (List.range n).filter (fun k => k % m = j)

theorem dealt_succ (m j n : Nat) :
    dealt m j (n + 1) = dealt m j n ++ if n % m = j then [n] else [] := by
  simp [dealt, List.range_succ, List.filter_append, List.filter_cons]

theorem dealt_step (m j : Nat) (s : State) (a : Action) (t : State) (hs : Counted m s)
    (h : step messageCallback s a = some t) :
    dealt m j t.2.accepted =
      dealt m j s.2.accepted ++ onRight (wiring messageCallback) (LoopSchedule.accepts j) s a := by
  cases outcome_of_step h with
  | deals fd peer rest hselected =>
    obtain ⟨_, hindex⟩ := turn_selected hs hselected
    change dealt m j (s.2.accepted + 1) =
      dealt m j s.2.accepted ++ if reactorIndex s = j then [s.2.accepted] else []
    rw [hindex, dealt_succ]
  | listens a l _ _ hright =>
    rw [onRight, hright]
    exact (List.append_nil _).symm
  | serves a r ha hstep =>
    have hnone : LoopSchedule.accepts j s.2 a = [] := by
      cases a <;> first | rfl | cases ha
    change dealt m j r.accepted = dealt m j s.2.accepted ++ LoopSchedule.accepts j s.2 a
    rw [hnone, List.append_nil, not_accept ha hstep]

/-- As many connections are accepted as clients are handed over. -/
def Admits (peers : List Peer) (s t : State) : Prop := t.2.accepted = s.2.accepted + peers.length

theorem admits_refl (s : State) : Admits [] s s := rfl

theorem admits_append (first rest : List Peer) (s t u : State) (h : Admits first s t)
    (h' : Admits rest t u) : Admits (first ++ rest) s u := by
  unfold Admits at *
  rw [h', h, List.length_append, Nat.add_assoc]

/-- The connections that leave the kernel's queue. -/
def settled (messageCallback : Bool) : State → Action → List Settled :=
  onLeft (wiring messageCallback) AcceptLoop.settled

theorem admits_step (s : State) (a : Action) (t : State)
    (h : step messageCallback s a = some t) :
    Admits ((settled messageCallback s a).filterMap Settled.handed) s t := by
  unfold Admits
  cases outcome_of_step h with
  | deals fd peer rest _ hbacklog =>
    have hone : (settled messageCallback s (.listener (.accept4 (.connfd fd)))).filterMap
        Settled.handed = [peer] := by
      simp [settled, onLeft, wiring, AcceptLoop.settled, hbacklog, Settled.handed]
    rw [hone]
    rfl
  | listens a l _ hnone =>
    have hsettled : settled messageCallback s (.listener a) = AcceptLoop.settled s.1 a := rfl
    rw [hsettled, hnone]
    rfl
  | serves a r ha hstep => exact not_accept ha hstep

theorem backlog_step (s : State) (a : Action) (t : State)
    (h : step messageCallback s a = some t) :
    Flow.Conserves (fun s : State => s.1.backlog)
      (onLeft (wiring messageCallback) AcceptLoop.connected)
      (onLeft (wiring messageCallback) (fun s a => (AcceptLoop.settled s a).map Settled.peer))
      s a t :=
  conserves_left AcceptLoop.conserves_step h

theorem settled_peers (messageCallback : Bool) :
    onLeft (wiring messageCallback) (fun s a => (AcceptLoop.settled s a).map Settled.peer) =
      fun s a => (settled messageCallback s a).map Settled.peer := by
  funext s a
  cases a <;> rfl

theorem tasks_step (j : Nat) (s : State) (a : Action) (t : State)
    (h : step messageCallback s a = some t) :
    Flow.Conserves (fun s : State => (s.2.loops j).tasks)
      (onRight (wiring messageCallback) (LoopSchedule.accepts j))
      (onRight (wiring messageCallback) (LoopSchedule.setUps j)) s a t :=
  conserves_right (LoopSchedule.tasks_conserve j) h

theorem counted_listening :
    Counted (threadNum configured hardwareConcurrency).toNat
      (listening configured hardwareConcurrency) := by
  refine ⟨?_, ?_, ?_⟩
  · refine ConnectionBalance.start_keeps.2.trans ?_
    simp only [ConnectionBalance.server, ReactorPool.create]
    split <;> omega
  · exact ConnectionBalance.start_keeps.1
  · intro k hk
    cases hk

/-- In every run of the accept loop with the sub-reactors, the clients leave the kernel's queue in
the order in which they have connected, and are served but for those whose connection an error has
used up: of those that are served, the connection of the client number `k` is handed to the
sub-reactor `k % thread_num_`, and each sub-reactor sets its connections up in that order, once
each, save those that still wait. -/
theorem connections_in_turn {acts : List Action} {s : State}
    (hrun : Runs.exec (step messageCallback) (listening configured hardwareConcurrency) acts =
      some s) :
    let left := Flow.emitted (step messageCallback) (settled messageCallback)
      (listening configured hardwareConcurrency) acts
    let peers := left.filterMap Settled.handed
    left.map Settled.peer ++ s.1.backlog = Flow.emitted (step messageCallback)
        (onLeft (wiring messageCallback) AcceptLoop.connected)
        (listening configured hardwareConcurrency) acts ∧
      peers.length = s.2.accepted ∧
      ∀ j, Flow.emitted (step messageCallback)
          (onRight (wiring messageCallback) (LoopSchedule.setUps j))
          (listening configured hardwareConcurrency) acts ++ (s.2.loops j).tasks =
        dealt (threadNum configured hardwareConcurrency).toNat j peers.length := by
  intro left peers
  have hpeers : Admits peers (listening configured hardwareConcurrency) s := by
    have hemitted := Flow.relates_exec admits_refl admits_append (fun _ => True)
      (fun _ _ => True) (fun _ _ _ _ _ => trivial) (fun s a t _ _ h => admits_step s a t h) trivial
      (Runs.along_of_forall (fun _ _ => trivial)) hrun
    rwa [Flow.emitted_filterMap] at hemitted
  have hlength : s.2.accepted = peers.length := hpeers.trans (Nat.zero_add _)
  refine ⟨?_, hlength.symm, ?_⟩
  · have hqueue := Flow.taken_eq backlog_step rfl hrun
    rw [settled_peers, Flow.emitted_map] at hqueue
    exact hqueue
  · intro j
    have hturns := Flow.appended_exec _ (fun s : State => dealt _ j s.2.accepted) (counted_step _)
      (dealt_step _ j) counted_listening hrun
    rw [← hlength]
    exact (Flow.taken_eq (tasks_step j) rfl hrun).trans hturns.symm

end

/-- Four clients and two sub-reactors: an error uses up the third connection, and the second
sub-reactor is the first to set one up. -/
def fourClients : List Action :=
  [.listener (.connect 7), .listener (.connect 8), .listener (.connect 9), .listener .poll,
    .listener (.accept4 (.connfd 5)), .server .register, .listener (.accept4 (.connfd 6)),
    .server .register, .listener (.accept4 (.error true)), .server (.runTask 1 true),
    .listener (.connect 4), .listener .poll, .listener (.accept4 (.connfd 10)),
    .server (.runTask 0 true)]

theorem connections_in_turn_fourClients :
    ∃ s, Runs.exec (step true) (listening 2 8) fourClients = some s ∧
      (Flow.emitted (step true) (settled true) (listening 2 8) fourClients).map Settled.peer ++
          s.1.backlog = [7, 8, 9, 4] ∧
      Flow.emitted (step true) (settled true) (listening 2 8) fourClients =
        [⟨7, some 0⟩, ⟨8, some 1⟩, ⟨9, none⟩, ⟨4, some 0⟩] ∧
      Flow.emitted (step true) (onRight (wiring true) (LoopSchedule.setUps 0)) (listening 2 8)
        fourClients ++ (s.2.loops 0).tasks = [0, 2] := by
  have hrun : Runs.exec (step true) (listening 2 8) fourClients = some _ := rfl
  obtain ⟨hqueue, _, hturns⟩ := connections_in_turn hrun
  exact ⟨_, hrun, hqueue, by decide, hturns 0⟩

end ConnectionTurns
