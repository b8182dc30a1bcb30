import OrderEngine.AcceptTeardown
import OrderEngine.ReactorQueue
import OrderEngine.TcpServer
import OrderEngine.Library.EventLoop

/-!
# The event loop, in the reactor and in the server

The server takes of a sub-reactor only its queued tasks, the active channels that are left and its
thread's stack. This is what the reactor provides: the steps of the one and of the other are steps
of one event loop, which dispatches what it has polled and then runs what was queued.
-/
namespace LoopSchedule

open EventLoop (Label handed performed found handled)

section
open Reactor ReactorQueue
open AcceptTeardown (coming)

/-- The channels among the active ones, but for the wakeup channel, which the reactor handles. -/
def channels (active : List Active) : List Nat :=
  active.filterMap (fun
    | .channel id => some id
    | .wakeupChannel => none)

def ofReactor (s : Reactor.State) : EventLoop.State Task Nat where
  tasks := waiting s
  ready := channels (coming s.pc)
  busy := s.pc.inHandler

/-- The step of the event loop that a step of the reactor is, if any. -/
def reactorLabel (s : Reactor.State) : Reactor.Action → Option (Label Task Nat)
  | .pollReturns active => some (.find (channels active))
  | .dispatchNext =>
    match s.pc with
    | .dispatch (.channel _ :: _) => some .handle
    | _ => none
  | .nextTask =>
    match s.pc with
    | .batch (_ :: _) => some .perform
    | _ => none
  | .callbackReturns | .taskReturns => some .finish
  | .queueInLoop _ task => some (.hand task)
  | .runInLoop t task => if s.isInLoopThread t then none else some (.hand task)
  | _ => none

/-- The channels that `poll` finds active. -/
def polled (_ : Reactor.State) : Reactor.Action → List Nat
  | .pollReturns active => channels active
  | _ => []

/-- The channel whose `handleEvent` begins. -/
def dispatched (s : Reactor.State) : Reactor.Action → List Nat
  | .dispatchNext =>
    match s.pc with
    | .dispatch (.channel id :: _) => [id]
    | _ => []
  | _ => []

theorem ofReactor_wakeup (s : Reactor.State) : ofReactor s.wakeup = ofReactor s := by
  obtain ⟨n, _, h⟩ := wakeup_eq s
  rw [h]
  rfl

theorem reactor_step (loop : Thread) (s : Reactor.State) (a : Reactor.Action) (t : Reactor.State)
    (h : Reactor.step loop s a = some t) :
    Runs.exec EventLoop.step (ofReactor s) (reactorLabel s a).toList = some (ofReactor t) := by
  cases Reactor.outcome_of_step h with
  | enterLoop hpc | leaves hpc | polls hpc | dispatchEnds hpc | dispatchWakeup _ hpc
  | swapTasks hpc | batchEnds hpc =>
    simp [ofReactor, reactorLabel, waiting, batchRest, coming, channels, Pc.inHandler, hpc,
      State.enterLoop, State.handleWakeup, State.swapTasks]
  | pollReturns active hpc | callbackReturns rest hpc | taskReturns rest hpc
  | dispatchChannel id rest hpc | taskBegins task rest hpc =>
    simp [ofReactor, reactorLabel, waiting, batchRest, coming, channels, Pc.inHandler, hpc,
      EventLoop.step, Runs.guarded]
  | queueInLoop t task => simp [ofReactor, reactorLabel, EventLoop.step, waiting, State.pushTask]
  | runsQueued t task _ hloop =>
    simp [ofReactor, reactorLabel, EventLoop.step, waiting, State.pushTask, hloop]
  | runsInline t task _ hloop =>
    simp [ofReactor, reactorLabel, waiting, State.runInline, hloop]
  | wakesAfterPush t | wakesAfterQuit t =>
    rw [ofReactor_wakeup]
    rfl
  | skipsWakeup | quitsInLoop | inlineReturns | quit | updateChannel => rfl

theorem found_polled (s : Reactor.State) (a : Reactor.Action) :
    (reactorLabel s a).elim [] (found (ofReactor s)) = polled s a := by
  cases a with
  | dispatchNext | nextTask | runInLoop =>
    simp only [reactorLabel, polled]
    split <;> rfl
  | _ => rfl

theorem handled_dispatched (s : Reactor.State) (a : Reactor.Action) :
    (reactorLabel s a).elim [] (handled (ofReactor s)) = dispatched s a := by
  cases a with
  | dispatchNext =>
    simp only [reactorLabel, dispatched]
    split
    · rename_i id rest hpc
      simp [handled, ofReactor, coming, channels, hpc]
    · rfl
  | nextTask | runInLoop =>
    simp only [reactorLabel, dispatched]
    split <;> rfl
  | _ => rfl

/-- The channels are handled in the order in which they are found. -/
theorem channels_conserve (loop : Thread) (s : Reactor.State) (a : Reactor.Action)
    (t : Reactor.State) (h : Reactor.step loop s a = some t) :
    Flow.Conserves (fun s : Reactor.State => channels (coming s.pc)) polled dispatched s a t :=
  Flow.conserves_view ofReactor EventLoop.events_conserved (reactor_step loop s a t h)
    (found_polled s a) (handled_dispatched s a)

/-- In every run of a reactor, whatever other threads queue and wake meanwhile, the loop thread
takes the steps of an event loop, and it calls the handlers of the channels in the order in which
its polls have reported them, each once, save those that are left. -/
theorem reactor_schedules {constructor loop : Thread} {acts : List Reactor.Action}
    {s : Reactor.State}
    (hrun : Runs.exec (Reactor.step loop) (construct constructor) acts = some s) :
    Runs.exec EventLoop.step EventLoop.idle
        (Flow.emitted (Reactor.step loop) (fun s a => (reactorLabel s a).toList)
          (construct constructor) acts) = some (ofReactor s) ∧
      Flow.emitted (Reactor.step loop) dispatched (construct constructor) acts ++
          channels (coming s.pc) =
        Flow.emitted (Reactor.step loop) polled (construct constructor) acts := by
  constructor
  · exact Flow.exec_emitted (fun _ => True) ofReactor _ (fun _ _ _ _ _ => trivial)
      (fun s a t _ h => reactor_step loop s a t h) trivial hrun
  · exact Flow.taken_eq (channels_conserve loop) rfl hrun

/-- A poll that reports two channels and the eventfd between them, with a task that another thread
queues during the first callback; the second callback has begun. -/
def wokenMeanwhile : List Reactor.Action :=
  [.queueInLoop 1 5, .wakeupAfterPush 1, .enterLoop, .testQuit,
    .pollReturns [.channel 7, .wakeupChannel, .channel 8], .dispatchNext, .queueInLoop 1 6,
    .callbackReturns, .dispatchNext, .wakeupAfterPush 1, .dispatchNext]

theorem reactor_schedules_wokenMeanwhile : ∃ s,
    Runs.exec (Reactor.step 0) (construct 0) wokenMeanwhile = some s ∧
    Flow.emitted (Reactor.step 0) dispatched (construct 0) wokenMeanwhile = [7, 8] ∧
    ∃ labels, Runs.exec EventLoop.step EventLoop.idle labels = some (ofReactor s) ∧
      (ofReactor s).tasks = [5, 6] ∧ (ofReactor s).busy = true := by
  have hrun : Runs.exec (Reactor.step 0) (construct 0) wokenMeanwhile = some _ := rfl
  obtain ⟨hloop, hchannels⟩ := reactor_schedules hrun
  exact ⟨_, hrun, (List.append_nil _).symm.trans hchannels, _, hloop, rfl, rfl⟩

end

section
open EpollPoller TcpConnection TcpServer

def ofLoop (l : Loop) : EventLoop.State ConnId (ConnId × EventMask) where
  tasks := l.tasks
  ready := l.active
  busy := !l.stack.isEmpty

/-- The step of the event loop that a step concerning the sub-reactor is, if any; the loop is
done with a handler or a task when the stack is empty. -/
def ownLabel (s : Server) : TcpServer.Action → Option (Label ConnId (ConnId × EventMask))
  | .accept _ _ _ => some (.hand s.accepted)
  | .runTask _ _ => some .perform
  | .poll _ active => some (.find active)
  | .dispatch _ => some .handle
  | .eventDone j | .userReturns j =>
    if (s.loops j).stack.tail.isEmpty then some .finish else none
  | _ => none

def serverLabel (j : Nat) (s : Server) (a : TcpServer.Action) :
    Option (Label ConnId (ConnId × EventMask)) :=
  if loopOf a = some j then ownLabel s a else none

/-- The connection that is handed to the sub-reactor. -/
def accepts (j : Nat) (s : Server) : TcpServer.Action → List ConnId
  | .accept _ reactor _ => if reactor = j then [s.accepted] else []
  | _ => []

/-- The connection whose set-up task begins. -/
def setUps (j : Nat) (s : Server) : TcpServer.Action → List ConnId
  | .runTask i _ => if i = j then (s.loops j).tasks.take 1 else []
  | _ => []

/-- The events that the sub-reactor's poll reports. -/
def reports (j : Nat) (_ : Server) : TcpServer.Action → List (ConnId × EventMask)
  | .poll i active => if i = j then active else []
  | _ => []

/-- The event whose handling begins. -/
def dispatches (j : Nat) (s : Server) : TcpServer.Action → List (ConnId × EventMask)
  | .dispatch i => if i = j then (s.loops j).active.take 1 else []
  | _ => []

/-- A callback or a close on the thread of the sub-reactor leaves the thread busy. -/
theorem ofLoop_push (l : Loop) (more : List Frame) {stack : List Frame} (hl : l.stack ≠ [])
    (hstack : stack ≠ []) : ofLoop { l with stack := more ++ stack } = ofLoop l := by
  have hpushed : more ++ stack ≠ [] := List.append_ne_nil_of_right_ne_nil more hstack
  simp only [ofLoop, List.isEmpty_eq_false_iff.mpr hpushed, List.isEmpty_eq_false_iff.mpr hl]

theorem ofLoop_pop (l : Loop) {f : Frame} {stack : List Frame} (hl : l.stack = f :: stack) :
    Runs.exec EventLoop.step (ofLoop l)
      (if l.stack.tail.isEmpty then some Label.finish else none).toList =
        some (ofLoop { l with stack := stack }) := by
  cases stack with
  | nil => simp [ofLoop, hl, EventLoop.step, Runs.guarded]
  | cons g stack => simp [ofLoop, hl]

theorem stack_of_mayUse {s : Server} {j : Nat} {c : ConnId} (h : s.UserMayUse j c) :
    (s.loops j).stack ≠ [] := by
  intro hstack
  simp [Server.UserMayUse, hstack] at h

theorem own_step {s t : Server} {a : TcpServer.Action} (h : TcpServer.step s a = some t)
    {j : Nat} (hj : loopOf a = some j) :
    Runs.exec EventLoop.step (ofLoop (s.loops j)) (ownLabel s a).toList =
      some (ofLoop (t.loops j)) := by
  have hpoll : ∀ active, a = .poll j active → (s.loops j).active = [] := by
    rintro active rfl
    exact (Runs.guarded_eq_some.mp h).1.2.1
  cases TcpServer.outcome_of_step h with
  | register => cases hj
  | accept =>
    cases hj
    simp [ownLabel, ofLoop, EventLoop.step, Server.handOver]
  | runTask i succeeds c rest htasks hstack hactive =>
    cases hj
    simp [ownLabel, ofLoop, EventLoop.step, Runs.guarded, Server.setUp, htasks, hstack, hactive]
  | poll i active hstack =>
    cases hj
    simp [ownLabel, ofLoop, EventLoop.step, Runs.guarded, Server.setLoop, hstack, hpoll active rfl]
  | dispatch i c revents rest hactive hstack =>
    cases hj
    simp [ownLabel, ofLoop, EventLoop.step, Runs.guarded, Server.setLoop, hactive, hstack]
  | callback i read write c cb todo stack hstack =>
    cases hj
    obtain ⟨more, _, _, hloops⟩ := loops_react s j c (.event c todo :: stack)
      (Server.callback (s.conn c) read write cb)
    rw [hloops, Function.update_self, ofLoop_push]
    · rfl
    · simp [hstack]
    · simp
  | userClose i c hmay =>
    cases hj
    obtain ⟨more, _, _, hloops⟩ := loops_closeConnection s j c (s.loops j).stack
    have hstack := stack_of_mayUse hmay
    rw [hloops, Function.update_self, ofLoop_push _ _ hstack hstack]
    rfl
  | userSend =>
    cases hj
    rfl
  | eventDone i c stack hstack =>
    cases hj
    simp only [Server.setStack, Server.setLoop, Function.update_self]
    exact ofLoop_pop _ hstack
  | userReturns i f stack hstack =>
    cases hj
    have hloops : (s.userReturns j stack f).loops j = { s.loops j with stack := stack } := by
      cases f <;> simp [Server.userReturns, Server.setStack, Server.setLoop]
    rw [hloops]
    exact ofLoop_pop _ hstack
  | remove i c stack hstack =>
    cases hj
    simp [ownLabel, ofLoop, Server.removeConnection, Server.setStack, Server.setLoop, hstack]

theorem server_step (j : Nat) (s : Server) (a : TcpServer.Action) (t : Server)
    (h : TcpServer.step s a = some t) :
    Runs.exec EventLoop.step (ofLoop (s.loops j)) (serverLabel j s a).toList =
      some (ofLoop (t.loops j)) := by
  unfold serverLabel
  split
  · rename_i hj
    exact own_step h hj
  · rename_i hj
    rw [loops_of_ne h hj]
    rfl

/-- What a step emits through its label, it emits only where it concerns the sub-reactor. -/
theorem serverLabel_elim {Item : Type} (j : Nat) (s : Server) (a : TcpServer.Action)
    (emit : Label ConnId (ConnId × EventMask) → List Item) :
    (serverLabel j s a).elim [] emit =
      if loopOf a = some j then (ownLabel s a).elim [] emit else [] := by
  unfold serverLabel
  split <;> rfl

/-- The end of a handler or a task emits nothing, whether or not it is the outermost frame's. -/
theorem elim_finish {Item : Type} (emit : Label ConnId (ConnId × EventMask) → List Item)
    (hfinish : emit .finish = []) (outermost : Bool) :
    (if outermost then some Label.finish else none).elim [] emit = [] := by
  cases outermost with
  | false => rfl
  | true => exact hfinish

theorem handed_accepts (j : Nat) (s : Server) (a : TcpServer.Action) :
    (serverLabel j s a).elim [] (handed (ofLoop (s.loops j))) = accepts j s a := by
  rw [serverLabel_elim]
  cases a with
  | eventDone | userReturns => simp only [ownLabel, elim_finish (handed _) rfl, ite_self, accepts]
  | _ => simp [loopOf, ownLabel, handed, accepts]

theorem performed_setUps (j : Nat) (s : Server) (a : TcpServer.Action) :
    (serverLabel j s a).elim [] (performed (ofLoop (s.loops j))) = setUps j s a := by
  rw [serverLabel_elim]
  cases a with
  | eventDone | userReturns => simp only [ownLabel, elim_finish (performed _) rfl, ite_self, setUps]
  | _ => simp [loopOf, ownLabel, performed, setUps, ofLoop]

theorem found_reports (j : Nat) (s : Server) (a : TcpServer.Action) :
    (serverLabel j s a).elim [] (found (ofLoop (s.loops j))) = reports j s a := by
  rw [serverLabel_elim]
  cases a with
  | eventDone | userReturns => simp only [ownLabel, elim_finish (found _) rfl, ite_self, reports]
  | _ => simp [loopOf, ownLabel, found, reports]

theorem handled_dispatches (j : Nat) (s : Server) (a : TcpServer.Action) :
    (serverLabel j s a).elim [] (handled (ofLoop (s.loops j))) = dispatches j s a := by
  rw [serverLabel_elim]
  cases a with
  | eventDone | userReturns =>
    simp only [ownLabel, elim_finish (handled _) rfl, ite_self, dispatches]
  | _ => simp [loopOf, ownLabel, handled, dispatches, ofLoop]

/-- The connections are set up in the order in which they are handed over. -/
theorem tasks_conserve (j : Nat) (s : Server) (a : TcpServer.Action) (t : Server)
    (h : TcpServer.step s a = some t) :
    Flow.Conserves (fun s : Server => (s.loops j).tasks) (accepts j) (setUps j) s a t :=
  Flow.conserves_view (fun s : Server => ofLoop (s.loops j)) EventLoop.tasks_conserved
    (server_step j s a t h) (handed_accepts j s a) (performed_setUps j s a)

/-- The events are handled in the order in which they are reported. -/
theorem events_conserve (j : Nat) (s : Server) (a : TcpServer.Action) (t : Server)
    (h : TcpServer.step s a = some t) :
    Flow.Conserves (fun s : Server => (s.loops j).active) (reports j) (dispatches j) s a t :=
  Flow.conserves_view (fun s : Server => ofLoop (s.loops j)) EventLoop.events_conserved
    (server_step j s a t h) (found_reports j s a) (handled_dispatches j s a)

/-- In every run of the server each sub-reactor's thread takes the steps of an event loop, whatever
the other threads do: it sets the connections up in the order in which they were handed to it, and
handles the events in the order in which its polls have reported them, each once, save those that
are left. -/
theorem sub_reactors_schedule (j : Nat) {acts : List TcpServer.Action} {s : Server}
    (hrun : Runs.exec TcpServer.step start acts = some s) :
    Runs.exec EventLoop.step EventLoop.idle
        (Flow.emitted TcpServer.step (fun s a => (serverLabel j s a).toList) start acts) =
      some (ofLoop (s.loops j)) ∧
    Flow.emitted TcpServer.step (setUps j) start acts ++ (s.loops j).tasks =
      Flow.emitted TcpServer.step (accepts j) start acts ∧
    Flow.emitted TcpServer.step (dispatches j) start acts ++ (s.loops j).active =
      Flow.emitted TcpServer.step (reports j) start acts := by
  refine ⟨?_, Flow.taken_eq (tasks_conserve j) rfl hrun, Flow.taken_eq (events_conserve j) rfl hrun⟩
  exact Flow.exec_emitted (fun _ => True) (fun s : Server => ofLoop (s.loops j)) _
    (fun _ _ _ _ _ => trivial) (fun s a t _ h => server_step j s a t h) trivial hrun

/-- Two connections of one sub-reactor, and a poll that reports both; the handling of the first
event has begun. -/
def twoHanded : List TcpServer.Action :=
  [.accept 7 1 true, .register, .accept 8 1 true, .runTask 1 true, .userReturns 1,
    .register, .runTask 1 true, .userReturns 1,
    .poll 1 [(1, epollIn), (0, epollOut)], .dispatch 1]

theorem sub_reactors_schedule_twoHanded : ∃ s, Runs.exec TcpServer.step start twoHanded = some s ∧
    Flow.emitted TcpServer.step (accepts 1) start twoHanded = [0, 1] ∧
    Flow.emitted TcpServer.step (setUps 1) start twoHanded = [0, 1] ∧
    Flow.emitted TcpServer.step (dispatches 1) start twoHanded ++ (s.loops 1).active =
      [(1, epollIn), (0, epollOut)] := by
  have hrun : Runs.exec TcpServer.step start twoHanded = some _ := rfl
  obtain ⟨_, htasks, hevents⟩ := sub_reactors_schedule 1 hrun
  refine ⟨_, hrun, rfl, ?_, hevents⟩
  exact (List.append_nil _).symm.trans htasks

end

end LoopSchedule
