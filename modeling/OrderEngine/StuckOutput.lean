import OrderEngine.Broadcast

/-!
# Output that waits

`send` leaves in the buffer what the kernel does not take at once, for `handleWrite`. The set-up
task asks for `kReadEvent`, and no path asks for more: a kernel that reports what it is asked to
never has `handleWrite` called, and a `send` that no other one overlaps writes only while nothing
waits.
-/
namespace StuckOutput

open EpollPoller TcpConnection Broadcast
open TcpServer (Action ConnId Frame Loop Server closeConnection_cases react_cases)

/-- What `epoll_wait` reports of a channel: what its mask asks for, an error or a hang-up. -/
def reportable (mask : EventMask) : EventMask := mask ||| epollErr ||| epollHup

/-- The reported events are ones that the interest set asks for. -/
def Asked (s : Server) (j : Nat) (active : List (ConnId × EventMask)) : Prop :=
  ∀ e ∈ active, ∀ entry ∈ (s.loops j).poller.interest (s.conn e.1).sockfd,
    e.2 &&& ~~~(reportable entry.2) = 0

instance (s : Server) (j : Nat) (active : List (ConnId × EventMask)) :
    Decidable (Asked s j active) :=
  inferInstanceAs (Decidable (∀ e ∈ active, _))

/-- The sub-reactor whose poll returns, and the events that it reports. -/
def polls : Call → Option (Nat × List (ConnId × EventMask))
  | .server (.poll j active) => some (j, active)
  | _ => none

/-- The kernel reports only what it is asked to. -/
def Reports (s : State) (call : Call) : Prop := ∀ p ∈ polls call, Asked s.server p.1 p.2

instance (s : State) (call : Call) : Decidable (Reports s call) :=
  inferInstanceAs (Decidable (∀ p ∈ polls call, _))

/-- The kernel reports what it is asked to, and sends to one connection do not overlap. -/
def Admits (s : State) (call : Call) : Prop := Reports s call ∧ Serial s call

instance (s : State) (call : Call) : Decidable (Admits s call) :=
  inferInstanceAs (Decidable (_ ∧ _))

/-- The frame has a `handleWrite` to call. -/
def writes : Frame → Bool
  | .event _ todo => .write ∈ todo
  | _ => false

/-- The sub-reactor is asked to report no writable socket, and has none to dispatch. -/
structure LoopReads (l : Loop) : Prop where
  masks : ∀ fd entry, l.poller.interest fd = some entry → entry.2 = kReadEvent
  active : ∀ e ∈ l.active, e.2 &&& epollOut = 0
  frames : ∀ f ∈ l.stack, writes f = false

def Reads (s : Server) : Prop := ∀ j, LoopReads (s.loops j)

theorem loopReads_empty : LoopReads .empty := by
  constructor <;> simp [Loop.empty, Poller.empty]

theorem reads_update {s t : Server} (h : Reads s) {j : Nat} {l : Loop}
    (hloops : t.loops = Function.update s.loops j l) (hl : LoopReads l) : Reads t := by
  rw [Reads, hloops]
  exact (Function.forall_update_iff s.loops (fun _ => LoopReads)).mpr ⟨hl, fun i _ => h i⟩

theorem reads_stack {s t : Server} (h : Reads s) {j : Nat} {stack : List Frame}
    (hloops : t.loops = Function.update s.loops j { s.loops j with stack := stack })
    (hstack : ∀ f ∈ stack, writes f = false) : Reads t :=
  reads_update h hloops ⟨(h j).masks, (h j).active, hstack⟩

theorem frames_cons {f : Frame} {stack : List Frame} (hf : writes f = false)
    (hstack : ∀ g ∈ stack, writes g = false) : ∀ g ∈ f :: stack, writes g = false :=
  List.forall_mem_cons.mpr ⟨hf, hstack⟩

theorem reads_closeConnection {s : Server} (h : Reads s) (j : Nat) (c : ConnId)
    {stack : List Frame} (hstack : ∀ f ∈ stack, writes f = false) :
    Reads (s.closeConnection j c stack) := by
  rcases closeConnection_cases s j c stack with ⟨_, heq⟩ | ⟨_, heq⟩
  · rw [heq]
    exact reads_stack h rfl (frames_cons rfl hstack)
  · rw [heq]
    exact reads_stack h rfl hstack

theorem frames_of_stack {s : Server} (h : Reads s) {j : Nat} {f : Frame} {stack : List Frame}
    (hstack : (s.loops j).stack = f :: stack) :
    writes f = false ∧ ∀ g ∈ stack, writes g = false := by
  have hframes := (h j).frames
  rw [hstack] at hframes
  exact List.forall_mem_cons.mp hframes

/-- `handleEvent` calls the write callback for `EPOLLOUT` only. -/
theorem write_mem_handleEvent {revents : EventMask} :
    .write ∈ handleEvent revents ↔ revents &&& epollOut ≠ 0 := by
  simp only [handleEvent, List.mem_append]
  constructor
  · rintro (((h | h) | h) | h)
    all_goals
      split at h
      · simp_all
      · cases h
  · intro h
    have hout : (revents &&& epollOut != 0) = true := bne_iff_ne.mpr h
    rw [if_pos hout]
    exact .inr List.mem_cons_self

/-- An event that was asked for with `kReadEvent` is no writable socket. -/
theorem not_out_of_reportable {revents : EventMask}
    (h : revents &&& ~~~(reportable kReadEvent) = 0) : revents &&& epollOut = 0 := by
  have hout : epollOut = ~~~(reportable kReadEvent) &&& epollOut := by decide
  rw [hout, ← BitVec.and_assoc, h]
  simp

theorem loopReads_setUp {s : Server} (h : Reads s) (j : Nat) (c : ConnId) (rest : List ConnId)
    (succeeds : Bool) : LoopReads ((s.setUp j c rest succeeds).loops j) := by
  simp only [Server.setUp, Function.update_self]
  refine ⟨?_, (h j).active, frames_cons rfl (by simp)⟩
  intro fd entry hentry
  simp only [enableReading_create] at hentry
  split at hentry
  · by_cases hfd : fd = (s.conn c).sockfd
    · subst hfd
      rw [Function.update_self] at hentry
      cases hentry
      rfl
    · rw [Function.update_of_ne hfd] at hentry
      exact (h j).masks fd entry hentry
  · exact (h j).masks fd entry hentry

theorem reads_action {s s' : Server} {a : Action} (h : Reads s)
    (hasked : ∀ j active, a = .poll j active → Asked s j active)
    (hstep : TcpServer.step s a = some s') : Reads s' := by
  cases TcpServer.outcome_of_step hstep with
  | accept fd reactor messageCallback =>
    exact reads_update h rfl ⟨(h reactor).masks, (h reactor).active, (h reactor).frames⟩
  | register => exact h
  | runTask j succeeds c rest =>
    have hloops : (s.setUp j c rest succeeds).loops =
        Function.update s.loops j ((s.setUp j c rest succeeds).loops j) := by
      simp [Server.setUp]
    exact reads_update h hloops (loopReads_setUp h j c rest succeeds)
  | poll j active _ hregistered =>
    refine reads_update h rfl ⟨(h j).masks, ?_, (h j).frames⟩
    intro e he
    obtain ⟨mask, hinterest⟩ := ServerShape.interest_of_registered (hregistered e he)
    have hreported := hasked j active rfl e he _ hinterest
    rw [(h j).masks _ _ hinterest] at hreported
    exact not_out_of_reportable hreported
  | dispatch j c revents rest hactive =>
    have hall := (h j).active
    rw [hactive] at hall
    have hevent := hall (c, revents) List.mem_cons_self
    refine reads_update h rfl ⟨(h j).masks, fun e he => hall e (List.mem_cons_of_mem _ he), ?_⟩
    apply frames_cons
    · simpa [writes, write_mem_handleEvent] using hevent
    · simp
  | callback j read write c cb todo stack hstack =>
    obtain ⟨hevent, htail⟩ := frames_of_stack h hstack
    have htodo : ∀ f ∈ .event c todo :: stack, writes f = false := by
      apply frames_cons
      · simp only [writes, List.mem_cons, decide_eq_false_iff_not, not_or] at hevent ⊢
        exact hevent.2
      · exact htail
    rcases react_cases s j c (.event c todo :: stack) read write cb with
      ⟨conn, _, heq⟩ | ⟨conn, _, heq⟩ | ⟨_, heq⟩
    · rw [heq]
      exact reads_stack h rfl htodo
    · rw [heq]
      exact reads_stack h rfl (frames_cons rfl htodo)
    · rw [heq]
      exact reads_closeConnection h j c htodo
  | eventDone j c stack hstack => exact reads_stack h rfl (frames_of_stack h hstack).2
  | userClose j c => exact reads_closeConnection h j c (h j).frames
  | userSend => exact h
  | userReturns j f stack hstack =>
    have htail := (frames_of_stack h hstack).2
    cases f <;> exact reads_stack h rfl htail
  | remove j c stack hstack =>
    exact reads_stack h rfl (frames_cons rfl (frames_of_stack h hstack).2)

/-- What holds of every state that is reached by such steps. -/
structure Idle (s : State) : Prop where
  apart : Apart s
  reads : Reads s.server

/-- `handleWrite` is not called. -/
theorem not_writing {s : State} (hs : Idle s) {j : Nat} {c : ConnId} {todo : List Callback}
    {stack : List Frame} : (s.server.loops j).stack ≠ .event c (.write :: todo) :: stack := by
  intro hstack
  have hevent := (frames_of_stack hs.reads hstack).1
  simp [writes] at hevent

theorem not_erasing {s : State} (hs : Idle s) (who : Option Nat) (c : ConnId)
    (write : WriteResult) : s.uses who ≠ some (c, .writes write) := by
  intro huse
  obtain ⟨j, todo, stack, _, hstack, _⟩ := (hs.apart.well.uses who c _ huse).writes write rfl
  exact not_writing hs hstack

theorem idle_step (s : State) (call : Call) (t : State) (hs : Idle s) (hadmits : Admits s call)
    (h : step s call = some t) : Idle t := by
  refine ⟨apart_step s call t hs.apart hadmits.2 h, ?_⟩
  cases outcome_of_step h with
  | server a server _ hstep =>
    refine reads_action hs.reads ?_ hstep
    rintro j active rfl
    exact hadmits.1 _ rfl
  | broadcast | calls | skips | done | userSend | sends => exact hs.reads
  | writes j write c todo stack _ hstack => exact absurd hstack (not_writing hs)
  | erases j c write server huse => exact absurd huse (not_erasing hs _ c write)

theorem idle_started : Idle started := ⟨apart_started, fun _ => loopReads_empty⟩

/-- Where bytes wait in the buffer, the kernel is given none. -/
theorem accepted_nil {s : State} (hs : Idle s) {c : ConnId} (hwaits : outputBuffer c s ≠ [])
    (call : Call) : accepted c s call = [] := by
  cases call with
  | send who write =>
    simp only [accepted]
    split
    · rename_i d sending huse
      split
      · rename_i hdc
        subst hdc
        cases sending with
        | direct data => exact absurd (hs.apart.direct who d data huse) hwaits
        | called | up | appends => rfl
      · rfl
    · rfl
  | handleWrite j write =>
    simp only [accepted]
    split
    · rename_i hstack
      exact absurd hstack (not_writing hs)
    · rfl
  | _ => rfl

/-- What waits in the buffer stays there. -/
theorem waits_step {c : ConnId} (s : State) (call : Call) (t : State)
    (hs : Idle s ∧ outputBuffer c s ≠ []) (hadmits : Admits s call)
    (h : step s call = some t) : Idle t ∧ outputBuffer c t ≠ [] := by
  obtain ⟨hidle, hwaits⟩ := hs
  have hwell := hidle.apart.well
  refine ⟨idle_step s call t hidle hadmits h, ?_⟩
  cases outcome_of_step h with
  | server a server hblocked hstep =>
    simp only [blocked, Bool.or_eq_false_iff] at hblocked
    have hbuffer := buffer_server hwell.fresh hstep hblocked.1.2 c
    rw [outputBuffer, hbuffer]
    exact hwaits
  | broadcast | calls | skips | done | userSend | writes => exact hwaits
  | sends who write d sending huse =>
    have hd := (hwell.uses who d _ huse).accepted
    exact ((setConn_next hwell.shape hwell.map hd write sending).2.2 c).ne_nil hwaits
  | erases j d write server huse => exact absurd huse (not_erasing hidle _ d write)

/-- Once bytes wait in a connection's buffer, the kernel accepts no byte more of it in any run
that follows, and what waits grows by the data of every send that does not return -1. -/
theorem output_stuck {calls rest : List Call} {s t : State} {c : ConnId}
    (hrun : Runs.exec step started calls = some s) (hadmits : Runs.Along step Admits started calls)
    (hwaits : outputBuffer c s ≠ []) (hrest : Runs.exec step s rest = some t)
    (hadmits' : Runs.Along step Admits s rest) :
    Flow.emitted step (accepted c) s rest = [] ∧
      waiting c t = waiting c s ++ Flow.emitted step (sent c) s rest := by
  have hidle := Runs.throughout_last
    (Runs.throughout_of_step Idle idle_step idle_started hadmits) hrun
  have hnone := Flow.emitted_nil _ waits_step (fun s call hs => accepted_nil hs.1 hs.2 call)
    ⟨hidle, hwaits⟩ hadmits'
  have hflow := Flow.conserved_along Idle idle_step
    (fun s call t hs _ h => conserves_step c s call t hs.apart h) hidle hadmits' hrest
  rw [hnone, List.nil_append] at hflow
  exact ⟨hnone, hflow.symm⟩

/-- The first send of a connection, of which the kernel takes one byte. -/
def shortSend : List Call :=
  [.server (.accept 7 0 true), .server .register, .server (.runTask 0 true), .userSend 0 0 [1, 2],
    .send (some 0) ⟨none, .wouldBlock⟩, .send (some 0) ⟨none, .wouldBlock⟩,
    .send (some 0) ⟨some 1, .wouldBlock⟩, .send (some 0) ⟨none, .wouldBlock⟩,
    .server (.userReturns 0)]

/-- A message comes in and is answered, and a broadcast follows. -/
def answered : List Call :=
  [.server (.poll 0 [(0, epollIn)]), .server (.dispatch 0),
    .server (.callback 0 (.data [9]) ⟨none, .wouldBlock⟩), .userSend 0 0 [3],
    .send (some 0) ⟨some 1, .wouldBlock⟩, .send (some 0) ⟨some 1, .wouldBlock⟩,
    .send (some 0) ⟨some 1, .wouldBlock⟩, .server (.userReturns 0), .server (.eventDone 0),
    .broadcast [4] [(7, 0)], .visit, .send none ⟨some 1, .wouldBlock⟩,
    .send none ⟨some 1, .wouldBlock⟩, .send none ⟨some 1, .wouldBlock⟩]

theorem output_stuck_answered : ∃ s t, Runs.exec step started shortSend = some s ∧
    Runs.exec step s answered = some t ∧ Flow.emitted step (accepted 0) s answered = [] ∧
    outputBuffer 0 t = [2, 3, 4] := by
  have hrun : Runs.exec step started shortSend = some _ := rfl
  refine ⟨_, _, hrun, rfl, ?_, rfl⟩
  exact (output_stuck hrun (by decide) (by decide) rfl (by decide)).1

end StuckOutput
