import OrderEngine.ConnectionRegistry
import OrderEngine.Library.Potential
import Mathlib.Algebra.BigOperators.Group.Finset.Basic
import Mathlib.Algebra.Order.BigOperators.Group.Finset

/-!
# The threads of the server come to rest

New connections, polls and the calls of the user bring work to the threads. Every other step is a
step of a thread on what it has to do, and leaves less of it; a thread never waits for another.
-/
namespace ServerRest

open EpollPoller TcpConnection TcpServer ServerShape ConnectionRegistry

/-- The steps that a thread takes on what it has to do. -/
def own : Action → Bool
  | .accept _ _ _ => false
  | .poll _ _ => false
  | .userClose _ _ => false
  | .userSend _ _ _ _ => false
  | _ => true

/-- The most steps that a call on the stack can still take: a callback of the channel may lead to
a message callback, or to `removeConnection` and the connection callback. -/
def frameWork : Frame → Nat
  | .event _ todo => 1 + 3 * todo.length
  | .removing _ => 2
  | _ => 1

def stackWork (stack : List Frame) : Nat := (stack.map frameWork).sum

/-- An active channel is dispatched, and then its callbacks are made. -/
def activeWork (active : List (ConnId × EventMask)) : Nat :=
  (active.map (fun e => 2 + 3 * (handleEvent e.2).length)).sum

/-- A set-up task runs, and its connection callback returns. -/
def loopWork (l : Loop) : Nat := 2 * l.tasks.length + activeWork l.active + stackWork l.stack

/-- The work of the first `n` sub-reactors and of the accepting thread. -/
def work (n : Nat) (s : Server) : Nat :=
  (if s.accepting.isSome then 1 else 0) + ∑ j ∈ Finset.range n, loopWork (s.loops j)

/-- The work that an action brings. -/
def brought : Action → Nat
  | .accept _ _ _ => 3
  | .poll _ active => activeWork active
  | .userClose _ _ => 2
  | _ => 0

/-- Connections are handed to the first `n` sub-reactors only. -/
def Within (n : Nat) : Action → Prop
  | .accept _ reactor _ => reactor < n
  | _ => True

/-- The other sub-reactors do not exist. -/
def Unused (n : Nat) (s : Server) : Prop := ∀ j, n ≤ j → s.loops j = .empty

@[simp] theorem stackWork_nil : stackWork [] = 0 := rfl

@[simp] theorem stackWork_cons (f : Frame) (stack : List Frame) :
    stackWork (f :: stack) = frameWork f + stackWork stack := by
  simp [stackWork]

@[simp] theorem activeWork_nil : activeWork [] = 0 := rfl

@[simp] theorem activeWork_cons (e : ConnId × EventMask) (active : List (ConnId × EventMask)) :
    activeWork (e :: active) = 2 + 3 * (handleEvent e.2).length + activeWork active := by
  simp [activeWork]

theorem frameWork_pos (f : Frame) : 0 < frameWork f := by
  cases f <;> simp [frameWork]

/-- A change of one loop changes the work by as much. -/
theorem work_update {n j d e : Nat} (hj : j < n) {s t : Server} {l : Loop}
    (haccepting : t.accepting = s.accepting) (hloops : t.loops = Function.update s.loops j l)
    (hle : loopWork l + d ≤ loopWork (s.loops j) + e) : work n t + d ≤ work n s + e := by
  have hmem : j ∈ Finset.range n := Finset.mem_range.mpr hj
  have hrest : ∑ i ∈ (Finset.range n).erase j, loopWork (t.loops i) =
      ∑ i ∈ (Finset.range n).erase j, loopWork (s.loops i) := by
    apply Finset.sum_congr rfl
    intro i hi
    rw [hloops, Function.update_of_ne (Finset.ne_of_mem_erase hi)]
  have hself : t.loops j = l := by rw [hloops, Function.update_self]
  have hs := Finset.add_sum_erase (Finset.range n) (fun i => loopWork (s.loops i)) hmem
  have ht := Finset.add_sum_erase (Finset.range n) (fun i => loopWork (t.loops i)) hmem
  simp only [hself] at ht
  rw [work, work, haccepting]
  omega

/-- A change of a stack. -/
theorem work_setStack {n j d e : Nat} (hj : j < n) {s t : Server} {stack : List Frame}
    (haccepting : t.accepting = s.accepting)
    (hloops : t.loops = Function.update s.loops j { s.loops j with stack := stack })
    (hle : stackWork stack + d ≤ stackWork (s.loops j).stack + e) :
    work n t + d ≤ work n s + e := by
  apply work_update hj haccepting hloops
  simp only [loopWork]
  omega

theorem lt_of_used {n j : Nat} {s : Server} (h : Unused n s)
    (hused : s.loops j ≠ .empty) : j < n := by
  by_contra hge
  exact hused (h j (Nat.le_of_not_lt hge))

theorem lt_of_stack {n j : Nat} {s : Server} (h : Unused n s) {f : Frame} {stack : List Frame}
    (hstack : (s.loops j).stack = f :: stack) : j < n := by
  apply lt_of_used h
  intro hempty
  rw [hempty] at hstack
  cases hstack

theorem lt_of_tasks {n j : Nat} {s : Server} (h : Unused n s) {c : ConnId} {rest : List ConnId}
    (htasks : (s.loops j).tasks = c :: rest) : j < n := by
  apply lt_of_used h
  intro hempty
  rw [hempty] at htasks
  cases htasks

theorem lt_of_active {n j : Nat} {s : Server} (h : Unused n s) {e : ConnId × EventMask}
    {rest : List (ConnId × EventMask)} (hactive : (s.loops j).active = e :: rest) : j < n := by
  apply lt_of_used h
  intro hempty
  rw [hempty] at hactive
  cases hactive

/-- A frame that a callback or a close pushes is at most two more steps. -/
theorem stackWork_pushed {c : ConnId} {more : List Frame}
    (hmore : more = [] ∨ more = [.removing c] ∨ more = [.message c]) (stack : List Frame) :
    stackWork (more ++ stack) ≤ stackWork stack + 2 := by
  rcases hmore with rfl | rfl | rfl <;> simp [frameWork] <;> omega

theorem work_callback {n j : Nat} {s : Server} (h : Unused n s) {c : ConnId} {cb : Callback}
    {todo : List Callback} {stack : List Frame}
    (hstack : (s.loops j).stack = .event c (cb :: todo) :: stack)
    (r : Connection × Connection.Reaction) :
    work n (s.react j c (.event c todo :: stack) r) + 1 ≤ work n s + 0 := by
  obtain ⟨more, hmore, haccepting, hloops⟩ := loops_react s j c (.event c todo :: stack) r
  have hle := stackWork_pushed hmore (.event c todo :: stack)
  apply work_setStack (lt_of_stack h hstack) haccepting hloops
  rw [hstack]
  simp only [stackWork_cons, frameWork, List.length_cons] at hle ⊢
  omega

/-- A step of a thread on what it has to do leaves less of it. -/
theorem work_own {n : Nat} {s t : Server} {a : Action} (h : Unused n s)
    (hown : own a = true) (hstep : step s a = some t) : work n t + 1 ≤ work n s + 0 := by
  cases outcome_of_step hstep with
  | accept | poll | userClose | userSend => cases hown
  | register c haccepting =>
    simp only [work, haccepting, Option.isSome_some, Option.isSome_none, Bool.false_eq_true,
      if_true, if_false]
    change 0 + ∑ j ∈ Finset.range n, loopWork (s.loops j) + 1 ≤ _
    omega
  | runTask j succeeds c rest htasks hstack hactive =>
    apply work_update (lt_of_tasks h htasks)
    · rfl
    · rfl
    · simp only [loopWork, htasks, hstack, hactive, List.length_cons, stackWork_cons, frameWork,
        stackWork_nil, activeWork_nil]
      omega
  | dispatch j c revents rest hactive hstack =>
    apply work_update (lt_of_active h hactive)
    · rfl
    · rfl
    · simp only [loopWork, hstack, hactive, stackWork_cons, frameWork, stackWork_nil,
        activeWork_cons]
      omega
  | callback j read write c cb todo stack hstack => exact work_callback h hstack _
  | eventDone j c stack hstack =>
    apply work_setStack (lt_of_stack h hstack)
    · rfl
    · rfl
    · simp only [hstack, stackWork_cons, frameWork, List.length_nil]
      omega
  | userReturns j f stack hstack huser =>
    have hless : stackWork stack + 1 ≤ stackWork (s.loops j).stack + 0 := by
      have hpos := frameWork_pos f
      rw [hstack, stackWork_cons]
      omega
    cases f with
    | event | established | message | removing | closed =>
      apply work_setStack (lt_of_stack h hstack)
      · rfl
      · rfl
      · exact hless
  | remove j c stack hstack =>
    apply work_setStack (lt_of_stack h hstack)
    · rfl
    · rfl
    · simp only [hstack, stackWork_cons, frameWork]
      omega

theorem lt_of_userMayUse {n j : Nat} {s : Server} (h : Unused n s) {c : ConnId}
    (hmay : s.UserMayUse j c) : j < n := by
  apply lt_of_used h
  intro hempty
  have huser := hmay.1
  rw [hempty] at huser
  cases huser

/-- The channels that a poll reports are of a sub-reactor that is used. -/
theorem active_of_unused {n j : Nat} {s : Server} (h : Unused n s) (hj : n ≤ j)
    {active : List (ConnId × EventMask)} (hregistered : ∀ e ∈ active, s.Registered j e.1) :
    active = [] := by
  cases active with
  | nil => rfl
  | cons e rest =>
    have he := hregistered e List.mem_cons_self
    rw [Server.Registered, h j hj] at he
    cases he

theorem setLoop_unused {n j : Nat} {s : Server} (h : Unused n s) (hj : n ≤ j) :
    s.setLoop j { s.loops j with active := [] } = s := by
  have hself : Function.update s.loops j { s.loops j with active := [] } = s.loops := by
    rw [Function.update_eq_self_iff, h j hj]
    rfl
  rw [Server.setLoop, hself]

theorem work_accept {n fd reactor : Nat} {s : Server} (hreactor : reactor < n)
    (hidle : s.accepting = none) (messageCallback : Bool) :
    work n (s.handOver fd reactor messageCallback) + 0 ≤ work n s + 3 := by
  have hqueued : work n { s.handOver fd reactor messageCallback with accepting := none } + 0 ≤
      work n s + 2 := by
    apply work_update hreactor
    · exact hidle.symm
    · rfl
    · simp only [loopWork, List.length_append, List.length_singleton]
      omega
  have haccepting : work n (s.handOver fd reactor messageCallback) =
      work n { s.handOver fd reactor messageCallback with accepting := none } + 1 := by
    simp only [work, Server.handOver, Option.isSome_some, Option.isSome_none, Bool.false_eq_true,
      if_true, if_false]
    omega
  omega

/-- What comes from outside brings no more than its work. -/
theorem work_outside {n : Nat} {s t : Server} {a : Action} (h : Unused n s)
    (hwithin : Within n a) (hown : own a = false) (hstep : step s a = some t) :
    work n t + 0 ≤ work n s + brought a := by
  cases outcome_of_step hstep with
  | accept fd reactor messageCallback hidle => exact work_accept hwithin hidle messageCallback
  | poll j active hstack hregistered =>
    by_cases hj : j < n
    · apply work_update hj
      · rfl
      · rfl
      · simp only [loopWork, brought]
        omega
    · have hnil := active_of_unused h (Nat.le_of_not_lt hj) hregistered
      rw [hnil, setLoop_unused h (Nat.le_of_not_lt hj)]
      exact Nat.le_refl _
  | userClose j c hmay =>
    obtain ⟨more, hmore, haccepting, hloops⟩ := loops_closeConnection s j c (s.loops j).stack
    exact work_setStack (lt_of_userMayUse h hmay) haccepting hloops
      (stackWork_pushed (hmore.imp_right .inl) _)
  | userSend j c data write => exact Nat.le_refl _
  | register | runTask | dispatch | callback | eventDone | userReturns | remove => cases hown

theorem work_step {n : Nat} (s : Server) (a : Action) (t : Server) (h : Unused n s)
    (hwithin : Within n a) (hstep : step s a = some t) :
    (if own a then 1 else 0) + work n t ≤ work n s + brought a := by
  cases hown : own a with
  | true =>
    have hwork := work_own h hown hstep
    simp only [if_true]
    omega
  | false =>
    have hwork := work_outside h hwithin hown hstep
    simp only [Bool.false_eq_true, if_false]
    omega

theorem unused_update {n i : Nat} {s t : Server} {l : Loop} (h : Unused n s) (hi : i < n)
    (hloops : t.loops = Function.update s.loops i l) : Unused n t := by
  intro j hj
  have hne : j ≠ i := by omega
  rw [hloops, Function.update_of_ne hne]
  exact h j hj

theorem unused_step {n : Nat} (s : Server) (a : Action) (t : Server) (h : Unused n s)
    (hwithin : Within n a) (hstep : step s a = some t) : Unused n t := by
  cases outcome_of_step hstep with
  | accept => exact unused_update h hwithin rfl
  | register | userSend => exact h
  | runTask j succeeds c rest htasks =>
    exact unused_update h (lt_of_tasks h htasks) rfl
  | poll j active hstack hregistered =>
    by_cases hj : j < n
    · exact unused_update h hj rfl
    · have hnil := active_of_unused h (Nat.le_of_not_lt hj) hregistered
      rw [hnil, setLoop_unused h (Nat.le_of_not_lt hj)]
      exact h
  | dispatch j c revents rest hactive =>
    exact unused_update h (lt_of_active h hactive) rfl
  | callback j read write c cb todo stack hstack =>
    obtain ⟨more, _, _, hloops⟩ := loops_react s j c (.event c todo :: stack)
      (Server.callback (s.conn c) read write cb)
    exact unused_update h (lt_of_stack h hstack) hloops
  | userClose j c hmay =>
    obtain ⟨more, _, _, hloops⟩ := loops_closeConnection s j c (s.loops j).stack
    exact unused_update h (lt_of_userMayUse h hmay) hloops
  | eventDone j c stack hstack => exact unused_update h (lt_of_stack h hstack) rfl
  | remove j c stack hstack => exact unused_update h (lt_of_stack h hstack) rfl
  | userReturns j f stack hstack =>
    cases f with
    | event | established | message | removing | closed =>
      exact unused_update h (lt_of_stack h hstack) rfl

/-- A thread in the middle of something can go on. -/
theorem stack_goes_on {s : Server} {j : Nat} {f : Frame} {stack : List Frame}
    (hstack : (s.loops j).stack = f :: stack) : ∃ a, own a = true ∧ step s a ≠ none := by
  cases f with
  | event c todo =>
    cases todo with
    | nil => exact ⟨.eventDone j, rfl, by simp [step, hstack]⟩
    | cons cb todo =>
      refine ⟨.callback j (.failed .wouldBlock) ⟨none, .wouldBlock⟩, rfl, ?_⟩
      simp [step, hstack, Runs.guarded, ReadResult.Fits, WriteResult.Fits]
  | established c => exact ⟨.userReturns j, rfl, by simp [step, hstack, Runs.guarded, Frame.userCode]⟩
  | message c => exact ⟨.userReturns j, rfl, by simp [step, hstack, Runs.guarded, Frame.userCode]⟩
  | closed c => exact ⟨.userReturns j, rfl, by simp [step, hstack, Runs.guarded, Frame.userCode]⟩
  | removing c => exact ⟨.remove j, rfl, by simp [step, hstack]⟩

/-- No thread can go on exactly when none has anything to do: no state is stuck half-way. -/
theorem stuck_iff (s : Server) : (∀ a, own a = true → step s a = none) ↔ Quiescent s := by
  constructor
  · intro hstuck
    have hstack : ∀ j, (s.loops j).stack = [] := by
      intro j
      cases hstack : (s.loops j).stack with
      | nil => rfl
      | cons f stack =>
        obtain ⟨a, hown, hsome⟩ := stack_goes_on hstack
        exact absurd (hstuck a hown) hsome
    have hactive : ∀ j, (s.loops j).active = [] := by
      intro j
      have hnone := hstuck (.dispatch j) rfl
      cases hactive : (s.loops j).active with
      | nil => rfl
      | cons e rest => simp [step, hactive, hstack j, Runs.guarded] at hnone
    constructor
    · have hnone := hstuck .register rfl
      cases haccepting : s.accepting with
      | none => rfl
      | some c => simp [step, haccepting] at hnone
    · intro j
      refine ⟨?_, hactive j, hstack j⟩
      have hnone := hstuck (.runTask j true) rfl
      cases htasks : (s.loops j).tasks with
      | nil => rfl
      | cons c rest => simp [step, htasks, hstack j, hactive j, Runs.guarded] at hnone
  · rintro ⟨hidle, hrest⟩ a hown
    cases a with
    | accept | poll | userClose | userSend => cases hown
    | register => simp [step, hidle]
    | runTask j => simp [step, (hrest j).1]
    | dispatch j => simp [step, (hrest j).2.1]
    | callback j | eventDone j | userReturns j | remove j => simp [step, (hrest j).2.2]

theorem leads_rest {n : Nat} {s : Server} (h : Unused n s) :
    ∃ more t, (∀ a ∈ more, own a = true) ∧ Runs.exec step s more = some t ∧ Quiescent t := by
  generalize hwork : work n s = w
  induction w using Nat.strong_induction_on generalizing s with
  | _ w ih =>
    by_cases hrest : Quiescent s
    · exact ⟨[], s, by simp, rfl, hrest⟩
    · rw [← stuck_iff] at hrest
      push Not at hrest
      obtain ⟨a, hown, hsome⟩ := hrest
      obtain ⟨u, hu⟩ := Option.ne_none_iff_exists'.mp hsome
      have hless := work_own h hown hu
      have hwithin : Within n a := by
        cases a with
        | accept => cases hown
        | _ => trivial
      obtain ⟨more, t, hmore, hrun, hquiescent⟩ :=
        ih (work n u) (by omega) (unused_step s a u h hwithin hu) rfl
      refine ⟨a :: more, t, ?_, Runs.exec_cons_iff.mpr ⟨u, hu, hrun⟩, hquiescent⟩
      intro b hb
      cases List.mem_cons.mp hb with
      | inl hfirst => exact hfirst ▸ hown
      | inr hlater => exact hmore b hlater

theorem total_brought {s t : Server} {acts : List Action}
    (hrun : Runs.exec step s acts = some t) :
    Potential.total step (fun _ a => brought a) s acts = (acts.map brought).sum := by
  induction acts generalizing s with
  | nil => rfl
  | cons a rest ih =>
    obtain ⟨u, hu, hrest⟩ := Runs.exec_cons_iff.mp hrun
    rw [Potential.total_cons hu, ih hrest, List.map_cons, List.sum_cons]

theorem unused_start (n : Nat) : Unused n start := fun _ _ => rfl

theorem work_start (n : Nat) : work n start = 0 := by
  simp [work, start, loopWork, Loop.empty]

/-- In every run of a server that is not stopped the threads take no more steps than the
connections, the polled events and the closings by the user account for, however their steps
interleave; a state in which no thread can go on is one of rest, and every state can come to rest
by steps of the threads alone. -/
theorem comes_to_rest {n : Nat} {acts : List Action} {s : Server}
    (hrun : Runs.exec step start acts = some s) (hwithin : ∀ a ∈ acts, Within n a) :
    acts.countP own ≤ (acts.map brought).sum ∧
      ((∀ a, own a = true → step s a = none) ↔ Quiescent s) ∧
      ∃ more t, (∀ a ∈ more, own a = true) ∧ Runs.exec step s more = some t ∧ Quiescent t := by
  have hal : Runs.Along step (fun _ a => Within n a) start acts := Runs.along_of_forall hwithin
  refine ⟨?_, stuck_iff s, ?_⟩
  · have hbound := Potential.total_le (Unused n) _ (work n) unused_step work_step
      (unused_start n) hal hrun
    rw [Potential.total_count hrun, total_brought hrun, work_start] at hbound
    omega
  · exact leads_rest (Runs.throughout_last
      (Runs.throughout_of_step (Unused n) unused_step (unused_start n) hal) hrun)

/-- A connection that its peer closes, in the middle of its closing. -/
def closing : List Action :=
  [.accept 7 0 true, .register, .runTask 0 true, .userReturns 0, .poll 0 [(0, epollIn)],
    .dispatch 0, .callback 0 .closed ⟨none, .wouldBlock⟩]

theorem comes_to_rest_closing : ∃ s, Runs.exec step start closing = some s ∧
    closing.countP own ≤ (closing.map brought).sum ∧ closing.countP own = 5 ∧
    ∃ more t, (∀ a ∈ more, own a = true) ∧ Runs.exec step s more = some t ∧ Quiescent t := by
  have hrun : Runs.exec step start closing = some _ := rfl
  have hwithin : ∀ a ∈ closing, Within 1 a := by
    intro a ha
    simp only [closing, List.mem_cons, List.not_mem_nil, or_false] at ha
    rcases ha with rfl | rfl | rfl | rfl | rfl | rfl | rfl <;> simp [Within]
  obtain ⟨hcount, _, hrest⟩ := comes_to_rest hrun hwithin
  exact ⟨_, hrun, hcount, by decide, hrest⟩

end ServerRest
