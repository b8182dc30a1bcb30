import OrderEngine.EpollPoller
import OrderEngine.Reactor

/-!
# The accept channel and the stop of the main loop

`stop` disables, removes and destroys `accept_channel_` first and then tells the main
loop to quit. The loop's thread may at that time hold a batch of active channels, or be
in the middle of `acceptConnection`.
-/
namespace AcceptTeardown

open EpollPoller Reactor

/-- `accept_channel_` as the loop of the main reactor sees it. -/
def accept : Active := .channel 0

/-- How far `stop` has come. -/
inductive Phase where
  | running
  | disabled
  | removed
  | destroyed
  | closed
  | quitting
  | woken
  | joined
  deriving DecidableEq, Repr

/-- The main reactor with its loop, the accept channel while it exists, and whether the
loop is in its `handleEvent`, and so in `acceptConnection`. -/
structure Host where
  reactor : Reactor.State
  poller : Poller Active
  acceptChannel : Option Channel
  listening : Bool
  phase : Phase
  handling : Bool

/-- The server as `start` leaves it, run on the thread `starter`; the main thread has
still to enter its loop. -/
def started (starter : Thread) (fd : Nat) (succeeds : Bool) : Host :=
  let enabled := Poller.empty.enableReading accept (Channel.create fd) succeeds
  { reactor := construct starter
    poller := enabled.1
    acceptChannel := some enabled.2
    listening := true
    phase := .running
    handling := false }

/-- The active channels that the loop has still to handle. -/
def coming : Pc → List Active
  | .dispatch active => active
  | .callback active => active
  | _ => []

/-- Whether the loop is in `handleEvent` of the accept channel after its step. -/
def handlingAfter (pc : Pc) (handling : Bool) : Reactor.Action → Bool
  | .dispatchNext =>
    match pc with
    | .dispatch (head :: _) => head = accept
    | _ => handling
  | .callbackReturns => false
  | _ => handling

inductive Action where
  | loop (a : Reactor.Action)
  | disableAll
  | remove
  | reset
  | closeListenFd
  | quit
  | wakeup
  | join
  deriving DecidableEq, Repr

/-- The poll reports the accept channel only while the kernel has it. -/
def PollsRegistered (fd : Nat) (h : Host) : Reactor.Action → Prop
  | .pollReturns active => accept ∈ active → (h.poller.interest fd).any (fun e => e.1 = accept) = true
  | _ => True

instance (fd : Nat) (h : Host) (a : Reactor.Action) : Decidable (PollsRegistered fd h a) := by
  cases a <;> unfold PollsRegistered <;> infer_instance

/-- A step of the main loop's thread `loop` or of another caller of the reactor, or the
next step of `stop` on the thread `stopper`. -/
def step (loop stopper : Thread) (fd : Nat) (h : Host) : Action → Option Host
  | .loop a =>
    if PollsRegistered fd h a then
      (Reactor.step loop h.reactor a).map (fun reactor =>
        { h with reactor := reactor, handling := handlingAfter h.reactor.pc h.handling a })
    else none
  | .disableAll =>
    match h.acceptChannel with
    | some ch =>
      let disabled := h.poller.disableAll accept ch true
      Runs.guarded (h.phase = .running)
        { h with poller := disabled.1, acceptChannel := some disabled.2, phase := .disabled }
    | none => none
  | .remove =>
    match h.acceptChannel with
    | some ch =>
      let removed := h.poller.removeChannel accept ch true
      Runs.guarded (h.phase = .disabled)
        { h with poller := removed.1, acceptChannel := some removed.2, phase := .removed }
    | none => none
  | .reset =>
    Runs.guarded (h.phase = .removed) { h with acceptChannel := none, phase := .destroyed }
  | .closeListenFd =>
    Runs.guarded (h.phase = .destroyed) { h with listening := false, phase := .closed }
  | .quit =>
    if h.phase = .closed then
      (Reactor.step loop h.reactor (.quit stopper)).map (fun reactor =>
        { h with reactor := reactor, phase := .quitting })
    else none
  | .wakeup =>
    if h.phase = .quitting then
      (Reactor.step loop h.reactor (.wakeupAfterQuit stopper)).map (fun reactor =>
        { h with reactor := reactor, phase := .woken })
    else none
  | .join =>
    Runs.guarded (h.phase = .woken ∧ h.reactor.pc = .returned) { h with phase := .joined }

/-- Once the channel is destroyed, the loop is not in its `handleEvent`. -/
def NoLateAccept (h : Host) : Prop := h.acceptChannel = none → h.handling = false

instance (h : Host) : Decidable (NoLateAccept h) :=
  inferInstanceAs (Decidable (h.acceptChannel = none → _))

/-- The channel is destroyed while the loop neither handles it nor has it to come. -/
def DestroysIdle (h : Host) (a : Action) : Prop :=
  a = .reset → accept ∉ coming h.reactor.pc ∧ h.handling = false

instance (h : Host) (a : Action) : Decidable (DestroysIdle h a) :=
  inferInstanceAs (Decidable (a = .reset → _))

/-- What a step of the reactor does to the batch: it takes a channel off, fills it by a
poll, or leaves it. -/
inductive Takes (r r' : Reactor.State) (a : Reactor.Action) (handling : Bool) : Prop where
  | next (head : Active) (rest : List Active) (ha : a = .dispatchNext)
      (hbefore : coming r.pc = head :: rest) (hafter : coming r'.pc = rest)
      (hhandling : handlingAfter r.pc handling a = decide (head = accept))
  | polls (active : List Active) (ha : a = .pollReturns active) (hbefore : coming r.pc = [])
      (hafter : coming r'.pc = active)
  | same (hcoming : coming r'.pc = coming r.pc)
      (hhandling : handlingAfter r.pc handling a = true → handling = true)

theorem takes_step {loop : Thread} {r r' : Reactor.State} {a : Reactor.Action}
    (h : Reactor.Outcome loop r a r') (handling : Bool) : Takes r r' a handling := by
  cases h with
  | dispatchWakeup rest hpc =>
    exact .next .wakeupChannel rest rfl (by rw [hpc]; rfl) rfl (by simp [handlingAfter, hpc])
  | dispatchChannel id rest hpc =>
    exact .next (.channel id) rest rfl (by rw [hpc]; rfl) rfl (by simp [handlingAfter, hpc])
  | pollReturns active hpc => exact .polls active rfl (by rw [hpc]; rfl) rfl
  | dispatchEnds hpc => exact .same (by rw [hpc]; rfl) (by simp [handlingAfter, hpc])
  | callbackReturns rest hpc => exact .same (by rw [hpc]; rfl) (by simp [handlingAfter])
  | enterLoop hpc | leaves hpc | polls hpc | swapTasks hpc | batchEnds hpc | taskBegins _ _ hpc
  | taskReturns _ hpc => exact .same (by rw [hpc]; rfl) id
  | wakesAfterPush t | wakesAfterQuit t =>
    obtain ⟨n, _, heq⟩ := wakeup_eq (r.endCall t)
    rw [heq]
    exact .same rfl id
  | queueInLoop | skipsWakeup | runsInline | runsQueued | inlineReturns | quit | quitsInLoop
  | updateChannel => exact .same rfl id

/-- The kernel has the accept channel at most until `stop` has disabled it. -/
structure Attached (fd : Nat) (h : Host) : Prop where
  running : h.phase = .running →
    ∃ ch, h.acceptChannel = some ch ∧ ch.fd = fd ∧ ch.index = .kAdded
  stopping : h.phase ≠ .running → h.poller.interest fd = none

theorem attached_started (starter : Thread) (fd : Nat) (succeeds : Bool) :
    Attached fd (started starter fd succeeds) := by
  constructor
  · intro _
    exact ⟨_, rfl, rfl, rfl⟩
  · intro hphase
    exact absurd rfl hphase

theorem interest_disableAll {p : Poller Active} {ch : Channel} (hindex : ch.index = .kAdded) :
    (p.disableAll accept ch true).1.interest ch.fd = none := by
  simp only [Poller.disableAll, Poller.updateChannel, hindex, Channel.isNoneEvent, BEq.rfl,
    if_true, Poller.update]
  exact epollCtl_del p.interest accept { ch with events := kNoneEvent }

theorem interest_removeChannel {p : Poller Active} {ch : Channel} {fd : Nat}
    (hnone : p.interest fd = none) : (p.removeChannel accept ch true).1.interest fd = none := by
  simp only [Poller.removeChannel]
  split
  · simp only [Poller.update]
    by_cases hfd : fd = ch.fd
    · rw [hfd]
      exact epollCtl_del p.interest accept ch
    · rw [epollCtl_of_ne hfd, hnone]
  · exact hnone

/-- What a step does to the host, one case for each outcome. -/
inductive Outcome (loop stopper : Thread) (fd : Nat) (h : Host) : Action → Host → Prop where
  | loop (a : Reactor.Action) (reactor : Reactor.State) (hpolls : PollsRegistered fd h a)
      (houtcome : Reactor.Outcome loop h.reactor a reactor) :
      Outcome loop stopper fd h (.loop a)
        { h with reactor := reactor, handling := handlingAfter h.reactor.pc h.handling a }
  | disableAll (ch : Channel) (hphase : h.phase = .running) (hch : h.acceptChannel = some ch) :
      Outcome loop stopper fd h .disableAll
        { h with
          poller := (h.poller.disableAll accept ch true).1
          acceptChannel := some (h.poller.disableAll accept ch true).2
          phase := .disabled }
  | remove (ch : Channel) (hphase : h.phase = .disabled) (hch : h.acceptChannel = some ch) :
      Outcome loop stopper fd h .remove
        { h with
          poller := (h.poller.removeChannel accept ch true).1
          acceptChannel := some (h.poller.removeChannel accept ch true).2
          phase := .removed }
  | reset (hphase : h.phase = .removed) :
      Outcome loop stopper fd h .reset { h with acceptChannel := none, phase := .destroyed }
  | closeListenFd (hphase : h.phase = .destroyed) :
      Outcome loop stopper fd h .closeListenFd { h with listening := false, phase := .closed }
  | quit (reactor : Reactor.State) (hphase : h.phase = .closed)
      (houtcome : Reactor.Outcome loop h.reactor (.quit stopper) reactor) :
      Outcome loop stopper fd h .quit { h with reactor := reactor, phase := .quitting }
  | wakeup (reactor : Reactor.State) (hphase : h.phase = .quitting)
      (houtcome : Reactor.Outcome loop h.reactor (.wakeupAfterQuit stopper) reactor) :
      Outcome loop stopper fd h .wakeup { h with reactor := reactor, phase := .woken }
  | join (hphase : h.phase = .woken) :
      Outcome loop stopper fd h .join { h with phase := .joined }

theorem outcome_of_step {loop stopper : Thread} {fd : Nat} {h h' : Host} {a : Action}
    (hstep : step loop stopper fd h a = some h') : Outcome loop stopper fd h a h' := by
  cases a with
  | loop a =>
    simp only [step, Option.ite_none_right_eq_some, Option.map_eq_some_iff] at hstep
    obtain ⟨hpolls, reactor, hreactor, rfl⟩ := hstep
    exact .loop a reactor hpolls (Reactor.outcome_of_step hreactor)
  | disableAll =>
    simp only [step] at hstep
    split at hstep
    · rename_i ch hch
      obtain ⟨hphase, rfl⟩ := Runs.guarded_eq_some.mp hstep
      exact .disableAll ch hphase hch
    · cases hstep
  | remove =>
    simp only [step] at hstep
    split at hstep
    · rename_i ch hch
      obtain ⟨hphase, rfl⟩ := Runs.guarded_eq_some.mp hstep
      exact .remove ch hphase hch
    · cases hstep
  | reset =>
    obtain ⟨hphase, rfl⟩ := Runs.guarded_eq_some.mp hstep
    exact .reset hphase
  | closeListenFd =>
    obtain ⟨hphase, rfl⟩ := Runs.guarded_eq_some.mp hstep
    exact .closeListenFd hphase
  | quit =>
    simp only [step, Option.ite_none_right_eq_some, Option.map_eq_some_iff] at hstep
    obtain ⟨hphase, reactor, hreactor, rfl⟩ := hstep
    exact .quit reactor hphase (Reactor.outcome_of_step hreactor)
  | wakeup =>
    simp only [step, Option.ite_none_right_eq_some, Option.map_eq_some_iff] at hstep
    obtain ⟨hphase, reactor, hreactor, rfl⟩ := hstep
    exact .wakeup reactor hphase (Reactor.outcome_of_step hreactor)
  | join =>
    obtain ⟨⟨hphase, _⟩, rfl⟩ := Runs.guarded_eq_some.mp hstep
    exact .join hphase

theorem attached_step {loop stopper : Thread} {fd : Nat} {h h' : Host} {a : Action}
    (hattached : Attached fd h) (houtcome : Outcome loop stopper fd h a h') : Attached fd h' := by
  have hstopping : ∀ h' : Host, h.phase ≠ .running → h'.phase ≠ .running →
      h'.poller = h.poller → Attached fd h' := by
    intro h' hphase hphase' hpoller
    refine ⟨fun hrunning => absurd hrunning hphase', ?_⟩
    intro _
    rw [hpoller, hattached.stopping hphase]
  cases houtcome with
  | loop => exact ⟨hattached.running, hattached.stopping⟩
  | disableAll ch hphase hch =>
    constructor
    · intro hrunning
      cases hrunning
    · intro _
      obtain ⟨ch', hch', hfd, hindex⟩ := hattached.running hphase
      rw [hch] at hch'
      cases hch'
      rw [← hfd]
      exact interest_disableAll hindex
  | remove ch hphase hch =>
    constructor
    · intro hrunning
      cases hrunning
    · intro _
      exact interest_removeChannel (hattached.stopping (by simp [hphase]))
  | reset hphase | closeListenFd hphase | quit _ hphase | wakeup _ hphase | join hphase =>
    exact hstopping _ (by simp [hphase]) (by simp) rfl

/-- The calls by which `stop` ends the loop leave its batch alone. -/
theorem coming_kept {loop : Thread} {r r' : Reactor.State} {a : Reactor.Action}
    (h : Reactor.Outcome loop r a r') (hnext : a ≠ .dispatchNext)
    (hpolls : ∀ active, a ≠ .pollReturns active) : coming r'.pc = coming r.pc := by
  cases takes_step h false with
  | next head rest ha => exact absurd ha hnext
  | polls active ha => exact absurd ha (hpolls active)
  | same hcoming => exact hcoming

/-- Once destroyed, the channel is neither handled nor in the batch. -/
def Gone (h : Host) : Prop :=
  h.acceptChannel = none → accept ∉ coming h.reactor.pc ∧ h.handling = false

theorem gone_step {loop stopper : Thread} {fd : Nat} {h h' : Host} {a : Action}
    (hattached : Attached fd h) (hgone : Gone h) (hdestroys : DestroysIdle h a)
    (houtcome : Outcome loop stopper fd h a h') : Gone h' := by
  cases houtcome with
  | loop a reactor hpolls houtcome =>
    intro hnone
    have hnone : h.acceptChannel = none := hnone
    obtain ⟨hcoming, hhandling⟩ := hgone hnone
    cases takes_step houtcome h.handling with
    | next head rest ha hbefore hafter hafterHandling =>
      rw [hbefore, List.mem_cons, not_or] at hcoming
      simp only [hafter, hafterHandling, decide_eq_false_iff_not]
      exact ⟨hcoming.2, Ne.symm hcoming.1⟩
    | polls active ha hbefore hafter =>
      subst ha
      refine ⟨?_, hhandling⟩
      rw [hafter]
      intro hmem
      -- the kernel has not had the channel since `disableAll`
      have hstopping : h.phase ≠ .running := by
        intro hphase
        obtain ⟨ch, hch, _⟩ := hattached.running hphase
        rw [hnone] at hch
        cases hch
      have hregistered := hpolls hmem
      rw [hattached.stopping hstopping] at hregistered
      cases hregistered
    | same hsame hafterHandling =>
      refine ⟨by rw [hsame]; exact hcoming, ?_⟩
      cases hafter : handlingAfter h.reactor.pc h.handling a with
      | false => rfl
      | true =>
        rw [hafterHandling hafter] at hhandling
        cases hhandling
  | disableAll => exact fun hnone => absurd hnone (by simp)
  | remove => exact fun hnone => absurd hnone (by simp)
  | reset => exact fun _ => hdestroys rfl
  | closeListenFd => exact hgone
  | quit reactor _ houtcome | wakeup reactor _ houtcome =>
    intro hnone
    have hkept := coming_kept houtcome (by simp) (by simp)
    refine ⟨?_, (hgone hnone).2⟩
    rw [hkept]
    exact (hgone hnone).1
  | join => exact hgone

/-- The channel is destroyed and the loop has it to come. -/
def Doomed (h : Host) : Prop := h.acceptChannel = none ∧ accept ∈ coming h.reactor.pc

/-- The loop takes the channel off its batch by handling it only. -/
theorem doomed_step {loop stopper : Thread} {fd : Nat} {h h' : Host} {a : Action}
    (hdoomed : Doomed h) (houtcome : Outcome loop stopper fd h a h') (hlate : NoLateAccept h') :
    Doomed h' := by
  obtain ⟨hnone, hmem⟩ := hdoomed
  cases houtcome with
  | loop a reactor hpolls houtcome =>
    refine ⟨hnone, ?_⟩
    have hhandling : handlingAfter h.reactor.pc h.handling a = false := hlate hnone
    cases takes_step houtcome h.handling with
    | next head rest ha hbefore hafter hafterHandling =>
      rw [hafterHandling, decide_eq_false_iff_not] at hhandling
      rw [hbefore, List.mem_cons] at hmem
      simp only [hafter]
      exact hmem.resolve_left (Ne.symm hhandling)
    | polls active ha hbefore =>
      rw [hbefore] at hmem
      cases hmem
    | same hsame =>
      simp only [hsame]
      exact hmem
  | disableAll ch hphase hch | remove ch hphase hch =>
    rw [hnone] at hch
    cases hch
  | reset => exact ⟨rfl, hmem⟩
  | closeListenFd => exact ⟨hnone, hmem⟩
  | quit reactor _ houtcome | wakeup reactor _ houtcome =>
    have hkept := coming_kept houtcome (by simp) (by simp)
    refine ⟨hnone, ?_⟩
    simp only [hkept]
    exact hmem
  | join => exact ⟨hnone, hmem⟩

/-- Where the channel is destroyed while the loop neither handles it nor has it to come,
the loop never handles it afterwards; and a run that leaves no channel to come and never
handles it afterwards has destroyed it so. -/
theorem no_late_accept {loop stopper starter : Thread} {fd : Nat} {succeeds : Bool}
    {acts : List Action} :
    (Runs.Along (step loop stopper fd) DestroysIdle (started starter fd succeeds) acts →
      Runs.Throughout (step loop stopper fd) NoLateAccept (started starter fd succeeds) acts) ∧
    ∀ h, Runs.exec (step loop stopper fd) (started starter fd succeeds) acts = some h →
      coming h.reactor.pc = [] →
      Runs.Throughout (step loop stopper fd) NoLateAccept (started starter fd succeeds) acts →
      Runs.Along (step loop stopper fd) DestroysIdle (started starter fd succeeds) acts := by
  constructor
  · intro hal
    have hstart : Gone (started starter fd succeeds) := by
      intro hnone
      simp [started] at hnone
    have hinv : Runs.Throughout (step loop stopper fd) (fun h => Attached fd h ∧ Gone h)
        (started starter fd succeeds) acts := by
      apply Runs.throughout_of_step _ _ ⟨attached_started starter fd succeeds, hstart⟩ hal
      rintro h a h' ⟨hattached, hgone⟩ hdestroys hstep
      have houtcome := outcome_of_step hstep
      exact ⟨attached_step hattached houtcome, gone_step hattached hgone hdestroys houtcome⟩
    exact Runs.throughout_mono (fun h hh hnone => (hh.2 hnone).2) hinv
  · intro h hrun hdone hlate
    apply Runs.along_of_unmarked (fun _ => True) NoLateAccept Doomed (fun _ _ _ _ _ => trivial)
      ?_ ?_ trivial hlate hrun
    · rintro ⟨_, hmem⟩
      rw [hdone] at hmem
      cases hmem
    · intro s a t _ hdoomed hstep hholds
      exact doomed_step hdoomed (outcome_of_step hstep) hholds
    · intro s a t _ hbusy hstep hholds
      unfold DestroysIdle at hbusy
      simp only [Classical.not_imp, not_and, Bool.not_eq_false] at hbusy
      obtain ⟨rfl, hbusy⟩ := hbusy
      cases outcome_of_step hstep with
      | reset =>
        have hidle : s.handling = false := hholds rfl
        refine ⟨rfl, ?_⟩
        by_contra hmem
        rw [hbusy hmem] at hidle
        cases hidle

/-- The tear-down begins while the loop handles the accept channel, and destroys it between two
batches; `quit` on the constructing thread writes no wakeup, so the loop's last poll times out. -/
def tornDownBetween : List Action :=
  [.loop .enterLoop, .loop .testQuit, .loop (.pollReturns [accept]), .loop .dispatchNext,
    .disableAll, .loop .callbackReturns, .loop .dispatchNext, .remove, .loop .swapTasks,
    .loop .nextTask, .reset, .loop .testQuit, .closeListenFd, .quit, .wakeup,
    .loop (.pollReturns []), .loop .dispatchNext, .loop .swapTasks, .loop .nextTask,
    .loop .testQuit, .join]

theorem no_late_accept_between_batches :
    (∃ h, Runs.exec (step 1 0 7) (started 0 7 true) tornDownBetween = some h ∧
      h.phase = .joined) ∧
      Runs.Throughout (step 1 0 7) NoLateAccept (started 0 7 true) tornDownBetween := by
  have hrun : Runs.exec (step 1 0 7) (started 0 7 true) tornDownBetween = some _ := rfl
  exact ⟨⟨_, hrun, rfl⟩, no_late_accept.1 (by decide)⟩

/-- The poll has reported the accept channel when `stop` tears it down. -/
def tornDownInBatch : List Action :=
  [.loop .enterLoop, .loop .testQuit, .loop (.pollReturns [accept]), .disableAll, .remove, .reset,
    .loop .dispatchNext]

theorem late_accept : ∃ h, Runs.exec (step 1 0 7) (started 0 7 true) tornDownInBatch = some h ∧
    h.reactor.pc = .callback [] ∧ ¬ NoLateAccept h :=
  ⟨_, rfl, rfl, by decide⟩

end AcceptTeardown
