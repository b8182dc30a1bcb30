import OrderEngine.EpollPoller
import OrderEngine.Library.Runs

/-!
# The active channels of an iteration

`loop` walks the list that the poll has filled, while the handlers of its channels may
disable, remove and register any channel of the reactor. `removeChannel` looks for the
channel in that list and only warns.
-/
namespace ActiveChannels

open EpollPoller

abbrev ChannelId := Nat

/-- The members of `Channel` that set its events and call `update`. -/
inductive Change where
  | enableReading
  | disableReading
  | enableWriting
  | disableWriting
  | disableAll
  deriving DecidableEq, Repr

def Change.apply (events : EventMask) : Change → EventMask
  | .enableReading => events ||| kReadEvent
  | .disableReading => events &&& ~~~kReadEvent
  | .enableWriting => events ||| kWriteEvent
  | .disableWriting => events &&& ~~~kWriteEvent
  | .disableAll => kNoneEvent

def changed (ch : Channel) (change : Change) : Channel :=
  { ch with events := change.apply ch.events }

/-- Where the thread of the reactor is. -/
inductive Phase where
  /-- before `loop` or in `doPendingTasks` -/
  | tasks
  /-- in the loop over `active_channels_`, with the channels that are still to come -/
  | dispatching (coming : List ChannelId)
  /-- in `handleEvent` of a channel -/
  | handling (c : ChannelId) (coming : List ChannelId)
  deriving DecidableEq, Repr

def Phase.coming : Phase → List ChannelId
  | .tasks => []
  | .dispatching coming => coming
  | .handling _ coming => coming

/-- Whether the thread runs a task or a callback, which may use the channels. -/
def Phase.userCode : Phase → Bool
  | .dispatching _ => false
  | _ => true

inductive Event where
  | registered (c : ChannelId)
  | removed (c : ChannelId)
  | handled (c : ChannelId)
  deriving DecidableEq, Repr

/-- The log holds what has happened since the last poll, the newest event first. -/
structure State where
  phase : Phase
  channel : ChannelId → Channel
  poller : Poller ChannelId
  log : List Event

/-- A reactor whose channels, one for each fd given, are not registered. -/
def start (fd : ChannelId → Nat) : State where
  phase := .tasks
  channel c := Channel.create (fd c)
  poller := .empty
  log := []

namespace State

/-- `Reactor::updateChannel`, called by a member of the channel. -/
def update (s : State) (c : ChannelId) (change : Change) (succeeds : Bool) : State :=
  let ch := s.channel c
  let updated := s.poller.updateChannel c (changed ch change) succeeds
  { s with
    channel := Function.update s.channel c updated.2
    poller := updated.1
    log := if ch.index = .kNew then .registered c :: s.log else s.log }

/-- `Reactor::removeChannel`. -/
def remove (s : State) (c : ChannelId) : State :=
  let removed := s.poller.removeChannel c (s.channel c) true
  { s with
    channel := Function.update s.channel c removed.2
    poller := removed.1
    log := .removed c :: s.log }

/-- The kernel's interest set has the channel. -/
def Registered (s : State) (c : ChannelId) : Prop :=
  (s.poller.interest (s.channel c).fd).any (fun e => e.1 = c) = true

instance (s : State) (c : ChannelId) : Decidable (s.Registered c) :=
  inferInstanceAs (Decidable (_ = true))

end State

inductive Action where
  | poll (active : List ChannelId)
  | dispatch
  | update (c : ChannelId) (change : Change) (succeeds : Bool)
  | remove (c : ChannelId)
  | handlerReturns
  | dispatchEnds
  deriving DecidableEq, Repr

/-- A step of the reactor's thread. An EPOLL_CTL_DEL of an fd that is present succeeds. -/
def step (s : State) : Action → Option State
  | .poll active =>
    Runs.guarded (s.phase = .tasks ∧ ∀ c ∈ active, s.Registered c)
      { s with phase := .dispatching active, log := [] }
  | .dispatch =>
    match s.phase with
    | .dispatching (c :: coming) =>
      some { s with phase := .handling c coming, log := .handled c :: s.log }
    | _ => none
  | .update c change succeeds =>
    Runs.guarded (s.phase.userCode = true ∧ ((s.channel c).index = .kAdded →
        change.apply (s.channel c).events = kNoneEvent → succeeds = true))
      (s.update c change succeeds)
  | .remove c =>
    Runs.guarded (s.phase.userCode = true ∧ (s.channel c).isNoneEvent = true) (s.remove c)
  | .handlerReturns =>
    match s.phase with
    | .handling _ coming => some { s with phase := .dispatching coming }
    | _ => none
  | .dispatchEnds =>
    match s.phase with
    | .dispatching [] => some { s with phase := .tasks }
    | _ => none

/-- Whether the channel has been removed and not registered again. -/
def leftRemoved (c : ChannelId) : List Event → Bool
  | [] => false
  | .registered d :: log => d ≠ c && leftRemoved c log
  | .removed d :: log => d = c || leftRemoved c log
  | .handled _ :: log => leftRemoved c log

/-- Whether each call of `handleEvent` was on a channel that had not been left removed. -/
def callsInPlace : List Event → Bool
  | [] => true
  | .handled c :: log => !leftRemoved c log && callsInPlace log
  | _ :: log => callsInPlace log

/-- The iteration has called no handler of a channel that it had removed before. -/
def NoStaleCall (s : State) : Prop := callsInPlace s.log = true

instance (s : State) : Decidable (NoStaleCall s) := inferInstanceAs (Decidable (_ = true))

/-- Where the loop comes to a channel, its `index_` is not the `kNew` of a channel
that is not known to the poller. -/
def FindsIndexed (s : State) : Action → Prop
  | .dispatch => ∀ c coming, s.phase = .dispatching (c :: coming) → (s.channel c).index ≠ .kNew
  | _ => True

/-- The interest set has added channels only, and each channel still to come is new exactly
when it has been removed in this iteration. -/
structure Shape (s : State) : Prop where
  interest : ∀ fd c mask, s.poller.interest fd = some (c, mask) →
    (s.channel c).fd = fd ∧ (s.channel c).index = .kAdded
  coming : ∀ c ∈ s.phase.coming, (s.channel c).index = .kNew ↔ leftRemoved c s.log = true

theorem shape_start (fd : ChannelId → Nat) : Shape (start fd) := by
  constructor
  · intro fd' c mask h
    cases h
  · intro c hc
    cases hc

/-- `updateChannel` adds the channel or keeps it added, or deletes one without events. -/
theorem updateChannel_cases (p : Poller ChannelId) (c : ChannelId) (ch : Channel)
    (succeeds : Bool) :
    (p.updateChannel c ch succeeds).2.fd = ch.fd ∧
      ((p.updateChannel c ch succeeds).2.index = .kAdded ∧ (∃ operation,
          (p.updateChannel c ch succeeds).1.interest =
            epollCtl p.interest operation c ch succeeds) ∨
        ch.index = .kAdded ∧ ch.events = kNoneEvent ∧
          (p.updateChannel c ch succeeds).2.index = .kDeleted ∧
          (p.updateChannel c ch succeeds).1.interest = epollCtl p.interest .del c ch succeeds) := by
  cases hindex : ch.index with
  | kNew =>
    simp only [Poller.updateChannel, hindex, Poller.update]
    exact ⟨trivial, .inl ⟨trivial, .add, rfl⟩⟩
  | kDeleted =>
    simp only [Poller.updateChannel, hindex, Poller.update]
    exact ⟨trivial, .inl ⟨trivial, .add, rfl⟩⟩
  | kAdded =>
    simp only [Poller.updateChannel, hindex, Poller.update]
    by_cases hnone : ch.isNoneEvent = true
    · rw [if_pos hnone]
      have hevents : ch.events = kNoneEvent := by simpa [Channel.isNoneEvent] using hnone
      exact ⟨rfl, .inr ⟨trivial, hevents, rfl, rfl⟩⟩
    · rw [if_neg hnone]
      exact ⟨rfl, .inl ⟨hindex, .mod, rfl⟩⟩

/-- An entry of the interest set after the call is an old one or the channel's own. -/
theorem updateChannel_entry {p : Poller ChannelId} {c : ChannelId} {ch : Channel}
    {succeeds : Bool} {fd : Nat} {e : ChannelId × EventMask}
    (h : (p.updateChannel c ch succeeds).1.interest fd = some e) :
    p.interest fd = some e ∨ fd = ch.fd ∧ e.1 = c := by
  have hctl : ∃ operation, (p.updateChannel c ch succeeds).1.interest =
      epollCtl p.interest operation c ch succeeds := by
    rcases (updateChannel_cases p c ch succeeds).2 with ⟨_, operation, heq⟩ | ⟨_, _, _, heq⟩
    · exact ⟨operation, heq⟩
    · exact ⟨.del, heq⟩
  obtain ⟨operation, heq⟩ := hctl
  rw [heq] at h
  rcases epollCtl_some h with hold | ⟨hfd, rfl⟩
  · exact .inl hold
  · exact .inr ⟨hfd, rfl⟩

/-- The events of the channel have been changed, and an added one without events is deleted. -/
theorem interest_update {s : State} (h : Shape s) {c : ChannelId} {change : Change}
    {succeeds : Bool} (hdel : (s.channel c).index = .kAdded →
      change.apply (s.channel c).events = kNoneEvent → succeeds = true) {fd : Nat}
    {d : ChannelId} {mask : EventMask}
    (hentry : (s.update c change succeeds).poller.interest fd = some (d, mask)) :
    ((s.update c change succeeds).channel d).fd = fd ∧
      ((s.update c change succeeds).channel d).index = .kAdded := by
  obtain ⟨hfd, hrest⟩ := updateChannel_cases s.poller c (changed (s.channel c) change) succeeds
  simp only [State.update] at hentry ⊢
  rcases hrest with ⟨hadded, _⟩ | ⟨hadded, hnone, _, hinterest⟩
  · by_cases hd : d = c
    · subst hd
      rw [Function.update_self]
      rcases updateChannel_entry hentry with hold | ⟨hsame, _⟩
      · exact ⟨hfd.trans (h.interest fd d mask hold).1, hadded⟩
      · exact ⟨hfd.trans hsame.symm, hadded⟩
    · rw [Function.update_of_ne hd]
      rcases updateChannel_entry hentry with hold | ⟨_, hself⟩
      · exact h.interest fd d mask hold
      · exact absurd hself hd
  · -- the deleted channel had no entry but the one at its fd
    rw [hinterest, hdel hadded hnone] at hentry
    have hother : fd ≠ (changed (s.channel c) change).fd := by
      rintro rfl
      rw [epollCtl_del] at hentry
      cases hentry
    rw [epollCtl_of_ne hother] at hentry
    have hold := h.interest fd d mask hentry
    have hd : d ≠ c := by
      rintro rfl
      exact hother hold.1.symm
    rw [Function.update_of_ne hd]
    exact hold

theorem coming_update {s : State} (h : Shape s) (c : ChannelId) (change : Change)
    (succeeds : Bool) {d : ChannelId} (hd : d ∈ s.phase.coming) :
    ((s.update c change succeeds).channel d).index = .kNew ↔
      leftRemoved d (s.update c change succeeds).log = true := by
  have hold := h.coming d hd
  have hnew : (s.poller.updateChannel c (changed (s.channel c) change) succeeds).2.index ≠
      .kNew := by
    rcases (updateChannel_cases s.poller c (changed (s.channel c) change) succeeds).2 with
      ⟨hadded, _⟩ | ⟨_, _, hdeleted, _⟩
    · simp [hadded]
    · simp [hdeleted]
  simp only [State.update]
  by_cases hdc : d = c
  · subst hdc
    rw [Function.update_self]
    by_cases hindex : (s.channel d).index = .kNew
    · simp [hindex, hnew, leftRemoved]
    · simpa [hindex, hnew] using hold
  · rw [Function.update_of_ne hdc, hold]
    split
    · simp [leftRemoved, Ne.symm hdc]
    · rfl

theorem shape_update {s : State} (h : Shape s) {c : ChannelId} {change : Change}
    {succeeds : Bool} (hdel : (s.channel c).index = .kAdded →
      change.apply (s.channel c).events = kNoneEvent → succeeds = true) :
    Shape (s.update c change succeeds) := by
  constructor
  · intro fd d mask hentry
    exact interest_update h hdel hentry
  · intro d hd
    exact coming_update h c change succeeds hd

theorem shape_remove {s : State} (h : Shape s) (c : ChannelId) : Shape (s.remove c) := by
  constructor
  · intro fd d mask hentry
    have hold : s.poller.interest fd = some (d, mask) ∧ d ≠ c := by
      simp only [State.remove, Poller.removeChannel] at hentry
      split at hentry
      · simp only [Poller.update] at hentry
        have hother : fd ≠ (s.channel c).fd := by
          rintro rfl
          rw [epollCtl_del] at hentry
          cases hentry
        rw [epollCtl_of_ne hother] at hentry
        refine ⟨hentry, ?_⟩
        rintro rfl
        exact hother (h.interest fd d mask hentry).1.symm
      · rename_i hindex
        refine ⟨hentry, ?_⟩
        rintro rfl
        exact hindex (h.interest fd d mask hentry).2
    simp only [State.remove, Function.update_of_ne hold.2]
    exact h.interest fd d mask hold.1
  · intro d hd
    have hold := h.coming d hd
    simp only [State.remove, leftRemoved]
    by_cases hdc : d = c
    · subst hdc
      simp [Poller.removeChannel]
    · rw [Function.update_of_ne hdc, hold]
      simp [Ne.symm hdc]

/-- What a step does to the iteration, one case for each kind. -/
theorem step_cases {s s' : State} {a : Action} (hstep : step s a = some s') :
    (∃ active, a = .poll active ∧ (∀ c ∈ active, s.Registered c) ∧
      s' = { s with phase := .dispatching active, log := [] }) ∨
    (∃ c coming, a = .dispatch ∧ s.phase = .dispatching (c :: coming) ∧
      s' = { s with phase := .handling c coming, log := .handled c :: s.log }) ∨
    (∃ c change succeeds, a = .update c change succeeds ∧ ((s.channel c).index = .kAdded →
        change.apply (s.channel c).events = kNoneEvent → succeeds = true) ∧
      s' = s.update c change succeeds) ∨
    (∃ c, a = .remove c ∧ s' = s.remove c) ∨
    ∃ phase, a ≠ .dispatch ∧ phase.coming = s.phase.coming ∧ s' = { s with phase := phase } := by
  cases a with
  | poll active =>
    obtain ⟨⟨_, hregistered⟩, rfl⟩ := Runs.guarded_eq_some.mp hstep
    exact .inl ⟨active, rfl, hregistered, rfl⟩
  | dispatch =>
    simp only [step] at hstep
    split at hstep
    · rename_i c coming hphase
      cases hstep
      exact .inr (.inl ⟨c, coming, rfl, hphase, rfl⟩)
    · cases hstep
  | update c change succeeds =>
    obtain ⟨⟨_, hdel⟩, rfl⟩ := Runs.guarded_eq_some.mp hstep
    exact .inr (.inr (.inl ⟨c, change, succeeds, rfl, hdel, rfl⟩))
  | remove c =>
    obtain ⟨_, rfl⟩ := Runs.guarded_eq_some.mp hstep
    exact .inr (.inr (.inr (.inl ⟨c, rfl, rfl⟩)))
  | handlerReturns =>
    simp only [step] at hstep
    split at hstep
    · rename_i c coming hphase
      cases hstep
      exact .inr (.inr (.inr (.inr ⟨_, by simp, by rw [hphase]; rfl, rfl⟩)))
    · cases hstep
  | dispatchEnds =>
    simp only [step] at hstep
    split at hstep
    · rename_i hphase
      cases hstep
      exact .inr (.inr (.inr (.inr ⟨_, by simp, by rw [hphase]; rfl, rfl⟩)))
    · cases hstep

/-- What the poll reports has been added, so it is not new. -/
theorem added_of_registered {s : State} (h : Shape s) {c : ChannelId} (hc : s.Registered c) :
    (s.channel c).index = .kAdded := by
  obtain ⟨⟨d, mask⟩, hentry, hsame⟩ := (Option.any_eq_true _ _).mp hc
  rw [← of_decide_eq_true hsame]
  exact (h.interest _ d mask hentry).2

theorem shape_step (s : State) (a : Action) (s' : State) (h : Shape s)
    (hstep : step s a = some s') : Shape s' := by
  rcases step_cases hstep with ⟨active, _, hregistered, rfl⟩ | ⟨c, coming, _, hphase, rfl⟩ |
    ⟨c, change, succeeds, _, hdel, rfl⟩ | ⟨c, _, rfl⟩ | ⟨phase, _, hcoming, rfl⟩
  · refine ⟨h.interest, ?_⟩
    intro c hc
    simp [added_of_registered h (hregistered c hc), leftRemoved]
  · refine ⟨h.interest, ?_⟩
    intro d hd
    exact h.coming d (by rw [hphase]; exact List.mem_cons_of_mem c hd)
  · exact shape_update h hdel
  · exact shape_remove h c
  · refine ⟨h.interest, ?_⟩
    intro c hc
    exact h.coming c (by rw [← hcoming]; exact hc)

/-- One step calls no handler out of place exactly when it finds its channel indexed. -/
theorem noStaleCall_step {s s' : State} {a : Action} (hshape : Shape s) (h : NoStaleCall s)
    (hstep : step s a = some s') : NoStaleCall s' ↔ FindsIndexed s a := by
  unfold NoStaleCall at h ⊢
  rcases step_cases hstep with ⟨active, rfl, _, rfl⟩ | ⟨c, coming, rfl, hphase, rfl⟩ |
    ⟨c, change, succeeds, rfl, _, rfl⟩ | ⟨c, rfl, rfl⟩ | ⟨phase, hne, _, rfl⟩
  · exact iff_of_true rfl trivial
  · have hcoming := hshape.coming c (by rw [hphase]; exact List.mem_cons_self)
    have hnext : FindsIndexed s .dispatch ↔ (s.channel c).index ≠ .kNew := by
      simp [FindsIndexed, hphase]
    rw [hnext, ne_eq, hcoming]
    simp [callsInPlace, h]
  · refine iff_of_true ?_ trivial
    simp only [State.update]
    split <;> simp [callsInPlace, h]
  · refine iff_of_true ?_ trivial
    simp [State.remove, callsInPlace, h]
  · apply iff_of_true h
    cases a with
    | dispatch => exact absurd rfl hne
    | _ => trivial

/-- Within each iteration the loop calls no handler of a channel that was removed before
and not registered again, exactly in the runs in which it finds each channel indexed. -/
theorem no_stale_call_iff {fd : ChannelId → Nat} {acts : List Action} :
    Runs.Throughout step NoStaleCall (start fd) acts ↔
      Runs.Along step FindsIndexed (start fd) acts := by
  constructor
  · apply Runs.along_of_throughout Shape shape_step
    · intro s a hshape h h'
      cases hstep : step s a with
      | some s' => exact (noStaleCall_step hshape h hstep).mp (h' s' hstep)
      | none =>
        cases a with
        | dispatch =>
          intro c coming hphase
          simp [step, hphase] at hstep
        | _ => trivial
    · exact shape_start fd
  · intro hal
    have hinv : Runs.Throughout step (fun s => Shape s ∧ NoStaleCall s) (start fd) acts := by
      apply Runs.throughout_of_step _ _ ⟨shape_start fd, rfl⟩ hal
      rintro s a s' ⟨hshape, h⟩ hfinds hstep
      exact ⟨shape_step s a s' hshape hstep, (noStaleCall_step hshape h hstep).mpr hfinds⟩
    exact Runs.throughout_mono (fun _ hs => hs.2) hinv

/-- The step removes no channel that is still to come in the active list. -/
def RemovesNoneComing (s : State) : Action → Prop
  | .remove c => c ∉ s.phase.coming
  | _ => True

theorem inPlace_step (s : State) (a : Action) (s' : State)
    (h : Shape s ∧ ∀ c ∈ s.phase.coming, leftRemoved c s.log = false)
    (hremoves : RemovesNoneComing s a) (hstep : step s a = some s') :
    Shape s' ∧ ∀ c ∈ s'.phase.coming, leftRemoved c s'.log = false := by
  obtain ⟨hshape, hplace⟩ := h
  refine ⟨shape_step s a s' hshape hstep, ?_⟩
  intro d hd
  rcases step_cases hstep with ⟨active, rfl, _, rfl⟩ | ⟨c, coming, rfl, hphase, rfl⟩ |
    ⟨c, change, succeeds, rfl, _, rfl⟩ | ⟨c, rfl, rfl⟩ | ⟨phase, _, hcoming, rfl⟩
  · rfl
  · exact hplace d (by rw [hphase]; exact List.mem_cons_of_mem c hd)
  · have hold := hplace d hd
    simp only [State.update]
    split
    · simp [leftRemoved, hold]
    · exact hold
  · have hold := hplace d hd
    have hne : c ≠ d := by
      rintro rfl
      exact hremoves hd
    simp [State.remove, leftRemoved, hold, hne]
  · exact hplace d (by rw [← hcoming]; exact hd)

/-- It is enough that no callback removes a channel that is still to come. -/
theorem findsIndexed_of_removesNoneComing {fd : ChannelId → Nat} {acts : List Action}
    (h : Runs.Along step RemovesNoneComing (start fd) acts) :
    Runs.Along step FindsIndexed (start fd) acts := by
  have hplace : ∀ c ∈ (start fd).phase.coming, leftRemoved c (start fd).log = false := by
    intro c hc
    cases hc
  have hinv := Runs.throughout_of_step _ inPlace_step ⟨shape_start fd, hplace⟩ h
  apply Runs.along_of_throughout Shape shape_step ?_ (shape_start fd) hinv
  rintro s a hshape ⟨_, h⟩ _
  cases a with
  | dispatch =>
    intro c coming hphase
    have hc : c ∈ s.phase.coming := by
      rw [hphase]
      exact List.mem_cons_self
    rw [ne_eq, hshape.coming c hc, h c hc]
    simp
  | _ => trivial

/-- Two channels are ready, and the handler of the first removes the second. -/
def removesNext : List Action :=
  [.update 0 .enableReading true, .update 1 .enableReading true, .poll [0, 1], .dispatch,
    .update 1 .disableAll true, .remove 1, .handlerReturns, .dispatch]

theorem stale_call : ∃ s, Runs.exec step (start (fun c => c + 5)) removesNext = some s ∧
    s.phase = .handling 1 [] ∧ ¬ NoStaleCall s :=
  ⟨_, rfl, rfl, by decide⟩

end ActiveChannels
