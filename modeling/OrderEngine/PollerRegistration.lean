import OrderEngine.ActiveChannels

/-!
# What the poller and the kernel know of a channel

`index_`, the map `channels_` and the kernel's interest set are three records of one fact.
The calls that change them come in any order on the channels of one poller, whose fds
are distinct.
-/
namespace PollerRegistration

open EpollPoller ActiveChannels

/-- A member of `Channel` that goes to the poller. -/
inductive Call where
  | update (c : ChannelId) (change : Change)
  | remove (c : ChannelId)
  deriving DecidableEq, Repr

def Call.channel : Call → ChannelId
  | .update c _ => c
  | .remove c => c

structure State where
  channel : ChannelId → Channel
  poller : Poller ChannelId

/-- The channels, one for each fd given, as their constructors leave them. -/
def start (fd : ChannelId → Nat) : State where
  channel c := Channel.create (fd c)
  poller := .empty

/-- The channel on which the poller is called: its events have been set. -/
def State.touched (s : State) : Call → Channel
  | .update c change => changed (s.channel c) change
  | .remove c => s.channel c

/-- The operation with which `updateChannel` and `removeChannel` call `epoll_ctl`. -/
def State.issued (s : State) (call : Call) : Option Operation :=
  match call, (s.touched call).index with
  | .update _ _, .kNew => some .add
  | .update _ _, .kDeleted => some .add
  | .update _ _, .kAdded => if (s.touched call).isNoneEvent then some .del else some .mod
  | .remove _, .kAdded => some .del
  | .remove _, _ => none

/-- The poller and the channel after the call. -/
def State.called (s : State) (call : Call) (succeeds : Bool) : Poller ChannelId × Channel :=
  match call with
  | .update c _ => s.poller.updateChannel c (s.touched call) succeeds
  | .remove c => s.poller.removeChannel c (s.touched call) succeeds

def State.after (s : State) (call : Call) (succeeds : Bool) : State where
  channel := Function.update s.channel call.channel (s.called call succeeds).2
  poller := (s.called call succeeds).1

/-- `assert(isNoneEvent())` in `Channel::remove`. -/
def State.Allowed (s : State) : Call → Prop
  | .update _ _ => True
  | .remove c => (s.channel c).isNoneEvent = true

instance (s : State) (call : Call) : Decidable (s.Allowed call) := by
  cases call <;> unfold State.Allowed <;> infer_instance

/-- A call during which a legal `epoll_ctl` succeeds or fails. -/
def stepOrFail (s : State) (a : Call × Bool) : Option State :=
  Runs.guarded (s.Allowed a.1) (s.after a.1 a.2)

/-- A call during which `epoll_ctl` fails only where the call is illegal. -/
def step (s : State) (call : Call) : Option State := stepOrFail s (call, true)

/-- `epoll_ctl` may add an absent fd and modify or delete a present one. -/
def Legal (s : State) (call : Call) : Prop :=
  match s.issued call with
  | none => True
  | some .add => s.poller.interest (s.channel call.channel).fd = none
  | some _ => s.poller.interest (s.channel call.channel).fd ≠ none

/-- The channel is in the interest set, with its pointer and its events, exactly when its
index is `kAdded`, and in the map exactly when it is not new. -/
structure Tracked (s : State) (c : ChannelId) : Prop where
  interest : s.poller.interest (s.channel c).fd =
    if (s.channel c).index = .kAdded then some (c, (s.channel c).events) else none
  channels : s.poller.channels (s.channel c).fd =
    if (s.channel c).index = .kNew then none else some c
  events : (s.channel c).index ≠ .kAdded → (s.channel c).events = kNoneEvent

theorem touched_fd (s : State) (call : Call) :
    (s.touched call).fd = (s.channel call.channel).fd := by
  cases call <;> rfl

theorem touched_index (s : State) (call : Call) :
    (s.touched call).index = (s.channel call.channel).index := by
  cases call <;> rfl

/-- What the call does to the interest set is what its one `epoll_ctl` does. -/
theorem called_interest (s : State) (call : Call) (succeeds : Bool) :
    (s.called call succeeds).1.interest =
      match s.issued call with
      | none => s.poller.interest
      | some operation =>
        epollCtl s.poller.interest operation call.channel (s.touched call) succeeds := by
  cases call with
  | update c change =>
    simp only [State.called, State.issued, Poller.updateChannel, Call.channel]
    cases hindex : (s.touched (.update c change)).index with
    | kNew | kDeleted => rfl
    | kAdded => by_cases hnone : (s.touched (.update c change)).isNoneEvent <;> simp [hnone, Poller.update]
  | remove c =>
    simp only [State.called, State.issued, Poller.removeChannel, Call.channel]
    cases hindex : (s.touched (.remove c)).index <;> simp [Poller.update]

/-- `index_` after the call. -/
def State.indexAfter (s : State) (call : Call) : Index :=
  match call with
  | .remove _ => .kNew
  | .update c _ =>
    if (s.channel c).index = .kAdded ∧ (s.touched call).isNoneEvent then .kDeleted else .kAdded

theorem called_channel (s : State) (call : Call) (succeeds : Bool) :
    (s.called call succeeds).2 = { s.touched call with index := s.indexAfter call } := by
  cases call with
  | update c change =>
    have htouched := touched_index s (.update c change)
    simp only [State.called, State.indexAfter, Poller.updateChannel, Call.channel] at htouched ⊢
    cases hindex : (s.channel c).index with
    | kNew | kDeleted => simp [htouched, hindex]
    | kAdded =>
      by_cases hnone : (s.touched (.update c change)).isNoneEvent
      · simp [htouched, hindex, hnone]
      · have hsame : { s.touched (.update c change) with index := .kAdded } =
            s.touched (.update c change) := by rw [← hindex, ← htouched]
        simp [htouched, hindex, hnone, hsame]
  | remove c => rfl

theorem called_channels (s : State) (call : Call) (succeeds : Bool) :
    (s.called call succeeds).1.channels =
      match call with
      | .remove c => Function.update s.poller.channels (s.channel c).fd none
      | .update c _ =>
        if (s.channel c).index = .kNew then
          Function.update s.poller.channels (s.channel c).fd (some c)
        else s.poller.channels := by
  cases call with
  | update c change =>
    simp only [State.called, Poller.updateChannel, touched_index, touched_fd, Call.channel]
    cases hindex : (s.channel c).index with
    | kNew => simp [Poller.update]
    | kDeleted => simp [Poller.update]
    | kAdded =>
      by_cases hnone : (s.touched (.update c change)).isNoneEvent <;> simp [hnone, Poller.update]
  | remove c =>
    simp only [State.called, Poller.removeChannel]
    split <;> rfl

/-- The channels keep the fds of their constructors. -/
def Placed (fd : ChannelId → Nat) (s : State) : Prop := ∀ c, (s.channel c).fd = fd c

theorem placed_after {fd : ChannelId → Nat} {s : State} (h : Placed fd s) (call : Call)
    (succeeds : Bool) : Placed fd (s.after call succeeds) := by
  intro d
  by_cases hd : d = call.channel
  · subst hd
    simp only [State.after, Function.update_self, called_channel, touched_fd]
    exact h _
  · simp only [State.after, Function.update_of_ne hd]
    exact h d

/-- A call leaves the records of the other channels alone. -/
theorem tracked_other {fd : ChannelId → Nat} (hfd : Function.Injective fd) {s : State}
    (hplaced : Placed fd s) {call : Call} (succeeds : Bool) {d : ChannelId}
    (hd : d ≠ call.channel) :
    (s.after call succeeds).channel d = s.channel d ∧
      (s.after call succeeds).poller.interest (s.channel d).fd =
        s.poller.interest (s.channel d).fd ∧
      (s.after call succeeds).poller.channels (s.channel d).fd =
        s.poller.channels (s.channel d).fd := by
  have hne : (s.channel d).fd ≠ (s.channel call.channel).fd := by
    rw [hplaced, hplaced]
    exact hfd.ne hd
  refine ⟨Function.update_of_ne hd _ _, ?_, ?_⟩
  · simp only [State.after, called_interest]
    split
    · rfl
    · rw [epollCtl_of_ne]
      rw [touched_fd]
      exact hne
  · simp only [State.after, called_channels]
    cases call with
    | update c change =>
      by_cases hindex : (s.channel c).index = .kNew
      · simp only [if_pos hindex]
        exact Function.update_of_ne hne _ _
      · simp only [if_neg hindex]
    | remove c => exact Function.update_of_ne hne _ _

/-- What a legal call of `epoll_ctl` leaves at the channel's own fd, or an illegal one. -/
theorem epollCtl_self (interest : Nat → Option (ChannelId × EventMask)) (operation : Operation)
    (c : ChannelId) (ch : Channel) :
    epollCtl interest operation c ch true ch.fd =
      match operation with
      | .add => some ((interest ch.fd).getD (c, ch.events))
      | .mod => (interest ch.fd).map (fun _ => (c, ch.events))
      | .del => none := by
  cases operation <;> cases h : interest ch.fd <;> simp [epollCtl, h]

theorem interest_after {s : State} {call : Call} (h : Tracked s call.channel) :
    (s.after call true).poller.interest (s.channel call.channel).fd =
      if s.indexAfter call = .kAdded then some (call.channel, (s.touched call).events)
      else none := by
  have hinterest := h.interest
  have hself := fun operation => epollCtl_self s.poller.interest operation call.channel (s.touched call)
  simp only [touched_fd] at hself
  simp only [State.after, called_interest]
  cases call with
  | update c change =>
    simp only [Call.channel] at hinterest hself ⊢
    cases hindex : (s.channel c).index with
    | kNew | kDeleted =>
      simp [State.issued, State.indexAfter, touched_index, Call.channel, hindex, hself, hinterest]
    | kAdded =>
      by_cases hnone : (s.touched (.update c change)).isNoneEvent <;>
        simp [State.issued, State.indexAfter, touched_index, Call.channel, hindex, hself, hinterest,
          hnone]
  | remove c =>
    simp only [Call.channel] at hinterest hself ⊢
    cases hindex : (s.channel c).index <;>
      simp [State.issued, State.indexAfter, touched_index, Call.channel, hindex, hself, hinterest]

theorem channels_after {s : State} {call : Call} (h : Tracked s call.channel) (succeeds : Bool) :
    (s.after call succeeds).poller.channels (s.channel call.channel).fd =
      if s.indexAfter call = .kNew then none else some call.channel := by
  have hchannels := h.channels
  simp only [State.after, called_channels]
  cases call with
  | update c change =>
    have hnew : s.indexAfter (.update c change) ≠ .kNew := by
      simp only [State.indexAfter]
      split <;> simp
    by_cases hindex : (s.channel c).index = .kNew
    · simp [Call.channel, hindex, hnew]
    · simpa [Call.channel, hindex, hnew] using hchannels
  | remove c => simp [Call.channel, State.indexAfter]

theorem channel_after (s : State) (call : Call) (succeeds : Bool) :
    (s.after call succeeds).channel call.channel =
      { s.touched call with index := s.indexAfter call } := by
  simp only [State.after, Function.update_self, called_channel]

/-- The call brings the records of its own channel together again. -/
theorem tracked_self {s : State} {call : Call} (h : Tracked s call.channel)
    (hallowed : s.Allowed call) : Tracked (s.after call true) call.channel := by
  constructor
  · simp only [channel_after, touched_fd]
    exact interest_after h
  · simp only [channel_after, touched_fd]
    exact channels_after h true
  · simp only [channel_after]
    intro hadded
    cases call with
    | update c change =>
      by_cases hnone : (s.channel c).index = .kAdded ∧ (s.touched (.update c change)).isNoneEvent
      · simpa [Channel.isNoneEvent] using hnone.2
      · exact absurd (if_neg hnone) hadded
    | remove c => simpa [State.Allowed, State.touched, Channel.isNoneEvent] using hallowed

/-- The records of every channel stay together. -/
theorem tracked_step {fd : ChannelId → Nat} (hfd : Function.Injective fd) (s : State)
    (call : Call) (s' : State) (h : Placed fd s ∧ ∀ c, Tracked s c)
    (hstep : step s call = some s') : Placed fd s' ∧ ∀ c, Tracked s' c := by
  obtain ⟨hplaced, htracked⟩ := h
  obtain ⟨hallowed, rfl⟩ := Runs.guarded_eq_some.mp hstep
  refine ⟨placed_after hplaced call true, ?_⟩
  intro c
  by_cases hc : c = call.channel
  · subst hc
    exact tracked_self (htracked _) hallowed
  · obtain ⟨hchannel, hinterest, hchannels⟩ := tracked_other hfd hplaced true hc
    have hold := htracked c
    constructor
    · rw [hchannel, hinterest]
      exact hold.interest
    · rw [hchannel, hchannels]
      exact hold.channels
    · rw [hchannel]
      exact hold.events

theorem tracked_start (fd : ChannelId → Nat) : Placed fd (start fd) ∧ ∀ c, Tracked (start fd) c := by
  constructor
  · intro c
    rfl
  · intro c
    exact ⟨rfl, rfl, fun _ => rfl⟩

theorem legal_of_tracked {s : State} {call : Call} (h : Tracked s call.channel) :
    Legal s call := by
  have hinterest := h.interest
  rw [← touched_index] at hinterest
  unfold Legal State.issued
  cases call with
  | update c change =>
    cases hindex : (s.touched (.update c change)).index with
    | kNew | kDeleted => simpa [hindex] using hinterest
    | kAdded =>
      by_cases hnone : (s.touched (.update c change)).isNoneEvent <;> simp [hnone, hinterest, hindex]
  | remove c =>
    cases hindex : (s.touched (.remove c)).index <;> simp [hindex, hinterest]

/-- What `index_` says of the channel, the kernel and the map say as well. -/
structure Known (s : State) (c : ChannelId) : Prop where
  added : (s.channel c).index = .kAdded ↔ s.poller.interest (s.channel c).fd ≠ none
  entry : (s.channel c).index = .kAdded →
    s.poller.interest (s.channel c).fd = some (c, (s.channel c).events)
  mapped : s.poller.channels (s.channel c).fd = some c ↔
    (s.channel c).index = .kAdded ∨ (s.channel c).index = .kDeleted

theorem known_of_tracked {s : State} {c : ChannelId} (h : Tracked s c) : Known s c := by
  constructor
  · rw [h.interest]
    split <;> simp_all
  · intro hadded
    rw [h.interest, if_pos hadded]
  · rw [h.channels]
    cases (s.channel c).index <;> simp

/-- Every `epoll_ctl` of every run is legal, and `index_` tells after each call whether the
channel is in the interest set and in the map. -/
theorem records_agree {fd : ChannelId → Nat} (hfd : Function.Injective fd) (calls : List Call) :
    Runs.Along step Legal (start fd) calls ∧
      Runs.Throughout step (fun s => ∀ c, Known s c) (start fd) calls := by
  have hstart := tracked_start fd
  constructor
  · apply Runs.along_invariant (fun s => Placed fd s ∧ ∀ c, Tracked s c) (tracked_step hfd) ?_ hstart
    intro s call htracked
    exact legal_of_tracked (htracked.2 _)
  · have htracked := Runs.throughout_invariant _ (tracked_step hfd) hstart calls
    exact Runs.throughout_mono (fun s h c => known_of_tracked (h.2 c)) htracked

/-- Channel 0 comes and goes while channel 1 writes. -/
def comeAndGo : List Call :=
  [.update 0 .enableReading, .update 1 .enableWriting, .update 0 .disableAll, .remove 0,
    .update 0 .enableReading]

theorem fds_injective : Function.Injective (fun c : ChannelId => c + 3) := by
  intro a b h
  exact Nat.add_right_cancel h

theorem records_agree_comeAndGo :
    Runs.Along step Legal (start fun c => c + 3) comeAndGo ∧
      Runs.Throughout step (fun s => ∀ c, Known s c) (start fun c => c + 3) comeAndGo ∧
      (Runs.exec step (start fun c => c + 3) comeAndGo).isSome = true := by
  obtain ⟨hlegal, hknown⟩ := records_agree fds_injective comeAndGo
  exact ⟨hlegal, hknown, by decide⟩

/-- A channel is in the interest set, with its mask, exactly when it has an event enabled. -/
def Mirrored (s : State) (c : ChannelId) : Prop :=
  s.poller.interest (s.channel c).fd =
    if (s.channel c).events = kNoneEvent then none else some (c, (s.channel c).events)

/-- A channel that is not added is given an event. -/
def Registers (s : State) : Call → Prop
  | .update c change =>
    (s.channel c).index ≠ .kAdded → change.apply (s.channel c).events ≠ kNoneEvent
  | .remove _ => True

/-- A tracked channel is mirrored unless it has been added without events. -/
theorem mirrored_iff {s : State} {c : ChannelId} (h : Tracked s c) :
    Mirrored s c ↔ ((s.channel c).index = .kAdded → (s.channel c).events ≠ kNoneEvent) := by
  have hevents := h.events
  unfold Mirrored
  rw [h.interest]
  by_cases hadded : (s.channel c).index = .kAdded
  · by_cases hnone : (s.channel c).events = kNoneEvent <;> simp [hadded, hnone]
  · simp [hadded, hevents hadded]

theorem mirrored_self_iff {s : State} {call : Call} (h : Tracked s call.channel)
    (hallowed : s.Allowed call) :
    Mirrored (s.after call true) call.channel ↔ Registers s call := by
  rw [mirrored_iff (tracked_self h hallowed)]
  simp only [channel_after]
  cases call with
  | update c change =>
    by_cases hadded : (s.channel c).index = .kAdded
    · by_cases hnone : change.apply (s.channel c).events = kNoneEvent <;>
        simp [State.indexAfter, State.touched, changed, Registers, Channel.isNoneEvent, hadded, hnone]
    · simp [State.indexAfter, State.touched, changed, Registers, hadded]
  | remove c => simp [State.indexAfter, Registers]

/-- The interest set mirrors the events of the channels exactly in the runs that update no
channel, while it is not added, to no events. -/
theorem mirrored_run_iff {fd : ChannelId → Nat} (hfd : Function.Injective fd)
    {calls : List Call} :
    Runs.Throughout step (fun s => ∀ c, Mirrored s c) (start fd) calls ↔
      Runs.Along step Registers (start fd) calls := by
  have hstart := tracked_start fd
  constructor
  · apply Runs.along_of_throughout (fun s => Placed fd s ∧ ∀ c, Tracked s c) (tracked_step hfd) ?_
      hstart
    intro s call htracked _ hnext
    by_cases hallowed : s.Allowed call
    · have hafter := hnext _ (Runs.guarded_eq_some.mpr ⟨hallowed, rfl⟩) call.channel
      exact (mirrored_self_iff (htracked.2 _) hallowed).mp hafter
    · cases call with
      | update c change => exact absurd trivial hallowed
      | remove c => trivial
  · intro hal
    have hinv : Runs.Throughout step
        (fun s => (Placed fd s ∧ ∀ c, Tracked s c) ∧ ∀ c, Mirrored s c) (start fd) calls := by
      apply Runs.throughout_of_step _ ?_ ⟨hstart, fun c => rfl⟩ hal
      rintro s call s' ⟨htracked, hmirrored⟩ hregisters hstep
      refine ⟨tracked_step hfd s call s' htracked hstep, ?_⟩
      obtain ⟨hallowed, rfl⟩ := Runs.guarded_eq_some.mp hstep
      intro c
      by_cases hc : c = call.channel
      · subst hc
        exact (mirrored_self_iff (htracked.2 _) hallowed).mpr hregisters
      · obtain ⟨hchannel, hinterest, _⟩ := tracked_other hfd htracked.1 true hc
        unfold Mirrored
        rw [hchannel, hinterest]
        exact hmirrored c
    exact Runs.throughout_mono (fun _ hs => hs.2) hinv

theorem mirrored_run_iff_comeAndGo :
    Runs.Throughout step (fun s => ∀ c, Mirrored s c) (start fun c => c + 3) comeAndGo ∧
      Runs.Along step Registers (start fun c => c + 3) comeAndGo := by
  have hal : Runs.Along step Registers (start fun c => c + 3) comeAndGo := by
    apply Runs.along_of_enabled rfl (fun _ => by decide)
    apply Runs.along_of_enabled rfl (fun _ => by decide)
    apply Runs.along_of_enabled rfl (fun h => absurd rfl h)
    apply Runs.along_of_enabled rfl trivial
    exact Runs.along_of_enabled rfl (fun _ => by decide) trivial
  exact ⟨(mirrored_run_iff fds_injective).mpr hal, hal⟩

/-- A second `disableAll` puts the channel back into the interest set, with an empty mask. -/
theorem disabled_twice_registered : ∃ s s',
    Runs.exec step (start fun c => c + 3) [.update 0 .enableReading, .update 0 .disableAll] =
        some s ∧ s.poller.interest 3 = none ∧
      step s (.update 0 .disableAll) = some s' ∧ s'.poller.interest 3 = some (0, kNoneEvent) ∧
      (s'.channel 0).events = kNoneEvent ∧ ¬ Mirrored s' 0 := by
  refine ⟨_, _, rfl, rfl, rfl, rfl, rfl, ?_⟩
  intro h
  cases h

end PollerRegistration
