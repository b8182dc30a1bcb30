import OrderEngine.PollerRegistration
import Mathlib.Data.List.Induction

/-!
# SelectPoller, the poller for Windows

It keeps the map `channels_` and the vector `polled_channels_`, and asks the channels for
their events when it polls. Its sets of fds have room for `FD_SETSIZE` of them.
-/
namespace SelectPoller

open EpollPoller (EventMask)
open ActiveChannels (ChannelId Change)
open PollerRegistration (Call)

def kNoneEvent : EventMask := 0
def kReadEvent : EventMask := 1
def kWriteEvent : EventMask := 2
def kErrorEvent : EventMask := 4

structure Channel where
  fd : Nat
  events : EventMask
  deriving DecidableEq, Repr

def Channel.create (fd : Nat) : Channel where
  fd := fd
  events := kNoneEvent

def Channel.isWriting (ch : Channel) : Bool := ch.events &&& kWriteEvent != 0

def Channel.isReading (ch : Channel) : Bool := ch.events &&& kReadEvent != 0

def Channel.isNoneEvent (ch : Channel) : Bool := ch.events == kNoneEvent

/-- The members of `Channel` that set its events. -/
def applied (events : EventMask) : Change → EventMask
  | .enableReading => events ||| kReadEvent
  | .disableReading => events &&& ~~~kReadEvent
  | .enableWriting => events ||| kWriteEvent
  | .disableWriting => events &&& ~~~kWriteEvent
  | .disableAll => kNoneEvent

def Channel.changed (ch : Channel) (change : Change) : Channel :=
  { ch with events := applied ch.events change }

structure Poller where
  channels : Nat → Option ChannelId
  polledChannels : List ChannelId

def Poller.empty : Poller where
  channels _ := none
  polledChannels := []

/-- `SelectPoller::updateChannel`. -/
def Poller.updateChannel (p : Poller) (c : ChannelId) (ch : Channel) : Poller :=
  match p.channels ch.fd with
  | none =>
    { channels := Function.update p.channels ch.fd (some c)
      polledChannels := p.polledChannels ++ [c] }
  | some _ => p

/-- `SelectPoller::removeChannel`. -/
def Poller.removeChannel (p : Poller) (c : ChannelId) (ch : Channel) : Poller :=
  match p.channels ch.fd with
  | none => p
  | some _ =>
    { channels := Function.update p.channels ch.fd none
      polledChannels := p.polledChannels.erase c }

structure State where
  channel : ChannelId → Channel
  poller : Poller

def start (fd : ChannelId → Nat) : State where
  channel c := Channel.create (fd c)
  poller := .empty

def State.update (s : State) (c : ChannelId) (change : Change) : State where
  channel := Function.update s.channel c ((s.channel c).changed change)
  poller := s.poller.updateChannel c ((s.channel c).changed change)

def State.remove (s : State) (c : ChannelId) : State :=
  { s with poller := s.poller.removeChannel c (s.channel c) }

/-- A member of `Channel`, as `PollerRegistration.step` is for the other poller. -/
def step (s : State) : Call → Option State
  | .update c change => some (s.update c change)
  | .remove c => Runs.guarded ((s.channel c).isNoneEvent = true) (s.remove c)

/-- `FD_SETSIZE`, which the sources leave at the default of `winsock2.h`. -/
def fdSetSize : Nat := 64

/-- `FD_SET`: an fd that is not in the set yet enters it if there is room. -/
def fdSet (fd : Nat) (set : List Nat) : List Nat :=
  if fd ∈ set then set else if set.length < fdSetSize then set ++ [fd] else set

structure FdSets where
  read : List Nat
  write : List Nat
  except : List Nat
  deriving DecidableEq, Repr

/-- The sets that `poll` hands to `select`. -/
def State.fdSets (s : State) : FdSets :=
  s.poller.polledChannels.foldl
    (fun sets c =>
      let ch := s.channel c
      { read := if ch.isReading then fdSet ch.fd sets.read else sets.read
        write := if ch.isWriting then fdSet ch.fd sets.write else sets.write
        except := fdSet ch.fd sets.except })
    { read := [], write := [], except := [] }

/-- The `revents` of an fd in the sets that `select` leaves. -/
def FdSets.revents (sets : FdSets) (fd : Nat) : EventMask :=
  (if fd ∈ sets.read then kReadEvent else 0) ||| (if fd ∈ sets.write then kWriteEvent else 0) |||
    (if fd ∈ sets.except then kErrorEvent else 0)

/-- The channels that have `revents` in the sets, with them. -/
def State.active (s : State) (sets : FdSets) : List (ChannelId × EventMask) :=
  s.poller.polledChannels.filterMap (fun c =>
    if sets.revents (s.channel c).fd ≠ 0 then some (c, sets.revents (s.channel c).fd) else none)

/-- `SelectPoller::poll`: the active channels with their `revents`. `select` returns the
number of fds that are ready, or an error, and leaves these fds in the sets. -/
def State.poll (s : State) (select : FdSets → Int × FdSets) : List (ChannelId × EventMask) :=
  if s.poller.polledChannels = [] then []
  else if 0 < (select s.fdSets).1 then s.active (select s.fdSets).2
  else []

/-- The channels that `poll` finds reading, in its order. -/
def State.reading (s : State) : List ChannelId :=
  s.poller.polledChannels.filter (fun c => (s.channel c).isReading)

def State.writing (s : State) : List ChannelId :=
  s.poller.polledChannels.filter (fun c => (s.channel c).isWriting)

/-- The set has the fds of the first channels that are to be in it, as many as it can hold. -/
theorem collect_eq {fd : ChannelId → Nat} (hfd : Function.Injective fd) (p : ChannelId → Bool)
    {l : List ChannelId} (hl : l.Nodup) :
    l.foldl (fun set c => if p c then fdSet (fd c) set else set) [] =
      ((l.filter p).take fdSetSize).map fd := by
  induction l using List.reverseRecOn with
  | nil => rfl
  | append_singleton l c ih =>
    obtain ⟨hbefore, _, hc⟩ := List.nodup_append.mp hl
    rw [List.foldl_append, ih hbefore, List.filter_append]
    by_cases hp : p c = true
    · have hnew : fd c ∉ ((l.filter p).take fdSetSize).map fd := by
        intro hmem
        obtain ⟨d, hd, hsame⟩ := List.mem_map.mp hmem
        have hdl : d ∈ l := List.mem_of_mem_filter (List.mem_of_mem_take hd)
        exact hc d hdl c (by simp) (hfd hsame)
      simp only [List.foldl_cons, List.foldl_nil, if_pos hp, fdSet, if_neg hnew, List.length_map,
        List.length_take, List.filter_cons_of_pos hp, List.filter_nil]
      by_cases hroom : (l.filter p).length < fdSetSize
      · rw [if_pos (by omega), List.take_of_length_le (by omega),
          List.take_of_length_le (by rw [List.length_append, List.length_singleton]; omega),
          List.map_append, List.map_singleton]
      · rw [if_neg (by omega), List.take_append_of_le_length (by omega)]
    · simp [hp]

theorem fdSets_eq (s : State) :
    s.fdSets =
      { read := s.poller.polledChannels.foldl (fun set c =>
          if (s.channel c).isReading then fdSet (s.channel c).fd set else set) []
        write := s.poller.polledChannels.foldl (fun set c =>
          if (s.channel c).isWriting then fdSet (s.channel c).fd set else set) []
        except := s.poller.polledChannels.foldl (fun set c => fdSet (s.channel c).fd set) [] } := by
  rw [State.fdSets]
  induction s.poller.polledChannels using List.reverseRecOn with
  | nil => rfl
  | append_singleton l c ih => simp only [List.foldl_append, ih, List.foldl_cons, List.foldl_nil]

/-- Events that are made up of the two constants of a platform. -/
def masked (read write : EventMask) (reading writing : Bool) : EventMask :=
  (if reading then read else 0) ||| (if writing then write else 0)

/-- The two pollers have seen the same calls. -/
structure Simulates (s : PollerRegistration.State) (t : State) : Prop where
  fd : ∀ c, (t.channel c).fd = (s.channel c).fd
  events : ∀ c, ∃ reading writing,
    (s.channel c).events =
        masked EpollPoller.kReadEvent EpollPoller.kWriteEvent reading writing ∧
      (t.channel c).events = masked kReadEvent kWriteEvent reading writing
  channels : ∀ c, t.poller.channels (t.channel c).fd =
    if (s.channel c).index = .kNew then none else some c
  polled : ∀ c, c ∈ t.poller.polledChannels ↔ (s.channel c).index ≠ .kNew
  nodup : t.poller.polledChannels.Nodup

theorem simulates_start (fd : ChannelId → Nat) :
    Simulates (PollerRegistration.start fd) (start fd) := by
  constructor
  · intro c
    rfl
  · intro c
    exact ⟨false, false, rfl, rfl⟩
  · intro c
    rfl
  · intro c
    simp [start, Poller.empty, PollerRegistration.start, EpollPoller.Channel.create]
  · exact List.nodup_nil

/-- A change sets the same flags on both platforms. -/
theorem masked_applied (reading writing : Bool) (change : Change) : ∃ reading' writing',
    change.apply (masked EpollPoller.kReadEvent EpollPoller.kWriteEvent reading writing) =
        masked EpollPoller.kReadEvent EpollPoller.kWriteEvent reading' writing' ∧
      applied (masked kReadEvent kWriteEvent reading writing) change =
        masked kReadEvent kWriteEvent reading' writing' := by
  cases change with
  | enableReading => exact ⟨true, writing, by revert reading writing; decide⟩
  | disableReading => exact ⟨false, writing, by revert reading writing; decide⟩
  | enableWriting => exact ⟨reading, true, by revert reading writing; decide⟩
  | disableWriting => exact ⟨reading, false, by revert reading writing; decide⟩
  | disableAll => exact ⟨false, false, by revert reading writing; decide⟩

/-- The map has the channel after `updateChannel`, and the vector has it once. -/
theorem updateChannel_eq {p : Poller} {c : ChannelId} {ch : Channel}
    (h : p.channels ch.fd = if c ∈ p.polledChannels then some c else none) :
    p.updateChannel c ch =
      { channels := Function.update p.channels ch.fd (some c)
        polledChannels :=
          if c ∈ p.polledChannels then p.polledChannels else p.polledChannels ++ [c] } := by
  by_cases hmem : c ∈ p.polledChannels
  · have hsame : Function.update p.channels ch.fd (some c) = p.channels := by
      rw [if_pos hmem] at h
      rw [← h, Function.update_eq_self]
    rw [if_pos hmem] at h
    rw [Poller.updateChannel, h, hsame, if_pos hmem]
  · rw [if_neg hmem] at h
    rw [Poller.updateChannel, h, if_neg hmem]

theorem removeChannel_eq {p : Poller} {c : ChannelId} {ch : Channel}
    (h : p.channels ch.fd = if c ∈ p.polledChannels then some c else none) :
    p.removeChannel c ch =
      { channels := Function.update p.channels ch.fd none
        polledChannels := p.polledChannels.erase c } := by
  by_cases hmem : c ∈ p.polledChannels
  · rw [if_pos hmem] at h
    rw [Poller.removeChannel, h]
  · have hsame : Function.update p.channels ch.fd none = p.channels := by
      rw [if_neg hmem] at h
      rw [← h, Function.update_eq_self]
    rw [if_neg hmem] at h
    rw [Poller.removeChannel, h, hsame, List.erase_of_not_mem hmem]

/-- A call on one channel keeps the two pollers together when it does so for this channel. -/
theorem simulates_call {s s' : PollerRegistration.State} {t t' : State} {c : ChannelId}
    (hfd : ∀ d, d ≠ c → (s.channel d).fd ≠ (s.channel c).fd) (h : Simulates s t)
    (hother : ∀ d, d ≠ c → s'.channel d = s.channel d ∧ t'.channel d = t.channel d)
    (hself : (s'.channel c).fd = (s.channel c).fd ∧ (t'.channel c).fd = (t.channel c).fd)
    (hevents : ∃ reading writing,
      (s'.channel c).events =
          masked EpollPoller.kReadEvent EpollPoller.kWriteEvent reading writing ∧
        (t'.channel c).events = masked kReadEvent kWriteEvent reading writing)
    (hchannels : t'.poller.channels = Function.update t.poller.channels (t.channel c).fd
      (if (s'.channel c).index = .kNew then none else some c))
    (hpolled : ∀ d, d ∈ t'.poller.polledChannels ↔
      d ≠ c ∧ d ∈ t.poller.polledChannels ∨ d = c ∧ (s'.channel c).index ≠ .kNew)
    (hnodup : t'.poller.polledChannels.Nodup) : Simulates s' t' := by
  constructor
  · intro d
    by_cases hd : d = c
    · rw [hd, hself.1, hself.2, h.fd]
    · rw [(hother d hd).1, (hother d hd).2, h.fd]
  · intro d
    by_cases hd : d = c
    · rw [hd]
      exact hevents
    · rw [(hother d hd).1, (hother d hd).2]
      exact h.events d
  · intro d
    rw [hchannels]
    by_cases hd : d = c
    · rw [hd, hself.2, Function.update_self]
    · have hne : (t.channel d).fd ≠ (t.channel c).fd := by
        rw [h.fd, h.fd]
        exact hfd d hd
      rw [(hother d hd).1, (hother d hd).2, Function.update_of_ne hne]
      exact h.channels d
  · intro d
    rw [hpolled]
    by_cases hd : d = c
    · simp [hd]
    · simp [hd, (hother d hd).1, h.polled]
  · exact hnodup

theorem map_eq {s : PollerRegistration.State} {t : State} (h : Simulates s t) (c : ChannelId) :
    t.poller.channels (t.channel c).fd =
      if c ∈ t.poller.polledChannels then some c else none := by
  rw [h.channels]
  simp [h.polled]

theorem simulates_update {s s' : PollerRegistration.State} {t : State} {c : ChannelId}
    {change : Change} (hfd : ∀ d, d ≠ c → (s.channel d).fd ≠ (s.channel c).fd)
    (h : Simulates s t) (hother : ∀ d, d ≠ c → s'.channel d = s.channel d)
    (hself : s'.channel c =
      { s.touched (.update c change) with index := s.indexAfter (.update c change) }) :
    Simulates s' (t.update c change) := by
  have hchannel : (t.update c change).channel c = (t.channel c).changed change :=
    Function.update_self _ _ _
  have hpoller : (t.update c change).poller = _ :=
    updateChannel_eq (map_eq h c)
  have hindex : (s'.channel c).index ≠ .kNew := by
    simp only [hself, PollerRegistration.State.indexAfter]
    split <;> simp
  apply simulates_call hfd h
  · intro d hd
    exact ⟨hother d hd, Function.update_of_ne hd _ _⟩
  · rw [hself, hchannel]
    exact ⟨rfl, rfl⟩
  · obtain ⟨reading, writing, hs, ht⟩ := h.events c
    obtain ⟨reading', writing', hs', ht'⟩ := masked_applied reading writing change
    rw [hself, hchannel]
    refine ⟨reading', writing', ?_, ?_⟩
    · rw [← hs', ← hs]
      rfl
    · rw [← ht', ← ht]
      rfl
  · rw [hpoller, if_neg hindex]
    rfl
  · intro d
    rw [hpoller]
    by_cases hmem : c ∈ t.poller.polledChannels <;> by_cases hd : d = c <;> simp [hmem, hd, hindex]
  · rw [hpoller]
    by_cases hmem : c ∈ t.poller.polledChannels
    · simpa [hmem] using h.nodup
    · have happend : (t.poller.polledChannels ++ [c]).Nodup :=
        List.nodup_append.mpr ⟨h.nodup, List.nodup_singleton c, by
          intro a ha b hb hab
          rw [List.mem_singleton] at hb
          exact hmem (by rw [← hb, ← hab]; exact ha)⟩
      simpa [hmem] using happend

theorem simulates_remove {s s' : PollerRegistration.State} {t : State} {c : ChannelId}
    (hfd : ∀ d, d ≠ c → (s.channel d).fd ≠ (s.channel c).fd)
    (h : Simulates s t) (hother : ∀ d, d ≠ c → s'.channel d = s.channel d)
    (hself : s'.channel c = { s.channel c with index := .kNew }) :
    Simulates s' (t.remove c) := by
  have hpoller : (t.remove c).poller = _ := removeChannel_eq (map_eq h c)
  apply simulates_call hfd h
  · intro d hd
    exact ⟨hother d hd, rfl⟩
  · rw [hself]
    exact ⟨rfl, rfl⟩
  · rw [hself]
    exact h.events c
  · rw [hpoller, hself]
    rfl
  · intro d
    rw [hpoller, hself]
    simp [h.nodup.mem_erase_iff]
  · rw [hpoller]
    exact h.nodup.erase c

/-- A channel has the same flags on both platforms. -/
theorem flags_eq {s : PollerRegistration.State} {t : State} (h : Simulates s t) (c : ChannelId) :
    (t.channel c).isReading = (s.channel c).isReading ∧
      (t.channel c).isWriting = (s.channel c).isWriting ∧
      (t.channel c).isNoneEvent = (s.channel c).isNoneEvent := by
  obtain ⟨reading, writing, hs, ht⟩ := h.events c
  simp only [Channel.isReading, Channel.isWriting, Channel.isNoneEvent,
    EpollPoller.Channel.isReading, EpollPoller.Channel.isWriting,
    EpollPoller.Channel.isNoneEvent, hs, ht]
  cases reading <;> cases writing <;> decide

/-- `SelectPoller` can make every call that `EpollPoller` makes. -/
theorem simulates_step {fd : ChannelId → Nat} (hfd : Function.Injective fd)
    (s : PollerRegistration.State) (call : Call) (s' : PollerRegistration.State) (t : State)
    (h : PollerRegistration.Placed fd s ∧ Simulates s t)
    (hstep : PollerRegistration.step s call = some s') :
    ∃ t', step t call = some t' ∧ PollerRegistration.Placed fd s' ∧ Simulates s' t' := by
  obtain ⟨hplaced, hsim⟩ := h
  obtain ⟨hallowed, rfl⟩ := Runs.guarded_eq_some.mp hstep
  have hfds : ∀ d, d ≠ call.channel → (s.channel d).fd ≠ (s.channel call.channel).fd := by
    intro d hd
    rw [hplaced, hplaced]
    exact hfd.ne hd
  have hself := PollerRegistration.channel_after s call true
  have hother : ∀ d, d ≠ call.channel → (s.after call true).channel d = s.channel d :=
    fun d hd => (PollerRegistration.tracked_other hfd hplaced true hd).1
  have hafter := PollerRegistration.placed_after hplaced call true
  cases call with
  | update c change => exact ⟨_, rfl, hafter, simulates_update hfds hsim hother hself⟩
  | remove c =>
    have hnone : (t.channel c).isNoneEvent = true := (flags_eq hsim c).2.2.trans hallowed
    exact ⟨_, Runs.guarded_eq_some.mpr ⟨hnone, rfl⟩, hafter,
      simulates_remove hfds hsim hother hself⟩

/-- The kernel has the channel registered with some of these events. -/
def Registered (s : PollerRegistration.State) (c : ChannelId) (events : EventMask) : Prop :=
  ∃ mask, s.poller.interest (s.channel c).fd = some (c, mask) ∧ mask &&& events ≠ 0

/-- A channel is registered with an event exactly when it has it enabled. -/
theorem registered_iff {s : PollerRegistration.State} {c : ChannelId}
    (h : PollerRegistration.Tracked s c) (events : EventMask) :
    Registered s c events ↔ (s.channel c).events &&& events ≠ 0 := by
  rw [Registered, h.interest]
  by_cases hadded : (s.channel c).index = .kAdded
  · simp [hadded]
  · simp [hadded, h.events hadded, EpollPoller.kNoneEvent]

/-- The polled channels with an event are those registered with it. -/
theorem mem_polled_iff {s : PollerRegistration.State} {t : State} {c : ChannelId}
    (h : Simulates s t) (htracked : PollerRegistration.Tracked s c) {p : ChannelId → Bool}
    {events : EventMask} (hp : p c = true ↔ (s.channel c).events &&& events ≠ 0) :
    c ∈ t.poller.polledChannels.filter p ↔ Registered s c events := by
  rw [registered_iff htracked, List.mem_filter, h.polled, hp]
  constructor
  · intro hevent
    exact hevent.2
  · intro hevent
    refine ⟨?_, hevent⟩
    -- a new channel has no event enabled
    intro hnew
    have hnone := htracked.events (by simp [hnew])
    simp [hnone, EpollPoller.kNoneEvent] at hevent

theorem mem_reading_iff {s : PollerRegistration.State} {t : State} {c : ChannelId}
    (h : Simulates s t) (htracked : PollerRegistration.Tracked s c) :
    c ∈ t.reading ↔ Registered s c EpollPoller.kReadEvent := by
  apply mem_polled_iff h htracked
  rw [(flags_eq h c).1, EpollPoller.Channel.isReading, bne_iff_ne]

theorem mem_writing_iff {s : PollerRegistration.State} {t : State} {c : ChannelId}
    (h : Simulates s t) (htracked : PollerRegistration.Tracked s c) :
    c ∈ t.writing ↔ Registered s c EpollPoller.kWriteEvent := by
  apply mem_polled_iff h htracked
  rw [(flags_eq h c).2.1, EpollPoller.Channel.isWriting, bne_iff_ne]

/-- `FD_SET` has room for the first channels with the event. -/
theorem watched_iff {fd : ChannelId → Nat} (hfd : Function.Injective fd)
    {s : PollerRegistration.State} {t : State} (hplaced : PollerRegistration.Placed fd s)
    (h : Simulates s t) (p : ChannelId → Bool) (c : ChannelId) :
    (t.channel c).fd ∈ t.poller.polledChannels.foldl
        (fun set d => if p d then fdSet (t.channel d).fd set else set) [] ↔
      c ∈ (t.poller.polledChannels.filter p).take fdSetSize := by
  have hfds : ∀ d, (t.channel d).fd = fd d := fun d => (h.fd d).trans (hplaced d)
  simp only [hfds]
  rw [collect_eq hfd p h.nodup, List.mem_map_of_injective hfd]

/-- After the same calls, the polled channels that read (write) are those that `EpollPoller` has
registered with the event, and `SelectPoller` watches the first `FD_SETSIZE` of them: all of
them, if there are no more. No channel is polled twice. -/
theorem pollers_agree {fd : ChannelId → Nat} (hfd : Function.Injective fd) {calls : List Call}
    {s : PollerRegistration.State}
    (hrun : Runs.exec PollerRegistration.step (PollerRegistration.start fd) calls = some s) :
    ∃ t, Runs.exec step (start fd) calls = some t ∧ t.poller.polledChannels.Nodup ∧
      ∀ c,
        ((c ∈ t.reading ↔ Registered s c EpollPoller.kReadEvent) ∧
          ((t.channel c).fd ∈ t.fdSets.read ↔ c ∈ t.reading.take fdSetSize) ∧
          (t.reading.length ≤ fdSetSize →
            ((t.channel c).fd ∈ t.fdSets.read ↔ Registered s c EpollPoller.kReadEvent))) ∧
        (c ∈ t.writing ↔ Registered s c EpollPoller.kWriteEvent) ∧
          ((t.channel c).fd ∈ t.fdSets.write ↔ c ∈ t.writing.take fdSetSize) ∧
          (t.writing.length ≤ fdSetSize →
            ((t.channel c).fd ∈ t.fdSets.write ↔ Registered s c EpollPoller.kWriteEvent)) := by
  have hstart := PollerRegistration.tracked_start fd
  obtain ⟨hplaced, htracked⟩ :=
    Runs.invariant_exec _ (PollerRegistration.tracked_step hfd) hstart hrun
  obtain ⟨t, ht, _, hsim⟩ := Runs.lockstep_exec
    (fun s t => PollerRegistration.Placed fd s ∧ Simulates s t)
    (fun s call s' t => simulates_step hfd s call s' t) ⟨hstart.1, simulates_start fd⟩ hrun
  refine ⟨t, ht, hsim.nodup, ?_⟩
  intro c
  have hread := watched_iff hfd hplaced hsim (fun c => (t.channel c).isReading) c
  have hwrite := watched_iff hfd hplaced hsim (fun c => (t.channel c).isWriting) c
  have hreading := mem_reading_iff hsim (htracked c)
  have hwriting := mem_writing_iff hsim (htracked c)
  rw [fdSets_eq]
  constructor
  · refine ⟨hreading, hread, ?_⟩
    intro hroom
    rw [hread, ← hreading]
    exact iff_of_eq (congrArg (c ∈ ·) (List.take_of_length_le hroom))
  · refine ⟨hwriting, hwrite, ?_⟩
    intro hroom
    rw [hwrite, ← hwriting]
    exact iff_of_eq (congrArg (c ∈ ·) (List.take_of_length_le hroom))

/-- Channel 1 is there to be written in both, and channel 0 in neither. -/
theorem pollers_agree_comeAndGo : ∃ s t,
    Runs.exec PollerRegistration.step (PollerRegistration.start fun c => c + 3)
        PollerRegistration.comeAndGo = some s ∧
      Runs.exec step (start fun c => c + 3) PollerRegistration.comeAndGo = some t ∧
      t.poller.polledChannels.Nodup ∧
      (1 ∈ t.writing ∧ Registered s 1 EpollPoller.kWriteEvent) ∧
      (0 ∉ t.writing ∧ ¬ Registered s 0 EpollPoller.kWriteEvent) := by
  have hrun : Runs.exec PollerRegistration.step (PollerRegistration.start fun c => c + 3)
      PollerRegistration.comeAndGo = some _ := rfl
  have hselect : Runs.exec step (start fun c => c + 3) PollerRegistration.comeAndGo = some _ := rfl
  obtain ⟨t, ht, hnodup, hagree⟩ := pollers_agree PollerRegistration.fds_injective hrun
  have hwriting : t.writing = [1] := by
    rw [← Option.some.inj (hselect.symm.trans ht)]
    decide
  have hmem : 1 ∈ t.writing := by simp [hwriting]
  have hnot : 0 ∉ t.writing := by simp [hwriting]
  exact ⟨_, t, hrun, ht, hnodup, ⟨hmem, (hagree 1).2.1.mp hmem⟩, hnot,
    fun h => hnot ((hagree 0).2.1.mpr h)⟩

/-- One channel more than the set can hold begins to read. -/
def crowd : List Call := (List.range 65).map (fun c => .update c .enableReading)

/-- The last of them is registered with the kernel, and `SelectPoller` does not watch it. -/
theorem crowd_unwatched : ∃ s t,
    Runs.exec PollerRegistration.step (PollerRegistration.start id) crowd = some s ∧
      Runs.exec step (start id) crowd = some t ∧
      Registered s 64 EpollPoller.kReadEvent ∧ (t.channel 64).fd ∉ t.fdSets.read := by
  have hs : (Runs.exec PollerRegistration.step (PollerRegistration.start id) crowd).map
      (fun s => s.poller.interest (s.channel 64).fd) =
        some (some (64, EpollPoller.kReadEvent)) := by decide +kernel
  have ht : (Runs.exec step (start id) crowd).map
      (fun t => decide ((t.channel 64).fd ∈ t.fdSets.read)) = some false := by decide +kernel
  obtain ⟨s, hrun, hentry⟩ := Option.map_eq_some_iff.mp hs
  obtain ⟨t, hrun', hunwatched⟩ := Option.map_eq_some_iff.mp ht
  exact ⟨s, t, hrun, hrun', ⟨_, hentry, by decide⟩, of_decide_eq_false hunwatched⟩

/-- How `select` answers when these fds are readable and writable: it leaves the ready ones. -/
def ready (readable writable : Nat → Bool) (sets : FdSets) : Int × FdSets :=
  (((sets.read.filter readable).length + (sets.write.filter writable).length : Nat),
    { read := sets.read.filter readable, write := sets.write.filter writable, except := [] })

theorem revents_reads_iff (sets : FdSets) (fd : Nat) :
    sets.revents fd &&& kReadEvent ≠ 0 ↔ fd ∈ sets.read := by
  by_cases hread : fd ∈ sets.read <;> by_cases hwrite : fd ∈ sets.write <;>
    by_cases hexcept : fd ∈ sets.except <;> simp only [FdSets.revents, hread, hwrite, hexcept] <;>
      decide

theorem mem_active_iff {t : State} {sets : FdSets} {c : ChannelId} {revents : EventMask} :
    (c, revents) ∈ t.active sets ↔ c ∈ t.poller.polledChannels ∧
      revents = sets.revents (t.channel c).fd ∧ revents ≠ 0 := by
  rw [State.active, List.mem_filterMap]
  constructor
  · rintro ⟨d, hd, hsome⟩
    split at hsome
    · rename_i hne
      cases hsome
      exact ⟨hd, rfl, hne⟩
    · cases hsome
  · rintro ⟨hc, rfl, hne⟩
    exact ⟨c, hc, if_pos hne⟩

/-- A polled channel is reported as readable exactly when its fd is watched and readable. -/
theorem poll_reads_iff {t : State} {c : ChannelId} (hc : c ∈ t.poller.polledChannels)
    (readable writable : Nat → Bool) :
    (∃ revents, (c, revents) ∈ t.poll (ready readable writable) ∧ revents &&& kReadEvent ≠ 0) ↔
      (t.channel c).fd ∈ t.fdSets.read ∧ readable (t.channel c).fd = true := by
  have hpolled : t.poller.polledChannels ≠ [] := List.ne_nil_of_mem hc
  have hleft : ((t.channel c).fd ∈ t.fdSets.read ∧ readable (t.channel c).fd = true) ↔
      (t.channel c).fd ∈ (ready readable writable t.fdSets).2.read := List.mem_filter.symm
  rw [hleft, ← revents_reads_iff, State.poll, if_neg hpolled]
  constructor
  · rintro ⟨revents, hmem, hread⟩
    by_cases hsome : 0 < (ready readable writable t.fdSets).1
    · rw [if_pos hsome] at hmem
      obtain ⟨_, rfl, _⟩ := mem_active_iff.mp hmem
      exact hread
    · rw [if_neg hsome] at hmem
      cases hmem
  · intro hread
    have hmem := (revents_reads_iff _ _).mp hread
    have hpos : 0 < (t.fdSets.read.filter readable).length := List.length_pos_of_mem hmem
    have hsome : 0 < (ready readable writable t.fdSets).1 := by
      simp only [ready]
      omega
    have hne : (ready readable writable t.fdSets).2.revents (t.channel c).fd ≠ 0 := by
      intro hzero
      rw [hzero] at hread
      exact hread rfl
    rw [if_pos hsome]
    exact ⟨_, mem_active_iff.mpr ⟨hc, rfl, hne⟩, hread⟩

end SelectPoller
