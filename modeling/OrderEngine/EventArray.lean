import Mathlib.Algebra.Order.Ring.Nat
import OrderEngine.EpollPoller
import OrderEngine.Library.Flow

/-!
# EpollPoller: the array of events

`poll` lets `epoll_wait` fill `events_` and reads the channels from it. A poll that fills the
array doubles it. The kernel goes round the ready channels: those that a poll has reported
come last for the next.
-/
namespace EventArray

open EpollPoller

abbrev ChannelId := Nat

/-- An `epoll_event`, with a pointer that is null at first. -/
structure Event where
  ptr : Option ChannelId
  events : EventMask
  deriving DecidableEq, Repr

/-- What `resize` and the constructor fill the array with. -/
def Event.zero : Event where
  ptr := none
  events := 0

/-- A channel of the active list, with its `revents_`. -/
structure Active where
  channel : ChannelId
  revents : EventMask
  deriving DecidableEq, Repr

def kInitEventListSize : Nat := 16

/-- The kernel's list of ready channels with their events, and `events_`. -/
structure State where
  ready : List ChannelId
  pending : ChannelId → EventMask
  events : List Event

/-- `EpollPoller::EpollPoller`. -/
def create : State where
  ready := []
  pending _ := 0
  events := List.replicate kInitEventListSize Event.zero

namespace State

/-- `static_cast<int>(events_.size())` -/
def maxevents (s : State) : Int := (BitVec.ofNat 32 s.events.length).toInt

/-- The ready channels that a poll reports, at most as many as the array has room for. -/
def batch (s : State) : List ChannelId := s.ready.take s.events.length

/-- The state after `epoll_wait` has written the batch to the front of the array. -/
def written (s : State) : State :=
  { s with
    ready := s.ready.drop s.events.length ++ s.batch
    events := s.batch.map (fun c => { ptr := some c, events := s.pending c }) ++
      s.events.drop s.batch.length }

/-- `epoll_wait`: -1 where it is interrupted, or there is no room at all. -/
def epollWait (s : State) (interrupted : Bool) : Int × State :=
  if interrupted ∨ s.maxevents ≤ 0 then (-1, s) else (s.batch.length, s.written)

/-- `EpollPoller::fillActiveChannels`, which pushes back one channel after another; `none` where
an index is out of range or a pointer is null. -/
def fillActiveChannels (s : State) : Nat → Option (List Active)
  | 0 => some []
  | i + 1 =>
    match s.fillActiveChannels i, s.events[i]? with
    | some active, some { ptr := some c, events := events } =>
      some (active ++ [{ channel := c, revents := events }])
    | _, _ => none

/-- `events_.resize(events_.size() * 2)` -/
def resize (s : State) : State :=
  { s with events := s.events ++ List.replicate s.events.length Event.zero }

/-- `EpollPoller::poll`: the active channels, and the state after the call. -/
def poll (s : State) (interrupted : Bool) : Option (List Active × State) :=
  match s.epollWait interrupted with
  | (num_events, s) =>
    if 0 < num_events then
      match s.fillActiveChannels num_events.toNat with
      | none => none
      | some active => some (active, if num_events.toNat = s.events.length then s.resize else s)
    else some ([], s)

/-- The events that are pending for a channel change. It is ready while there are any. -/
def change (s : State) (c : ChannelId) (events : EventMask) : State :=
  { s with
    ready :=
      if events = 0 then s.ready.filter (· ≠ c)
      else if c ∈ s.ready then s.ready
      else s.ready ++ [c]
    pending := Function.update s.pending c events }

end State

inductive Action where
  | change (c : ChannelId) (events : EventMask)
  | poll (interrupted : Bool)
  deriving DecidableEq, Repr

def step (s : State) : Action → Option State
  | .change c events => some (s.change c events)
  | .poll interrupted => (s.poll interrupted).map Prod.snd

/-- The channels that a step reports as active. -/
def reported (s : State) : Action → List Active
  | .poll interrupted => ((s.poll interrupted).map Prod.fst).getD []
  | .change _ _ => []

/-- The array has been doubled some times, and its size is an `int`. -/
def Sized (s : State) : Prop := ∃ j ≤ 26, s.events.length = kInitEventListSize * 2 ^ j

/-- Fewer channels are ready than an array of the greatest size has room for. -/
def Few (s : State) : Prop := s.ready.length < 2 ^ 30

theorem sized_create : Sized create := ⟨0, by omega, rfl⟩

theorem maxevents_pos {s : State} (hs : Sized s) :
    s.maxevents = s.events.length ∧ 0 < s.events.length := by
  obtain ⟨j, hj, hsize⟩ := hs
  have hpow : 2 ^ j ≤ 2 ^ 26 := Nat.pow_le_pow_right (by omega) hj
  have hpos : 0 < 2 ^ j := Nat.two_pow_pos j
  simp only [kInitEventListSize] at hsize
  constructor
  · rw [State.maxevents, BitVec.toInt_eq_toNat_cond, BitVec.toNat_ofNat,
      Nat.mod_eq_of_lt (by omega), if_pos (by omega)]
  · omega

theorem length_written (s : State) : s.written.events.length = s.events.length := by
  have hbatch : s.batch.length ≤ s.events.length := by
    rw [State.batch, List.length_take]
    omega
  simp only [State.written, List.length_append, List.length_map, List.length_drop]
  omega

/-- What `epoll_wait` has written is what is read. -/
theorem fill_written (s : State) {n : Nat} (hn : n ≤ s.batch.length) :
    s.written.fillActiveChannels n =
      some ((s.batch.take n).map (fun c => { channel := c, revents := s.pending c })) := by
  induction n with
  | zero => rfl
  | succ i ih =>
    have hlt : i < s.batch.length := by omega
    have hget : s.written.events[i]? =
        some { ptr := some s.batch[i], events := s.pending s.batch[i] } := by
      simp [State.written, List.getElem?_append, hlt]
    rw [State.fillActiveChannels, ih (by omega), hget, ← List.take_append_getElem hlt,
      List.map_append]
    rfl

/-- The state after a poll that is not interrupted. -/
def State.polled (s : State) : State :=
  if s.batch.length = s.events.length then s.written.resize else s.written

/-- A poll reports the batch. -/
theorem poll_eq {s : State} (hs : Sized s) :
    s.poll false =
      some (s.batch.map (fun c => { channel := c, revents := s.pending c }), s.polled) := by
  obtain ⟨hmax, hpos⟩ := maxevents_pos hs
  have hwait : s.epollWait false = ((s.batch.length : Int), s.written) := by
    have hroom : ¬ (false = true ∨ s.maxevents ≤ 0) := by
      simp only [Bool.false_eq_true, false_or]
      omega
    rw [State.epollWait, if_neg hroom]
  simp only [State.poll, hwait]
  by_cases hbatch : s.batch = []
  · have hpolled : s.polled = s.written := by
      rw [State.polled, if_neg]
      rw [hbatch, List.length_nil]
      omega
    simp [hbatch, hpolled]
  · have hlength : (0 : Int) < s.batch.length := by
      have hlength := List.length_pos_iff.mpr hbatch
      omega
    rw [if_pos hlength, Int.toNat_natCast, fill_written s (Nat.le_refl _), List.take_length,
      length_written]
    rfl

theorem poll_interrupted (s : State) : s.poll true = some ([], s) := by
  have hwait : s.epollWait true = (-1, s) := by
    rw [State.epollWait, if_pos (.inl rfl)]
  simp [State.poll, hwait]

/-- A poll that does not fill the array leaves its size, and one that does doubles it. -/
theorem length_polled (s : State) :
    s.polled.events.length = s.events.length ∧ s.ready.length < s.events.length ∨
      s.polled.events.length = 2 * s.events.length ∧ s.events.length ≤ s.ready.length := by
  have hlength := length_written s
  rw [State.polled, State.batch, List.length_take]
  split
  · right
    simp only [State.resize, List.length_append, List.length_replicate]
    omega
  · left
    omega

theorem sized_polled {s : State} (hs : Sized s) (hfew : Few s) : Sized s.polled := by
  obtain ⟨j, hj, hsize⟩ := hs
  cases length_polled s with
  | inl hsame => exact ⟨j, hj, hsame.1.trans hsize⟩
  | inr hdoubled =>
    refine ⟨j + 1, ?_, ?_⟩
    · by_contra hlarge
      have hlast : j = 26 := by omega
      rw [Few] at hfew
      simp only [hlast, kInitEventListSize] at hsize
      omega
    · rw [hdoubled.1, hsize, Nat.pow_succ, Nat.mul_comm 2, Nat.mul_assoc]

theorem sized_step (s : State) (a : Action) (t : State) (hs : Sized s) (hfew : Few s)
    (h : step s a = some t) : Sized t := by
  cases a with
  | change c events =>
    cases h
    exact hs
  | poll interrupted =>
    cases interrupted with
    | true =>
      rw [step, poll_interrupted] at h
      cases h
      exact hs
    | false =>
      rw [step, poll_eq hs] at h
      cases h
      exact sized_polled hs hfew

/-- With fewer than `2^30` ready channels at any time, in every run the array has 16 places
doubled some times, and each poll reads only what `epoll_wait` has written: it reports the
channels that the kernel lists first, with their events. -/
theorem poll_defined {acts : List Action} {s : State}
    (hfew : Runs.Along step (fun s _ => Few s) create acts)
    (hrun : Runs.exec step create acts = some s) :
    Sized s ∧ s.poll true = some ([], s) ∧
      s.poll false =
        some (s.batch.map (fun c => { channel := c, revents := s.pending c }), s.polled) := by
  have hs : Sized s := by
    have hthroughout := Runs.throughout_of_step Sized sized_step sized_create hfew
    exact Runs.throughout_last hthroughout hrun
  exact ⟨hs, poll_interrupted s, poll_eq hs⟩

theorem poll_defined_event :
    ∃ s, Runs.exec step create [.change 7 epollIn, .poll true] = some s ∧ Sized s ∧
      s.poll false = some ([{ channel := 7, revents := epollIn }], s.polled) := by
  have hrun : Runs.exec step create [.change 7 epollIn, .poll true] = some _ := rfl
  have hfew : Runs.Along step (fun s _ => Few s) create [.change 7 epollIn, .poll true] :=
    Runs.along_of_enabled rfl (by unfold Few; decide)
      (Runs.along_of_enabled rfl (by unfold Few; decide) trivial)
  obtain ⟨hsized, _, hpoll⟩ := poll_defined hfew hrun
  exact ⟨_, hrun, hsized, hpoll⟩

/-- The next list has the channels behind the batch first, and the batch last. -/
theorem ready_polled {s : State} : s.polled.ready = s.ready.drop s.events.length ++ s.batch := by
  rw [State.polled]
  split <;> rfl

/-- A channel that the batch does not reach comes as much nearer to the front. -/
theorem behind_batch {s : State} {front back : List ChannelId} {c : ChannelId}
    (hready : s.ready = front ++ c :: back) (hbehind : s.events.length ≤ front.length) :
    s.polled.ready = front.drop s.events.length ++ c :: (back ++ s.batch) := by
  rw [ready_polled, hready, List.drop_append_of_le_length hbehind]
  simp

theorem in_batch {s : State} {front back : List ChannelId} {c : ChannelId}
    (hready : s.ready = front ++ c :: back) (hreached : front.length < s.events.length) :
    c ∈ s.batch := by
  obtain ⟨n, hn⟩ : ∃ n, s.events.length - front.length = n + 1 :=
    ⟨s.events.length - front.length - 1, by omega⟩
  rw [State.batch, hready, List.take_append, hn, List.take_succ_cons]
  simp

/-- A change of the events leaves a channel that stays ready where it is, or moves it forward. -/
theorem ahead_change {s : State} {front back : List ChannelId} {c d : ChannelId}
    {events : EventMask} (hready : s.ready = front ++ c :: back) (hstays : ¬ (d = c ∧ events = 0)) :
    ∃ front' back', (s.change d events).ready = front' ++ c :: back' ∧
      front'.length ≤ front.length := by
  simp only [State.change]
  split
  · rename_i hzero
    have hne : d ≠ c := fun hdc => hstays ⟨hdc, hzero⟩
    refine ⟨front.filter (· ≠ d), back.filter (· ≠ d), ?_, List.length_filter_le _ _⟩
    rw [hready, List.filter_append, List.filter_cons_of_pos (by simpa using Ne.symm hne)]
  · split
    · exact ⟨front, back, hready, Nat.le_refl _⟩
    · refine ⟨front, back ++ [d], ?_, Nat.le_refl _⟩
      rw [hready, List.append_assoc, List.cons_append]

/-- A poll of `n` channels that doubles the array leaves as much to wait for as one poll fewer
reports. -/
theorem budget_polled {n p k : Nat} (hp : p < n * (2 ^ (k + 1) - 1)) (hn : n ≤ p) :
    p - n < 2 * n * (2 ^ k - 1) := by
  obtain ⟨q, hq⟩ : ∃ q, 2 ^ k = q + 1 := ⟨2 ^ k - 1, by have := Nat.two_pow_pos k; omega⟩
  have hnext : 2 ^ (k + 1) - 1 = 2 * q + 1 := by
    rw [Nat.pow_succ, hq]
    omega
  rw [hnext, Nat.mul_add, Nat.mul_one, ← Nat.mul_assoc, Nat.mul_comm n 2] at hp
  rw [hq, Nat.add_sub_cancel]
  omega

/-- A channel that stays ready is reported by one of the next `k` polls that are not interrupted,
where fewer than `2^k - 1` times the size of the array are ready before it: the number of polls
grows with the logarithm of the number of ready channels. -/
theorem reported_within {c : ChannelId} {s t : State} {front back : List ChannelId} {k : Nat}
    {acts : List Action} (hs : Sized s) (hready : s.ready = front ++ c :: back)
    (hk : front.length < s.events.length * (2 ^ k - 1))
    (hstays : .change c 0 ∉ acts) (hfew : Runs.Along step (fun s _ => Few s) s acts)
    (hpolls : k ≤ acts.count (.poll false)) (hrun : Runs.exec step s acts = some t) :
    ∃ e ∈ Flow.emitted step reported s acts, e.channel = c := by
  induction acts generalizing s front back k with
  | nil =>
    obtain rfl : k = 0 := by simpa using hpolls
    simp at hk
  | cons a rest ih =>
    obtain ⟨u, hu, hrest⟩ := Runs.exec_cons_iff.mp hrun
    have hsized := sized_step s a u hs hfew.1 hu
    have hfew' := hfew.2 u hu
    have hstays' : .change c 0 ∉ rest := fun hmem => hstays (List.mem_cons_of_mem _ hmem)
    rw [Flow.emitted_cons hu]
    cases a with
    | change d events =>
      cases hu
      have hstay : ¬ (d = c ∧ events = 0) := by
        rintro ⟨rfl, rfl⟩
        exact hstays List.mem_cons_self
      obtain ⟨front', back', hready', hle⟩ := ahead_change hready hstay
      rw [List.count_cons_of_ne (by simp)] at hpolls
      obtain ⟨e, he, hec⟩ :=
        ih hsized hready' (Nat.lt_of_le_of_lt hle hk) hstays' hfew' hpolls hrest
      exact ⟨e, List.mem_append_right _ he, hec⟩
    | poll interrupted =>
      cases interrupted with
      | true =>
        rw [step, poll_interrupted] at hu
        cases hu
        rw [List.count_cons_of_ne (by simp)] at hpolls
        obtain ⟨e, he, hec⟩ := ih hsized hready hk hstays' hfew' hpolls hrest
        exact ⟨e, List.mem_append_right _ he, hec⟩
      | false =>
        rw [step, poll_eq hs] at hu
        cases hu
        by_cases hreached : front.length < s.events.length
        · refine ⟨{ channel := c, revents := s.pending c }, List.mem_append_left _ ?_, rfl⟩
          rw [reported, poll_eq hs]
          exact List.mem_map_of_mem (in_batch hready hreached)
        · have hbehind : s.events.length ≤ front.length := Nat.not_lt.mp hreached
          have hdoubled : s.polled.events.length = 2 * s.events.length := by
            cases length_polled s with
            | inl hshort =>
              rw [hready, List.length_append, List.length_cons] at hshort
              omega
            | inr hfull => exact hfull.1
          rw [List.count_cons_self] at hpolls
          cases k with
          | zero => simp at hk
          | succ k =>
            have hnext := budget_polled hk hbehind
            rw [← hdoubled, ← List.length_drop] at hnext
            obtain ⟨e, he, hec⟩ := ih hsized (behind_batch hready hbehind) hnext hstays' hfew'
              (by omega) hrest
            exact ⟨e, List.mem_append_right _ he, hec⟩

/-- Twenty channels are ready. -/
def crowded : State where
  ready := List.range 20
  pending _ := epollIn
  events := List.replicate kInitEventListSize Event.zero

theorem reported_within_crowded :
    ∃ e ∈ Flow.emitted step reported crowded [.poll false, .poll false], e.channel = 17 := by
  have hready : crowded.ready = List.range 17 ++ 17 :: [18, 19] := by decide
  have hfew : Runs.Along step (fun s _ => Few s) crowded [.poll false, .poll false] :=
    Runs.along_of_enabled rfl (by unfold Few; decide)
      (Runs.along_of_enabled rfl (by unfold Few; decide) trivial)
  have hrun : Runs.exec step crowded [.poll false, .poll false] = some _ := rfl
  exact reported_within (k := 2) ⟨0, by decide, rfl⟩ hready (by decide) (by decide) hfew
    (by decide) hrun

end EventArray
