import OrderEngine.PollerRegistration

/-!
# Failures of epoll_ctl

`update` only logs a failure, and `index_` is set whether the call has succeeded or not.
-/
namespace PollerFailures

open EpollPoller PollerRegistration
open ActiveChannels (ChannelId)

/-- The index is `kAdded` exactly when the channel's fd is in the interest set. -/
def Agrees (s : State) (c : ChannelId) : Prop :=
  (s.channel c).index = .kAdded ↔ s.poller.interest (s.channel c).fd ≠ none

/-- No ADD and no DEL fails. -/
def Succeeds (s : State) (a : Call × Bool) : Prop :=
  s.Allowed a.1 → s.issued a.1 = some .add ∨ s.issued a.1 = some .del → a.2 = true

theorem epollCtl_failed (interest : Nat → Option (ChannelId × EventMask))
    (operation : Operation) (c : ChannelId) (ch : Channel) :
    epollCtl interest operation c ch false = interest := by
  cases operation <;> rfl

/-- Whether the channel's fd is present after the call. -/
theorem present_after {s : State} {call : Call} (h : Agrees s call.channel)
    (succeeds : Bool) :
    (s.after call succeeds).poller.interest (s.channel call.channel).fd ≠ none ↔
      match s.issued call with
      | some .add => succeeds = true
      | some .mod => True
      | some .del => succeeds = false
      | none => False := by
  have hself := fun operation =>
    epollCtl_self s.poller.interest operation call.channel (s.touched call)
  simp only [touched_fd] at hself
  rw [Agrees, ← touched_index] at h
  simp only [State.after, called_interest]
  cases call with
  | update c change =>
    simp only [Call.channel] at h hself ⊢
    cases hindex : (s.touched (.update c change)).index with
    | kNew | kDeleted => cases succeeds <;> simp_all [State.issued, epollCtl_failed]
    | kAdded =>
      by_cases hnone : (s.touched (.update c change)).isNoneEvent <;> cases succeeds <;>
        simp_all [State.issued, epollCtl_failed]
  | remove c =>
    simp only [Call.channel] at h hself ⊢
    cases hindex : (s.touched (.remove c)).index with
    | kNew | kDeleted => simp_all [State.issued]
    | kAdded => cases succeeds <;> simp_all [State.issued, epollCtl_failed]

theorem agrees_self_iff {s : State} {call : Call} (h : Agrees s call.channel)
    (hallowed : s.Allowed call) (succeeds : Bool) :
    Agrees (s.after call succeeds) call.channel ↔ Succeeds s (call, succeeds) := by
  have hindexed : s.indexAfter call = .kAdded ↔
      s.issued call = some .add ∨ s.issued call = some .mod := by
    cases call with
    | update c change =>
      simp only [State.issued, State.indexAfter, touched_index, Call.channel]
      cases hindex : (s.channel c).index with
      | kNew | kDeleted => simp
      | kAdded => by_cases hnone : (s.touched (.update c change)).isNoneEvent <;> simp [hnone]
    | remove c =>
      simp only [State.issued, State.indexAfter, touched_index, Call.channel]
      cases hindex : (s.channel c).index <;> simp
  rw [Agrees]
  simp only [channel_after, touched_fd, hindexed]
  rw [present_after h]
  simp only [Succeeds, hallowed, forall_const]
  cases hissued : s.issued call with
  | none => simp
  | some operation => cases operation <;> simp

theorem agrees_step {fd : ChannelId → Nat} (hfd : Function.Injective fd) {s s' : State}
    {a : Call × Bool} (hplaced : Placed fd s) (h : ∀ c, Agrees s c)
    (hstep : stepOrFail s a = some s') : (∀ c, Agrees s' c) ↔ Succeeds s a := by
  obtain ⟨hallowed, rfl⟩ := Runs.guarded_eq_some.mp hstep
  rw [← agrees_self_iff (h a.1.channel) hallowed a.2]
  constructor
  · intro hall
    exact hall _
  · intro hself c
    by_cases hc : c = a.1.channel
    · rw [hc]
      exact hself
    · obtain ⟨hchannel, hinterest, _⟩ := tracked_other hfd hplaced a.2 hc
      rw [Agrees, hchannel, hinterest]
      exact h c

theorem placed_step {fd : ChannelId → Nat} (s : State) (a : Call × Bool) (s' : State)
    (h : Placed fd s) (hstep : stepOrFail s a = some s') : Placed fd s' := by
  obtain ⟨_, rfl⟩ := Runs.guarded_eq_some.mp hstep
  exact placed_after h a.1 a.2

/-- `index_` tells of the interest set exactly in the runs in which no ADD and no DEL fails. -/
theorem agrees_run_iff {fd : ChannelId → Nat} (hfd : Function.Injective fd)
    {acts : List (Call × Bool)} :
    Runs.Throughout stepOrFail (fun s => ∀ c, Agrees s c) (start fd) acts ↔
      Runs.Along stepOrFail Succeeds (start fd) acts := by
  have hplaced := (tracked_start fd).1
  constructor
  · apply Runs.along_of_throughout (Placed fd) placed_step ?_ hplaced
    intro s a hplaced h hnext hallowed hissued
    have hstep : stepOrFail s a = some (s.after a.1 a.2) := Runs.guarded_eq_some.mpr ⟨hallowed, rfl⟩
    exact (agrees_step hfd hplaced h hstep).mp (hnext _ hstep) hallowed hissued
  · intro hal
    have hstart : Placed fd (start fd) ∧ ∀ c, Agrees (start fd) c :=
      ⟨hplaced, fun c => by simp [Agrees, start, Channel.create, Poller.empty]⟩
    have hinv := Runs.throughout_of_step (fun s => Placed fd s ∧ ∀ c, Agrees s c) ?_ hstart hal
    · exact Runs.throughout_mono (fun _ hs => hs.2) hinv
    · rintro s a s' ⟨hplaced, h⟩ hsucceeds hstep
      exact ⟨placed_step s a s' hplaced hstep, (agrees_step hfd hplaced h hstep).mpr hsucceeds⟩

/-- A MOD fails between the ADD and the DEL of channel 0. -/
def failedMod : List (Call × Bool) :=
  [(.update 0 .enableReading, true), (.update 0 .enableWriting, false),
    (.update 0 .disableAll, true)]

theorem agrees_run_iff_failedMod :
    Runs.Throughout stepOrFail (fun s => ∀ c, Agrees s c) (start fun c => c + 3) failedMod ∧
      (Runs.exec stepOrFail (start fun c => c + 3) failedMod).isSome = true := by
  have hal : Runs.Along stepOrFail Succeeds (start fun c => c + 3) failedMod := by
    apply Runs.along_of_enabled rfl (fun _ _ => rfl)
    apply Runs.along_of_enabled rfl (fun _ h => by revert h; decide)
    exact Runs.along_of_enabled rfl (fun _ _ => rfl) trivial
  exact ⟨(agrees_run_iff fds_injective).mpr hal, by decide⟩

/-- After an ADD that fails, the next update is a MOD of an absent fd. -/
theorem failed_add_modifies : ∃ s,
    stepOrFail (start fun c => c + 3) (.update 0 .enableReading, false) = some s ∧
      (s.channel 0).index = .kAdded ∧ s.poller.interest 3 = none ∧ ¬ Agrees s 0 ∧
      s.issued (.update 0 .enableWriting) = some .mod := by
  refine ⟨_, rfl, rfl, rfl, ?_, rfl⟩
  intro h
  exact h.mp rfl rfl

end PollerFailures
