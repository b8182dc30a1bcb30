import OrderEngine.ConnectionLife
import OrderEngine.Library.Flow

/-!
# What the pollers of the sub-reactors hold

The set-up tasks enter the channels of their connections in the interest set, each under an fd
that is not there, and nothing changes an entry or takes it out again: the interest set is the
history of the set-ups.
-/
namespace InterestHistory

open EpollPoller TcpConnection TcpServer ServerShape ConnectionChannels ConnectionLife

/-- An fd with the channel and the mask that the interest set has for it. -/
abbrev Entry := Nat × ConnId × EventMask

/-- The entry that the set-up task makes, where `epoll_ctl` succeeds. -/
def registers (j : Nat) (s : Server) : Action → List Entry
  | .runTask i true =>
    if i = j then
      ((s.loops j).tasks.take 1).map (fun c => ((s.conn c).sockfd, c, kReadEvent))
    else []
  | _ => []

def Entered (j : Nat) (s : Server) (e : Entry) : Prop :=
  (s.loops j).poller.interest e.1 = some e.2

/-- The set-up task finds the fd of its connection absent, so that its `EPOLL_CTL_ADD` is legal. -/
def AddsAbsent (s : Server) : Action → Prop
  | .runTask j _ =>
    ∀ c ∈ (s.loops j).tasks.head?, (s.loops j).poller.interest (s.conn c).sockfd = none
  | _ => True

/-- Only connections that have been set up are in an interest set. -/
structure Kept (s : Server) : Prop where
  shape : Shape s
  serves : ServesSetUp s

theorem kept_step (s : Server) (a : Action) (t : Server) (hs : Kept s) (h : step s a = some t) :
    Kept t :=
  ⟨shape_step s a t hs.shape h, servesSetUp_step hs.shape hs.serves (outcome_of_step h)⟩

theorem kept_start : Kept start := ⟨shape_start, servesSetUp_start⟩

theorem absent_of_tasks {s : Server} (hs : Kept s) {j : Nat} {c : ConnId} {rest : List ConnId}
    (htasks : (s.loops j).tasks = c :: rest) :
    (s.loops j).poller.interest (s.conn c).sockfd = none := by
  obtain ⟨howned, hconnecting, _⟩ := connecting_of_tasks hs.shape htasks
  cases hinterest : (s.loops j).poller.interest (s.conn c).sockfd with
  | none => rfl
  | some e =>
    obtain ⟨d, mask⟩ := e
    obtain ⟨hd, hfd⟩ := (hs.shape.loops j).interest _ d mask hinterest
    have hsame : d = c := hs.shape.fds d hd.1 c howned.1 hfd
    have hserves : Serves (s.loops j) d := .inr (.inr ⟨_, mask, hinterest⟩)
    rw [hsame] at hserves
    exact absurd hconnecting (hs.serves j c hserves)

theorem addsAbsent_of_kept (s : Server) (a : Action) (hs : Kept s) : AddsAbsent s a := by
  cases a with
  | runTask j succeeds =>
    intro c hc
    obtain ⟨rest, htasks⟩ := List.head?_eq_some_iff.mp hc
    exact absent_of_tasks hs htasks
  | _ => trivial

theorem marks_nothing {j : Nat} {s t : Server}
    (h : (t.loops j).poller.interest = (s.loops j).poller.interest) :
    Flow.Marks (Entered j) [] s t := by
  refine ⟨List.nodup_nil, ?_, ?_⟩
  · intro e
    simp [Entered, h]
  · intro e he
    cases he

theorem marks_setUp {j : Nat} {s : Server} (hs : Kept s) {c : ConnId} {rest : List ConnId}
    (htasks : (s.loops j).tasks = c :: rest) :
    Flow.Marks (Entered j) [((s.conn c).sockfd, c, kReadEvent)] s (s.setUp j c rest true) := by
  have habsent := absent_of_tasks hs htasks
  have hinterest : ((s.setUp j c rest true).loops j).poller.interest =
      Function.update (s.loops j).poller.interest (s.conn c).sockfd (some (c, kReadEvent)) := by
    simp [Server.setUp, enableReading_create, habsent]
  refine ⟨List.nodup_singleton _, ?_, ?_⟩
  · rintro ⟨fd, e⟩
    simp only [Entered, hinterest, List.mem_singleton, Prod.mk.injEq]
    by_cases hfd : fd = (s.conn c).sockfd
    · subst hfd
      simp [habsent, eq_comm]
    · simp [hfd]
  · intro e he
    rw [List.mem_singleton.mp he, Entered, habsent]
    simp

theorem marks_step (j : Nat) (s : Server) (a : Action) (t : Server) (hs : Kept s)
    (h : step s a = some t) : Flow.Marks (Entered j) (registers j s a) s t := by
  have houtcome := outcome_of_step h
  by_cases ha : ∃ i succeeds, a = .runTask i succeeds
  · obtain ⟨i, succeeds, rfl⟩ := ha
    cases houtcome with
    | runTask _ _ c rest htasks =>
      by_cases hi : i = j
      · subst hi
        cases succeeds with
        | true =>
          simp only [registers, if_true, htasks, List.take_succ_cons, List.take_zero, List.map_cons,
            List.map_nil]
          exact marks_setUp hs htasks
        | false =>
          apply marks_nothing
          simp [Server.setUp, enableReading_create]
      · have hnone : registers j s (.runTask i succeeds) = [] := by
          cases succeeds <;> simp [registers, hi]
        rw [hnone]
        apply marks_nothing
        simp only [Server.setUp, Function.update_of_ne (Ne.symm hi)]
  · have hnone : registers j s a = [] := by
      cases a with
      | runTask i succeeds => exact absurd ⟨i, succeeds, rfl⟩ ha
      | _ => rfl
    rw [hnone]
    apply marks_nothing
    rw [poller_kept houtcome (fun i succeeds hi => ha ⟨i, succeeds, hi⟩)]

/-- In every run of the server each `epoll_ctl` is an `EPOLL_CTL_ADD` of an fd that is not in the
interest set, and the interest set of a sub-reactor has exactly the connections that it has ever
set up where `epoll_ctl` succeeded, each under its own fd, for reading, and entered once. -/
theorem interest_is_history (j : Nat) {acts : List Action} {s : Server}
    (hrun : Runs.exec step start acts = some s) :
    Runs.Along step AddsAbsent start acts ∧
      (Flow.emitted step (registers j) start acts).Nodup ∧
      ∀ fd c mask, (s.loops j).poller.interest fd = some (c, mask) ↔
        (fd, c, mask) ∈ Flow.emitted step (registers j) start acts := by
  have hmarks := Flow.marks_invariant Kept (Entered j) kept_step (marks_step j) kept_start hrun
  refine ⟨Runs.along_invariant Kept kept_step addsAbsent_of_kept kept_start acts, hmarks.nodup, ?_⟩
  intro fd c mask
  have hiff := hmarks.marked_iff (fd, c, mask)
  simpa [Entered, start, Loop.empty, Poller.empty] using hiff

/-- Three connections: the first is closed, the second's `epoll_ctl` fails. -/
def oneFails : List Action :=
  [.accept 7 0 true, .register, .runTask 0 true, .userClose 0 0, .remove 0, .userReturns 0,
    .userReturns 0, .accept 8 0 true, .register, .runTask 0 false, .userReturns 0,
    .accept 9 0 true, .register, .runTask 0 true]

theorem interest_is_history_oneFails : ∃ s, Runs.exec step start oneFails = some s ∧
    (s.conn 0).state = .kDisconnected ∧ (s.loops 0).poller.interest 7 = some (0, kReadEvent) ∧
    (s.loops 0).poller.interest 8 = none := by
  have hrun : Runs.exec step start oneFails = some _ := rfl
  obtain ⟨_, _, hiff⟩ := interest_is_history 0 hrun
  refine ⟨_, hrun, by decide, (hiff 7 0 kReadEvent).mpr (by decide), ?_⟩
  apply Option.eq_none_iff_forall_ne_some.mpr
  rintro ⟨c, mask⟩ hentry
  have hmem := (hiff 8 c mask).mp hentry
  have hall : Flow.emitted step (registers 0) start oneFails =
      [(7, 0, kReadEvent), (9, 2, kReadEvent)] := by decide
  rw [hall] at hmem
  simp at hmem

end InterestHistory
