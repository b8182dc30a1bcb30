import OrderEngine.TaskProgress
import Mathlib.Data.BitVec
import Mathlib.Data.List.Basic

/-!
# The pool of sub-reactors over restarts

`start` appends its sub-reactors and their threads, `stop` ends all of them and keeps
them, and `handleNewConnection` counts through the first `thread_num_` of them.
-/
namespace ReactorPool

/-- A sub-reactor with its thread: the number of the `start` that made them, whether
the thread is in `loop`, and `quit_`. -/
structure SubReactor where
  madeBy : Nat
  looping : Bool
  quit : Bool
  deriving DecidableEq, Repr

/-- A sub-reactor whose thread `start` has just launched. -/
def SubReactor.launched (madeBy : Nat) : SubReactor where
  madeBy := madeBy
  looping := true
  quit := false

/-- `reactor->quit()`, and the join of its thread. -/
def SubReactor.ended (r : SubReactor) : SubReactor := { r with looping := false, quit := true }

/-- `starts` counts the calls of `start` that found the server stopped. -/
structure Server where
  threadNum : Nat
  running : Bool
  starts : Nat
  subReactors : List SubReactor
  nextReactor : BitVec 32
  deriving DecidableEq, Repr

/-- `TcpServer::TcpServer(ip, port, thread_num)`. -/
def create (threadNum : Int) (hardwareConcurrency : Nat) : Server where
  threadNum := if threadNum ≤ 0 then hardwareConcurrency else threadNum.toNat
  running := false
  starts := 0
  subReactors := []
  nextReactor := 0

namespace Server

def start (s : Server) : Server :=
  if s.running then s
  else
    { s with
      running := true
      starts := s.starts + 1
      subReactors := s.subReactors ++ List.replicate s.threadNum (.launched (s.starts + 1)) }

def stop (s : Server) : Server :=
  if s.running then
    { s with running := false, subReactors := s.subReactors.map SubReactor.ended }
  else s

/-- `next_reactor_ % thread_num_`, a remainder of `int` with the sign of the counter. -/
def reactorIndex (s : Server) : Int := s.nextReactor.toInt.tmod s.threadNum

/-- `sub_reactors_[reactor_index]`; `none` where the code's behaviour is undefined, which
is a remainder by 0 or an index outside the vector. -/
def selected (s : Server) : Option SubReactor :=
  if s.threadNum = 0 ∨ s.reactorIndex < 0 then none else s.subReactors[s.reactorIndex.toNat]?

/-- `next_reactor_.fetch_add(1)`, which wraps. -/
def handleNewConnection (s : Server) : Server := { s with nextReactor := s.nextReactor + 1 }

end Server

inductive Action where
  | start
  | stop
  | handleNewConnection
  deriving DecidableEq, Repr

def step (s : Server) : Action → Option Server
  | .start => some s.start
  | .stop => some s.stop
  | .handleNewConnection => Runs.guarded (s.running = true) s.handleNewConnection

/-- The index for the connection number `k` among `m` sub-reactors. -/
def turn (m k : Nat) : Int := (BitVec.ofNat 32 k).toInt.tmod m

theorem toInt_of_lt {k : Nat} (h : k < 2 ^ 31) : (BitVec.ofNat 32 k).toInt = k := by
  rw [BitVec.toInt_eq_toNat_cond, BitVec.toNat_ofNat, Nat.mod_eq_of_lt (by omega),
    if_pos (by omega)]

theorem toInt_of_ge {j : Nat} (h : j < 2 ^ 31) :
    (BitVec.ofNat 32 (2 ^ 31 + j)).toInt = -(2 ^ 31 - j : Nat) := by
  rw [BitVec.toInt_eq_toNat_cond, BitVec.toNat_ofNat, Nat.mod_eq_of_lt (by omega),
    if_neg (by omega)]
  omega

theorem turn_of_lt {m k : Nat} (h : k < 2 ^ 31) : turn m k = (k % m : Nat) := by
  rw [turn, toInt_of_lt h]
  exact (Int.ofNat_tmod k m).symm

/-- From `2^31` on the counter is negative, and the index is not positive. -/
theorem turn_of_ge {m j : Nat} (h : j < 2 ^ 31) :
    turn m (2 ^ 31 + j) = -((2 ^ 31 - j) % m : Nat) := by
  rw [turn, toInt_of_ge h, Int.neg_tmod]
  rfl

theorem dvd_of_turn {m j : Nat} (hj : j < 2 ^ 31) (h : 0 ≤ turn m (2 ^ 31 + j)) :
    m ∣ 2 ^ 31 - j := by
  rw [turn_of_ge hj] at h
  exact Nat.dvd_of_mod_eq_zero (by omega)

/-- The counter does not come to a negative remainder. -/
def Within (m n : Nat) : Prop := m = 1 ∨ n ≤ 2 ^ 31 ∨ n = 2 ^ 31 + 1 ∧ m ∣ 2 ^ 31

theorem turn_of_within {m n : Nat} (h : Within m n) {k : Nat} (hk : k < n) :
    turn m k = (k % m : Nat) := by
  rcases h with rfl | hle | ⟨rfl, hdvd⟩
  · rw [turn]
    simp [Nat.mod_one]
  · exact turn_of_lt (by omega)
  · by_cases hlt : k < 2 ^ 31
    · exact turn_of_lt hlt
    · have hlast : k = 2 ^ 31 + 0 := by omega
      rw [hlast, turn_of_ge (by omega), Nat.sub_zero, Nat.add_zero, Nat.mod_eq_zero_of_dvd hdvd]
      rfl

/-- Two negative counters in a row have no common divisor but 1. -/
theorem eq_one_of_turn {m j : Nat} (hj : j + 1 < 2 ^ 31) (h : 0 ≤ turn m (2 ^ 31 + j))
    (h' : 0 ≤ turn m (2 ^ 31 + (j + 1))) : m = 1 := by
  have hunit := Nat.dvd_sub (dvd_of_turn (by omega) h) (dvd_of_turn hj h')
  have hone : 2 ^ 31 - j - (2 ^ 31 - (j + 1)) = 1 := by omega
  rw [hone] at hunit
  exact Nat.dvd_one.mp hunit

theorem within_of_turn {m n : Nat} (h : ∀ k < n, 0 ≤ turn m k) : Within m n := by
  by_cases hle : n ≤ 2 ^ 31
  · exact .inr (.inl hle)
  · have hfirst := h (2 ^ 31 + 0) (by omega)
    by_cases hone : n = 2 ^ 31 + 1
    · exact .inr (.inr ⟨hone, dvd_of_turn (by omega) hfirst⟩)
    · exact .inl (eq_one_of_turn (by omega) hfirst (h (2 ^ 31 + (0 + 1)) (by omega)))

/-- From one counter without a negative remainder to the next. -/
theorem turn_succ_iff {m k : Nat} (hk : k < 2 ^ 32) (h : 0 ≤ turn m k) :
    0 ≤ turn m (k + 1) ↔ Within m (k + 2) := by
  constructor
  · intro hnext
    rcases Nat.lt_or_ge k (2 ^ 31) with hlow | hhigh
    · by_cases hlast : k + 2 ≤ 2 ^ 31
      · exact .inr (.inl hlast)
      · have hwraps : k + 1 = 2 ^ 31 + 0 := by omega
        rw [hwraps] at hnext
        exact .inr (.inr ⟨by omega, dvd_of_turn (by omega) hnext⟩)
    · obtain ⟨j, rfl⟩ := Nat.exists_eq_add_of_le hhigh
      by_cases hlast : j + 1 < 2 ^ 31
      · exact .inl (eq_one_of_turn hlast h hnext)
      · have hdvd : m ∣ 2 ^ 31 - j := dvd_of_turn (by omega) h
        have hone : 2 ^ 31 - j = 1 := by omega
        rw [hone] at hdvd
        exact .inl (Nat.dvd_one.mp hdvd)
  · intro hwithin
    rw [turn_of_within hwithin (by omega)]
    exact Int.natCast_nonneg _

/-- While the server runs, the next connection goes to a sub-reactor of the latest start
whose loop runs on. -/
def Serves (s : Server) : Prop :=
  s.running = true → ∃ r, s.selected = some r ∧ r.madeBy = s.starts ∧ r.looping = true ∧
    r.quit = false

/-- The server has threads and is started once, and its counter leaves room for a connection
after this one. -/
def StartsOnce (s : Server) : Action → Prop
  | .start => s.running = false → s.starts = 0 ∧ 0 < s.threadNum
  | .handleNewConnection => s.running = true → Within s.threadNum (s.nextReactor.toNat + 2)
  | .stop => True

/-- The sub-reactors of the first start come first in the pool, and they run until the
first stop. -/
structure Shape (s : Server) : Prop where
  fresh : s.starts = 0 → s.running = false ∧ s.nextReactor = 0 ∧ s.subReactors = []
  first : s.starts ≠ 0 → ∀ i < s.threadNum, ∃ r, s.subReactors[i]? = some r ∧ r.madeBy = 1
  looping : s.running = true → s.starts = 1 →
    ∀ r ∈ s.subReactors, r.looping = true ∧ r.quit = false

theorem shape_create (threadNum : Int) (hardwareConcurrency : Nat) :
    Shape (create threadNum hardwareConcurrency) := by
  refine ⟨fun _ => ⟨rfl, rfl, rfl⟩, fun h => absurd rfl h, ?_⟩
  intro h
  cases h

theorem starts_ne_zero {s : Server} (h : Shape s) (hrunning : s.running = true) :
    s.starts ≠ 0 := by
  intro hzero
  have hidle := (h.fresh hzero).1
  rw [hrunning] at hidle
  cases hidle

theorem start_stopped {s : Server} (h : s.running = false) :
    s.start =
      { s with
        running := true
        starts := s.starts + 1
        subReactors := s.subReactors ++ List.replicate s.threadNum (.launched (s.starts + 1)) } := by
  simp [Server.start, h]

theorem start_running {s : Server} (h : s.running = true) : s.start = s := by
  simp [Server.start, h]

theorem shape_start {s : Server} (h : Shape s) : Shape s.start := by
  cases hrunning : s.running with
  | true =>
    rw [start_running hrunning]
    exact h
  | false =>
    rw [start_stopped hrunning]
    constructor
    · intro hzero
      cases hzero
    · intro _ i hi
      have hi : i < s.threadNum := hi
      by_cases hstarts : s.starts = 0
      · obtain ⟨_, _, hempty⟩ := h.fresh hstarts
        simp [hempty, hstarts, hi, SubReactor.launched]
      · obtain ⟨r, hr, hmade⟩ := h.first hstarts i hi
        obtain ⟨hlt, _⟩ := List.getElem?_eq_some_iff.mp hr
        refine ⟨r, ?_, hmade⟩
        rw [List.getElem?_append_left hlt, hr]
    · intro _ hone r hr
      have hstarts : s.starts = 0 := Nat.succ.inj hone
      obtain ⟨_, _, hempty⟩ := h.fresh hstarts
      simp only [hempty, List.nil_append] at hr
      rw [List.eq_of_mem_replicate hr]
      exact ⟨rfl, rfl⟩

theorem stop_running {s : Server} (h : s.running = true) :
    s.stop = { s with running := false, subReactors := s.subReactors.map SubReactor.ended } := by
  simp [Server.stop, h]

theorem stop_stopped {s : Server} (h : s.running = false) : s.stop = s := by
  simp [Server.stop, h]

theorem shape_stop {s : Server} (h : Shape s) : Shape s.stop := by
  cases hrunning : s.running with
  | true =>
    rw [stop_running hrunning]
    constructor
    · intro hzero
      have hzero : s.starts = 0 := hzero
      exact absurd hzero (starts_ne_zero h hrunning)
    · intro hstarts i hi
      obtain ⟨r, hr, hmade⟩ := h.first hstarts i hi
      exact ⟨r.ended, by simp [hr], hmade⟩
    · intro hfalse
      cases hfalse
  | false =>
    rw [stop_stopped hrunning]
    exact h

theorem shape_step (s : Server) (a : Action) (s' : Server) (h : Shape s)
    (hstep : step s a = some s') : Shape s' := by
  cases a with
  | start =>
    cases hstep
    exact shape_start h
  | stop =>
    cases hstep
    exact shape_stop h
  | handleNewConnection =>
    obtain ⟨hrunning, rfl⟩ := Runs.guarded_eq_some.mp hstep
    refine ⟨?_, h.first, h.looping⟩
    intro hzero
    have hzero : s.starts = 0 := hzero
    exact absurd hzero (starts_ne_zero h hrunning)

/-- The index stays below the number of threads, so it finds a sub-reactor of the first
start, and of no other. -/
theorem serves_iff {s : Server} (h : Shape s) :
    Serves s ↔ (s.running = true → s.starts = 1 ∧ 0 < s.threadNum ∧ 0 ≤ s.reactorIndex) := by
  by_cases hrunning : s.running = true
  · have hstarts := starts_ne_zero h hrunning
    simp only [Serves, hrunning, forall_const]
    by_cases hpool : s.threadNum = 0 ∨ s.reactorIndex < 0
    · have hnone : s.selected = none := by simp [Server.selected, hpool]
      constructor
      · rintro ⟨r, hr, _⟩
        rw [hnone] at hr
        cases hr
      · rintro ⟨_, hpos, hindex⟩
        omega
    · have hselected : s.selected = s.subReactors[s.reactorIndex.toNat]? := by
        simp [Server.selected, hpool]
      have hpos : 0 < s.threadNum := by omega
      have hlt : s.reactorIndex < s.threadNum := Int.tmod_lt_of_pos _ (by omega)
      obtain ⟨r, hr, hmade⟩ := h.first hstarts s.reactorIndex.toNat (by omega)
      rw [hselected, hr]
      constructor
      · rintro ⟨r', hr', hlatest, _⟩
        cases hr'
        exact ⟨hlatest.symm.trans hmade, hpos, by omega⟩
      · rintro ⟨hone, _⟩
        have hloops := h.looping hrunning hone r (List.mem_of_getElem? hr)
        exact ⟨r, rfl, by rw [hmade, hone], hloops.1, hloops.2⟩
  · simp [Serves, hrunning]

theorem reactorIndex_eq (s : Server) : s.reactorIndex = turn s.threadNum s.nextReactor.toNat := by
  rw [Server.reactorIndex, turn, BitVec.ofNat_toNat, BitVec.setWidth_eq]

theorem reactorIndex_handleNewConnection (s : Server) :
    s.handleNewConnection.reactorIndex = turn s.threadNum (s.nextReactor.toNat + 1) := by
  rw [Server.reactorIndex, turn, BitVec.ofNat_add, BitVec.ofNat_toNat, BitVec.setWidth_eq]
  rfl

theorem serves_step {s s' : Server} {a : Action} (hshape : Shape s) (h : Serves s)
    (hstep : step s a = some s') : Serves s' ↔ StartsOnce s a := by
  rw [serves_iff (shape_step s a s' hshape hstep)]
  rw [serves_iff hshape] at h
  cases a with
  | start =>
    cases hstep
    cases hrunning : s.running with
    | true =>
      rw [start_running hrunning]
      simp [StartsOnce, hrunning, h hrunning]
    | false =>
      rw [start_stopped hrunning]
      simp only [StartsOnce, hrunning, forall_const, Nat.add_eq_right, Server.reactorIndex]
      constructor
      · rintro ⟨hfirst, hpos, _⟩
        exact ⟨hfirst, hpos⟩
      · rintro ⟨hfirst, hpos⟩
        -- no connection has been counted before the first start
        rw [(hshape.fresh hfirst).2.1]
        simp [hfirst, hpos]
  | stop =>
    cases hstep
    refine iff_of_true ?_ trivial
    cases hrunning : s.running with
    | true => simp [stop_running hrunning]
    | false => simp [stop_stopped hrunning, hrunning]
  | handleNewConnection =>
    obtain ⟨hrunning, rfl⟩ := Runs.guarded_eq_some.mp hstep
    obtain ⟨hone, hpos, hindex⟩ := h hrunning
    rw [reactorIndex_eq] at hindex
    have hnext := turn_succ_iff s.nextReactor.isLt hindex
    simp only [StartsOnce, reactorIndex_handleNewConnection, hnext]
    simp [Server.handleNewConnection, hrunning, hone, hpos]

/-- The connections go to live sub-reactors of the latest start exactly in the runs that
start the server once, with threads, and wrap its counter to no negative remainder. -/
theorem serves_run_iff {threadNum : Int} {hardwareConcurrency : Nat} {acts : List Action} :
    Runs.Throughout step Serves (create threadNum hardwareConcurrency) acts ↔
      Runs.Along step StartsOnce (create threadNum hardwareConcurrency) acts := by
  have hcreate := shape_create threadNum hardwareConcurrency
  constructor
  · apply Runs.along_of_throughout Shape shape_step ?_ hcreate
    intro s a hshape h h'
    cases hstep : step s a with
    | some s' => exact (serves_step hshape h hstep).mp (h' s' hstep)
    | none =>
      cases a with
      | handleNewConnection =>
        intro hrunning
        simp [step, Runs.guarded, hrunning] at hstep
      | _ => cases hstep
  · intro hal
    have hinv : Runs.Throughout step (fun s => Shape s ∧ Serves s)
        (create threadNum hardwareConcurrency) acts := by
      apply Runs.throughout_of_step _ _
        ⟨hcreate, fun hrunning => absurd hrunning (by simp [create])⟩ hal
      rintro s a s' ⟨hshape, h⟩ honce hstep
      exact ⟨shape_step s a s' hshape hstep, (serves_step hshape h hstep).mpr honce⟩
    exact Runs.throughout_mono (fun _ hs => hs.2) hinv

/-- `r` is what the pool knows of a sub-reactor in the state `q`. -/
structure SubReactor.Records (r : SubReactor) (q : Reactor.State) : Prop where
  looping : r.looping = true → TaskProgress.Inside q.pc
  ended : r.looping = false → q.pc = .returned
  quit : r.quit = q.quit

/-- While the server serves, the selected sub-reactor can run each set-up task that it holds. -/
theorem setUp_of_serves {s : Server} (h : Serves s) (hrunning : s.running = true)
    (loop : Reactor.Thread) :
    ∃ r, s.selected = some r ∧ ∀ q, r.Records q →
      ∃ acts t, Runs.exec (Reactor.step loop) q acts = some t ∧
        ∀ task ∈ ReactorQueue.waiting q,
          task ∈ Flow.emitted (Reactor.step loop) ReactorQueue.ran q acts := by
  obtain ⟨r, hr, _, hlooping, hquit⟩ := h hrunning
  refine ⟨r, hr, ?_⟩
  intro q hq
  exact TaskProgress.leads_ran (hq.looping hlooping) (hq.quit.symm.trans hquit)

/-- A sub-reactor that `stop` has ended never runs a set-up task. -/
theorem never_setUp {r : SubReactor} {q : Reactor.State} (hq : r.Records q)
    (hended : r.looping = false) (loop : Reactor.Thread) (acts : List Reactor.Action) :
    Flow.emitted (Reactor.step loop) ReactorQueue.ran q acts = [] :=
  TaskProgress.ran_returned (hq.ended hended)

/-- After a restart the connections go to the sub-reactors that `stop` has ended. -/
theorem ended_after_restart : ∃ s,
    Runs.exec step (create 2 8) [.start, .stop, .start] = some s ∧
      s.selected = some ⟨1, false, true⟩ ∧ ¬ Serves s := by
  have hselected : (((create 2 8).start).stop.start).selected = some ⟨1, false, true⟩ := by decide
  refine ⟨_, rfl, hselected, ?_⟩
  intro h
  obtain ⟨r, hr, hlatest, _⟩ := h rfl
  rw [hselected] at hr
  cases hr
  cases hlatest

end ReactorPool
