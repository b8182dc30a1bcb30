import OrderEngine.Library.Flow
import OrderEngine.Library.RoundRobin
import OrderEngine.ReactorPool

/-!
# The connections among the sub-reactors

`handleNewConnection` deals the connections by the remainder of a counter that is a signed
word, and the number of sub-reactors is what is configured or what the machine reports.
-/
namespace ConnectionBalance

open ReactorPool

/-- `thread_num_`: `hardware_concurrency()` is unsigned, and what it returns becomes an `int`. -/
def threadNum (configured hardwareConcurrency : BitVec 32) : Int :=
  if configured.toInt ≤ 0 then hardwareConcurrency.toInt else configured.toInt

/-- The server that the constructor makes. `start` makes no sub-reactor where `thread_num_`
is not positive. -/
def server (configured hardwareConcurrency : BitVec 32) : Server :=
  create (threadNum configured hardwareConcurrency) 0

/-- The `reactor_index` that the step computes. -/
def assigned (s : Server) : Action → List Int
  | .handleNewConnection => [s.reactorIndex]
  | _ => []

/-- Where the step takes a sub-reactor, there is one. -/
def Finds (s : Server) : Action → Prop
  | .handleNewConnection => s.running = true → s.selected ≠ none
  | _ => True

/-- The number of connections that the run accepts. -/
def accepted (acts : List Action) : Nat := acts.count .handleNewConnection

theorem start_keeps {s : Server} :
    s.start.nextReactor = s.nextReactor ∧ s.start.threadNum = s.threadNum := by
  unfold Server.start
  split <;> exact ⟨rfl, rfl⟩

theorem stop_keeps {s : Server} :
    s.stop.nextReactor = s.nextReactor ∧ s.stop.threadNum = s.threadNum := by
  unfold Server.stop
  split <;> exact ⟨rfl, rfl⟩

/-- No step changes the number of threads. -/
theorem threadNum_step {s t : Server} {a : Action} (h : step s a = some t) :
    t.threadNum = s.threadNum := by
  cases a with
  | start =>
    cases h
    exact start_keeps.2
  | stop =>
    cases h
    exact stop_keeps.2
  | handleNewConnection =>
    obtain ⟨_, rfl⟩ := Runs.guarded_eq_some.mp h
    rfl

/-- The indices of a run are those of its connections, in their order. -/
theorem assigned_eq {s s' : Server} {acts : List Action} {k : Nat}
    (hcounter : s.nextReactor = BitVec.ofNat 32 k)
    (hrun : Runs.exec step s acts = some s') :
    Flow.emitted step assigned s acts =
      (List.range (accepted acts)).map (fun i => turn s.threadNum (k + i)) := by
  induction acts generalizing s k with
  | nil => rfl
  | cons a rest ih =>
    obtain ⟨t, ht, hrest⟩ := Runs.exec_cons_iff.mp hrun
    rw [Flow.emitted_cons ht]
    cases a with
    | start =>
      cases ht
      rw [ih (start_keeps.1.trans hcounter) hrest, start_keeps.2]
      simp [assigned, accepted]
    | stop =>
      cases ht
      rw [ih (stop_keeps.1.trans hcounter) hrest, stop_keeps.2]
      simp [assigned, accepted]
    | handleNewConnection =>
      obtain ⟨_, rfl⟩ := Runs.guarded_eq_some.mp ht
      have hnext : s.handleNewConnection.nextReactor = BitVec.ofNat 32 (k + 1) := by
        simp only [Server.handleNewConnection, hcounter, BitVec.ofNat_add]
        rfl
      have hcount : accepted (.handleNewConnection :: rest) = accepted rest + 1 := by
        simp [accepted]
      rw [ih hnext hrest, hcount, List.range_succ_eq_map, List.map_cons, List.map_map]
      simp only [assigned, Server.reactorIndex, hcounter, turn, List.singleton_append,
        Server.handleNewConnection, Function.comp_def, Nat.add_zero, Nat.succ_eq_add_one,
        Nat.add_assoc, Nat.add_comm 1]

/-- The sub-reactors are numbered, and the connections dealt evenly among them. -/
structure Dealt (threads : Int) (indices : List Int) : Prop where
  positive : 0 < threads
  inRange : ∀ i ∈ indices, 0 ≤ i ∧ i < threads
  even : ∀ i j, 0 ≤ i → i < threads → 0 ≤ j → j < threads →
    indices.count i ≤ indices.count j + 1

/-- Taking turns deals the connections. -/
theorem dealt_turns {m : Nat} (hm : 0 < m) (n : Nat) :
    Dealt m ((RoundRobin.turns m n).map Nat.cast) := by
  constructor
  · omega
  · intro i hi
    obtain ⟨k, hk, rfl⟩ := List.mem_map.mp hi
    have hlt := RoundRobin.lt_of_mem_turns hm hk
    omega
  · intro i j hi hi' hj hj'
    obtain ⟨i, rfl⟩ := Int.eq_ofNat_of_zero_le hi
    obtain ⟨j, rfl⟩ := Int.eq_ofNat_of_zero_le hj
    have hcast : Function.Injective (Nat.cast : Nat → Int) := Nat.cast_injective
    rw [List.count_map_of_injective _ _ hcast, List.count_map_of_injective _ _ hcast]
    exact RoundRobin.turns_balanced (by omega) (by omega) n

/-- With sub-reactors and no negative index, each connection finds one. -/
theorem finds_along {s s' : Server} {acts : List Action} (hshape : Shape s)
    (hpos : 0 < s.threadNum) (hrun : Runs.exec step s acts = some s')
    (hindex : ∀ i ∈ Flow.emitted step assigned s acts, 0 ≤ i) : Runs.Along step Finds s acts := by
  induction acts generalizing s with
  | nil => trivial
  | cons a rest ih =>
    obtain ⟨t, ht, hrest⟩ := Runs.exec_cons_iff.mp hrun
    rw [Flow.emitted_cons ht] at hindex
    have hthreads := threadNum_step ht
    apply Runs.along_of_enabled ht
    · cases a with
      | start | stop => trivial
      | handleNewConnection =>
        intro hrunning
        have hnonneg : 0 ≤ s.reactorIndex := hindex _ (by simp [assigned])
        have hlt : s.reactorIndex < s.threadNum := Int.tmod_lt_of_pos _ (by omega)
        obtain ⟨r, hr, _⟩ :=
          hshape.first (starts_ne_zero hshape hrunning) s.reactorIndex.toNat (by omega)
        rw [Server.selected, if_neg (by omega), hr]
        simp
    · exact ih (shape_step s a t hshape ht) (by omega) hrest
        (fun i hi => hindex i (List.mem_append_right _ hi))

/-- The connections of a run are dealt evenly to sub-reactors that exist exactly when there are
sub-reactors and the counter has not come to a negative remainder. -/
theorem dealt_iff {configured hardwareConcurrency : BitVec 32} {acts : List Action} {s : Server}
    (hrun : Runs.exec step (server configured hardwareConcurrency) acts = some s) :
    (Dealt (threadNum configured hardwareConcurrency)
        (Flow.emitted step assigned (server configured hardwareConcurrency) acts) ∧
      Runs.Along step Finds (server configured hardwareConcurrency) acts) ↔
      0 < threadNum configured hardwareConcurrency ∧
        Within (threadNum configured hardwareConcurrency).toNat (accepted acts) := by
  have hassigned := assigned_eq (k := 0) rfl hrun
  simp only [Nat.zero_add] at hassigned
  by_cases hpos : 0 < threadNum configured hardwareConcurrency
  · obtain ⟨m, hm⟩ := Int.eq_ofNat_of_zero_le (Int.le_of_lt hpos)
    have hthreads : (server configured hardwareConcurrency).threadNum = m := by
      simp only [server, create, hm]
      split <;> omega
    rw [hthreads] at hassigned
    rw [hm] at hpos ⊢
    simp only [hpos, true_and, Int.toNat_natCast]
    constructor
    · rintro ⟨hdealt, _⟩
      apply within_of_turn
      intro k hk
      have hmem : turn m k ∈ Flow.emitted step assigned
          (server configured hardwareConcurrency) acts := by
        rw [hassigned]
        exact List.mem_map.mpr ⟨k, List.mem_range.mpr hk, rfl⟩
      exact (hdealt.inRange _ hmem).1
    · intro hwithin
      have hturns : Flow.emitted step assigned (server configured hardwareConcurrency) acts =
          (RoundRobin.turns m (accepted acts)).map Nat.cast := by
        rw [hassigned, RoundRobin.turns, List.map_map]
        apply List.map_congr_left
        intro k hk
        exact turn_of_within hwithin (List.mem_range.mp hk)
      have hdealt := dealt_turns (m := m) (by omega) (accepted acts)
      rw [← hturns] at hdealt
      refine ⟨hdealt, ?_⟩
      apply finds_along (shape_create _ _) ?_ hrun
      · intro i hi
        exact (hdealt.inRange i hi).1
      · change 0 < (server configured hardwareConcurrency).threadNum
        omega
  · constructor
    · rintro ⟨hdealt, _⟩
      exact absurd hdealt.positive hpos
    · intro h
      exact absurd h.1 hpos

/-- Four connections for three sub-reactors. -/
def fourConnections : List Action :=
  [.start, .handleNewConnection, .handleNewConnection, .handleNewConnection, .handleNewConnection]

theorem dealt_iff_fourConnections :
    Dealt (threadNum 3 8) (Flow.emitted step assigned (server 3 8) fourConnections) ∧
      Runs.Along step Finds (server 3 8) fourConnections ∧
      Flow.emitted step assigned (server 3 8) fourConnections = [0, 1, 2, 0] := by
  have hrun : Runs.exec step (server 3 8) fourConnections = some _ := rfl
  have hwithin : 0 < threadNum 3 8 ∧ Within (threadNum 3 8).toNat (accepted fourConnections) :=
    ⟨by decide, .inr (.inl (by decide))⟩
  obtain ⟨hdealt, hfinds⟩ := (dealt_iff hrun).mpr hwithin
  exact ⟨hdealt, hfinds, by decide⟩

/-- On a machine that reports no concurrency there is no sub-reactor for the first connection;
and with three sub-reactors, the connection number `2^31` gets a negative index. -/
theorem no_reactor :
    (threadNum 0 0 = 0 ∧ ∃ s, Runs.exec step (server 0 0) [.start] = some s ∧
      s.running = true ∧ s.selected = none) ∧
      turn 3 (2 ^ 31) = -2 ∧
      { (server 3 8).start with nextReactor := BitVec.ofNat 32 (2 ^ 31) }.selected = none := by
  refine ⟨⟨by decide, _, rfl, rfl, by decide⟩, by decide, by decide⟩

end ConnectionBalance
