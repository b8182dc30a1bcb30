import OrderEngine.Library.Flow

/-!
# Bounding what a run spends

The steps of a run have a cost, and they may add to a potential. Where no step costs more
than it takes from the potential and adds to it, no run spends more than the potential that
it starts with and what its steps add.
-/
namespace Potential

variable {State Action Item : Type*}

/-- The sum of what the steps of a run cost, or add. -/
def total (step : State → Action → Option State) (amount : State → Action → Nat) :
    State → List Action → Nat
  | _, [] => 0
  | s, a :: rest =>
    match step s a with
    | none => 0
    | some t => amount s a + total step amount t rest

theorem total_cons {step : State → Action → Option State} {amount : State → Action → Nat}
    {s t : State} {a : Action} {rest : List Action} (h : step s a = some t) :
    total step amount s (a :: rest) = amount s a + total step amount t rest := by
  simp [total, h]

@[simp] theorem total_zero {step : State → Action → Option State} {s : State}
    {acts : List Action} : total step (fun _ _ => 0) s acts = 0 := by
  induction acts generalizing s with
  | nil => rfl
  | cons a rest ih =>
    cases hstep : step s a with
    | none => simp [total, hstep]
    | some t => rw [total_cons hstep, ih]

/-- The number of steps of one kind. -/
theorem total_count {step : State → Action → Option State} {p : Action → Bool} {s t : State}
    {acts : List Action} (hrun : Runs.exec step s acts = some t) :
    total step (fun _ a => if p a then 1 else 0) s acts = acts.countP p := by
  induction acts generalizing s with
  | nil => rfl
  | cons a rest ih =>
    obtain ⟨u, hu, hrest⟩ := Runs.exec_cons_iff.mp hrun
    rw [total_cons hu, ih hrest, List.countP_cons, Nat.add_comm]

/-- The number of the items that a run emits. -/
theorem total_length {step : State → Action → Option State} {emit : State → Action → List Item}
    {s : State} {acts : List Action} :
    total step (fun s a => (emit s a).length) s acts = (Flow.emitted step emit s acts).length := by
  induction acts generalizing s with
  | nil => rfl
  | cons a rest ih =>
    cases hstep : step s a with
    | none => simp [total, Flow.emitted, hstep]
    | some t => rw [total_cons hstep, Flow.emitted_cons hstep, ih, List.length_append]

/-- A bound for one step gives the bound for a run whose states keep `inv`, and whose steps are
all admitted. -/
theorem total_le {step : State → Action → Option State} {cost gain : State → Action → Nat}
    (inv : State → Prop) (admits : State → Action → Prop) (potential : State → Nat)
    (hinv : ∀ s a t, inv s → admits s a → step s a = some t → inv t)
    (hstep : ∀ s a t, inv s → admits s a → step s a = some t →
      cost s a + potential t ≤ potential s + gain s a)
    {s t : State} {acts : List Action} (hs : inv s) (hal : Runs.Along step admits s acts)
    (hrun : Runs.exec step s acts = some t) :
    total step cost s acts + potential t ≤ potential s + total step gain s acts := by
  induction acts generalizing s with
  | nil =>
    cases hrun
    simp [total]
  | cons a rest ih =>
    obtain ⟨u, hu, hrest⟩ := Runs.exec_cons_iff.mp hrun
    have hfirst := hstep s a u hs hal.1 hu
    have hlater := ih (hinv s a u hs hal.1 hu) (hal.2 u hu) hrest
    rw [total_cons hu, total_cons hu]
    omega

/-- The same where the potential counts down the items that the run emits, as long as it emits no
more of them than there were to come. -/
theorem total_le_countdown {step : State → Action → Option State} {cost gain : State → Action → Nat}
    {emit : State → Action → List Item} (inv : Nat → State → Prop) (potential : Nat → State → Nat)
    (hinv : ∀ n s a t, inv n s → (emit s a).length ≤ n → step s a = some t →
      inv (n - (emit s a).length) t)
    (hstep : ∀ n s a t, inv n s → (emit s a).length ≤ n → step s a = some t →
      cost s a + potential (n - (emit s a).length) t ≤ potential n s + gain s a)
    {n : Nat} {s t : State} {acts : List Action} (hs : inv n s)
    (hrun : Runs.exec step s acts = some t)
    (hcount : (Flow.emitted step emit s acts).length ≤ n) :
    total step cost s acts + potential (n - (Flow.emitted step emit s acts).length) t ≤
      potential n s + total step gain s acts := by
  induction acts generalizing n s with
  | nil =>
    cases hrun
    simp [total, Flow.emitted]
  | cons a rest ih =>
    obtain ⟨u, hu, hrest⟩ := Runs.exec_cons_iff.mp hrun
    rw [Flow.emitted_cons hu, List.length_append] at hcount ⊢
    have hemit : (emit s a).length ≤ n := by omega
    have hfirst := hstep n s a u hs hemit hu
    have hlater := ih (hinv n s a u hs hemit hu) hrest (by omega)
    rw [Nat.sub_sub] at hlater
    rw [total_cons hu, total_cons hu]
    omega

end Potential
