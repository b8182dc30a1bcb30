import Mathlib.Data.List.Basic

/-!
# Runs of labelled partial transition systems

An action is performed by a partial step function: `none` means that the action
is not enabled. A run is a list of actions. The module gives the rules by which
one-step facts become facts about whole runs: invariants, invariants along runs
whose steps all meet a side condition, and forward simulation with stuttering.
-/
namespace Runs

variable {State Action Abstract Label : Type*}

/-- An action that is enabled under a condition. -/
def guarded (p : Prop) [Decidable p] (t : State) : Option State := if p then some t else none

@[simp] theorem guarded_eq_some {p : Prop} [Decidable p] {t u : State} :
    guarded p t = some u ↔ p ∧ t = u := by
  simp [guarded]

/-- Perform the actions in order; `none` when one of them is not enabled. -/
def exec (step : State → Action → Option State) : State → List Action → Option State
  | s, [] => some s
  | s, a :: rest => (step s a).bind (fun t => exec step t rest)

@[simp] theorem exec_nil (step : State → Action → Option State) (s : State) :
    exec step s [] = some s := rfl

@[simp] theorem exec_cons (step : State → Action → Option State) (s : State)
    (a : Action) (rest : List Action) :
    exec step s (a :: rest) = (step s a).bind (fun t => exec step t rest) := rfl

theorem exec_singleton {step : State → Action → Option State} {s : State} {a : Action} :
    exec step s [a] = step s a := by simp

theorem exec_cons_iff {step : State → Action → Option State} {s u : State}
    {a : Action} {rest : List Action} :
    exec step s (a :: rest) = some u ↔ ∃ t, step s a = some t ∧ exec step t rest = some u := by
  simp [Option.bind_eq_some_iff]

/-- A run is cut in two where the state between the parts is known. -/
theorem exec_append_iff {step : State → Action → Option State} {s u : State}
    {first rest : List Action} :
    exec step s (first ++ rest) = some u ↔
      ∃ t, exec step s first = some t ∧ exec step t rest = some u := by
  induction first generalizing s with
  | nil => simp
  | cons a first ih =>
    rw [List.cons_append, exec_cons_iff]
    simp only [ih, exec_cons_iff]
    constructor
    · rintro ⟨t, ht, v, hv, hrest⟩
      exact ⟨v, ⟨t, ht, hv⟩, hrest⟩
    · rintro ⟨v, ⟨t, ht, hv⟩, hrest⟩
      exact ⟨t, ht, v, hv, hrest⟩

/-- Some run goes from the one state to the other. -/
def Leads (step : State → Action → Option State) (s t : State) : Prop :=
  ∃ acts, exec step s acts = some t

theorem leads_refl {step : State → Action → Option State} {s : State} : Leads step s s := ⟨[], rfl⟩

theorem leads_step {step : State → Action → Option State} {s t : State} {a : Action}
    (h : step s a = some t) : Leads step s t :=
  ⟨[a], exec_cons_iff.mpr ⟨t, h, rfl⟩⟩

theorem leads_trans {step : State → Action → Option State} {s t u : State}
    (h : Leads step s t) (h' : Leads step t u) : Leads step s u := by
  obtain ⟨first, hfirst⟩ := h
  obtain ⟨rest, hrest⟩ := h'
  exact ⟨first ++ rest, exec_append_iff.mpr ⟨t, hfirst, hrest⟩⟩

/-- Reached from an initial state by some run. -/
def Reachable (init : State → Prop) (step : State → Action → Option State) (s : State) : Prop :=
  ∃ s₀ acts, init s₀ ∧ exec step s₀ acts = some s

/-- Every action of the run is performed in a state that admits it. -/
def Along (step : State → Action → Option State) (admits : State → Action → Prop) :
    State → List Action → Prop
  | _, [] => True
  | s, a :: rest => admits s a ∧ ∀ t, step s a = some t → Along step admits t rest

@[simp] theorem along_nil (step : State → Action → Option State)
    (admits : State → Action → Prop) (s : State) : Along step admits s [] := trivial

@[simp] theorem along_cons (step : State → Action → Option State)
    (admits : State → Action → Prop) (s : State) (a : Action) (rest : List Action) :
    Along step admits s (a :: rest) ↔
      admits s a ∧ ∀ t, step s a = some t → Along step admits t rest := Iff.rfl

/-- Where the condition is decidable, a run can be checked. -/
instance decidableAlong (step : State → Action → Option State) (admits : State → Action → Prop)
    [∀ s a, Decidable (admits s a)] :
    (s : State) → (acts : List Action) → Decidable (Along step admits s acts)
  | _, [] => isTrue trivial
  | s, a :: rest =>
    match hstep : step s a with
    | none => decidable_of_iff (admits s a) (by simp [hstep])
    | some t =>
      have := decidableAlong step admits t rest
      decidable_of_iff (admits s a ∧ Along step admits t rest) (by simp [hstep])

/-- A condition on the actions alone is met along a run where all its actions meet it. -/
theorem along_of_forall {step : State → Action → Option State} {p : Action → Prop} {s : State}
    {acts : List Action} (h : ∀ a ∈ acts, p a) : Along step (fun _ a => p a) s acts := by
  induction acts generalizing s with
  | nil => trivial
  | cons a rest ih =>
    refine ⟨h a List.mem_cons_self, ?_⟩
    intro t _
    exact ih (fun b hb => h b (List.mem_cons_of_mem _ hb))

theorem along_and {step : State → Action → Option State} {p q : State → Action → Prop} {s : State}
    {acts : List Action} (hp : Along step p s acts) (hq : Along step q s acts) :
    Along step (fun s a => p s a ∧ q s a) s acts := by
  induction acts generalizing s with
  | nil => trivial
  | cons a rest ih => exact ⟨⟨hp.1, hq.1⟩, fun t ht => ih (hp.2 t ht) (hq.2 t ht)⟩

theorem along_of_enabled {step : State → Action → Option State}
    {admits : State → Action → Prop} {s t : State} {a : Action} {rest : List Action}
    (hstep : step s a = some t) (ha : admits s a) (hrest : Along step admits t rest) :
    Along step admits s (a :: rest) := by
  refine ⟨ha, ?_⟩
  intro u hu
  rw [hstep] at hu
  cases hu
  exact hrest

/-- The state holds the property now and after each prefix of the run. -/
def Throughout (step : State → Action → Option State) (holds : State → Prop) :
    State → List Action → Prop
  | s, [] => holds s
  | s, a :: rest => holds s ∧ ∀ t, step s a = some t → Throughout step holds t rest

@[simp] theorem throughout_nil (step : State → Action → Option State)
    (holds : State → Prop) (s : State) : Throughout step holds s [] ↔ holds s := Iff.rfl

@[simp] theorem throughout_cons (step : State → Action → Option State)
    (holds : State → Prop) (s : State) (a : Action) (rest : List Action) :
    Throughout step holds s (a :: rest) ↔
      holds s ∧ ∀ t, step s a = some t → Throughout step holds t rest := Iff.rfl

theorem throughout_first {step : State → Action → Option State} {holds : State → Prop}
    {s : State} {acts : List Action} (h : Throughout step holds s acts) : holds s := by
  cases acts with
  | nil => exact h
  | cons a rest => exact h.1

theorem throughout_last {step : State → Action → Option State} {holds : State → Prop}
    {s t : State} {acts : List Action} (h : Throughout step holds s acts)
    (hrun : exec step s acts = some t) : holds t := by
  induction acts generalizing s with
  | nil =>
    cases hrun
    exact h
  | cons a rest ih =>
    obtain ⟨u, hu, hrest⟩ := exec_cons_iff.mp hrun
    exact ih (h.2 u hu) hrest

theorem throughout_trivial {step : State → Action → Option State} {s : State}
    {acts : List Action} : Throughout step (fun _ => True) s acts := by
  induction acts generalizing s with
  | nil => trivial
  | cons a rest ih => exact ⟨trivial, fun t _ => ih⟩

theorem throughout_mono {step : State → Action → Option State} {p q : State → Prop}
    (hpq : ∀ s, p s → q s) {s : State} {acts : List Action}
    (h : Throughout step p s acts) : Throughout step q s acts := by
  induction acts generalizing s with
  | nil => exact hpq s h
  | cons a rest ih => exact ⟨hpq s h.1, fun t ht => ih (h.2 t ht)⟩

/-- One-step preservation lifts to runs all of whose steps meet the side condition. -/
theorem throughout_of_step {step : State → Action → Option State}
    {admits : State → Action → Prop} (inv : State → Prop)
    (hstep : ∀ s a t, inv s → admits s a → step s a = some t → inv t)
    {s : State} {acts : List Action} (hs : inv s) (hal : Along step admits s acts) :
    Throughout step inv s acts := by
  induction acts generalizing s with
  | nil => exact hs
  | cons a rest ih =>
    exact ⟨hs, fun t ht => ih (hstep s a t hs hal.1 ht) (hal.2 t ht)⟩

/-- An invariant holds throughout every run. -/
theorem throughout_invariant {step : State → Action → Option State} (inv : State → Prop)
    (hstep : ∀ s a t, inv s → step s a = some t → inv t)
    {s : State} (hs : inv s) (acts : List Action) : Throughout step inv s acts := by
  induction acts generalizing s with
  | nil => exact hs
  | cons a rest ih => exact ⟨hs, fun t ht => ih (hstep s a t hs ht)⟩

/-- What an invariant admits is admitted along every run. -/
theorem along_invariant {step : State → Action → Option State}
    {admits : State → Action → Prop} (inv : State → Prop)
    (hstep : ∀ s a t, inv s → step s a = some t → inv t)
    (hadmits : ∀ s a, inv s → admits s a) {s : State} (hs : inv s) (acts : List Action) :
    Along step admits s acts := by
  induction acts generalizing s with
  | nil => trivial
  | cons a rest ih => exact ⟨hadmits s a hs, fun t ht => ih (hstep s a t hs ht)⟩

/-- What the enabled steps from the states of an invariant admit is admitted along a run. -/
theorem along_exec {step : State → Action → Option State} {admits : State → Action → Prop}
    {p : Action → Prop} (inv : State → Prop)
    (hstep : ∀ s a t, inv s → p a → step s a = some t → inv t)
    (hadmits : ∀ s a t, inv s → p a → step s a = some t → admits s a)
    {s t : State} {acts : List Action} (hs : inv s) (hp : ∀ a ∈ acts, p a)
    (hrun : exec step s acts = some t) : Along step admits s acts := by
  induction acts generalizing s with
  | nil => trivial
  | cons a rest ih =>
    obtain ⟨u, hu, hrest⟩ := exec_cons_iff.mp hrun
    have ha := hp a List.mem_cons_self
    refine along_of_enabled hu (hadmits s a u hs ha hu) ?_
    exact ih (hstep s a u hs ha hu) (fun b hb => hp b (List.mem_cons_of_mem _ hb)) hrest

/-- A property that holds throughout a run gives a side condition of each of its
steps, when it does so for one step. -/
theorem along_of_throughout {step : State → Action → Option State}
    {admits : State → Action → Prop} {holds : State → Prop} (inv : State → Prop)
    (hstep : ∀ s a t, inv s → step s a = some t → inv t)
    (hadmits : ∀ s a, inv s → holds s → (∀ t, step s a = some t → holds t) → admits s a)
    {s : State} {acts : List Action} (hs : inv s) (h : Throughout step holds s acts) :
    Along step admits s acts := by
  induction acts generalizing s with
  | nil => trivial
  | cons a rest ih =>
    refine ⟨hadmits s a hs h.1 (fun t ht => throughout_first (h.2 t ht)), ?_⟩
    intro t ht
    exact ih (hstep s a t hs ht) (h.2 t ht)

/-- Any two moments of the run, the earlier before the later one, are related. -/
def Moments (step : State → Action → Option State) (related : State → State → Prop) :
    State → List Action → Prop
  | _, [] => True
  | s, a :: rest =>
    ∀ t, step s a = some t → Throughout step (related s) t rest ∧ Moments step related t rest

/-- What relates the states before and after each step, and is transitive, relates
any two moments of a run. -/
theorem moments_of_step {step : State → Action → Option State}
    {admits : State → Action → Prop} {related : State → State → Prop}
    (htrans : ∀ s t u, related s t → related t u → related s u)
    (hstep : ∀ s a t, admits s a → step s a = some t → related s t)
    {s : State} {acts : List Action} (hal : Along step admits s acts) :
    Moments step related s acts := by
  induction acts generalizing s with
  | nil => trivial
  | cons a rest ih =>
    intro t ht
    refine ⟨?_, ih (hal.2 t ht)⟩
    refine throughout_of_step (related s) ?_ (hstep s a t hal.1 ht) (hal.2 t ht)
    intro u b v hu hb hv
    exact htrans s u v hu (hstep u b v hb hv)

theorem moments_mono {step : State → Action → Option State} {R S : State → State → Prop}
    (hRS : ∀ s t, R s t → S s t) {s : State} {acts : List Action} (h : Moments step R s acts) :
    Moments step S s acts := by
  induction acts generalizing s with
  | nil => trivial
  | cons a rest ih =>
    intro t ht
    exact ⟨throughout_mono (hRS s) (h t ht).1, ih (h t ht).2⟩

/-- A relation between any two moments holds before and after each step. -/
theorem along_of_moments {step : State → Action → Option State}
    {admits : State → Action → Prop} {related : State → State → Prop}
    (hadmits : ∀ s a, (∀ t, step s a = some t → related s t) → admits s a)
    {s : State} {acts : List Action} (h : Moments step related s acts) :
    Along step admits s acts := by
  induction acts generalizing s with
  | nil => trivial
  | cons a rest ih =>
    refine ⟨hadmits s a (fun t ht => throughout_first (h t ht).1), ?_⟩
    intro t ht
    exact ih (h t ht).2

/-- One-step preservation lifts to whole runs. -/
theorem invariant_exec {step : State → Action → Option State} (inv : State → Prop)
    (hstep : ∀ s a t, inv s → step s a = some t → inv t)
    {s t : State} {acts : List Action} (hs : inv s) (hrun : exec step s acts = some t) :
    inv t := by
  induction acts generalizing s with
  | nil =>
    cases hrun
    exact hs
  | cons a rest ih =>
    obtain ⟨u, hu, hr⟩ := exec_cons_iff.mp hrun
    exact ih (hstep s a u hs hu) hr

theorem leads_invariant {step : State → Action → Option State} (inv : State → Prop)
    (hstep : ∀ s a t, inv s → step s a = some t → inv t) {s t : State} (hs : inv s)
    (h : Leads step s t) : inv t := by
  obtain ⟨acts, hrun⟩ := h
  exact invariant_exec inv hstep hs hrun

/-- A mark that a step keeps while the property holds is still there at the end. -/
theorem marked_exec {step : State → Action → Option State} (inv holds mark : State → Prop)
    (hinv : ∀ s a t, inv s → step s a = some t → inv t)
    (hkeep : ∀ s a t, inv s → mark s → step s a = some t → holds t → mark t)
    {s u : State} {acts : List Action} (hs : inv s) (hm : mark s)
    (h : Throughout step holds s acts) (hrun : exec step s acts = some u) : mark u := by
  induction acts generalizing s with
  | nil =>
    cases hrun
    exact hm
  | cons a rest ih =>
    obtain ⟨t, ht, hrest⟩ := exec_cons_iff.mp hrun
    have htail := h.2 t ht
    exact ih (hinv s a t hs ht) (hkeep s a t hs hm ht (throughout_first htail)) htail hrest

/-- Where each step that is not admitted leaves such a mark, a run that keeps the
property and ends without the mark has admitted steps only. -/
theorem along_of_unmarked {step : State → Action → Option State}
    {admits : State → Action → Prop} (inv holds mark : State → Prop)
    (hinv : ∀ s a t, inv s → step s a = some t → inv t)
    (hkeep : ∀ s a t, inv s → mark s → step s a = some t → holds t → mark t)
    (hmark : ∀ s a t, inv s → ¬ admits s a → step s a = some t → holds t → mark t)
    {s u : State} {acts : List Action} (hs : inv s) (h : Throughout step holds s acts)
    (hrun : exec step s acts = some u) (hu : ¬ mark u) : Along step admits s acts := by
  induction acts generalizing s with
  | nil => trivial
  | cons a rest ih =>
    obtain ⟨t, ht, hrest⟩ := exec_cons_iff.mp hrun
    have htail := h.2 t ht
    have hinvt := hinv s a t hs ht
    constructor
    · by_contra hnot
      have hmarked := hmark s a t hs hnot ht (throughout_first htail)
      exact hu (marked_exec inv holds mark hinv hkeep hinvt hmarked htail hrest)
    · intro t' ht'
      rw [ht] at ht'
      cases ht'
      exact ih hinvt htail hrest

theorem invariant_reachable {init : State → Prop} {step : State → Action → Option State}
    (inv : State → Prop) (hinit : ∀ s, init s → inv s)
    (hstep : ∀ s a t, inv s → step s a = some t → inv t)
    {s : State} (h : Reachable init step s) : inv s := by
  obtain ⟨s₀, acts, h₀, hrun⟩ := h
  exact invariant_exec inv hstep (hinit s₀ h₀) hrun

/-- Forward simulation: a concrete step is matched by one abstract step or by none. -/
theorem simulate_exec {step : State → Action → Option State}
    {astep : Abstract → Label → Option Abstract} (R : State → Abstract → Prop)
    (hstep : ∀ s a t c, R s c → step s a = some t →
      R t c ∨ ∃ b d, astep c b = some d ∧ R t d)
    {s t : State} {c : Abstract} {acts : List Action} (hR : R s c)
    (hrun : exec step s acts = some t) :
    ∃ labels d, exec astep c labels = some d ∧ R t d := by
  induction acts generalizing s c with
  | nil =>
    cases hrun
    exact ⟨[], c, rfl, hR⟩
  | cons a rest ih =>
    obtain ⟨u, hu, hr⟩ := exec_cons_iff.mp hrun
    rcases hstep s a u c hR hu with hstay | ⟨b, d, hd, hmove⟩
    · exact ih hstay hr
    · obtain ⟨labels, e, he, hRe⟩ := ih hmove hr
      exact ⟨b :: labels, e, exec_cons_iff.mpr ⟨d, hd, he⟩, hRe⟩

/-- Lockstep simulation: the other system takes the same actions. -/
theorem lockstep_exec {step : State → Action → Option State}
    {astep : Abstract → Action → Option Abstract} (R : State → Abstract → Prop)
    (hstep : ∀ s a t c, R s c → step s a = some t → ∃ d, astep c a = some d ∧ R t d)
    {s t : State} {c : Abstract} {acts : List Action} (hR : R s c)
    (hrun : exec step s acts = some t) : ∃ d, exec astep c acts = some d ∧ R t d := by
  induction acts generalizing s c with
  | nil =>
    cases hrun
    exact ⟨c, rfl, hR⟩
  | cons a rest ih =>
    obtain ⟨u, hu, hr⟩ := exec_cons_iff.mp hrun
    obtain ⟨d, hd, hmove⟩ := hstep s a u c hR hu
    obtain ⟨e, he, hRe⟩ := ih hmove hr
    exact ⟨e, exec_cons_iff.mpr ⟨d, hd, he⟩, hRe⟩

end Runs
