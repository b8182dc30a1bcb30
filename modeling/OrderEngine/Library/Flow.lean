import OrderEngine.Library.Runs

/-!
# Order-preserving flow through a buffer

Each step of a run may take items into a buffer and give items out of it. Where
every step gives out at the front what it took in at the back, a whole run does: what
was given, followed by what the buffer still holds, is what was taken.
-/
namespace Flow

variable {State Action Item : Type*}

/-- What the steps of a run emit, in order. -/
def emitted (step : State → Action → Option State) (emit : State → Action → List Item) :
    State → List Action → List Item
  | _, [] => []
  | s, a :: rest =>
    match step s a with
    | none => []
    | some t => emit s a ++ emitted step emit t rest

theorem emitted_cons {step : State → Action → Option State} {emit : State → Action → List Item}
    {s t : State} {a : Action} {rest : List Action} (h : step s a = some t) :
    emitted step emit s (a :: rest) = emit s a ++ emitted step emit t rest := by
  simp [emitted, h]

theorem emitted_append {step : State → Action → Option State} {emit : State → Action → List Item}
    {s t : State} {first rest : List Action} (hrun : Runs.exec step s first = some t) :
    emitted step emit s (first ++ rest) = emitted step emit s first ++ emitted step emit t rest := by
  induction first generalizing s with
  | nil =>
    cases hrun
    rfl
  | cons a first ih =>
    obtain ⟨u, hu, hrest⟩ := Runs.exec_cons_iff.mp hrun
    rw [List.cons_append, emitted_cons hu, emitted_cons hu, ih hrest, List.append_assoc]

/-- What each step from the states of an invariant emits, a whole run emits. -/
theorem emitted_invariant {step : State → Action → Option State} {emit : State → Action → List Item}
    {holds : Item → Prop} (inv : State → Prop)
    (hinv : ∀ s a t, inv s → step s a = some t → inv t)
    (hemit : ∀ s a t, inv s → step s a = some t → ∀ i ∈ emit s a, holds i) {s : State}
    {acts : List Action} (hs : inv s) : ∀ i ∈ emitted step emit s acts, holds i := by
  induction acts generalizing s with
  | nil => simp [emitted]
  | cons a rest ih =>
    cases hstep : step s a with
    | none => simp [emitted, hstep]
    | some t =>
      rw [emitted_cons hstep]
      intro i hi
      rcases List.mem_append.mp hi with hi | hi
      · exact hemit s a t hs hstep i hi
      · exact ih (hinv s a t hs hstep) i hi

/-- What each step emits, a whole run emits. -/
theorem emitted_forall {step : State → Action → Option State} {emit : State → Action → List Item}
    {holds : Item → Prop} (hemit : ∀ s a, ∀ i ∈ emit s a, holds i) {s : State}
    {acts : List Action} : ∀ i ∈ emitted step emit s acts, holds i :=
  emitted_invariant (fun _ => True) (fun _ _ _ _ _ => trivial) (fun s a _ _ _ => hemit s a) trivial

/-- A view of the state that each step folds its items into is folded along the run. -/
theorem foldl_emitted {View : Type*} {step : State → Action → Option State}
    {emit : State → Action → List Item} (view : State → View) (apply : View → Item → View)
    (hstep : ∀ s a t, step s a = some t → view t = (emit s a).foldl apply (view s))
    {s t : State} {acts : List Action} (hrun : Runs.exec step s acts = some t) :
    view t = (emitted step emit s acts).foldl apply (view s) := by
  induction acts generalizing s with
  | nil =>
    cases hrun
    rfl
  | cons a rest ih =>
    obtain ⟨u, hu, hrest⟩ := Runs.exec_cons_iff.mp hrun
    rw [ih hrest, emitted_cons hu, List.foldl_append, hstep s a u hu]

theorem emitted_flatMap {Part : Type*} {step : State → Action → Option State}
    {emit : State → Action → List Item} (f : Item → List Part) {s : State} {acts : List Action} :
    emitted step (fun s a => (emit s a).flatMap f) s acts =
      (emitted step emit s acts).flatMap f := by
  induction acts generalizing s with
  | nil => rfl
  | cons a rest ih =>
    cases hstep : step s a with
    | none => simp [emitted, hstep]
    | some t => rw [emitted_cons hstep, emitted_cons hstep, List.flatMap_append, ih]

theorem emitted_filterMap {Part : Type*} {step : State → Action → Option State}
    {emit : State → Action → List Item} (f : Item → Option Part) {s : State} {acts : List Action} :
    emitted step (fun s a => (emit s a).filterMap f) s acts =
      (emitted step emit s acts).filterMap f := by
  simp only [List.filterMap_eq_flatMap_toList]
  exact emitted_flatMap _

theorem emitted_map {Part : Type*} {step : State → Action → Option State}
    {emit : State → Action → List Item} (f : Item → Part) {s : State} {acts : List Action} :
    emitted step (fun s a => (emit s a).map f) s acts = (emitted step emit s acts).map f := by
  simp only [List.map_eq_flatMap]
  exact emitted_flatMap _

theorem emitted_congr {step : State → Action → Option State}
    {emit emit' : State → Action → List Item} (inv : State → Prop) (admits : State → Action → Prop)
    (hinv : ∀ s a t, inv s → step s a = some t → inv t)
    (hstep : ∀ s a t, inv s → admits s a → step s a = some t → emit s a = emit' s a)
    {s : State} {acts : List Action} (hs : inv s) (hal : Runs.Along step admits s acts) :
    emitted step emit s acts = emitted step emit' s acts := by
  induction acts generalizing s with
  | nil => rfl
  | cons a rest ih =>
    cases hu : step s a with
    | none => simp [emitted, hu]
    | some u =>
      rw [emitted_cons hu, emitted_cons hu, hstep s a u hs hal.1 hu,
        ih (hinv s a u hs hu) (hal.2 u hu)]

/-- Nothing is emitted where no step that keeps the invariant emits. -/
theorem emitted_nil {step : State → Action → Option State} {emit : State → Action → List Item}
    {admits : State → Action → Prop} (inv : State → Prop)
    (hinv : ∀ s a t, inv s → admits s a → step s a = some t → inv t)
    (hemit : ∀ s a, inv s → emit s a = []) {s : State} {acts : List Action} (hs : inv s)
    (hal : Runs.Along step admits s acts) : emitted step emit s acts = [] := by
  induction acts generalizing s with
  | nil => rfl
  | cons a rest ih =>
    cases hu : step s a with
    | none => simp [emitted, hu]
    | some u =>
      rw [emitted_cons hu, hemit s a hs, List.nil_append]
      exact ih (hinv s a u hs hal.1 hu) (hal.2 u hu)

/-- What is emitted at the steps of a run is a part of what is, where it is so at each step. -/
theorem emitted_sublist {step : State → Action → Option State}
    {emit more : State → Action → List Item}
    (hstep : ∀ s a t, step s a = some t → (emit s a).Sublist (more s a)) {s : State}
    {acts : List Action} :
    (emitted step emit s acts).Sublist (emitted step more s acts) := by
  induction acts generalizing s with
  | nil => exact List.Sublist.refl _
  | cons a rest ih =>
    cases hs : step s a with
    | none => simp [emitted, hs]
    | some t =>
      rw [emitted_cons hs, emitted_cons hs]
      exact (hstep s a t hs).append ih

section
variable {Abstract Label : Type*} {step : State → Action → Option State}
  {astep : Abstract → Label → Option Abstract}

/-- Where each step is a run of another system, a whole run is. -/
theorem exec_emitted (inv : State → Prop) (view : State → Abstract)
    (labels : State → Action → List Label)
    (hinv : ∀ s a t, inv s → step s a = some t → inv t)
    (hstep : ∀ s a t, inv s → step s a = some t →
      Runs.exec astep (view s) (labels s a) = some (view t))
    {s t : State} {acts : List Action} (hs : inv s) (hrun : Runs.exec step s acts = some t) :
    Runs.exec astep (view s) (emitted step labels s acts) = some (view t) := by
  induction acts generalizing s with
  | nil =>
    cases hrun
    rfl
  | cons a rest ih =>
    obtain ⟨u, hu, hrest⟩ := Runs.exec_cons_iff.mp hrun
    rw [emitted_cons hu]
    exact Runs.exec_append_iff.mpr ⟨view u, hstep s a u hs hu, ih (hinv s a u hs hu) hrest⟩

/-- What the runs of the other system emit, a whole run emits. -/
theorem emitted_emitted {emit : State → Action → List Item} {aemit : Abstract → Label → List Item}
    (inv : State → Prop) (view : State → Abstract) (labels : State → Action → List Label)
    (hinv : ∀ s a t, inv s → step s a = some t → inv t)
    (hstep : ∀ s a t, inv s → step s a = some t →
      Runs.exec astep (view s) (labels s a) = some (view t))
    (hemit : ∀ s a t, inv s → step s a = some t →
      emitted astep aemit (view s) (labels s a) = emit s a)
    {s t : State} {acts : List Action} (hs : inv s) (hrun : Runs.exec step s acts = some t) :
    emitted astep aemit (view s) (emitted step labels s acts) = emitted step emit s acts := by
  induction acts generalizing s with
  | nil => rfl
  | cons a rest ih =>
    obtain ⟨u, hu, hrest⟩ := Runs.exec_cons_iff.mp hrun
    rw [emitted_cons hu, emitted_cons hu, emitted_append (hstep s a u hs hu), hemit s a u hs hu,
      ih (hinv s a u hs hu) hrest]

end

/-- The items are those that have a mark in the second state and had none in the first, each
once; no mark is taken back. -/
structure Marks (marked : State → Item → Prop) (items : List Item) (s t : State) : Prop where
  nodup : items.Nodup
  marked_iff : ∀ i, marked t i ↔ marked s i ∨ i ∈ items
  fresh : ∀ i ∈ items, ¬ marked s i

/-- Where each step emits the items that it marks, a run whose states keep `inv` does. -/
theorem marks_invariant {step : State → Action → Option State} {emit : State → Action → List Item}
    (inv : State → Prop) (marked : State → Item → Prop)
    (hinv : ∀ s a t, inv s → step s a = some t → inv t)
    (hstep : ∀ s a t, inv s → step s a = some t → Marks marked (emit s a) s t)
    {s t : State} {acts : List Action} (hs : inv s) (hrun : Runs.exec step s acts = some t) :
    Marks marked (emitted step emit s acts) s t := by
  induction acts generalizing s with
  | nil =>
    cases hrun
    exact ⟨List.nodup_nil, by simp [emitted], by simp [emitted]⟩
  | cons a rest ih =>
    obtain ⟨u, hu, hrest⟩ := Runs.exec_cons_iff.mp hrun
    have hfirst := hstep s a u hs hu
    have hlater := ih (hinv s a u hs hu) hrest
    rw [emitted_cons hu]
    constructor
    · apply List.nodup_append.mpr
      refine ⟨hfirst.nodup, hlater.nodup, ?_⟩
      rintro i hi j hj rfl
      exact hlater.fresh i hj ((hfirst.marked_iff i).mpr (.inr hi))
    · intro i
      rw [hlater.marked_iff, hfirst.marked_iff, List.mem_append, or_assoc]
    · intro i hi hmarked
      cases List.mem_append.mp hi with
      | inl hemit => exact hfirst.fresh i hemit hmarked
      | inr hemit => exact hlater.fresh i hemit ((hfirst.marked_iff i).mpr (.inl hmarked))

/-- Where each step emits the items that it marks, a run does. -/
theorem marks_exec {step : State → Action → Option State} {emit : State → Action → List Item}
    (marked : State → Item → Prop)
    (hstep : ∀ s a t, step s a = some t → Marks marked (emit s a) s t)
    {s t : State} {acts : List Action} (hrun : Runs.exec step s acts = some t) :
    Marks marked (emitted step emit s acts) s t :=
  marks_invariant (fun _ => True) marked (fun _ _ _ _ _ => trivial) (fun s a t _ => hstep s a t)
    trivial hrun

/-- What the items of each step say about the states before and after it, those of a run say, where
it adds up. -/
theorem relates_exec {step : State → Action → Option State} {emit : State → Action → List Item}
    {relates : List Item → State → State → Prop} (hnil : ∀ s, relates [] s s)
    (hadd : ∀ first rest s t u, relates first s t → relates rest t u → relates (first ++ rest) s u)
    (inv : State → Prop) (admits : State → Action → Prop)
    (hinv : ∀ s a t, inv s → step s a = some t → inv t)
    (hstep : ∀ s a t, inv s → admits s a → step s a = some t → relates (emit s a) s t)
    {s t : State} {acts : List Action} (hs : inv s) (hal : Runs.Along step admits s acts)
    (hrun : Runs.exec step s acts = some t) : relates (emitted step emit s acts) s t := by
  induction acts generalizing s with
  | nil =>
    cases hrun
    exact hnil _
  | cons a rest ih =>
    obtain ⟨u, hu, hrest⟩ := Runs.exec_cons_iff.mp hrun
    rw [emitted_cons hu]
    exact hadd _ _ s u t (hstep s a u hs hal.1 hu) (ih (hinv s a u hs hu) (hal.2 u hu) hrest)

/-- What each step adds to a list, a whole run adds. -/
theorem appended_exec {step : State → Action → Option State} {emit : State → Action → List Item}
    (inv : State → Prop) (contents : State → List Item)
    (hinv : ∀ s a t, inv s → step s a = some t → inv t)
    (hstep : ∀ s a t, inv s → step s a = some t → contents t = contents s ++ emit s a)
    {s t : State} {acts : List Action} (hs : inv s) (hrun : Runs.exec step s acts = some t) :
    contents t = contents s ++ emitted step emit s acts := by
  induction acts generalizing s with
  | nil =>
    cases hrun
    exact (List.append_nil _).symm
  | cons a rest ih =>
    obtain ⟨u, hu, hrest⟩ := Runs.exec_cons_iff.mp hrun
    rw [emitted_cons hu, ih (hinv s a u hs hu) hrest, hstep s a u hs hu, List.append_assoc]

/-- The step gives out at the front of the buffer and takes in at its back. -/
def Conserves (contents : State → List Item) (taken given : State → Action → List Item)
    (s : State) (a : Action) (t : State) : Prop :=
  contents s ++ taken s a = given s a ++ contents t

/-- Conservation by each admitted step lifts to runs of such steps, whose states keep `inv`. -/
theorem conserved_along {step : State → Action → Option State} {contents : State → List Item}
    {taken given : State → Action → List Item} {admits : State → Action → Prop}
    (inv : State → Prop)
    (hinv : ∀ s a t, inv s → admits s a → step s a = some t → inv t)
    (hstep : ∀ s a t, inv s → admits s a → step s a = some t →
      Conserves contents taken given s a t)
    {s t : State} {acts : List Action} (hs : inv s) (hal : Runs.Along step admits s acts)
    (hrun : Runs.exec step s acts = some t) :
    contents s ++ emitted step taken s acts = emitted step given s acts ++ contents t := by
  induction acts generalizing s with
  | nil =>
    cases hrun
    simp [emitted]
  | cons a rest ih =>
    obtain ⟨u, hu, hrest⟩ := Runs.exec_cons_iff.mp hrun
    have hhead : contents s ++ taken s a = given s a ++ contents u := hstep s a u hs hal.1 hu
    rw [emitted_cons hu, emitted_cons hu, List.append_assoc,
      ← ih (hinv s a u hs hal.1 hu) (hal.2 u hu) hrest, ← List.append_assoc, hhead,
      List.append_assoc]

/-- Conservation by each step lifts to whole runs, whose states keep `inv`. -/
theorem conserved_invariant {step : State → Action → Option State} {contents : State → List Item}
    {taken given : State → Action → List Item} (inv : State → Prop)
    (hinv : ∀ s a t, inv s → step s a = some t → inv t)
    (hstep : ∀ s a t, inv s → step s a = some t → Conserves contents taken given s a t)
    {s t : State} {acts : List Action} (hs : inv s) (hrun : Runs.exec step s acts = some t) :
    contents s ++ emitted step taken s acts = emitted step given s acts ++ contents t :=
  conserved_along inv (fun s a t hs _ => hinv s a t hs) (fun s a t hs _ => hstep s a t hs) hs
    (Runs.along_invariant inv hinv (fun _ _ _ => trivial) hs acts) hrun

/-- Conservation by each step lifts to whole runs. -/
theorem conserved_exec {step : State → Action → Option State} {contents : State → List Item}
    {taken given : State → Action → List Item}
    (hstep : ∀ s a t, step s a = some t → Conserves contents taken given s a t)
    {s t : State} {acts : List Action} (hrun : Runs.exec step s acts = some t) :
    contents s ++ emitted step taken s acts = emitted step given s acts ++ contents t :=
  conserved_invariant (fun _ => True) (fun _ _ _ _ _ => trivial) (fun s a t _ => hstep s a t)
    trivial hrun

/-- Where the step is a step of another system or none, it conserves what that system's law conserves
in the view. -/
theorem conserves_view {Abstract Label : Type*} {astep : Abstract → Label → Option Abstract}
    {contents : Abstract → List Item} {ataken agiven : Abstract → Label → List Item}
    {taken given : State → Action → List Item} (view : State → Abstract) {s t : State} {a : Action}
    {label : Option Label}
    (hlaw : ∀ s l t, astep s l = some t → Conserves contents ataken agiven s l t)
    (hstep : Runs.exec astep (view s) label.toList = some (view t))
    (htaken : label.elim [] (ataken (view s)) = taken s a)
    (hgiven : label.elim [] (agiven (view s)) = given s a) :
    Conserves (fun s => contents (view s)) taken given s a t := by
  unfold Conserves
  rw [← htaken, ← hgiven]
  cases label with
  | none =>
    have hview : view s = view t := Option.some.inj hstep
    simp [hview]
  | some l =>
    obtain ⟨u, hu, hrest⟩ := Runs.exec_cons_iff.mp hstep
    cases hrest
    exact hlaw _ l _ hu

/-- From an empty buffer, what was given and what is left are what was taken. -/
theorem taken_eq {step : State → Action → Option State} {contents : State → List Item}
    {taken given : State → Action → List Item}
    (hstep : ∀ s a t, step s a = some t → Conserves contents taken given s a t)
    {s t : State} {acts : List Action} (hempty : contents s = [])
    (hrun : Runs.exec step s acts = some t) :
    emitted step given s acts ++ contents t = emitted step taken s acts := by
  have h := conserved_exec hstep hrun
  rw [hempty, List.nil_append] at h
  exact h.symm

end Flow
