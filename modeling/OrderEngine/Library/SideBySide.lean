import OrderEngine.Library.Flow

/-!
# Two systems side by side

An action of the whole is a step of the one system, of the other, of both or of none. What a
system conserves in its own steps it conserves as a part of the whole.
-/
namespace SideBySide

variable {Left Right LeftLabel RightLabel Action Item : Type*}

/-- What an action of the whole is to each side, and whether it is admitted. -/
structure Wiring (Left Right LeftLabel RightLabel Action : Type*) where
  left : Left × Right → Action → Option LeftLabel
  right : Left × Right → Action → Option RightLabel
  admits : Left × Right → Action → Bool

variable (wiring : Wiring Left Right LeftLabel RightLabel Action)
  (leftStep : Left → LeftLabel → Option Left) (rightStep : Right → RightLabel → Option Right)

/-- Each side takes its part in the action. -/
def step (s : Left × Right) (a : Action) : Option (Left × Right) :=
  if wiring.admits s a then
    (Runs.exec leftStep s.1 (wiring.left s a).toList).bind (fun l =>
      (Runs.exec rightStep s.2 (wiring.right s a).toList).map (fun r => (l, r)))
  else none

/-- What the left side emits. -/
def onLeft (emit : Left → LeftLabel → List Item) (s : Left × Right) (a : Action) : List Item :=
  (wiring.left s a).elim [] (emit s.1)

/-- What the right side emits. -/
def onRight (emit : Right → RightLabel → List Item) (s : Left × Right) (a : Action) : List Item :=
  (wiring.right s a).elim [] (emit s.2)

variable {wiring leftStep rightStep}

theorem step_eq_some {s t : Left × Right} {a : Action} :
    step wiring leftStep rightStep s a = some t ↔
      wiring.admits s a = true ∧
        Runs.exec leftStep s.1 (wiring.left s a).toList = some t.1 ∧
        Runs.exec rightStep s.2 (wiring.right s a).toList = some t.2 := by
  unfold step
  cases hadmits : wiring.admits s a with
  | false => simp
  | true =>
    simp only [if_true, Option.bind_eq_some_iff, Option.map_eq_some_iff, true_and]
    constructor
    · rintro ⟨l, hl, r, hr, rfl⟩
      exact ⟨hl, hr⟩
    · rintro ⟨hl, hr⟩
      exact ⟨t.1, hl, t.2, hr, rfl⟩

theorem conserves_left {contents : Left → List Item} {taken given : Left → LeftLabel → List Item}
    (hlaw : ∀ l b l', leftStep l b = some l' → Flow.Conserves contents taken given l b l')
    {s t : Left × Right} {a : Action} (h : step wiring leftStep rightStep s a = some t) :
    Flow.Conserves (fun s : Left × Right => contents s.1) (onLeft wiring taken)
      (onLeft wiring given) s a t :=
  Flow.conserves_view Prod.fst hlaw (step_eq_some.mp h).2.1 rfl rfl

theorem conserves_right {contents : Right → List Item}
    {taken given : Right → RightLabel → List Item}
    (hlaw : ∀ r b r', rightStep r b = some r' → Flow.Conserves contents taken given r b r')
    {s t : Left × Right} {a : Action} (h : step wiring leftStep rightStep s a = some t) :
    Flow.Conserves (fun s : Left × Right => contents s.2) (onRight wiring taken)
      (onRight wiring given) s a t :=
  Flow.conserves_view Prod.snd hlaw (step_eq_some.mp h).2.2 rfl rfl

end SideBySide
