import Mathlib.Data.List.Induction

/-!
# The last element of a list that wins

An element may be judged by what comes before it. A list has a last element that
satisfies `wins` when no later one satisfies `competes`. Reading the list from its front,
each new element either wins, or leaves the last winner in place, or ends it.
-/
namespace LastWins

variable {α : Type*}

/-- Some element wins, and none after it competes. -/
def LastAt (wins competes : List α → α → Prop) (xs : List α) : Prop :=
  ∃ before a after, xs = before ++ a :: after ∧ wins before a ∧
    ∀ mid b rest, after = mid ++ b :: rest → ¬ competes (before ++ a :: mid) b

theorem lastAt_nil (wins competes : List α → α → Prop) : ¬ LastAt wins competes [] := by
  intro h
  obtain ⟨before, a, after, hxs, _⟩ := h
  simp at hxs

theorem lastAt_concat {wins competes : List α → α → Prop} {xs : List α} {c : α} :
    LastAt wins competes (xs ++ [c]) ↔
      wins xs c ∨ ¬ competes xs c ∧ LastAt wins competes xs := by
  constructor
  · intro h
    obtain ⟨before, a, after, hxs, hwins, hlast⟩ := h
    rcases after.eq_nil_or_concat with rfl | ⟨after, d, rfl⟩
    · obtain ⟨rfl, hc⟩ := List.append_inj' hxs rfl
      cases hc
      exact .inl hwins
    · have hxs : xs ++ [c] = (before ++ a :: after) ++ [d] := by simpa using hxs
      obtain ⟨rfl, hd⟩ := List.append_inj' hxs rfl
      cases hd
      refine .inr ⟨hlast after c [] (by simp), before, a, after, rfl, hwins, ?_⟩
      intro mid b rest hafter
      exact hlast mid b (rest ++ [c]) (by simp [hafter])
  · intro h
    rcases h with hwins | ⟨hcompetes, before, a, after, rfl, hwins, hlast⟩
    · refine ⟨xs, c, [], rfl, hwins, ?_⟩
      intro mid b rest hafter
      simp at hafter
    · refine ⟨before, a, after ++ [c], by simp, hwins, ?_⟩
      intro mid b rest hafter
      rcases rest.eq_nil_or_concat with rfl | ⟨rest, d, rfl⟩
      · obtain ⟨rfl, hc⟩ := List.append_inj' hafter rfl
        cases hc
        exact hcompetes
      · have hafter : after ++ [c] = (mid ++ b :: rest) ++ [d] := by simpa using hafter
        exact hlast mid b rest (List.append_inj' hafter rfl).1

/-- Of two lists in a row, the second decides where it has a winner of any kind. -/
theorem lastAt_append {β : Type*} {wins : β → List α → α → Prop} {xs ys : List α} {b : β} :
    LastAt (wins b) (fun before a => ∃ c, wins c before a) (xs ++ ys) ↔
      LastAt (fun before => wins b (xs ++ before)) (fun before a => ∃ c, wins c (xs ++ before) a)
          ys ∨
        (∀ c, ¬ LastAt (fun before => wins c (xs ++ before))
          (fun before a => ∃ c, wins c (xs ++ before) a) ys) ∧
        LastAt (wins b) (fun before a => ∃ c, wins c before a) xs := by
  induction ys using List.reverseRecOn with
  | nil => simp [lastAt_nil]
  | append_singleton ys a ih =>
    rw [← List.append_assoc, lastAt_concat, ih]
    simp only [lastAt_concat]
    by_cases hcompetes : ∃ c, wins c (xs ++ ys) a
    · obtain ⟨c, hc⟩ := hcompetes
      have hnot : ¬ ∀ d, ¬ wins d (xs ++ ys) a := fun h => h c hc
      simp [hnot]
    · have hnot : ∀ c, ¬ wins c (xs ++ ys) a := not_exists.mp hcompetes
      simp [hnot]

/-- Only what holds at the positions of the list matters. -/
theorem lastAt_congr {wins wins' competes competes' : List α → α → Prop} {xs : List α}
    (hwins : ∀ before a after, xs = before ++ a :: after → (wins before a ↔ wins' before a))
    (hcompetes : ∀ before a after, xs = before ++ a :: after →
      (competes before a ↔ competes' before a)) :
    LastAt wins competes xs ↔ LastAt wins' competes' xs := by
  induction xs using List.reverseRecOn with
  | nil => exact iff_of_false (lastAt_nil _ _) (lastAt_nil _ _)
  | append_singleton xs c ih =>
    have hbefore := ih (fun before a after h => hwins before a (after ++ [c]) (by simp [h]))
      (fun before a after h => hcompetes before a (after ++ [c]) (by simp [h]))
    rw [lastAt_concat, lastAt_concat, hbefore, hwins xs c [] rfl, hcompetes xs c [] rfl]

end LastWins
