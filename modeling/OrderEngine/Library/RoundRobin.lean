import Mathlib.Data.Int.CardIntervalMod

/-!
# Taking turns

The numbers below `n` are dealt to `m` slots by their remainders. Two slots never differ by
more than one in what they have been dealt.
-/
namespace RoundRobin

/-- The slots that are dealt to, in order. -/
def turns (m n : Nat) : List Nat := (List.range n).map (· % m)

theorem lt_of_mem_turns {m n i : Nat} (hm : 0 < m) (h : i ∈ turns m n) : i < m := by
  obtain ⟨k, _, rfl⟩ := List.mem_map.mp h
  exact Nat.mod_lt k hm

theorem count_turns {m i : Nat} (hi : i < m) (n : Nat) :
    (turns m n).count i = n / m + if i < n % m then 1 else 0 := by
  have hcount : (turns m n).count i = n.count (· ≡ i [MOD m]) := by
    rw [turns, List.count, List.countP_map, Nat.count]
    apply List.countP_congr
    intro k _
    simp [Nat.ModEq, Nat.mod_eq_of_lt hi]
  rw [hcount, Nat.count_modEq_card n (Nat.zero_lt_of_lt hi), Nat.mod_eq_of_lt hi]

/-- The slots are dealt to evenly. -/
theorem turns_balanced {m i j : Nat} (hi : i < m) (hj : j < m) (n : Nat) :
    (turns m n).count i ≤ (turns m n).count j + 1 := by
  rw [count_turns hi, count_turns hj]
  split <;> split <;> omega

end RoundRobin
