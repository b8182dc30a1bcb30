import Mathlib.Data.List.DropRight
import Mathlib.Algebra.Order.Ring.Nat

/-!
# Operations of a string with positions in machine words

Searches return a position or `npos`, positions are added and subtracted modulo `2^64`,
and cutting is partial in its position. The module shows that the usual idioms, which
let `npos` wrap round, cut where they are meant to.
-/
namespace StringOps

variable {α : Type*}

/-- The greatest position; a search that finds nothing returns it. -/
def npos : Nat := 2 ^ 64 - 1

def sizeAdd (a b : Nat) : Nat := (a + b) % 2 ^ 64

def sizeSub (a b : Nat) : Nat := (a + (2 ^ 64 - b)) % 2 ^ 64

/-- Erase at most `n` elements from a position on; `none` where the position is out of range. -/
def erase (s : List α) (pos n : Nat) : Option (List α) :=
  if pos ≤ s.length then some (s.take pos ++ s.drop (pos + min n (s.length - pos))) else none

/-- Copy at most `n` elements from a position on; `none` where the position is out of range. -/
def substr (s : List α) (pos n : Nat) : Option (List α) :=
  if pos ≤ s.length then some ((s.drop pos).take (min n (s.length - pos))) else none

theorem erase_front (s : List α) (n : Nat) : erase s 0 n = some (s.drop n) := by
  have hdrop : s.drop (min n s.length) = s.drop n := by
    by_cases h : n ≤ s.length
    · rw [Nat.min_eq_left h]
    · rw [Nat.min_eq_right (by omega), List.drop_length, List.drop_eq_nil_of_le (by omega)]
  simp [erase, hdrop]

theorem erase_back {s : List α} (n : Nat) (hs : s.length ≤ npos) (hn : n ≤ s.length) :
    erase s n npos = some (s.take n) := by
  have hmin : n + min npos (s.length - n) = s.length := by omega
  simp [erase, hn, hmin]

theorem substr_before (a b : List α) : substr (a ++ b) 0 a.length = some a := by
  simp [substr]

theorem substr_after {a : List α} {c : α} {b : List α} (hs : (a ++ c :: b).length ≤ npos) :
    substr (a ++ c :: b) (sizeAdd a.length 1) npos = some b := by
  have hlength : (a ++ c :: b).length = a.length + 1 + b.length := by
    simp only [List.length_append, List.length_cons]
    omega
  have hadd : sizeAdd a.length 1 = a.length + 1 := by
    simp only [sizeAdd, npos] at hs ⊢
    omega
  have hdrop : (a ++ c :: b).drop (a.length + 1) = b := by simp
  have hmin : min npos ((a ++ c :: b).length - (a.length + 1)) = b.length := by omega
  rw [substr, hadd, if_pos (by omega), hdrop, hmin, List.take_length]

/-- The text between the first and the last element. -/
theorem substr_between {c d : α} {s : List α} (hs : (c :: (s ++ [d])).length ≤ npos) :
    substr (c :: (s ++ [d])) 1 (sizeSub (c :: (s ++ [d])).length 2) = some s := by
  have hlength : (c :: (s ++ [d])).length = s.length + 2 := by simp
  have hsub : sizeSub (c :: (s ++ [d])).length 2 = s.length := by
    simp only [sizeSub, npos] at hs ⊢
    omega
  have hmin : min s.length ((c :: (s ++ [d])).length - 1) = s.length := by omega
  rw [substr, hsub, if_pos (by omega), hmin]
  simp

variable [DecidableEq α]

/-- The position of the first `c`. -/
def find (s : List α) (c : α) : Nat :=
  if c ∈ s then (s.takeWhile (· ≠ c)).length else npos

/-- The position of the first element that is none of `chars`. -/
def findFirstNotOf (s chars : List α) : Nat :=
  if ∃ c ∈ s, c ∉ chars then (s.takeWhile (· ∈ chars)).length else npos

/-- The position of the last element that is none of `chars`. -/
def findLastNotOf (s chars : List α) : Nat :=
  if ∃ c ∈ s, c ∉ chars then (s.rdropWhile (· ∈ chars)).length - 1 else npos

/-- Erase the elements of `chars` from both ends. -/
def strip (chars s : List α) : Option (List α) :=
  (erase s 0 (findFirstNotOf s chars)).bind
    (fun s => erase s (sizeAdd (findLastNotOf s chars) 1) npos)

/-- The string without the elements of `chars` at its ends. -/
def trim (chars s : List α) : List α := (s.dropWhile (· ∈ chars)).rdropWhile (· ∈ chars)

/-- Where there is nothing to keep, `npos` is at least the length. -/
theorem erase_findFirstNotOf {s : List α} (hs : s.length ≤ npos) (chars : List α) :
    erase s 0 (findFirstNotOf s chars) = some (s.dropWhile (· ∈ chars)) := by
  rw [erase_front, findFirstNotOf]
  split
  · have happend : s.takeWhile (· ∈ chars) ++ s.dropWhile (· ∈ chars) = s :=
      List.takeWhile_append_dropWhile
    have hdrop := congrArg (List.drop (s.takeWhile (· ∈ chars)).length) happend
    rw [List.drop_left] at hdrop
    exact congrArg some hdrop.symm
  · rename_i hnone
    have hall : ∀ c ∈ s, c ∈ chars := by simpa using hnone
    rw [List.drop_eq_nil_of_le hs, List.dropWhile_eq_nil_iff.mpr (by simpa using hall)]

/-- Where there is nothing to keep, `npos + 1` wraps to 0. -/
theorem erase_findLastNotOf {s : List α} (hs : s.length < npos) (chars : List α) :
    erase s (sizeAdd (findLastNotOf s chars) 1) npos = some (s.rdropWhile (· ∈ chars)) := by
  have hfront := List.rdropWhile_prefix (· ∈ chars) s
  have hlength := hfront.length_le
  rw [findLastNotOf]
  split
  · rename_i hsome
    have hpos : 0 < (s.rdropWhile (· ∈ chars)).length := by
      rw [List.length_pos_iff, ne_eq, List.rdropWhile_eq_nil_iff]
      simpa using hsome
    have hadd : sizeAdd ((s.rdropWhile (· ∈ chars)).length - 1) 1 =
        (s.rdropWhile (· ∈ chars)).length := by
      simp only [sizeAdd, npos] at hs ⊢
      omega
    rw [hadd, erase_back _ (by omega) hlength, ← List.prefix_iff_eq_take.mp hfront]
  · rename_i hnone
    have hall : ∀ c ∈ s, c ∈ chars := by simpa using hnone
    have hadd : sizeAdd npos 1 = 0 := by simp [sizeAdd, npos]
    rw [hadd, erase_back 0 (by omega) (by omega), List.take_zero]
    exact congrArg some (List.rdropWhile_eq_nil_iff.mpr (by simpa using hall)).symm

theorem strip_eq {s : List α} (hs : s.length < npos) (chars : List α) :
    strip chars s = some (trim chars s) := by
  have hle := (s.dropWhile_suffix (· ∈ chars)).length_le
  rw [strip, erase_findFirstNotOf (by omega), Option.bind_some, erase_findLastNotOf (by omega)]
  rfl

theorem length_trim_le (chars s : List α) : (trim chars s).length ≤ s.length := by
  have hback := (List.rdropWhile_prefix (· ∈ chars) (s.dropWhile (· ∈ chars))).length_le
  have hfront := (s.dropWhile_suffix (· ∈ chars)).length_le
  exact Nat.le_trans hback hfront

theorem find_of_notMem {s : List α} {c : α} (h : c ∉ s) : find s c = npos := by
  rw [find, if_neg h]

/-- The first `c` comes after the part without any. -/
theorem find_append {a : List α} {c : α} (ha : c ∉ a) (b : List α) :
    find (a ++ c :: b) c = a.length := by
  have hne : ∀ d ∈ a, d ≠ c := fun d hd h => ha (h ▸ hd)
  rw [find, if_pos (by simp), List.takeWhile_append_of_pos (by simpa using hne)]
  simp

end StringOps
