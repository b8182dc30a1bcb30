import Mathlib.Data.List.TakeWhile
import Mathlib.Data.Nat.Digits.Lemmas

/-!
# Decimal numerals in a byte string

A numeral is an optional sign and at least one digit. `scan` takes the longest numeral at the
front of a string, with what is left of the string after it, and `print` writes a number
without a plus sign and without leading zeros.
-/
namespace Decimal

def plus : UInt8 := 0x2B
def minus : UInt8 := 0x2D
def zeroDigit : UInt8 := 0x30
def nineDigit : UInt8 := 0x39

def isDigit (b : UInt8) : Bool := decide (zeroDigit ≤ b ∧ b ≤ nineDigit)

def digitValue (b : UInt8) : Nat := b.toNat - zeroDigit.toNat

def digitByte (d : Nat) : UInt8 := UInt8.ofNat (zeroDigit.toNat + d)

/-- The number that the digits denote, the most significant one first. -/
def natOf (ds : List UInt8) : Nat := Nat.ofDigits 10 (ds.map digitValue).reverse

def digitsOf (n : Nat) : List UInt8 :=
  if n = 0 then [zeroDigit] else ((Nat.digits 10 n).map digitByte).reverse

def print : Int → List UInt8
  | .ofNat n => digitsOf n
  | .negSucc n => minus :: digitsOf (n + 1)

/-- The sign at the front, if there is one. -/
def signOf : List UInt8 → List UInt8
  | [] => []
  | b :: _ => if b = plus ∨ b = minus then [b] else []

def signed (sign : List UInt8) (n : Nat) : Int := if sign = [minus] then -(n : Int) else n

/-- The number of the longest numeral at the front, and what comes after it. -/
def scan (s : List UInt8) : Option (Int × List UInt8) :=
  let body := s.drop (signOf s).length
  let ds := body.takeWhile isDigit
  if ds = [] then none else some (signed (signOf s) (natOf ds), body.dropWhile isDigit)

def IsSign (sign : List UInt8) : Prop := sign = [] ∨ sign = [plus] ∨ sign = [minus]

/-- The string is a numeral of the number. -/
def Denotes (s : List UInt8) (n : Int) : Prop :=
  ∃ sign ds, s = sign ++ ds ∧ IsSign sign ∧ ds ≠ [] ∧ (∀ b ∈ ds, isDigit b) ∧
    n = signed sign (natOf ds)

/-- The string does not go on with a digit. -/
def NoDigit (s : List UInt8) : Prop := ∀ b rest, s = b :: rest → isDigit b = false

theorem isDigit_iff {b : UInt8} : isDigit b = true ↔ 0x30 ≤ b.toNat ∧ b.toNat ≤ 0x39 := by
  simp [isDigit, zeroDigit, nineDigit, UInt8.le_iff_toNat_le]

theorem digitByte_spec : ∀ d < 10, isDigit (digitByte d) = true ∧ digitValue (digitByte d) = d := by
  decide

theorem isDigit_digitByte {d : Nat} (h : d < 10) : isDigit (digitByte d) = true :=
  (digitByte_spec d h).1

theorem digitValue_digitByte {d : Nat} (h : d < 10) : digitValue (digitByte d) = d :=
  (digitByte_spec d h).2

theorem digitsOf_zero : digitsOf 0 = [zeroDigit] := rfl

theorem digitsOf_pos {n : Nat} (h : n ≠ 0) :
    digitsOf n = ((Nat.digits 10 n).map digitByte).reverse := by
  rw [digitsOf, if_neg h]

theorem map_digitValue {ds : List Nat} (hds : ∀ d ∈ ds, d < 10) :
    (ds.map digitByte).map digitValue = ds := by
  induction ds with
  | nil => rfl
  | cons d ds ih =>
    have hd := digitValue_digitByte (hds d List.mem_cons_self)
    rw [List.map_cons, List.map_cons, hd, ih (fun e he => hds e (List.mem_cons_of_mem d he))]

theorem natOf_digitsOf (n : Nat) : natOf (digitsOf n) = n := by
  by_cases h : n = 0
  · subst h
    rfl
  · have hlt : ∀ d ∈ Nat.digits 10 n, d < 10 := fun d hd => Nat.digits_lt_base (by omega) hd
    rw [natOf, digitsOf_pos h, List.map_reverse, List.reverse_reverse, map_digitValue hlt,
      Nat.ofDigits_digits]

theorem digitsOf_ne_nil (n : Nat) : digitsOf n ≠ [] := by
  by_cases h : n = 0
  · subst h
    decide
  · rw [digitsOf_pos h]
    simpa [Nat.digits_ne_nil_iff_ne_zero] using h

theorem isDigit_of_mem_digitsOf {n : Nat} {b : UInt8} (hb : b ∈ digitsOf n) :
    isDigit b = true := by
  by_cases h : n = 0
  · subst h
    rw [digitsOf_zero, List.mem_singleton] at hb
    subst hb
    decide
  · rw [digitsOf_pos h, List.mem_reverse] at hb
    obtain ⟨d, hd, rfl⟩ := List.mem_map.mp hb
    exact isDigit_digitByte (Nat.digits_lt_base (by omega) hd)

/-- A number below a power of ten has no more digits than the power. -/
theorem length_digitsOf_le {n k : Nat} (hk : 0 < k) (hn : n < 10 ^ k) :
    (digitsOf n).length ≤ k := by
  by_cases h : n = 0
  · subst h
    exact hk
  · rw [digitsOf_pos h, List.length_reverse, List.length_map]
    exact (Nat.digits_length_le_iff (by omega) n).mpr hn

theorem denotes_print (n : Int) : Denotes (print n) n := by
  cases n with
  | ofNat n =>
    refine ⟨[], digitsOf n, rfl, .inl rfl, digitsOf_ne_nil n, ?_, ?_⟩
    · intro b hb
      exact isDigit_of_mem_digitsOf hb
    · rw [natOf_digitsOf]
      rfl
  | negSucc n =>
    refine ⟨[minus], digitsOf (n + 1), rfl, .inr (.inr rfl), digitsOf_ne_nil (n + 1), ?_, ?_⟩
    · intro b hb
      exact isDigit_of_mem_digitsOf hb
    · rw [natOf_digitsOf]
      rfl

theorem noDigit_nil : NoDigit [] := by
  intro b rest h
  cases h

/-- The digits at the front end where no digit follows. -/
theorem takeWhile_digits {ds rest : List UInt8} (hds : ∀ b ∈ ds, isDigit b) (hrest : NoDigit rest) :
    (ds ++ rest).takeWhile isDigit = ds ∧ (ds ++ rest).dropWhile isDigit = rest := by
  have hnone : rest.takeWhile isDigit = [] ∧ rest.dropWhile isDigit = rest := by
    cases rest with
    | nil => exact ⟨rfl, rfl⟩
    | cons b rest => simp [hrest b rest rfl]
  rw [List.takeWhile_append_of_pos hds, List.dropWhile_append_of_pos hds, hnone.1, hnone.2,
    List.append_nil]
  exact ⟨rfl, rfl⟩

theorem noDigit_dropWhile (s : List UInt8) : NoDigit (s.dropWhile isDigit) := by
  intro b rest h
  have hhead := List.head?_dropWhile_not isDigit s
  rw [h] at hhead
  simpa using hhead

theorem isDigit_ne_sign {b : UInt8} (h : isDigit b = true) : ¬ (b = plus ∨ b = minus) := by
  intro hb
  rcases hb with rfl | rfl
  · exact absurd h (by decide)
  · exact absurd h (by decide)

/-- In front of digits, the sign is what has been put there. -/
theorem signOf_append {sign ds : List UInt8} (rest : List UInt8)
    (hsign : IsSign sign) (hne : ds ≠ []) (hds : ∀ b ∈ ds, isDigit b) :
    signOf (sign ++ (ds ++ rest)) = sign := by
  rcases hsign with rfl | rfl | rfl
  · cases ds with
    | nil => exact absurd rfl hne
    | cons b ds =>
      have hb := isDigit_ne_sign (hds b List.mem_cons_self)
      simp [signOf, hb]
  · rfl
  · rfl

theorem isSign_signOf (s : List UInt8) : IsSign (signOf s) := by
  cases s with
  | nil => exact .inl rfl
  | cons b s =>
    by_cases hplus : b = plus
    · simp [IsSign, signOf, hplus]
    · by_cases hminus : b = minus
      · simp [IsSign, signOf, hminus]
      · simp [IsSign, signOf, hplus, hminus]

theorem signOf_drop (s : List UInt8) : signOf s ++ s.drop (signOf s).length = s := by
  cases s with
  | nil => rfl
  | cons b s =>
    by_cases h : b = plus ∨ b = minus
    · simp [signOf, h]
    · simp [signOf, h]

/-- `scan` takes a numeral exactly where one is at the front and no further digit follows it. -/
theorem scan_eq_some_iff {s rest : List UInt8} {n : Int} :
    scan s = some (n, rest) ↔
      ∃ numeral, s = numeral ++ rest ∧ Denotes numeral n ∧ NoDigit rest := by
  constructor
  · intro h
    simp only [scan, Option.ite_none_left_eq_some, Option.some.injEq, Prod.mk.injEq] at h
    obtain ⟨hne, rfl, rfl⟩ := h
    have hbody := List.takeWhile_append_dropWhile (p := isDigit) (l := s.drop (signOf s).length)
    refine ⟨signOf s ++ (s.drop (signOf s).length).takeWhile isDigit, ?_,
      ⟨_, _, rfl, isSign_signOf s, hne, ?_, rfl⟩, noDigit_dropWhile _⟩
    · rw [List.append_assoc, hbody, signOf_drop]
    · intro b hb
      exact List.mem_takeWhile_imp hb
  · rintro ⟨numeral, rfl, ⟨sign, ds, rfl, hsign, hne, hds, rfl⟩, hrest⟩
    obtain ⟨htake, hdrop⟩ := takeWhile_digits hds hrest
    simp only [scan, List.append_assoc, signOf_append rest hsign hne hds, List.drop_left, htake,
      hdrop, if_neg hne]

/-- A whole numeral is scanned to its end. -/
theorem scan_denotes {s : List UInt8} {n : Int} : scan s = some (n, []) ↔ Denotes s n := by
  rw [scan_eq_some_iff]
  constructor
  · rintro ⟨numeral, rfl, h, _⟩
    rwa [List.append_nil]
  · intro h
    exact ⟨s, (List.append_nil s).symm, h, noDigit_nil⟩

/-- A numeral begins with its sign or with a digit. -/
theorem denotes_head {s : List UInt8} {n : Int} (h : Denotes s n) :
    ∃ b rest, s = b :: rest ∧ (b = plus ∨ b = minus ∨ isDigit b = true) := by
  obtain ⟨sign, ds, rfl, hsign, hne, hds, _⟩ := h
  rcases hsign with rfl | rfl | rfl
  · obtain ⟨b, ds, rfl⟩ := List.exists_cons_of_ne_nil hne
    exact ⟨b, ds, rfl, .inr (.inr (hds b List.mem_cons_self))⟩
  · exact ⟨plus, ds, rfl, .inl rfl⟩
  · exact ⟨minus, ds, rfl, .inr (.inl rfl)⟩

end Decimal
