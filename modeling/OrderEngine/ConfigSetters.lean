import OrderEngine.ConfigGetters

/-!
# Config: the setters

A setter stores the text of its value. The getter of the same type reads the value back from
the text, and no getter of another key sees the write.
-/
namespace ConfigSetters

open ConfigParse ConfigReload ConfigGetters

inductive Setting where
  | setString (key value : Bytes)
  | setInt (key : Bytes) (value : CInt)
  | setBool (key : Bytes) (value : Bool)

def Setting.key : Setting → Bytes
  | .setString key _ => key
  | .setInt key _ => key
  | .setBool key _ => key

def perform (c : Config) : Setting → Config
  | .setString key value => setString c key value
  | .setInt key value => setInt c key value
  | .setBool key value => setBool c key value

/-- The text that the setter stores. -/
def Setting.text : Setting → Bytes
  | .setString _ value => value
  | .setInt _ value => Decimal.print value
  | .setBool _ value => boolText value

/-- The setting is the last one of its key. -/
def LastSet (settings : List Setting) (s : Setting) : Prop :=
  LastWins.LastAt (fun _ t => t = s) (fun _ t => t.key = s.key) settings

theorem perform_eq (c : Config) (s : Setting) : perform c s = c.setValue s.key s.text := by
  cases s with
  | setString key value => rfl
  | setInt key value => rfl
  | setBool key value => rfl

/-- The text of the last setting of the key is what the map holds. -/
theorem lastSet_stored {settings : List Setting} {s : Setting} (h : LastSet settings s)
    (c : Config) : (settings.foldl perform c).configs s.key = some s.text := by
  induction settings using List.reverseRecOn with
  | nil => exact absurd h (LastWins.lastAt_nil _ _)
  | append_singleton settings t ih =>
    rw [List.foldl_concat, perform_eq]
    rcases LastWins.lastAt_concat.mp h with rfl | ⟨hkey, hlast⟩
    · exact setValue_configs _ _ _
    · have hne : s.key ≠ t.key := fun heq => hkey heq.symm
      rw [setValue_configs_of_ne hne]
      exact ih hlast

/-- A key that is not set keeps what it had. -/
theorem unset_stored {settings : List Setting} {key : Bytes} (h : ∀ s ∈ settings, s.key ≠ key)
    (c : Config) : (settings.foldl perform c).configs key = c.configs key := by
  induction settings generalizing c with
  | nil => rfl
  | cons s settings ih =>
    have hne : key ≠ s.key := fun heq => h s List.mem_cons_self heq.symm
    rw [List.foldl_cons, ih (fun t ht => h t (List.mem_cons_of_mem s ht)), perform_eq,
      setValue_configs_of_ne hne]

theorem isspace_iff {b : UInt8} :
    isspace b = true ↔ b.toNat = 0x20 ∨ 0x09 ≤ b.toNat ∧ b.toNat ≤ 0x0D := by
  simp [isspace, space, tab, carriageReturn, UInt8.le_iff_toNat_le, ← UInt8.toNat_inj]

theorem isspace_of_numeral {b : UInt8}
    (h : b = Decimal.plus ∨ b = Decimal.minus ∨ Decimal.isDigit b = true) : isspace b = false := by
  rw [← Bool.not_eq_true, isspace_iff]
  rcases h with rfl | rfl | h
  · decide
  · decide
  · rw [Decimal.isDigit_iff] at h
    omega

/-- A numeral stands at the front of its text. -/
theorem isInt_of_denotes {value : Bytes} {n : CInt} (h : Decimal.Denotes value n) :
    IsInt value n := by
  obtain ⟨b, rest, rfl, hb⟩ := Decimal.denotes_head h
  rw [IsInt, List.dropWhile_cons_of_neg (by simp [isspace_of_numeral hb])]
  exact h

theorem stoi_print (n : CInt) : stoi (Decimal.print n) = some n :=
  isInt_stoi (isInt_of_denotes (Decimal.denotes_print n))

theorem boolOf_boolText (b : Bool) : boolOf (boolText b) = some b := by
  cases b with
  | false => decide
  | true => decide

/-- Whatever has been set before and between, `getInt` and `getBool` answer the last value that
was set with their type, and a key that is not set answers as before. -/
theorem set_then_get {Double : Type*} (stod : Bytes → Option Double) (c : Config)
    (settings : List Setting) (key : Bytes) :
    (∀ n, LastSet settings (.setInt key n) →
        ∀ d, getInt (settings.foldl perform c) key d = n) ∧
      (∀ b, LastSet settings (.setBool key b) →
        ∀ d, getBool (settings.foldl perform c) key d = b) ∧
      ((∀ s ∈ settings, s.key ≠ key) →
        hasKey (settings.foldl perform c) key = hasKey c key ∧
        (∀ d, getString (settings.foldl perform c) key d = getString c key d) ∧
        (∀ d, getInt (settings.foldl perform c) key d = getInt c key d) ∧
        (∀ d, getDouble stod (settings.foldl perform c) key d = getDouble stod c key d) ∧
        ∀ d, getBool (settings.foldl perform c) key d = getBool c key d) := by
  constructor
  · intro n hlast d
    have hstored : (settings.foldl perform c).configs key = some (Decimal.print n) :=
      lastSet_stored hlast c
    rw [getInt_stored hstored, stoi_print, Option.getD_some]
  constructor
  · intro b hlast d
    have hstored : (settings.foldl perform c).configs key = some (boolText b) :=
      lastSet_stored hlast c
    rw [getBool_stored hstored, boolOf_boolText, Option.getD_some]
  · intro hunset
    have hsame := unset_stored hunset c
    constructor
    · rw [hasKey, hasKey, hsame]
    constructor
    · intro d
      exact getConverted_congr hsame d
    constructor
    · intro d
      exact getConverted_congr hsame d
    constructor
    · intro d
      exact getConverted_congr hsame d
    · intro d
      exact getConverted_congr hsame d

end ConfigSetters
