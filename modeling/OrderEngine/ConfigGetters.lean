import OrderEngine.Library.Decimal
import OrderEngine.Library.Flow
import OrderEngine.ConfigReload

/-!
# Config: the getters

Every getter looks the text of its key up, with the empty text for a key that is not there,
and answers the caller's default for an empty text and for one that it cannot convert.
-/
namespace ConfigGetters

open ConfigParse ConfigReload

/-- An `int`. -/
abbrev CInt := { n : Int // -2 ^ 31 ≤ n ∧ n < 2 ^ 31 }

/-- The number as an `int`; `none` where it is out of range. -/
def toInt (n : Int) : Option CInt := if h : -2 ^ 31 ≤ n ∧ n < 2 ^ 31 then some ⟨n, h⟩ else none

/-- `isspace` in the "C" locale. -/
def isspace (b : UInt8) : Bool := decide (b = space ∨ (tab ≤ b ∧ b ≤ carriageReturn))

/-- `std::stoi`; `none` where it throws. -/
def stoi (s : Bytes) : Option CInt :=
  match Decimal.scan (s.dropWhile isspace) with
  | none => none
  | some (n, _) => toInt n

/-- `::tolower` in the "C" locale. -/
def tolower (b : UInt8) : UInt8 := if 0x41 ≤ b ∧ b ≤ 0x5A then b + 0x20 else b

/-- "true", "1", "yes" and "on". -/
def trueWords : List Bytes :=
  [[0x74, 0x72, 0x75, 0x65], [0x31], [0x79, 0x65, 0x73], [0x6F, 0x6E]]

/-- "false", "0", "no" and "off". -/
def falseWords : List Bytes :=
  [[0x66, 0x61, 0x6C, 0x73, 0x65], [0x30], [0x6E, 0x6F], [0x6F, 0x66, 0x66]]

/-- The comparisons of `Config::getBool`; `none` where it warns. -/
def boolOf (value : Bytes) : Option Bool :=
  let value := value.map tolower
  if value ∈ trueWords then some true
  else if value ∈ falseWords then some false
  else none

def hasKey (c : Config) (key : Bytes) : Bool := (c.configs key).isSome

def getAllConfigs (c : Config) : Configs := c.configs

def getValue (c : Config) (key : Bytes) : Bytes := (c.configs key).getD []

/-- What the four getters do with the text of the key. -/
def getConverted {α : Type*} (convert : Bytes → Option α) (c : Config) (key : Bytes)
    (default_value : α) : α :=
  let value := getValue c key
  if value = [] then default_value else (convert value).getD default_value

def getString (c : Config) (key default_value : Bytes) : Bytes :=
  getConverted some c key default_value

def getInt (c : Config) (key : Bytes) (default_value : CInt) : CInt :=
  getConverted stoi c key default_value

/-- `Config::getDouble`, with the `std::stod` of the library. -/
def getDouble {Double : Type*} (stod : Bytes → Option Double) (c : Config) (key : Bytes)
    (default_value : Double) : Double :=
  getConverted stod c key default_value

def getBool (c : Config) (key : Bytes) (default_value : Bool) : Bool :=
  getConverted boolOf c key default_value

def setString (c : Config) (key value : Bytes) : Config := c.setValue key value

/-- `Config::setInt`, with `std::to_string`. -/
def setInt (c : Config) (key : Bytes) (value : CInt) : Config :=
  c.setValue key (Decimal.print value)

/-- "true" or "false". -/
def boolText (value : Bool) : Bytes :=
  if value then [0x74, 0x72, 0x75, 0x65] else [0x66, 0x61, 0x6C, 0x73, 0x65]

def setBool (c : Config) (key : Bytes) (value : Bool) : Config := c.setValue key (boolText value)

/-- What a call writes into the map: the value of one key, or the settings of a file. -/
inductive Write where
  | set (key value : Bytes)
  | replace (content : Bytes)

def Write.apply (configs : Configs) : Write → Configs
  | .set key value => Function.update configs key (some value)
  | .replace content => parsed content

/-- The write leaves the value at the key. -/
def Write.Gives (key value : Bytes) : Write → Prop
  | .set k v => k = key ∧ v = value
  | .replace content => Holds (lines content) key value

/-- Nothing that was at the key before is there after the write. -/
def Write.Covers (key : Bytes) : Write → Prop
  | .set k _ => k = key
  | .replace _ => True

/-- A `std::string` that a load can read is what a write parses. -/
def Write.Fits : Write → Prop
  | .set _ _ => True
  | .replace content => content.length < StringOps.npos

/-- A file that opens is parsed up to where its reading ends. -/
def fileWrites (file : Reading) : List Write := (file.buffer.map Write.replace).toList

def writes (s : State) : Action → List Write
  | .setValue key value => [.set key value]
  | .load _ file => fileWrites file
  | .reload file => if s.config.configFile = [] then [] else fileWrites file

/-- The last of the writes that cover the key gives it the value. -/
def LastWrite (ws : List Write) (key value : Bytes) : Prop :=
  LastWins.LastAt (fun _ w => w.Gives key value) (fun _ w => w.Covers key) ws

theorem length_buffer_lt {file : Reading} {content : Bytes} (h : file.buffer = some content) :
    content.length < StringOps.npos := by
  cases file with
  | openFails => cases h
  | stops text count =>
    cases h
    exact Nat.lt_of_le_of_lt (List.length_take_le' _ _) text.2
  | whole text =>
    cases h
    exact text.2

/-- One write decides the value of its key, and leaves the keys that it does not cover. -/
theorem apply_iff {w : Write} (hw : w.Fits) (configs : Configs) {key value : Bytes} :
    w.apply configs key = some value ↔
      w.Gives key value ∨ ¬ w.Covers key ∧ configs key = some value := by
  cases w with
  | set k v =>
    by_cases h : key = k
    · subst h
      simp [Write.apply, Write.Gives, Write.Covers]
    · have hne : ¬ k = key := fun h' => h h'.symm
      simp [Write.apply, Write.Gives, Write.Covers, h, hne]
  | replace content =>
    rw [Write.apply, parsed_iff hw]
    simp [Write.Gives, Write.Covers]

theorem lastWrite_concat {ws : List Write} {w : Write} {key value : Bytes} :
    LastWrite (ws ++ [w]) key value ↔
      w.Gives key value ∨ ¬ w.Covers key ∧ LastWrite ws key value := LastWins.lastAt_concat

/-- After some writes, a key has what the last one that covers it gives, or what it had. -/
theorem foldl_apply_iff {ws : List Write} (hws : ∀ w ∈ ws, w.Fits) (configs : Configs)
    {key value : Bytes} :
    ws.foldl Write.apply configs key = some value ↔
      LastWrite ws key value ∨ (∀ w ∈ ws, ¬ w.Covers key) ∧ configs key = some value := by
  induction ws using List.reverseRecOn with
  | nil => simp [LastWrite, LastWins.lastAt_nil]
  | append_singleton ws w ih =>
    have hbefore := ih (fun v hv => hws v (List.mem_append_left _ hv))
    have hw : w.Fits := hws w (by simp)
    have hall : (∀ v ∈ ws ++ [w], ¬ v.Covers key) ↔
        ¬ w.Covers key ∧ ∀ v ∈ ws, ¬ v.Covers key := by
      simp [or_imp, forall_and, and_comm]
    rw [List.foldl_concat, apply_iff hw, hbefore, lastWrite_concat, hall, or_assoc, and_assoc,
      ← and_or_left]

theorem fileWrites_fit (file : Reading) : ∀ w ∈ fileWrites file, w.Fits := by
  intro w hw
  simp only [fileWrites, Option.mem_toList, Option.map_eq_some_iff] at hw
  obtain ⟨content, hbuffer, rfl⟩ := hw
  exact length_buffer_lt hbuffer

theorem writes_fit (s : State) (a : Action) : ∀ w ∈ writes s a, w.Fits := by
  cases a with
  | setValue key value => simp [writes, Write.Fits]
  | load path file => exact fileWrites_fit file
  | reload file =>
    by_cases hpath : s.config.configFile = []
    · simp [writes, hpath]
    · rw [writes, if_neg hpath]
      exact fileWrites_fit file

theorem load_configs {c config : Config} {path : Bytes} {file : Reading} {result : Bool}
    (h : c.load path file = some (result, config)) :
    config.configs = (fileWrites file).foldl Write.apply c.configs := by
  cases hbuffer : file.buffer with
  | none =>
    simp only [Config.load, hbuffer, Option.some.injEq, Prod.mk.injEq] at h
    rw [fileWrites, hbuffer, ← h.2]
    rfl
  | some content =>
    rw [load_reads c path hbuffer (length_buffer_lt hbuffer)] at h
    cases h
    rw [fileWrites, hbuffer]
    rfl

/-- A call leaves in the map what its writes make of it. -/
theorem step_configs {s t : State} {a : Action} (h : step s a = some t) :
    t.config.configs = (writes s a).foldl Write.apply s.config.configs := by
  cases hreturned : returned s a with
  | none => simp [step, hreturned] at h
  | some out =>
    have hconfig : t.config = out.2 := by
      cases hloads : loads s a with
      | none =>
        simp only [step, hreturned, hloads, Option.some.injEq] at h
        rw [← h]
      | some load =>
        simp only [step, hreturned, hloads, Runs.guarded_eq_some] at h
        rw [← h.2]
    rw [hconfig]
    cases a with
    | setValue key value =>
      cases hreturned
      rfl
    | load path file => exact load_configs hreturned
    | reload file =>
      simp only [returned, Config.reload] at hreturned
      by_cases hpath : s.config.configFile = []
      · rw [if_pos hpath] at hreturned
        cases hreturned
        rw [writes, if_pos hpath]
        rfl
      · rw [if_neg hpath] at hreturned
        rw [writes, if_neg hpath]
        exact load_configs hreturned

/-- The map holds, for each key, what the last write that covers the key has given it. -/
theorem stored_iff {acts : List Action} {s : State} (hrun : Runs.exec step start acts = some s)
    {key value : Bytes} :
    s.config.configs key = some value ↔
      LastWrite (Flow.emitted step writes start acts) key value := by
  have hconfigs := Flow.foldl_emitted (fun s : State => s.config.configs) Write.apply
    (fun _ _ _ h => step_configs h) hrun
  rw [hconfigs, foldl_apply_iff (Flow.emitted_forall writes_fit)]
  simp [start, Config.create]

@[simp] theorem setValue_configs (c : Config) (key value : Bytes) :
    (c.setValue key value).configs key = some value := by
  simp [Config.setValue]

theorem setValue_configs_of_ne {c : Config} {key other value : Bytes} (h : key ≠ other) :
    (c.setValue other value).configs key = c.configs key := by
  simp [Config.setValue, h]

theorem hasKey_iff {c : Config} {key : Bytes} :
    hasKey c key = true ↔ ∃ value, getAllConfigs c key = some value :=
  Option.isSome_iff_exists

theorem getValue_stored {c : Config} {key value : Bytes} (h : c.configs key = some value) :
    getValue c key = value := by
  rw [getValue, h, Option.getD_some]

section Conversions

variable {α : Type*} {convert : Bytes → Option α} {c : Config} {key : Bytes}

theorem getConverted_blank (h : getValue c key = []) (default_value : α) :
    getConverted convert c key default_value = default_value := by
  simp [getConverted, h]

theorem getConverted_text {value : Bytes} (h : c.configs key = some value) (hne : value ≠ [])
    (default_value : α) :
    getConverted convert c key default_value = (convert value).getD default_value := by
  simp [getConverted, getValue_stored h, hne]

/-- Where a blank text cannot be converted, it is no exception. -/
theorem getConverted_stored {value : Bytes} (hnil : convert [] = none)
    (h : c.configs key = some value) (default_value : α) :
    getConverted convert c key default_value = (convert value).getD default_value := by
  by_cases hblank : value = []
  · subst hblank
    rw [getConverted_blank (getValue_stored h), hnil, Option.getD_none]
  · exact getConverted_text h hblank default_value

/-- A getter sees the map at its key alone. -/
theorem getConverted_congr {d : Config} (h : c.configs key = d.configs key) (default_value : α) :
    getConverted convert c key default_value = getConverted convert d key default_value := by
  rw [getConverted, getConverted, getValue, getValue, h]

end Conversions

/-- `getString` answers the value that the latest write of the key has left, whatever the
default, unless there is none or it is blank; then it answers the default. -/
theorem getString_latest {acts : List Action} {s : State}
    (hrun : Runs.exec step start acts = some s) (key default_value : Bytes) :
    (∀ value, getAllConfigs s.config key = some value ↔
        LastWrite (Flow.emitted step writes start acts) key value) ∧
      (∀ value, getAllConfigs s.config key = some value → value ≠ [] →
        hasKey s.config key = true ∧ getString s.config key default_value = value) ∧
      (hasKey s.config key = false ∨ getAllConfigs s.config key = some [] →
        getString s.config key default_value = default_value) ∧
      ∀ value, value ≠ [] →
        getString (setString s.config key value) key default_value = value := by
  constructor
  · intro value
    exact stored_iff hrun
  constructor
  · intro value hstored hne
    exact ⟨hasKey_iff.mpr ⟨value, hstored⟩, getConverted_text hstored hne default_value⟩
  constructor
  · intro h
    apply getConverted_blank
    rcases h with hmissing | hblank
    · rw [hasKey, Option.isSome_eq_false_iff, Option.isNone_iff_eq_none] at hmissing
      rw [getValue, hmissing, Option.getD_none]
    · exact getValue_stored hblank
  · intro value hne
    exact getConverted_text (setValue_configs _ key value) hne default_value

/-- A file with the line `p =`. -/
def blankSetting : Text := ⟨[0x70, space, equals], by decide⟩

def blankLoaded : State where
  config := { configs := parsed blankSetting, configFile := [0x61] }
  latest := some [0x61]

theorem load_blankSetting :
    Runs.exec step start [.load [0x61] (.whole blankSetting)] = some blankLoaded := by
  have hload := @load_reads start.config [0x61] (.whole blankSetting) _ rfl blankSetting.2
  simp only [Runs.exec, step, returned, hload, loads]
  rfl

theorem getString_latest_blank :
    getString blankLoaded.config [0x70] [0x78] = [0x78] ∧
      getString (setString blankLoaded.config [0x70] [0x71]) [0x70] [0x78] = [0x71] := by
  have h := getString_latest load_blankSetting [0x70] [0x78]
  constructor
  · exact h.2.2.1 (.inr (by decide))
  · exact h.2.2.2 [0x71] (by decide)

/-- A blank setting is there, and is read back as whatever default the caller gives. -/
theorem blank_not_read_back :
    (∃ s, Runs.exec step start [.load [0x61] (.whole blankSetting)] = some s ∧
      hasKey s.config [0x70] = true ∧ getAllConfigs s.config [0x70] = some [] ∧
      getString s.config [0x70] [0x78] ≠ []) ∧
    getString (setString start.config [0x70] []) [0x70] [0x78] ≠ [] := by
  constructor
  · exact ⟨blankLoaded, load_blankSetting, by decide, by decide, by decide⟩
  · decide

/-- The value, apart from leading white space, is a numeral of the `int`. -/
def IsInt (value : Bytes) (n : CInt) : Prop := Decimal.Denotes (value.dropWhile isspace) n

/-- The value, apart from leading white space, is a numeral of an `int` followed by more text,
which does not go on with a digit. -/
def HasTail (value : Bytes) : Prop :=
  ∃ numeral rest, ∃ n : CInt, value.dropWhile isspace = numeral ++ rest ∧
    Decimal.Denotes numeral n ∧ Decimal.NoDigit rest ∧ rest ≠ []

/-- The value is recognised in full or not at all. -/
structure WholeReading (c : Config) (key value : Bytes) : Prop where
  numeral : ∀ n, IsInt value n → ∀ default_value, getInt c key default_value = n
  other : (∀ n, ¬ IsInt value n) → ∀ default_value, getInt c key default_value = default_value
  bool : value.map tolower ∉ trueWords ++ falseWords →
    ∀ default_value, getBool c key default_value = default_value

theorem toInt_eq_some_iff {m : Int} {n : CInt} : toInt m = some n ↔ m = n := by
  rw [toInt]
  split
  · rw [Option.some.injEq, Subtype.ext_iff]
  · rename_i hrange
    constructor
    · intro h
      cases h
    · intro h
      exact absurd (h ▸ n.2) hrange

theorem stoi_eq_some_iff {s : Bytes} {n : CInt} :
    stoi s = some n ↔ ∃ numeral rest, s.dropWhile isspace = numeral ++ rest ∧
      Decimal.Denotes numeral n ∧ Decimal.NoDigit rest := by
  have hscan : stoi s = some n ↔ ∃ rest, Decimal.scan (s.dropWhile isspace) = some (n.1, rest) := by
    rw [stoi]
    cases Decimal.scan (s.dropWhile isspace) with
    | none => simp
    | some out => simp [toInt_eq_some_iff, Prod.ext_iff]
  rw [hscan]
  simp only [Decimal.scan_eq_some_iff]
  exact exists_comm

theorem isInt_stoi {s : Bytes} {n : CInt} (h : IsInt s n) : stoi s = some n := by
  rw [stoi_eq_some_iff]
  exact ⟨_, [], (List.append_nil _).symm, h, Decimal.noDigit_nil⟩

/-- What `stoi` reads is the whole numeral, or one with a tail. -/
theorem isInt_or_hasTail {s : Bytes} {n : CInt} (h : stoi s = some n) : IsInt s n ∨ HasTail s := by
  obtain ⟨numeral, rest, hs, hnumeral, hrest⟩ := stoi_eq_some_iff.mp h
  by_cases hnil : rest = []
  · subst hnil
    rw [List.append_nil] at hs
    rw [← hs] at hnumeral
    exact .inl hnumeral
  · exact .inr ⟨numeral, rest, n, hs, hnumeral, hrest, hnil⟩

/-- A tail is what the scan of the text leaves over. -/
theorem hasTail_iff {s : Bytes} :
    HasTail s ↔ ∃ rest, ∃ n : CInt,
      Decimal.scan (s.dropWhile isspace) = some (n.1, rest) ∧ rest ≠ [] := by
  simp only [Decimal.scan_eq_some_iff]
  constructor
  · intro h
    obtain ⟨numeral, rest, n, hs, hnumeral, hrest, hne⟩ := h
    exact ⟨rest, n, ⟨numeral, hs, hnumeral, hrest⟩, hne⟩
  · intro h
    obtain ⟨rest, n, ⟨numeral, hs, hnumeral, hrest⟩, hne⟩ := h
    exact ⟨numeral, rest, n, hs, hnumeral, hrest, hne⟩

theorem not_isInt_of_hasTail {s : Bytes} (h : HasTail s) :
    ∃ n, stoi s = some n ∧ ∀ m, ¬ IsInt s m := by
  obtain ⟨rest, n, hscan, hne⟩ := hasTail_iff.mp h
  refine ⟨n, ?_, ?_⟩
  · rw [stoi, hscan]
    exact toInt_eq_some_iff.mpr rfl
  · intro m hm
    have hwhole := Decimal.scan_denotes.mpr hm
    rw [hwhole] at hscan
    simp only [Option.some.injEq, Prod.mk.injEq] at hscan
    exact hne hscan.2.symm

theorem getInt_stored {c : Config} {key value : Bytes} (h : c.configs key = some value)
    (default_value : CInt) : getInt c key default_value = (stoi value).getD default_value :=
  getConverted_stored rfl h default_value

theorem getBool_stored {c : Config} {key value : Bytes} (h : c.configs key = some value)
    (default_value : Bool) : getBool c key default_value = (boolOf value).getD default_value :=
  getConverted_stored rfl h default_value

theorem boolOf_unknown {value : Bytes} (h : value.map tolower ∉ trueWords ++ falseWords) :
    boolOf value = none := by
  rw [List.mem_append, not_or] at h
  simp [boolOf, h.1, h.2]

theorem exists_ne (n : CInt) : ∃ m : CInt, n ≠ m := by
  by_cases h : n = ⟨0, by decide⟩
  · exact ⟨⟨1, by decide⟩, by rw [h]; decide⟩
  · exact ⟨_, h⟩

/-- `getInt` answers the number of a whole numeral and the default for any other text exactly
where the text is not a numeral with something after it: `stoi` does not say how far it read. -/
theorem getInt_whole_iff {c : Config} {key value : Bytes}
    (h : getAllConfigs c key = some value) : WholeReading c key value ↔ ¬ HasTail value := by
  constructor
  · intro hwhole htail
    obtain ⟨n, hn, hnone⟩ := not_isInt_of_hasTail htail
    obtain ⟨m, hm⟩ := exists_ne n
    have hdefault := hwhole.other hnone m
    rw [getInt_stored h, hn, Option.getD_some] at hdefault
    exact hm hdefault
  · intro htail
    constructor
    · intro n hn default_value
      rw [getInt_stored h, isInt_stoi hn, Option.getD_some]
    · intro hnone default_value
      cases hstoi : stoi value with
      | none => rw [getInt_stored h, hstoi, Option.getD_none]
      | some n =>
        rcases isInt_or_hasTail hstoi with hint | hmore
        · exact absurd hint (hnone n)
        · exact absurd hmore htail
    · intro hword default_value
      rw [getBool_stored h, boolOf_unknown hword, Option.getD_none]

/-- ` -7` -/
def paddedNumber : Bytes := [space, 0x2D, 0x37]

theorem getInt_whole_number :
    ¬ HasTail paddedNumber ∧
      WholeReading (setString .create [0x6E] paddedNumber) [0x6E] paddedNumber := by
  have htail : ¬ HasTail paddedNumber := by
    intro h
    obtain ⟨rest, n, hscan, hne⟩ := hasTail_iff.mp h
    have hall : Decimal.scan (paddedNumber.dropWhile isspace) = some (-7, []) := by decide
    rw [hall] at hscan
    simp only [Option.some.injEq, Prod.mk.injEq] at hscan
    exact hne hscan.2.symm
  exact ⟨htail, (getInt_whole_iff (setValue_configs _ _ _)).mpr htail⟩

/-- `100MB` -/
def hundredMB : Bytes := [0x31, 0x30, 0x30, 0x4D, 0x42]

/-- A file with the line `m=100MB`. -/
def sizeSetting : Text := ⟨[0x6D, equals, 0x31, 0x30, 0x30, 0x4D, 0x42], by decide⟩

/-- The text `100MB` is no numeral, and is read as 100. -/
theorem unit_suffix_dropped :
    ∃ c, Config.create.load [0x61] (.whole sizeSetting) = some (true, c) ∧
      getAllConfigs c [0x6D] = some hundredMB ∧
      getInt c [0x6D] ⟨10, by decide⟩ = ⟨100, by decide⟩ ∧
      ¬ WholeReading c [0x6D] hundredMB := by
  have hload := @load_reads .create [0x61] (.whole sizeSetting) _ rfl sizeSetting.2
  have hstored : parsed sizeSetting [0x6D] = some hundredMB := by decide
  refine ⟨_, hload, hstored, ?_, ?_⟩
  · rw [getInt_stored hstored]
    decide
  · intro hwhole
    have hscan : Decimal.scan (hundredMB.dropWhile isspace) = some (100, [0x4D, 0x42]) := by decide
    have htail : HasTail hundredMB := hasTail_iff.mpr ⟨_, ⟨100, by decide⟩, hscan, by decide⟩
    obtain ⟨n, hn, hnone⟩ := not_isInt_of_hasTail htail
    have hdefault := hwhole.other hnone ⟨10, by decide⟩
    rw [getInt_stored hstored] at hdefault
    revert hdefault
    decide

end ConfigGetters
