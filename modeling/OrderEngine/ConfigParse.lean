import OrderEngine.Library.StringOps
import OrderEngine.Library.LastWins
import Mathlib.Logic.Function.Basic

/-!
# Config: the parser of the INI format

`parseINI` clears the map and reads the content line by line, with the section of the
latest header as the state that it carries from line to line.
-/
namespace ConfigParse

open StringOps

abbrev Bytes := List UInt8

/-- A `std::string`, whose size never comes up to `npos`. -/
abbrev Text := { bytes : Bytes // bytes.length < npos }

def tab : UInt8 := 0x09
def lineFeed : UInt8 := 0x0A
def carriageReturn : UInt8 := 0x0D
def space : UInt8 := 0x20
def hash : UInt8 := 0x23
def dot : UInt8 := 0x2E
def semicolon : UInt8 := 0x3B
def equals : UInt8 := 0x3D
def openBracket : UInt8 := 0x5B
def closeBracket : UInt8 := 0x5D

/-- `" \t\r\n"`. -/
def lineBlanks : Bytes := [space, tab, carriageReturn, lineFeed]

/-- `" \t"`. -/
def keyBlanks : Bytes := [space, tab]

/-- The lines that `std::getline` extracts one after the other. -/
def lines : Bytes → List Bytes
  | [] => []
  | b :: rest =>
    if b = lineFeed then [] :: lines rest
    else
      match lines rest with
      | [] => [[b]]
      | line :: later => (b :: line) :: later

/-- `configs_`. -/
abbrev Configs := Bytes → Option Bytes

def Configs.clear (_ : Configs) : Configs := fun _ => none

/-- `section.empty() ? key : section + "." + key`. -/
def fullKey (sectionName key : Bytes) : Bytes :=
  if sectionName = [] then key else sectionName ++ dot :: key

/-- What the loop over the lines carries along: `configs_` and `section`. -/
structure Parse where
  configs : Configs
  sectionName : Bytes

/-- The body of the loop; `none` where a string operation is out of range. -/
def parseLine (p : Parse) (line : Bytes) : Option Parse := do
  let line ← strip lineBlanks line
  match line with
  | [] => some p
  | first :: rest =>
    if first = hash ∨ first = semicolon then some p
    else if first = openBracket ∧ (first :: rest).getLast? = some closeBracket then
      let sectionName ← substr line 1 (sizeSub line.length 2)
      some { p with sectionName := sectionName }
    else
      let pos := find line equals
      if pos ≠ npos then
        let key ← substr line 0 pos
        let value ← substr line (sizeAdd pos 1) npos
        let key ← strip keyBlanks key
        let value ← strip keyBlanks value
        some { p with
          configs := Function.update p.configs (fullKey p.sectionName key) (some value) }
      else some p

/-- `Config::parseINI`: the value returned and `configs_` afterwards. -/
def parseINI (configs : Configs) (content : Bytes) : Option (Bool × Configs) := do
  let p ← (lines content).foldlM parseLine { configs := configs.clear, sectionName := [] }
  some (true, p.configs)

/-- Where a content is cut off, the lines before the last that has been begun are whole. -/
theorem isPrefix_dropLast_lines (content : Bytes) (count : Nat) :
    List.IsPrefix (lines (content.take count)).dropLast (lines content) := by
  induction content generalizing count with
  | nil => simp [lines]
  | cons b rest ih =>
    cases count with
    | zero => simp [lines]
    | succ n =>
      obtain ⟨after, hafter⟩ := ih n
      rw [List.take_succ_cons]
      by_cases hb : b = lineFeed
      · simp only [lines, if_pos hb]
        rw [← hafter]
        cases lines (rest.take n) with
        | nil => exact List.nil_prefix
        | cons line later => exact ⟨after, rfl⟩
      · simp only [lines, if_neg hb]
        rw [← hafter]
        cases lines (rest.take n) with
        | nil => exact List.nil_prefix
        | cons line later =>
          cases later with
          | nil => exact List.nil_prefix
          | cons next later => exact ⟨after, rfl⟩

/-- No line is longer than the content. -/
theorem length_le_of_mem_lines {content line : Bytes} (h : line ∈ lines content) :
    line.length ≤ content.length := by
  induction content generalizing line with
  | nil => simp [lines] at h
  | cons b rest ih =>
    simp only [lines] at h
    split at h
    · rcases List.mem_cons.mp h with rfl | h
      · simp
      · exact Nat.le_succ_of_le (ih h)
    · split at h
      · simp only [List.mem_singleton] at h
        simp [h]
      · rename_i first later hlines
        rcases List.mem_cons.mp h with rfl | h
        · have hfirst := ih (hlines ▸ List.mem_cons_self)
          simpa using hfirst
        · exact Nat.le_succ_of_le (ih (hlines ▸ List.mem_cons_of_mem _ h))

/-- The line, trimmed, is a section header. -/
def IsHeader (line sectionName : Bytes) : Prop :=
  trim lineBlanks line = openBracket :: (sectionName ++ [closeBracket])

instance (line sectionName : Bytes) : Decidable (IsHeader line sectionName) :=
  inferInstanceAs (Decidable (_ = _))

/-- The line, trimmed, is a key line: neither empty, a comment nor a header, and split by
its first `=`. -/
structure IsSetting (line key value : Bytes) : Prop where
  nonempty : trim lineBlanks line ≠ []
  noComment : (trim lineBlanks line).head? ≠ some hash ∧
    (trim lineBlanks line).head? ≠ some semicolon
  noHeader : ∀ name, ¬ IsHeader line name
  split : ∃ before after, trim lineBlanks line = before ++ equals :: after ∧
    equals ∉ before ∧ key = trim keyBlanks before ∧ value = trim keyBlanks after

/-- The section in force after the lines: that of the last header, or none. -/
def InForce (before : List Bytes) (sectionName : Bytes) : Prop :=
  LastWins.LastAt (fun _ line => IsHeader line sectionName)
      (fun _ line => ∃ name, IsHeader line name) before ∨
    sectionName = [] ∧ ∀ line ∈ before, ∀ name, ¬ IsHeader line name

/-- The line, after the lines before it, gives the full key the value. -/
def Yields (before : List Bytes) (line key value : Bytes) : Prop :=
  ∃ sectionName name, InForce before sectionName ∧ IsSetting line name value ∧
    key = fullKey sectionName name

/-- The last of the lines that yield the key yields the value. -/
def Holds (ls : List Bytes) (key value : Bytes) : Prop :=
  LastWins.LastAt (fun before line => Yields before line key value)
    (fun before line => ∃ later, Yields before line key later) ls

/-- The last of the lines that, after those before, yield the key yields the value. -/
def YieldsAfter (before ls : List Bytes) (key value : Bytes) : Prop :=
  LastWins.LastAt (fun mid line => Yields (before ++ mid) line key value)
    (fun mid line => ∃ later, Yields (before ++ mid) line key later) ls

theorem inForce_nil {name : Bytes} : InForce [] name ↔ name = [] := by
  constructor
  · rintro (h | ⟨h, _⟩)
    · exact absurd h (LastWins.lastAt_nil _ _)
    · exact h
  · intro h
    exact .inr ⟨h, by simp⟩

theorem inForce_concat {ls : List Bytes} {line name : Bytes} :
    InForce (ls ++ [line]) name ↔
      IsHeader line name ∨ (∀ n, ¬ IsHeader line n) ∧ InForce ls name := by
  simp only [InForce, LastWins.lastAt_concat, not_exists, List.mem_append, List.mem_singleton]
  constructor
  · rintro ((h | ⟨hno, h⟩) | ⟨h, hno⟩)
    · exact .inl h
    · exact .inr ⟨hno, .inl h⟩
    · exact .inr ⟨hno line (.inr rfl), .inr ⟨h, fun l hl => hno l (.inl hl)⟩⟩
  · rintro (h | ⟨hno, h | ⟨h, hall⟩⟩)
    · exact .inl (.inl h)
    · exact .inl (.inr ⟨hno, h⟩)
    · refine .inr ⟨h, ?_⟩
      rintro l (hl | rfl)
      · exact hall l hl
      · exact hno

theorem holds_concat {ls : List Bytes} {line key value : Bytes} :
    Holds (ls ++ [line]) key value ↔
      Yields ls line key value ∨ (∀ later, ¬ Yields ls line key later) ∧ Holds ls key value := by
  simp only [Holds, LastWins.lastAt_concat, not_exists]

theorem isHeader_unique {line a b : Bytes} (ha : IsHeader line a) (hb : IsHeader line b) :
    a = b := by
  have h : openBracket :: (a ++ [closeBracket]) = openBracket :: (b ++ [closeBracket]) :=
    ha.symm.trans hb
  simpa using h

theorem inForce_unique {ls : List Bytes} {a b : Bytes} (ha : InForce ls a) (hb : InForce ls b) :
    a = b := by
  induction ls using List.reverseRecOn with
  | nil => rw [inForce_nil.mp ha, inForce_nil.mp hb]
  | append_singleton ls line ih =>
    rcases inForce_concat.mp ha with ha | ⟨hno, ha⟩
    · rcases inForce_concat.mp hb with hb | ⟨hno, _⟩
      · exact isHeader_unique ha hb
      · exact absurd ha (hno a)
    · rcases inForce_concat.mp hb with hb | ⟨_, hb⟩
      · exact absurd hb (hno b)
      · exact ih ha hb

/-- The first `=` is in one place. -/
theorem split_unique {a b c d : Bytes} (ha : equals ∉ a) (hc : equals ∉ c)
    (h : a ++ equals :: b = c ++ equals :: d) : a = c ∧ b = d := by
  have hlength : a.length = c.length := by
    rw [← find_append ha b, ← find_append hc d, h]
  obtain ⟨hac, hbd⟩ := List.append_inj h hlength
  exact ⟨hac, (List.cons.inj hbd).2⟩

theorem isSetting_unique {line key value key' value' : Bytes} (h : IsSetting line key value)
    (h' : IsSetting line key' value') : key = key' ∧ value = value' := by
  obtain ⟨a, b, htrim, ha, rfl, rfl⟩ := h.split
  obtain ⟨c, d, htrim', hc, rfl, rfl⟩ := h'.split
  obtain ⟨rfl, rfl⟩ := split_unique ha hc (htrim.symm.trans htrim')
  exact ⟨rfl, rfl⟩

theorem isHeader_iff {line : Bytes} :
    (∃ name, IsHeader line name) ↔ (trim lineBlanks line).head? = some openBracket ∧
      (trim lineBlanks line).getLast? = some closeBracket := by
  constructor
  · rintro ⟨name, h⟩
    rw [IsHeader] at h
    rw [h]
    exact ⟨rfl, List.getLast?_concat (l := openBracket :: name)⟩
  · rintro ⟨hhead, hlast⟩
    obtain ⟨rest, hrest⟩ := List.head?_eq_some_iff.mp hhead
    obtain ⟨front, hfront⟩ := List.getLast?_eq_some_iff.mp hlast
    cases front with
    | nil =>
      rw [hrest] at hfront
      simp [openBracket, closeBracket] at hfront
    | cons b name =>
      have hboth := hrest.symm.trans hfront
      simp only [List.cons_append, List.cons.injEq] at hboth
      exact ⟨name, by rw [IsHeader, hrest, hboth.2]⟩

theorem parseLine_header {p : Parse} {line name : Bytes} (hline : line.length < npos)
    (h : IsHeader line name) : parseLine p line = some { p with sectionName := name } := by
  have hlength := length_trim_le lineBlanks line
  have hlast : (openBracket :: (name ++ [closeBracket])).getLast? = some closeBracket :=
    List.getLast?_concat (l := openBracket :: name)
  rw [IsHeader] at h
  rw [h] at hlength
  simp only [parseLine, strip_eq hline, h, Option.bind_eq_bind, Option.bind_some]
  rw [if_neg (by decide), if_pos ⟨trivial, hlast⟩, substr_between (by omega), Option.bind_some]

theorem parseLine_setting {p : Parse} {line key value : Bytes} (hline : line.length < npos)
    (h : IsSetting line key value) :
    parseLine p line = some { p with
      configs := Function.update p.configs (fullKey p.sectionName key) (some value) } := by
  obtain ⟨before, after, hsplit, hbefore, rfl, rfl⟩ := h.split
  obtain ⟨first, rest, htrim⟩ := List.exists_cons_of_ne_nil h.nonempty
  have hlength := length_trim_le lineBlanks line
  have hnocomment := h.noComment
  have hnoheader : ¬ ((trim lineBlanks line).head? = some openBracket ∧
      (trim lineBlanks line).getLast? = some closeBracket) :=
    fun hboth => (isHeader_iff.mpr hboth).elim h.noHeader
  rw [htrim] at hsplit hlength hnocomment hnoheader
  have hfirst : ¬ (first = hash ∨ first = semicolon) := by simpa using hnocomment
  have hbracket : ¬ (first = openBracket ∧ (first :: rest).getLast? = some closeBracket) := by
    simpa using hnoheader
  simp only [parseLine, strip_eq hline, htrim, Option.bind_eq_bind, Option.bind_some]
  rw [if_neg hfirst, if_neg hbracket, hsplit, find_append hbefore]
  rw [hsplit, List.length_append, List.length_cons] at hlength
  have hfound : before.length ≠ npos := by omega
  have hafter := substr_after (a := before) (c := equals) (b := after)
    (by rw [List.length_append, List.length_cons]; omega)
  rw [if_pos hfound, substr_before, Option.bind_some, hafter, Option.bind_some,
    strip_eq (by omega), Option.bind_some, strip_eq (by omega), Option.bind_some]

theorem parseLine_other {p : Parse} {line : Bytes} (hline : line.length < npos)
    (hheader : ∀ name, ¬ IsHeader line name) (hsetting : ∀ key value, ¬ IsSetting line key value) :
    parseLine p line = some p := by
  simp only [parseLine, strip_eq hline, Option.bind_eq_bind, Option.bind_some]
  cases htrim : trim lineBlanks line with
  | nil => rfl
  | cons first rest =>
    have hnoheader : ¬ ((trim lineBlanks line).head? = some openBracket ∧
        (trim lineBlanks line).getLast? = some closeBracket) :=
      fun hboth => (isHeader_iff.mpr hboth).elim hheader
    rw [htrim] at hnoheader
    have hbracket : ¬ (first = openBracket ∧ (first :: rest).getLast? = some closeBracket) := by
      simpa using hnoheader
    by_cases hfirst : first = hash ∨ first = semicolon
    · simp only [if_pos hfirst]
    · -- a line that is no comment has no `=`
      have hequals : equals ∉ first :: rest := by
        intro hmem
        obtain ⟨before, after, hsplit, hbefore⟩ := List.eq_append_cons_of_mem hmem
        refine hsetting _ _ ⟨by simp [htrim], ?_, hheader, before, after, htrim.trans hsplit,
          hbefore, rfl, rfl⟩
        simpa [htrim] using hfirst
      simp only [if_neg hfirst, if_neg hbracket, find_of_notMem hequals]
      simp

theorem yields_unique {ls : List Bytes} {line key v w : Bytes} (h : Yields ls line key v)
    (h' : Yields ls line key w) : v = w := by
  obtain ⟨_, _, _, hset, _⟩ := h
  obtain ⟨_, _, _, hset', _⟩ := h'
  exact (isSetting_unique hset hset').2

theorem holds_unique {ls : List Bytes} {key v w : Bytes} (h : Holds ls key v)
    (h' : Holds ls key w) : v = w := by
  induction ls using List.reverseRecOn with
  | nil => exact absurd h (LastWins.lastAt_nil _ _)
  | append_singleton ls line ih =>
    rcases holds_concat.mp h with hv | ⟨hno, hv⟩ <;>
      rcases holds_concat.mp h' with hw | ⟨hno', hw⟩
    · exact yields_unique hv hw
    · exact absurd hv (hno' v)
    · exact absurd hw (hno w)
    · exact ih hv hw

theorem holds_append {before ls : List Bytes} {key value : Bytes} :
    Holds (before ++ ls) key value ↔
      YieldsAfter before ls key value ∨
        (∀ later, ¬ YieldsAfter before ls key later) ∧ Holds before key value :=
  @LastWins.lastAt_append _ _ (fun value before line => Yields before line key value) _ _ _

/-- Two continuations mean the same where each yields what holds with the other. -/
theorem holds_append_iff {before a b : List Bytes} :
    (∀ key value, Holds (before ++ a) key value ↔ Holds (before ++ b) key value) ↔
      ∀ key value, (YieldsAfter before a key value → Holds (before ++ b) key value) ∧
        (YieldsAfter before b key value → Holds (before ++ a) key value) := by
  have hhalf : ∀ {a b : List Bytes} {key value : Bytes},
      (∀ v, YieldsAfter before a key v → Holds (before ++ b) key v) →
      (∀ v, YieldsAfter before b key v → Holds (before ++ a) key v) →
      Holds (before ++ a) key value → Holds (before ++ b) key value := by
    intro a b key value hab hba h
    rcases holds_append.mp h with hyields | ⟨_, hbefore⟩
    · exact hab value hyields
    · by_cases hb : ∃ v, YieldsAfter before b key v
      · obtain ⟨v, hv⟩ := hb
        rw [holds_unique h (hba v hv)]
        exact holds_append.mpr (.inl hv)
      · exact holds_append.mpr (.inr ⟨not_exists.mp hb, hbefore⟩)
  constructor
  · intro h key value
    exact ⟨fun hyields => (h key value).mp (holds_append.mpr (.inl hyields)),
      fun hyields => (h key value).mpr (holds_append.mpr (.inl hyields))⟩
  · intro h key value
    have hab := fun v => (h key v).1
    have hba := fun v => (h key v).2
    exact ⟨hhalf hab hba, hhalf hba hab⟩

/-- After the lines, the section is the one in force and the map is the one described. -/
structure Describes (ls : List Bytes) (p : Parse) : Prop where
  inForce : InForce ls p.sectionName
  holds : ∀ key value, p.configs key = some value ↔ Holds ls key value

theorem describes_nil (configs : Configs) :
    Describes [] { configs := configs.clear, sectionName := [] } := by
  constructor
  · exact inForce_nil.mpr rfl
  · intro key value
    constructor
    · intro h
      cases h
    · intro h
      exact absurd h (LastWins.lastAt_nil _ _)

/-- A line that yields nothing leaves the map as it is. -/
theorem holds_of_yields_nothing {ls : List Bytes} {line key : Bytes}
    (h : ∀ later, ¬ Yields ls line key later) (value : Bytes) :
    Holds (ls ++ [line]) key value ↔ Holds ls key value := by
  rw [holds_concat]
  simp [h]

theorem describes_header {ls : List Bytes} {p : Parse} {line name : Bytes} (hp : Describes ls p)
    (hname : IsHeader line name) : Describes (ls ++ [line]) { p with sectionName := name } := by
  constructor
  · exact inForce_concat.mpr (.inl hname)
  · intro key value
    have hno : ∀ later, ¬ Yields ls line key later := by
      rintro later ⟨_, _, _, hsetting, _⟩
      exact hsetting.noHeader name hname
    rw [holds_of_yields_nothing hno]
    exact hp.holds key value

/-- A key line yields its value for its full key, and nothing else. -/
theorem yields_setting {ls : List Bytes} {p : Parse} {line key value k w : Bytes}
    (hp : Describes ls p) (hset : IsSetting line key value) :
    Yields ls line k w ↔ k = fullKey p.sectionName key ∧ w = value := by
  constructor
  · rintro ⟨sectionName, name, hin, hset', rfl⟩
    obtain ⟨rfl, rfl⟩ := isSetting_unique hset hset'
    rw [inForce_unique hp.inForce hin]
    exact ⟨rfl, rfl⟩
  · rintro ⟨rfl, rfl⟩
    exact ⟨_, _, hp.inForce, hset, rfl⟩

theorem describes_setting {ls : List Bytes} {p : Parse} {line key value : Bytes}
    (hp : Describes ls p) (hset : IsSetting line key value) :
    Describes (ls ++ [line]) { p with
      configs := Function.update p.configs (fullKey p.sectionName key) (some value) } := by
  constructor
  · exact inForce_concat.mpr (.inr ⟨hset.noHeader, hp.inForce⟩)
  · intro k v
    rw [holds_concat, ← hp.holds]
    simp only [yields_setting hp hset]
    by_cases hk : k = fullKey p.sectionName key
    · subst hk
      simp [eq_comm]
    · simp [hk]

theorem describes_other {ls : List Bytes} {p : Parse} {line : Bytes} (hp : Describes ls p)
    (hheader : ∀ name, ¬ IsHeader line name) (hsetting : ∀ key value, ¬ IsSetting line key value) :
    Describes (ls ++ [line]) p := by
  constructor
  · exact inForce_concat.mpr (.inr ⟨hheader, hp.inForce⟩)
  · intro key value
    have hno : ∀ later, ¬ Yields ls line key later := by
      rintro later ⟨_, name, _, hset, _⟩
      exact hsetting name later hset
    rw [holds_of_yields_nothing hno]
    exact hp.holds key value

/-- The body of the loop keeps the description, for a line of any kind. -/
theorem parseLine_describes {ls : List Bytes} {p : Parse} {line : Bytes}
    (hline : line.length < npos) (hp : Describes ls p) :
    ∃ p', parseLine p line = some p' ∧ Describes (ls ++ [line]) p' := by
  by_cases hheader : ∃ name, IsHeader line name
  · obtain ⟨name, hname⟩ := hheader
    exact ⟨_, parseLine_header hline hname, describes_header hp hname⟩
  · have hno : ∀ name, ¬ IsHeader line name := fun name h => hheader ⟨name, h⟩
    by_cases hsetting : ∃ key value, IsSetting line key value
    · obtain ⟨key, value, hset⟩ := hsetting
      exact ⟨_, parseLine_setting hline hset, describes_setting hp hset⟩
    · have hnone : ∀ key value, ¬ IsSetting line key value :=
        fun key value h => hsetting ⟨key, value, h⟩
      exact ⟨_, parseLine_other hline hno hnone, describes_other hp hno hnone⟩

theorem parse_lines {ls : List Bytes} (hls : ∀ line ∈ ls, line.length < npos)
    (configs : Configs) :
    ∃ p, ls.foldlM parseLine { configs := configs.clear, sectionName := [] } = some p ∧
      Describes ls p := by
  induction ls using List.reverseRecOn with
  | nil => exact ⟨_, rfl, describes_nil configs⟩
  | append_singleton ls line ih =>
    obtain ⟨p, hp, hdescribes⟩ := ih (fun l hl => hls l (List.mem_append_left _ hl))
    have hline : line.length < npos := hls line (by simp)
    rw [List.foldlM_append, hp]
    simpa using parseLine_describes hline hdescribes

theorem parse_text (configs : Configs) (content : Text) :
    ∃ parsed, parseINI configs content = some (true, parsed) ∧
      ∀ key value, parsed key = some value ↔ Holds (lines content) key value := by
  obtain ⟨p, hp, hdescribes⟩ := parse_lines
    (fun line hline => Nat.lt_of_le_of_lt (length_le_of_mem_lines hline) content.2) configs
  refine ⟨p.configs, ?_, hdescribes.holds⟩
  rw [parseINI, hp]
  rfl

end ConfigParse
