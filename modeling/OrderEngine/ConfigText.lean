import OrderEngine.ConfigReload

/-!
# Config: what of a text counts

What `parseINI` makes of a text depends on its significant lines alone: the lines without their
surrounding blanks, save the empty ones and the comments. A text that begins with a section header
may so be put behind another one to override it.
-/
namespace ConfigText

open StringOps ConfigParse ConfigReload

/-- Whether the trimmed line is skipped: it is empty or a comment. -/
def skipped (line : Bytes) : Bool :=
  decide (line = [] ∨ line.head? = some hash ∨ line.head? = some semicolon)

/-- The lines that count, trimmed. -/
def significant (content : Bytes) : List Bytes :=
  ((lines content).map (trim lineBlanks)).filter (fun line => !skipped line)

/-- The trimmed line is a section header. -/
def isHeader (line : Bytes) : Bool :=
  decide (line.head? = some openBracket ∧ line.getLast? = some closeBracket)

/-- What a significant line does: a header sets the section, and a line with a `=` sets a key. -/
def interpret (p : Parse) (line : Bytes) : Parse :=
  if isHeader line then { p with sectionName := line.tail.dropLast }
  else if equals ∈ line then
    { p with
      configs := Function.update p.configs
        (fullKey p.sectionName (trim keyBlanks (line.takeWhile (· ≠ equals))))
        (some (trim keyBlanks (line.dropWhile (· ≠ equals)).tail)) }
  else p

/-- Before the first line. -/
def empty : Parse where
  configs _ := none
  sectionName := []

theorem isHeader_trim {line name : Bytes} (h : IsHeader line name) :
    isHeader (trim lineBlanks line) = true := by
  rw [isHeader, decide_eq_true_eq]
  exact isHeader_iff.mp ⟨name, h⟩

theorem not_isHeader_trim {line : Bytes} (h : ∀ name, ¬ IsHeader line name) :
    isHeader (trim lineBlanks line) = false := by
  rw [isHeader, decide_eq_false_iff_not]
  intro hboth
  obtain ⟨name, hname⟩ := isHeader_iff.mpr hboth
  exact h name hname

theorem interpret_header {p : Parse} {line name : Bytes} (h : IsHeader line name) :
    interpret p (trim lineBlanks line) = { p with sectionName := name } := by
  rw [interpret, if_pos (isHeader_trim h)]
  rw [IsHeader] at h
  simp [h]

theorem interpret_setting {p : Parse} {line key value : Bytes} (h : IsSetting line key value) :
    interpret p (trim lineBlanks line) = { p with
      configs := Function.update p.configs (fullKey p.sectionName key) (some value) } := by
  obtain ⟨before, after, hsplit, hbefore, rfl, rfl⟩ := h.split
  have hmem : equals ∈ trim lineBlanks line := by simp [hsplit]
  rw [interpret, not_isHeader_trim h.noHeader, if_neg Bool.false_ne_true, if_pos hmem, hsplit]
  have hne : ∀ b ∈ before, (decide (b ≠ equals)) = true := by
    intro b hb
    rw [decide_eq_true_eq]
    rintro rfl
    exact hbefore hb
  rw [List.takeWhile_append_of_pos hne, List.dropWhile_append_of_pos hne]
  simp

/-- The body of the loop, for a line of any kind. -/
theorem parseLine_eq (p : Parse) {line : Bytes} (hline : line.length < npos) :
    parseLine p line =
      some (if skipped (trim lineBlanks line) then p else interpret p (trim lineBlanks line)) := by
  by_cases hheader : ∃ name, IsHeader line name
  · obtain ⟨name, hname⟩ := hheader
    have hkept : skipped (trim lineBlanks line) = false := by
      rw [IsHeader] at hname
      simp [skipped, hname, openBracket, ConfigParse.hash, semicolon]
    rw [parseLine_header hline hname, hkept, interpret_header hname]
    rfl
  · have hno : ∀ name, ¬ IsHeader line name := fun name h => hheader ⟨name, h⟩
    by_cases hsetting : ∃ key value, IsSetting line key value
    · obtain ⟨key, value, hset⟩ := hsetting
      have hkept : skipped (trim lineBlanks line) = false := by
        simp [skipped, hset.nonempty, hset.noComment]
      rw [parseLine_setting hline hset, hkept, interpret_setting hset]
      rfl
    · have hnone : ∀ key value, ¬ IsSetting line key value :=
        fun key value h => hsetting ⟨key, value, h⟩
      rw [parseLine_other hline hno hnone]
      split
      · rfl
      · rename_i hkept
        -- a line that is neither skipped nor a header, nor a setting, has no `=`
        have hequals : equals ∉ trim lineBlanks line := by
          intro hmem
          obtain ⟨before, after, hsplit, hbefore⟩ := List.eq_append_cons_of_mem hmem
          simp only [skipped, decide_eq_true_eq, not_or] at hkept
          exact hnone _ _ ⟨hkept.1, hkept.2, hno, before, after, hsplit, hbefore, rfl, rfl⟩
        rw [interpret, not_isHeader_trim hno, if_neg Bool.false_ne_true, if_neg hequals]

/-- The loop over the lines is a fold over the significant ones. -/
theorem foldlM_parseLine (p : Parse) {ls : List Bytes} (hls : ∀ line ∈ ls, line.length < npos) :
    ls.foldlM parseLine p =
      some (((ls.map (trim lineBlanks)).filter (fun line => !skipped line)).foldl interpret p) := by
  induction ls generalizing p with
  | nil => rfl
  | cons line rest ih =>
    have hrest := fun l hl => hls l (List.mem_cons_of_mem _ hl)
    rw [List.foldlM_cons, parseLine_eq p (hls line List.mem_cons_self), Option.bind_eq_bind,
      Option.bind_some, ih _ hrest, List.map_cons]
    cases hskipped : skipped (trim lineBlanks line) with
    | true => simp [hskipped]
    | false => simp [hskipped]

/-- A text means what its significant lines do, one after the other. -/
theorem parsed_eq {content : Bytes} (h : content.length < npos) :
    parsed content = ((significant content).foldl interpret empty).configs := by
  have hlines : ∀ line ∈ lines content, line.length < npos := by
    intro line hline
    exact Nat.lt_of_le_of_lt (length_le_of_mem_lines hline) h
  have hfold := foldlM_parseLine empty hlines
  have hparse : parseINI (fun _ => none) content =
      some (true, ((significant content).foldl interpret empty).configs) := by
    rw [parseINI]
    change ((lines content).foldlM parseLine empty).bind _ = _
    rw [hfold]
    rfl
  rw [parsed, hparse]

theorem trim_concat {line : Bytes} {b : UInt8} (hb : b ∈ lineBlanks) :
    trim lineBlanks (line ++ [b]) = trim lineBlanks line := by
  have hdecide : decide (b ∈ lineBlanks) = true := decide_eq_true hb
  rw [trim, trim, List.dropWhile_append]
  split
  · rename_i hempty
    rw [List.isEmpty_iff] at hempty
    have hall : [b].dropWhile (fun x => decide (x ∈ lineBlanks)) = [] :=
      List.dropWhile_cons_of_pos hdecide
    rw [hempty, hall]
  · exact List.rdropWhile_concat_pos _ _ _ hdecide

/-- The text with a carriage return before each line feed. -/
def crlf (content : Bytes) : Bytes :=
  content.flatMap (fun b => if b = lineFeed then [carriageReturn, lineFeed] else [b])

/-- The two texts have the same lines, save a carriage return at the end. -/
theorem lines_crlf (content : Bytes) :
    List.Forall₂ (fun line line' => line' = line ∨ line' = line ++ [carriageReturn])
      (lines content) (lines (crlf content)) := by
  induction content with
  | nil => exact .nil
  | cons b rest ih =>
    by_cases hb : b = lineFeed
    · have hlines : lines (crlf (b :: rest)) = [carriageReturn] :: lines (crlf rest) := by
        simp [crlf, hb, lines, carriageReturn, lineFeed]
      rw [hlines, lines, if_pos hb]
      exact .cons (.inr rfl) ih
    · have hcrlf : crlf (b :: rest) = b :: crlf rest := by simp [crlf, hb]
      rw [hcrlf, lines, lines, if_neg hb, if_neg hb]
      generalize lines rest = ls at ih
      generalize lines (crlf rest) = ls' at ih
      cases ih with
      | nil => exact .cons (.inl rfl) .nil
      | cons hline hrest =>
        cases hline with
        | inl hsame => exact .cons (.inl (by rw [hsame])) hrest
        | inr hreturn => exact .cons (.inr (by rw [hreturn]; rfl)) hrest

theorem significant_crlf (content : Bytes) : significant (crlf content) = significant content := by
  have hlines := lines_crlf content
  rw [significant, significant]
  congr 1
  generalize lines content = ls at hlines
  generalize lines (crlf content) = ls' at hlines
  induction hlines with
  | nil => rfl
  | cons hline _ ih =>
    rw [List.map_cons, List.map_cons, ih]
    congr 1
    cases hline with
    | inl hsame => rw [hsame]
    | inr hreturn => rw [hreturn, trim_concat (by decide)]

/-- Two texts with the same significant lines are parsed to the same map, whatever comments, empty
lines and blanks there are in them; so the line ends may be those of Windows. -/
theorem significant_suffices {a b : Bytes} (ha : a.length < npos) (hb : b.length < npos)
    (h : significant a = significant b) :
    parsed a = parsed b ∧ ((crlf a).length < npos → parsed (crlf a) = parsed b) := by
  constructor
  · rw [parsed_eq ha, parsed_eq hb, h]
  · intro hcrlf
    rw [parsed_eq hcrlf, parsed_eq hb, significant_crlf, h]

/-- The lines `#` and ` k=1`, and the line `k=1`. -/
def commented : Bytes := [ConfigParse.hash, lineFeed, space, 0x6B, equals, 0x31]
def plain : Bytes := [0x6B, equals, 0x31]

theorem significant_suffices_commented :
    parsed commented = parsed plain ∧ parsed (crlf commented) = parsed plain := by
  have hsame := significant_suffices (a := commented) (b := plain) (by decide) (by decide)
    (by decide)
  exact ⟨hsame.1, hsame.2 (by decide)⟩

/-- The one parse is the other on top of the map. -/
structure Over (below : Configs) (p q : Parse) : Prop where
  sectionName : p.sectionName = q.sectionName
  configs : ∀ key, p.configs key = (q.configs key).or (below key)

theorem over_interpret {below : Configs} {p q : Parse} (h : Over below p q) (line : Bytes) :
    Over below (interpret p line) (interpret q line) := by
  rw [interpret, interpret]
  split
  · exact ⟨rfl, h.configs⟩
  · split
    · constructor
      · exact h.sectionName
      · intro key
        simp only [h.sectionName, Function.update_apply]
        split
        · rfl
        · exact h.configs key
    · exact h

theorem over_foldl {below : Configs} {p q : Parse} (h : Over below p q) (ls : List Bytes) :
    Over below (ls.foldl interpret p) (ls.foldl interpret q) := by
  induction ls generalizing p q with
  | nil => exact h
  | cons line rest ih => exact ih (over_interpret h line)

theorem lines_cons (b : UInt8) (rest : Bytes) : ∃ line later, lines (b :: rest) = line :: later := by
  rw [lines]
  split
  · exact ⟨_, _, rfl⟩
  · split
    · exact ⟨_, _, rfl⟩
    · exact ⟨_, _, rfl⟩

/-- A line feed between two texts ends the last line of the first. -/
theorem lines_append (a b : Bytes) :
    lines (a ++ lineFeed :: b) = lines a ++ lines b ∨
      lines (a ++ lineFeed :: b) = lines a ++ [] :: lines b := by
  induction a with
  | nil =>
    right
    simp [lines]
  | cons c rest ih =>
    by_cases hc : c = lineFeed
    · simp only [List.cons_append, lines, if_pos hc]
      cases ih with
      | inl hjoined => exact .inl (by rw [hjoined])
      | inr hempty => exact .inr (by rw [hempty])
    · cases rest with
      | nil =>
        left
        simp [lines, hc]
      | cons d rest =>
        obtain ⟨line, later, hlines⟩ := lines_cons d rest
        rw [hlines] at ih
        rw [List.cons_append, lines, lines, if_neg hc, if_neg hc, hlines]
        cases ih with
        | inl hjoined => exact .inl (by rw [hjoined]; rfl)
        | inr hempty => exact .inr (by rw [hempty]; rfl)

theorem significant_append (a b : Bytes) :
    significant (a ++ lineFeed :: b) = significant a ++ significant b := by
  cases lines_append a b with
  | inl hjoined => simp [significant, hjoined]
  | inr hempty => simp [significant, hempty, skipped, trim]

/-- A text that begins with a section header, put on a new line behind another text, overrides the
keys that it sets and leaves the others. -/
theorem appended_overrides {a b : Bytes} (h : (a ++ lineFeed :: b).length < npos)
    {header : Bytes} (hfirst : (significant b).head? = some header)
    (hheader : isHeader header = true) (key : Bytes) :
    parsed (a ++ lineFeed :: b) key = (parsed b key).or (parsed a key) := by
  have hlength : a.length + (b.length + 1) < npos := by simpa using h
  rw [parsed_eq h, parsed_eq (by omega), parsed_eq (by omega), significant_append,
    List.foldl_append]
  obtain ⟨rest, hrest⟩ := List.head?_eq_some_iff.mp hfirst
  rw [hrest, List.foldl_cons, List.foldl_cons]
  apply (over_foldl _ rest).configs
  simp only [interpret, hheader, if_true]
  exact ⟨rfl, fun key => rfl⟩

/-- The header `[s]`, with the lines `k=1` and `j=2`, or `k=3`. -/
def sectionHeader : Bytes := [openBracket, 0x73, closeBracket, lineFeed]
def defaults : Bytes := sectionHeader ++ [0x6B, equals, 0x31, lineFeed, 0x6A, equals, 0x32]
def overrides : Bytes := sectionHeader ++ [0x6B, equals, 0x33]

theorem appended_overrides_section :
    parsed (defaults ++ lineFeed :: overrides) [0x73, dot, 0x6A] =
        (parsed overrides [0x73, dot, 0x6A]).or (parsed defaults [0x73, dot, 0x6A]) ∧
      parsed overrides [0x73, dot, 0x6A] = none ∧
      parsed defaults [0x73, dot, 0x6A] = some [0x32] := by
  have hfirst : (significant overrides).head? = some [openBracket, 0x73, closeBracket] := by
    decide
  refine ⟨appended_overrides (by decide) hfirst (by decide) _, ?_, ?_⟩
  · rw [parsed_eq (by decide)]
    decide
  · rw [parsed_eq (by decide)]
    decide

end ConfigText
