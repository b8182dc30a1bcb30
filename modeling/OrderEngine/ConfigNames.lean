import OrderEngine.ConfigParse

/-!
# The names of the settings

A setting is stored under its section, a dot and its key, or under its key alone where no
section is in force. Sections and keys may hold dots themselves, so that a full key can be
cut in several places.
-/
namespace ConfigNames

open ConfigParse

/-- Some line of these sets the key while the section is in force. -/
def SettingIn (ls : List Bytes) (sectionName key : Bytes) : Prop :=
  ∃ before line after value, ls = before ++ line :: after ∧ InForce before sectionName ∧
    IsSetting line key value

/-- The last of the lines that set the key in this section sets it to the value. -/
def LastValue (ls : List Bytes) (sectionName key value : Bytes) : Prop :=
  LastWins.LastAt (fun before line => InForce before sectionName ∧ IsSetting line key value)
    (fun before line => ∃ later, InForce before sectionName ∧ IsSetting line key later) ls

/-- The key of the first ends, after a dot, in that of the second, and what comes before this
dot belongs to the section of the second. -/
def Shifted (sectionName key sectionName' key' : Bytes) : Prop :=
  ∃ rest, key = rest ++ dot :: key' ∧ sectionName' = fullKey sectionName rest ∧ sectionName' ≠ []

theorem fullKey_nil (key : Bytes) : fullKey [] key = key := by
  simp [fullKey]

theorem fullKey_of_ne_nil {sectionName : Bytes} (h : sectionName ≠ []) (key : Bytes) :
    fullKey sectionName key = sectionName ++ dot :: key := by
  simp [fullKey, h]

theorem fullKey_of_shifted {s k s' k' : Bytes} (h : Shifted s k s' k') :
    fullKey s k = fullKey s' k' := by
  obtain ⟨rest, rfl, rfl, hne⟩ := h
  rw [fullKey_of_ne_nil hne]
  by_cases hs : s = []
  · rw [hs, fullKey_nil, fullKey_nil]
  · rw [fullKey_of_ne_nil hs, fullKey_of_ne_nil hs, List.append_assoc, List.cons_append]

/-- Where two full keys are one, the longer section is the shorter with a part of its key. -/
theorem same_or_shifted {s k s' k' : Bytes} (hs : s ≠ []) (hs' : s' ≠ []) {rest : Bytes}
    (hsection : s' = s ++ rest) (hkey : dot :: k = rest ++ dot :: k') :
    s = s' ∧ k = k' ∨ Shifted s k s' k' := by
  cases rest with
  | nil =>
    have hk : k = k' := by simpa using hkey
    exact .inl ⟨by simp [hsection], hk⟩
  | cons b rest =>
    obtain ⟨rfl, rfl⟩ := List.cons.inj hkey
    exact .inr ⟨rest, rfl, hsection.trans (fullKey_of_ne_nil hs rest).symm, hs'⟩

theorem fullKey_eq_iff {s k s' k' : Bytes} :
    fullKey s k = fullKey s' k' ↔
      s = s' ∧ k = k' ∨ Shifted s k s' k' ∨ Shifted s' k' s k := by
  constructor
  · intro h
    by_cases hs : s = []
    · by_cases hs' : s' = []
      · rw [hs, hs', fullKey_nil, fullKey_nil] at h
        exact .inl ⟨hs.trans hs'.symm, h⟩
      · rw [hs, fullKey_nil, fullKey_of_ne_nil hs'] at h
        exact .inr (.inl ⟨s', h, by rw [hs, fullKey_nil], hs'⟩)
    · by_cases hs' : s' = []
      · rw [hs', fullKey_nil, fullKey_of_ne_nil hs] at h
        exact .inr (.inr ⟨s, h.symm, by rw [hs', fullKey_nil], hs⟩)
      · rw [fullKey_of_ne_nil hs, fullKey_of_ne_nil hs'] at h
        rcases List.append_eq_append_iff.mp h with ⟨rest, hsection, hkey⟩ | ⟨rest, hsection, hkey⟩
        · rcases same_or_shifted hs hs' hsection hkey with h | h
          · exact .inl h
          · exact .inr (.inl h)
        · rcases same_or_shifted hs' hs hsection hkey with ⟨hs, hk⟩ | h
          · exact .inl ⟨hs.symm, hk.symm⟩
          · exact .inr (.inr h)
  · rintro (⟨rfl, rfl⟩ | h | h)
    · rfl
    · exact fullKey_of_shifted h
    · exact (fullKey_of_shifted h).symm

/-- Keys without a dot are told apart by their full keys. -/
theorem fullKey_injective {s k s' k' : Bytes} (hk : dot ∉ k) (hk' : dot ∉ k')
    (h : fullKey s k = fullKey s' k') : s = s' ∧ k = k' := by
  rcases fullKey_eq_iff.mp h with h | ⟨rest, rfl, _⟩ | ⟨rest, rfl, _⟩
  · exact h
  · exact absurd (by simp) hk
  · exact absurd (by simp) hk'

/-- Two settings share an entry of the map exactly when they are shifted, and a setting that
is not shifted against any other one has the entry of its own last value. -/
theorem names_collide_iff (configs : Configs) (content : Text) :
    ∃ parsed, parseINI configs content = some (true, parsed) ∧
      (∀ s k s' k', SettingIn (lines content) s k → SettingIn (lines content) s' k' →
        (s, k) ≠ (s', k') →
        (fullKey s k = fullKey s' k' ↔ Shifted s k s' k' ∨ Shifted s' k' s k)) ∧
      ∀ s k, (∀ s' k', SettingIn (lines content) s' k' →
          ¬ Shifted s k s' k' ∧ ¬ Shifted s' k' s k) →
        ∀ value, parsed (fullKey s k) = some value ↔ LastValue (lines content) s k value := by
  obtain ⟨parsed, hparse, hparsed⟩ := parse_text configs content
  refine ⟨parsed, hparse, ?_, ?_⟩
  · intro s k s' k' _ _ hne
    rw [fullKey_eq_iff]
    have hpair : ¬ (s = s' ∧ k = k') := fun h => hne (by rw [h.1, h.2])
    simp only [hpair, false_or]
  · intro s k hapart value
    rw [hparsed]
    -- a line that yields the full key sets this very setting
    have hyields : ∀ before line after v, lines content = before ++ line :: after →
        (Yields before line (fullKey s k) v ↔ InForce before s ∧ IsSetting line k v) := by
      intro before line after v hls
      constructor
      · rintro ⟨s', k', hforce, hset, hkey⟩
        obtain ⟨hne, hne'⟩ := hapart s' k' ⟨before, line, after, v, hls, hforce, hset⟩
        rcases fullKey_eq_iff.mp hkey with ⟨rfl, rfl⟩ | h | h
        · exact ⟨hforce, hset⟩
        · exact absurd h hne
        · exact absurd h hne'
      · rintro ⟨hforce, hset⟩
        exact ⟨s, k, hforce, hset, rfl⟩
    apply LastWins.lastAt_congr
    · intro before line after hls
      exact hyields before line after value hls
    · intro before line after hls
      exact exists_congr (fun v => hyields before line after v hls)

/-- `a.b=1`, then `b=2` in the section `a`. -/
def dotted : Bytes :=
  [0x61, dot, 0x62, equals, 0x31, lineFeed, openBracket, 0x61, closeBracket, lineFeed,
    0x62, equals, 0x32, lineFeed]

/-- The key `a.b` without a section loses its entry to the key `b` of the section `a`. -/
theorem dotted_collide :
    SettingIn (lines dotted) [] [0x61, dot, 0x62] ∧ SettingIn (lines dotted) [0x61] [0x62] ∧
      (([], [0x61, dot, 0x62]) : Bytes × Bytes) ≠ ([0x61], [0x62]) ∧
      fullKey [] [0x61, dot, 0x62] = fullKey [0x61] [0x62] ∧
      (parseINI (fun _ => none) dotted).map (fun p => p.2 (fullKey [] [0x61, dot, 0x62])) =
        some (some [0x32]) := by
  have hplain : ∀ line, (StringOps.trim lineBlanks line).head? ≠ some openBracket →
      ∀ name, ¬ IsHeader line name := fun line hline name h => hline (isHeader_iff.mp ⟨name, h⟩).1
  have hheader : IsHeader [openBracket, 0x61, closeBracket] [0x61] := by decide
  constructor
  · refine ⟨[], [0x61, dot, 0x62, equals, 0x31], _, [0x31], rfl, inForce_nil.mpr rfl, ?_⟩
    exact ⟨by decide, by decide, hplain _ (by decide),
      [0x61, dot, 0x62], [0x31], by decide, by decide, by decide, by decide⟩
  · constructor
    · refine ⟨[[0x61, dot, 0x62, equals, 0x31], [openBracket, 0x61, closeBracket]],
        [0x62, equals, 0x32], [], [0x32], rfl, ?_, ?_⟩
      · exact (@inForce_concat [[0x61, dot, 0x62, equals, 0x31]] _ _).mpr (.inl hheader)
      · exact ⟨by decide, by decide, hplain _ (by decide),
          [0x62], [0x32], by decide, by decide, by decide, by decide⟩
    · exact ⟨by decide, by decide, by decide +kernel⟩

end ConfigNames
