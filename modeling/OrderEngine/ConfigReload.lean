import OrderEngine.Library.Runs
import OrderEngine.ConfigParse

/-!
# Config: load and reload

`load` records the path before it opens the file, and it does not ask the stream, once it
has read it, whether that was to the end. Its parser replaces the map in any case.
-/
namespace ConfigReload

open ConfigParse

@[ext] structure Config where
  configs : Configs
  configFile : Bytes

/-- `Config::Config()`. -/
def Config.create : Config where
  configs _ := none
  configFile := []

/-- What the file system does when a file is read: the open fails, the reading stops with an
error after some of the bytes, or it comes to the end. -/
inductive Reading where
  | openFails
  | stops (content : Text) (count : Nat)
  | whole (content : Text)

/-- What `buffer << file.rdbuf()` puts into the buffer. -/
def Reading.buffer : Reading → Option Bytes
  | .openFails => none
  | .stops content count => some (content.1.take count)
  | .whole content => some content

/-- The content that an opened file has. -/
def Reading.complete : Reading → Option Text
  | .openFails => none
  | .stops content _ => some content
  | .whole content => some content

namespace Config

/-- `Config::load`, with the value that it returns; `none` where the parser throws. -/
def load (c : Config) (path : Bytes) (file : Reading) : Option (Bool × Config) :=
  let c := { c with configFile := path }
  match file.buffer with
  | none => some (false, c)
  | some content => do
    let (result, configs) ← parseINI c.configs content
    some (result, { c with configs := configs })

def reload (c : Config) (file : Reading) : Option (Bool × Config) :=
  if c.configFile = [] then some (false, c) else c.load c.configFile file

/-- `Config::setValue`, to which the setters pass the text of their value. -/
def setValue (c : Config) (key value : Bytes) : Config :=
  { c with configs := Function.update c.configs key (some value) }

end Config

/-- The configuration, and the path of the latest load that has returned true. -/
structure State where
  config : Config
  latest : Option Bytes

def start : State where
  config := .create
  latest := none

inductive Action where
  | load (path : Bytes) (file : Reading)
  | reload (file : Reading)
  | setValue (key value : Bytes)

/-- The path that the action loads, and what the file system does then. -/
def loads (s : State) : Action → Option (Bytes × Reading)
  | .load path file => some (path, file)
  | .reload file => if s.config.configFile = [] then none else some (s.config.configFile, file)
  | .setValue _ _ => none

/-- What the call returns, with the configuration that it leaves. -/
def returned (s : State) : Action → Option (Bool × Config)
  | .load path file => s.config.load path file
  | .reload file => s.config.reload file
  | .setValue key value => some (true, s.config.setValue key value)

/-- One call. There is no file with the empty name. -/
def step (s : State) (a : Action) : Option State :=
  match returned s a with
  | none => none
  | some (result, config) =>
    match loads s a with
    | none => some { s with config := config }
    | some (path, file) =>
      Runs.guarded (path ≠ [] ∨ file.buffer = none)
        { config := config, latest := if result then some path else s.latest }

/-- The map that the parser makes of the content. -/
def parsed (content : Bytes) : Configs :=
  match parseINI (fun _ => none) content with
  | none => fun _ => none
  | some (_, configs) => configs

/-- The call returns true with the parse of the complete file and its path recorded, or false
with everything as before. -/
def AllOrNothing (c : Config) (path : Bytes) (file : Reading)
    (out : Option (Bool × Config)) : Prop :=
  (∃ content, file.complete = some content ∧
    out = some (true, { configs := parsed content, configFile := path })) ∨
  out = some (false, c)

def CallSound (s : State) : Action → Prop
  | .load path file => AllOrNothing s.config path file (s.config.load path file)
  | .reload file => AllOrNothing s.config s.config.configFile file (s.config.reload file)
  | .setValue _ _ => True

/-- `reload` loads the file of the latest load that has returned true, if there is one. -/
def ReloadsLatest (s : State) : Prop :=
  ∀ file, s.config.reload file =
    match s.latest with
    | none => some (false, s.config)
    | some path => s.config.load path file

/-- The lines before the one in which a reading stops. -/
def kept (content : Bytes) (count : Nat) : List Bytes := (lines (content.take count)).dropLast

/-- The line in which it stops, as far as it has been read, if there is one. -/
def torn (content : Bytes) (count : Nat) : List Bytes :=
  (lines (content.take count)).drop (kept content count).length

/-- The lines of the file from that one on. -/
def lost (content : Bytes) (count : Nat) : List Bytes :=
  (lines content).drop (kept content count).length

/-- An open that fails is one of the recorded path. Where a reading stops early, what the lost
lines yield holds without them, and what the torn line yields holds in the whole file. -/
def Harmless (c : Config) (path : Bytes) : Reading → Prop
  | .openFails => path = c.configFile
  | .stops content count => ∀ key value,
    (YieldsAfter (kept content count) (lost content count) key value →
      Holds (kept content count ++ torn content count) key value) ∧
    (YieldsAfter (kept content count) (torn content count) key value →
      Holds (kept content count ++ lost content count) key value)
  | .whole _ => True

def HarmlessCall (s : State) (a : Action) : Prop :=
  ∀ path file, loads s a = some (path, file) → Harmless s.config path file

theorem parseINI_parsed (configs : Configs) {content : Bytes}
    (h : content.length < StringOps.npos) :
    parseINI configs content = some (true, parsed content) := by
  obtain ⟨m, hm, _⟩ := parse_text configs ⟨content, h⟩
  have hnone : parseINI (fun _ => none) content = some (true, m) := hm
  rw [hm, parsed, hnone]

theorem parsed_iff {content key value : Bytes} (h : content.length < StringOps.npos) :
    parsed content key = some value ↔ Holds (lines content) key value := by
  obtain ⟨m, hm, hholds⟩ := parse_text (fun _ => none) ⟨content, h⟩
  have hparsed := (parseINI_parsed (fun _ => none) h).symm.trans hm
  simp only [Option.some.injEq, Prod.mk.injEq, true_and] at hparsed
  rw [hparsed]
  exact hholds key value

theorem kept_append_torn (content : Bytes) (count : Nat) :
    kept content count ++ torn content count = lines (content.take count) :=
  List.prefix_iff_eq_append.mp <| List.dropLast_prefix _

theorem kept_append_lost (content : Bytes) (count : Nat) :
    kept content count ++ lost content count = lines content :=
  List.prefix_iff_eq_append.mp (isPrefix_dropLast_lines content count)

/-- A reading that stops early is harmless where it leads to the map of the whole file. -/
theorem harmless_stops_iff {c : Config} {path : Bytes} {content : Text} {count : Nat} :
    Harmless c path (.stops content count) ↔
      parsed (content.1.take count) = parsed content := by
  have htake : (content.1.take count).length < StringOps.npos :=
    Nat.lt_of_le_of_lt (List.length_take_le' _ _) content.2
  have hmaps : (∀ key value, parsed (content.1.take count) key = some value ↔
      parsed content.1 key = some value) ↔ parsed (content.1.take count) = parsed content := by
    constructor
    · exact fun h => funext fun key => Option.ext (h key)
    · intro h key value
      rw [h]
  rw [← hmaps]
  simp only [parsed_iff htake, parsed_iff content.2, ← kept_append_torn content.1 count,
    ← kept_append_lost content.1 count]
  rw [holds_append_iff]
  constructor
  · exact fun h key value => ⟨(h key value).2, (h key value).1⟩
  · exact fun h key value => ⟨(h key value).2, (h key value).1⟩

theorem load_fails (c : Config) (path : Bytes) :
    c.load path .openFails = some (false, { c with configFile := path }) := rfl

/-- Where the file opens, what has been read is parsed and the load returns true. -/
theorem load_reads (c : Config) (path : Bytes) {file : Reading} {content : Bytes}
    (hbuffer : file.buffer = some content) (h : content.length < StringOps.npos) :
    c.load path file = some (true, { configs := parsed content, configFile := path }) := by
  simp [Config.load, hbuffer, parseINI_parsed _ h]

theorem load_sound_iff (c : Config) (path : Bytes) (file : Reading) :
    AllOrNothing c path file (c.load path file) ↔ Harmless c path file := by
  cases file with
  | openFails =>
    rw [load_fails]
    simp [AllOrNothing, Reading.complete, Harmless, Config.ext_iff]
  | stops content count =>
    have htake : (content.1.take count).length < StringOps.npos :=
      Nat.lt_of_le_of_lt (List.length_take_le' _ _) content.2
    rw [load_reads c path rfl htake, harmless_stops_iff]
    simp [AllOrNothing, Reading.complete]
  | whole content =>
    rw [load_reads c path rfl content.2]
    simp [AllOrNothing, Reading.complete, Harmless]

theorem call_sound_iff (s : State) (a : Action) : CallSound s a ↔ HarmlessCall s a := by
  cases a with
  | load path file => simp [CallSound, HarmlessCall, loads, load_sound_iff]
  | reload file =>
    by_cases hpath : s.config.configFile = []
    · simp [CallSound, HarmlessCall, loads, hpath, AllOrNothing, Config.reload]
    · simp [CallSound, HarmlessCall, loads, hpath, Config.reload, load_sound_iff]
  | setValue key value => simp [CallSound, HarmlessCall, loads]

/-- The recorded path is that of the latest load that has returned true, or none. -/
structure Recorded (s : State) : Prop where
  path : s.config.configFile = s.latest.getD []
  named : s.latest ≠ some []

theorem reloadsLatest_of_recorded {s : State} (h : Recorded s) : ReloadsLatest s := by
  intro file
  cases hlatest : s.latest with
  | none =>
    have hpath : s.config.configFile = [] := by rw [h.path, hlatest, Option.getD_none]
    simp [Config.reload, hpath]
  | some path =>
    have hpath : s.config.configFile = path := by rw [h.path, hlatest, Option.getD_some]
    have hne : path ≠ [] := fun hnil => h.named (by rw [hlatest, hnil])
    simp [Config.reload, hpath, hne]

theorem recorded_of_load {s : State} {path : Bytes} {file : Reading} {result : Bool}
    {config : Config} (h : Recorded s)
    (hsound : AllOrNothing s.config path file (some (result, config)))
    (hnamed : path ≠ [] ∨ file.buffer = none) :
    Recorded { config := config, latest := if result then some path else s.latest } := by
  rcases hsound with ⟨content, hcomplete, hout⟩ | hout
  · cases hout
    have hne : path ≠ [] := by
      rcases hnamed with hne | hbuffer
      · exact hne
      · cases file <;> cases hcomplete <;> cases hbuffer
    exact ⟨rfl, by simpa using hne⟩
  · cases hout
    exact ⟨h.path, h.named⟩

/-- A sound call keeps the record. -/
theorem recorded_step (s : State) (a : Action) (s' : State) (h : Recorded s)
    (hsound : CallSound s a) (hstep : step s a = some s') : Recorded s' := by
  cases a with
  | setValue key value =>
    cases hstep
    exact ⟨h.path, h.named⟩
  | load path file =>
    simp only [CallSound] at hsound
    cases hreturned : s.config.load path file with
    | none => simp [step, returned, hreturned] at hstep
    | some out =>
      rw [hreturned] at hsound
      simp only [step, returned, loads, hreturned, Runs.guarded_eq_some] at hstep
      obtain ⟨hnamed, rfl⟩ := hstep
      exact recorded_of_load h hsound hnamed
  | reload file =>
    simp only [CallSound] at hsound
    by_cases hpath : s.config.configFile = []
    · simp [step, returned, loads, hpath, Config.reload] at hstep
      exact hstep ▸ h
    · cases hreturned : s.config.reload file with
      | none => simp [step, returned, hreturned] at hstep
      | some out =>
        rw [hreturned] at hsound
        simp only [step, returned, loads, hreturned, if_neg hpath, Runs.guarded_eq_some] at hstep
        obtain ⟨hnamed, rfl⟩ := hstep
        exact recorded_of_load h hsound hnamed

/-- The calls are all-or-nothing, and a reload reads the file of the latest successful load,
exactly in the runs of harmless calls. -/
theorem reloads_latest_iff {acts : List Action} :
    (Runs.Along step CallSound start acts ∧ Runs.Throughout step ReloadsLatest start acts) ↔
      Runs.Along step HarmlessCall start acts := by
  have hcalls : CallSound = HarmlessCall := funext fun s => funext fun a =>
    propext (call_sound_iff s a)
  rw [← hcalls]
  constructor
  · intro h
    exact h.1
  · intro hal
    have hstart : Recorded start := ⟨rfl, by simp [start]⟩
    have hrecorded := Runs.throughout_of_step Recorded recorded_step hstart hal
    exact ⟨hal, Runs.throughout_mono (fun _ hs => reloadsLatest_of_recorded hs) hrecorded⟩

/-- The file `b`, with the line `c=1`. -/
def oneSetting : Text := ⟨[0x63, equals, 0x31], by decide⟩

/-- After `a` is loaded and `b` cannot be opened, `reload` reads `b`; and a load of `b` that
reads none of its bytes returns true. -/
theorem load_not_all_or_nothing :
    (∃ s, Runs.exec step start [.load [0x61] (.whole oneSetting), .load [0x62] .openFails] =
        some s ∧ s.latest = some [0x61] ∧ s.config.configFile = [0x62] ∧ ¬ ReloadsLatest s) ∧
      ¬ CallSound start (.load [0x62] (.stops oneSetting 0)) := by
  constructor
  · refine ⟨⟨⟨parsed oneSetting, [0x62]⟩, some [0x61]⟩, ?_, rfl, rfl, ?_⟩
    · have hload := @load_reads start.config [0x61] (.whole oneSetting) _ rfl oneSetting.2
      simp only [Runs.exec, step, returned, hload, loads, load_fails]
      rfl
    · intro h
      have hpath := congrArg (Option.map (fun out => out.2.configFile)) (h .openFails)
      revert hpath
      decide
  · rw [call_sound_iff]
    intro h
    have hparsed := congrFun (harmless_stops_iff.mp (h _ _ rfl)) [0x63]
    revert hparsed
    decide

end ConfigReload
