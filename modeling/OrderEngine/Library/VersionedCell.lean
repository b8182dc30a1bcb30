import OrderEngine.Library.Runs
import Mathlib.Algebra.BigOperators.Group.List.Basic
import Mathlib.Algebra.Order.Ring.Int
import Mathlib.Data.List.Nodup

/-!
# A cell updated by compare-and-swap on a version number

The cell carries a value, a version, and the clients whose compare-and-swap went
through, oldest first. A client names the version it expects; its update may be
refused by the value. Whatever the order of the attempts, the winners expected
consecutive versions, so no version is won twice, and the value is the replay of
the winners' updates.
-/
namespace VersionedCell

variable {Client Value : Type*}

structure Protocol (Client Value : Type*) where
  expected : Client → Nat
  apply : Client → Value → Option Value

structure Cell (Client Value : Type*) where
  value : Value
  version : Nat
  winners : List Client

/-- A cell which no client has updated yet. -/
def fresh (value : Value) (version : Nat) : Cell Client Value := ⟨value, version, []⟩

/-- Compare-and-swap: refused unless the version is the expected one and the
value admits the client's update. -/
def commit (P : Protocol Client Value) (c : Cell Client Value) (i : Client) :
    Option (Cell Client Value) :=
  if P.expected i = c.version then
    (P.apply i c.value).map (fun v => ⟨v, c.version + 1, c.winners ++ [i]⟩)
  else none

theorem commit_iff {P : Protocol Client Value} {c d : Cell Client Value} {i : Client} :
    commit P c i = some d ↔
      P.expected i = c.version ∧ ∃ v, P.apply i c.value = some v ∧
        d = ⟨v, c.version + 1, c.winners ++ [i]⟩ := by
  by_cases h : P.expected i = c.version
  · simp only [commit, h, if_true, Option.map_eq_some_iff, true_and]
    constructor
    · rintro ⟨v, hv, rfl⟩
      exact ⟨v, hv, rfl⟩
    · rintro ⟨v, hv, rfl⟩
      exact ⟨v, hv, rfl⟩
  · simp [commit, h]

/-- The winners expected the consecutive versions from the first one on. -/
def Consecutive (P : Protocol Client Value) (first : Nat) (c : Cell Client Value) : Prop :=
  c.winners.map P.expected = List.range' first c.winners.length ∧
    c.version = first + c.winners.length

theorem consecutive_commit {P : Protocol Client Value} {first : Nat}
    {c d : Cell Client Value} {i : Client}
    (h : Consecutive P first c) (hc : commit P c i = some d) : Consecutive P first d := by
  obtain ⟨hexp, v, hv, rfl⟩ := commit_iff.mp hc
  obtain ⟨hmap, hver⟩ := h
  constructor
  · simp only [List.map_append, hmap, List.map_cons, List.map_nil, hexp, hver,
      List.length_append, List.length_singleton]
    simp [List.range'_concat]
  · simp only [List.length_append, List.length_singleton, hver]
    omega

theorem consecutive_run {P : Protocol Client Value} {value : Value} {first : Nat}
    {c : Cell Client Value} {attempts : List Client}
    (hrun : Runs.exec (commit P) (fresh value first) attempts = some c) :
    Consecutive P first c :=
  Runs.invariant_exec (Consecutive P first)
    (fun _ _ _ h hc => consecutive_commit h hc) (by simp [Consecutive, fresh]) hrun

/-- No two winners expected the same version. -/
theorem winners_expected_nodup {P : Protocol Client Value} {first : Nat}
    {c : Cell Client Value} (h : Consecutive P first c) :
    (c.winners.map P.expected).Nodup := by
  rw [h.1]
  exact List.nodup_range'

theorem winners_nodup {P : Protocol Client Value} {first : Nat}
    {c : Cell Client Value} (h : Consecutive P first c) : c.winners.Nodup :=
  List.Nodup.of_map _ (winners_expected_nodup h)

theorem winner_unique {P : Protocol Client Value} {first : Nat} {c : Cell Client Value}
    (h : Consecutive P first c) {i j : Client} (hi : i ∈ c.winners) (hj : j ∈ c.winners)
    (he : P.expected i = P.expected j) : i = j :=
  List.inj_on_of_nodup_map (winners_expected_nodup h) hi hj he

/-- A quantity that every update moves by a fixed amount has moved by the sum of
the winners' amounts. -/
def Accounts (measure : Value → Int) (amount : Client → Int) (start : Int)
    (c : Cell Client Value) : Prop :=
  measure c.value = start + (c.winners.map amount).sum

theorem accounts_commit {P : Protocol Client Value} {measure : Value → Int}
    {amount : Client → Int} {start : Int}
    (hmove : ∀ i v w, P.apply i v = some w → measure w = measure v + amount i)
    {c d : Cell Client Value} {i : Client}
    (h : Accounts measure amount start c) (hc : commit P c i = some d) :
    Accounts measure amount start d := by
  obtain ⟨_, v, hv, rfl⟩ := commit_iff.mp hc
  have hm := hmove i c.value v hv
  simp only [Accounts, List.map_append, List.map_cons, List.map_nil, List.sum_append,
    List.sum_cons, List.sum_nil] at h ⊢
  omega

theorem accounts_run {P : Protocol Client Value} (measure : Value → Int)
    (amount : Client → Int)
    (hmove : ∀ i v w, P.apply i v = some w → measure w = measure v + amount i)
    {value : Value} {first : Nat} {c : Cell Client Value} {attempts : List Client}
    (hrun : Runs.exec (commit P) (fresh value first) attempts = some c) :
    Accounts measure amount (measure value) c :=
  Runs.invariant_exec (Accounts measure amount (measure value))
    (fun _ _ _ h hc => accounts_commit hmove h hc) (by simp [Accounts, fresh]) hrun

end VersionedCell
