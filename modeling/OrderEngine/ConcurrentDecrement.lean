import OrderEngine.Library.VersionedCell
import OrderEngine.DecrementInventory
import Mathlib.Algebra.BigOperators.Group.Finset.Basic
import Mathlib.Algebra.BigOperators.Ring.Finset
import Mathlib.Data.Fintype.Basic

/-!
# Concurrent DecrementInventory calls on one inventory row

Each call is split where other transactions can come in between: the start of
its transaction, the snapshot SELECT, the checks, and the UPDATE with its COMMIT.
The snapshot may be any state committed since the transaction began; the update
locks the row and works on the latest committed one. The rows that the calls win
are those of a versioned cell, the abstract compare-and-swap, and the stock
accounts follow from the cell's.
-/
namespace ConcurrentDecrement

open InventorySchema DecrementInventory

variable {Client : Type*}

/-- What one caller asks for. -/
structure Demand where
  quantity : IntUnsigned
  expectedVersion : IntUnsigned

inductive Phase where
  | idle
  | begun (since : Nat)
  | selected (currentAvailable currentVersion : Nat)
  | checked
  | returned (result : Int)
  deriving DecidableEq, Repr

/-- The committed states of the row, with the superseded ones newest first, and
the program point of every call. -/
structure State (Client : Type*) where
  latest : InventoryRow
  past : List InventoryRow
  phase : Client → Phase

/-- Nothing committed yet but the given row, and no call begun. -/
def start (row : InventoryRow) : State Client := ⟨row, [], fun _ => .idle⟩

/-- The abstract stock: available and reserved, moved by a client's quantity. -/
def protocol (demands : Client → Demand) : VersionedCell.Protocol Client (Nat × Nat) where
  expected i := (demands i).expectedVersion.val
  apply i stock :=
    if (demands i).quantity.val ≤ stock.1 then
      some (stock.1 - (demands i).quantity.val, stock.2 + (demands i).quantity.val)
    else none

/-- The calls that returned 0 are the winners of the cell, whose value and
version are those of the latest committed row. -/
structure Refines (s : State Client) (c : VersionedCell.Cell Client (Nat × Nat)) : Prop where
  value : c.value = (s.latest.availableStock.val, s.latest.reservedStock.val)
  version : c.version = s.latest.version.val
  winners : ∀ i, i ∈ c.winners ↔ s.phase i = .returned 0

theorem refines_start (row : InventoryRow) :
    Refines (start row : State Client)
      (VersionedCell.fresh (row.availableStock.val, row.reservedStock.val) row.version.val) :=
  ⟨rfl, rfl, by simp [start, VersionedCell.fresh]⟩

/-- A commit takes its quantity from the available stock and adds it to the reserved. -/
theorem protocol_moves {demands : Client → Demand} {i : Client} {v w : Nat × Nat}
    (h : (protocol demands).apply i v = some w) :
    -(w.1 : Int) = -v.1 + (demands i).quantity.val ∧
      (w.2 : Int) = v.2 + (demands i).quantity.val := by
  by_cases hle : (demands i).quantity.val ≤ v.1
  · simp only [protocol, hle, if_true, Option.some.injEq] at h
    subst h
    simp only
    omega
  · simp [protocol, hle] at h

/-- A step of one call that commits nothing: what a snapshot gave is a committed
state, and the checks passed on what the snapshot gave. -/
structure Advances (demands : Client → Demand) (s : State Client) (i : Client) (p : Phase) :
    Prop where
  before : s.phase i ≠ .returned 0
  after : p ≠ .returned 0
  snapshot : ∀ available version, p = .selected available version →
    ∃ row ∈ s.latest :: s.past, row.availableStock.val = available ∧ row.version.val = version
  passed : p = .checked → ∃ available, s.phase i =
      .selected available (demands i).expectedVersion.val ∧
    (demands i).quantity.val ≤ available

/-- Steps that end a call early need no more than that the result is not 0. -/
theorem advances_returned {demands : Client → Demand} {s : State Client} {i : Client}
    {result : Int} (hp : s.phase i ≠ .returned 0) (hr : result ≠ 0) :
    Advances demands s i (.returned result) :=
  ⟨hp, by simpa using hr, by simp, by simp⟩

/-- The committed states differ in their versions, and what a call read or checked
belongs to one of them. -/
structure Snapshots (demands : Client → Demand) (s : State Client) : Prop where
  falling : (s.latest :: s.past).Pairwise (fun newer older => older.version.val < newer.version.val)
  selected : ∀ i available version, s.phase i = .selected available version →
    ∃ row ∈ s.latest :: s.past, row.availableStock.val = available ∧ row.version.val = version
  checked : ∀ i, s.phase i = .checked → ∃ row ∈ s.latest :: s.past,
    row.version.val = (demands i).expectedVersion.val ∧
      (demands i).quantity.val ≤ row.availableStock.val

/-- The version predicate of the update ties the possibly stale check to the row
that is really changed: where the versions agree, the quantity is still there. -/
theorem checked_fits {demands : Client → Demand} {s : State Client} {i : Client}
    (hs : Snapshots demands s) (hp : s.phase i = .checked)
    (hv : s.latest.version = (demands i).expectedVersion) :
    (demands i).quantity.val ≤ s.latest.availableStock.val := by
  obtain ⟨row, hrow, hversion, hroom⟩ := hs.checked i hp
  rcases List.mem_cons.mp hrow with rfl | hpast
  · exact hroom
  · have hlt := (List.pairwise_cons.mp hs.falling).1 row hpast
    rw [hv, hversion] at hlt
    omega

variable [DecidableEq Client]

def State.setPhase (s : State Client) (i : Client) (p : Phase) : State Client :=
  { s with phase := Function.update s.phase i p }

/-- The update of one call became the latest committed state, and the call returned 0. -/
def State.commit (s : State Client) (i : Client) (new : InventoryRow) : State Client :=
  { latest := new, past := s.latest :: s.past, phase := Function.update s.phase i (.returned 0) }

inductive Action (Client : Type*) where
  | start (i : Client)
  | select (i : Client) (back : Nat)
  | check (i : Client)
  | update (i : Client) (now : Nat)
  | abort (i : Client)

/-- The call of a client on the row's product. -/
def callOf (row : InventoryRow) (d : Demand) : Call :=
  ⟨row.productId, d.quantity, d.expectedVersion⟩

/-- One step of one call. A lock wait that times out or deadlocks reaches the
exit handler at any point before the call has returned. -/
def step (demands : Client → Demand) (s : State Client) : Action Client → Option (State Client)
  | .start i =>
    if s.phase i = .idle then some (s.setPhase i (.begun s.past.length)) else none
  | .select i back =>
    match s.phase i with
    | .begun since =>
      -- the states committed since the start are the latest and those it superseded
      if back ≤ s.past.length - since then
        ((s.latest :: s.past)[back]?).map (fun row =>
          s.setPhase i (.selected row.availableStock.val row.version.val))
      else none
    | _ => none
  | .check i =>
    match s.phase i with
    | .selected currentAvailable currentVersion =>
      match checkStock (callOf s.latest (demands i)) currentAvailable currentVersion with
      | some reply => some (s.setPhase i (.returned reply.result))
      | none => some (s.setPhase i .checked)
    | _ => none
  | .update i now =>
    match s.phase i with
    | .checked =>
      match (decrementClause (callOf s.latest (demands i)) now).set s.latest with
      | none => some (s.setPhase i (.returned 3))
      | some (.error _) => some (s.setPhase i (.returned (-1)))
      | some (.ok new) => some (s.commit i new)
    | _ => none
  | .abort i =>
    match s.phase i with
    | .begun _ | .selected _ _ | .checked => some (s.setPhase i (.returned (-1)))
    | _ => none

theorem select_advances {demands : Client → Demand} {s t : State Client} {i : Client}
    {back : Nat} (h : step demands s (.select i back) = some t) :
    ∃ p, Advances demands s i p ∧ t = s.setPhase i p := by
  cases hp : s.phase i with
  | begun since =>
    by_cases hb : back ≤ s.past.length - since
    · simp only [step, hp, hb, if_true, Option.map_eq_some_iff] at h
      obtain ⟨row, hrow, rfl⟩ := h
      refine ⟨_, ⟨by simp [hp], by simp, ?_, by simp⟩, rfl⟩
      intro available version he
      cases he
      exact ⟨row, List.mem_of_getElem? hrow, rfl, rfl⟩
    · simp [step, hp, hb] at h
  | _ => simp [step, hp] at h

theorem check_advances {demands : Client → Demand} {s t : State Client} {i : Client}
    (h : step demands s (.check i) = some t) :
    ∃ p, Advances demands s i p ∧ t = s.setPhase i p := by
  cases hp : s.phase i with
  | selected available version =>
    cases hc : checkStock (callOf s.latest (demands i)) available version with
    | some reply =>
      simp only [step, hp, hc, Option.some.injEq] at h
      exact ⟨_, advances_returned (by simp [hp]) (checkStock_nonzero hc), h.symm⟩
    | none =>
      simp only [step, hp, hc, Option.some.injEq] at h
      obtain ⟨hversion, hroom⟩ := checkStock_none_iff.mp hc
      refine ⟨_, ⟨by simp [hp], by simp, by simp, ?_⟩, h.symm⟩
      intro _
      exact ⟨available, by rw [hp, hversion]; rfl, hroom⟩
  | _ => simp [step, hp] at h

theorem update_cases {demands : Client → Demand} {s t : State Client} {i : Client} {now : Nat}
    (h : step demands s (.update i now) = some t) :
    (∃ p, Advances demands s i p ∧ t = s.setPhase i p) ∨
    (∃ new, s.phase i = .checked ∧ s.latest.version = (demands i).expectedVersion ∧
      Decrements (callOf s.latest (demands i)) now s.latest new ∧ t = s.commit i new) := by
  cases hp : s.phase i with
  | checked =>
    have hbefore : s.phase i ≠ .returned 0 := by simp [hp]
    by_cases hv : s.latest.version = (demands i).expectedVersion
    · have hset : (decrementClause (callOf s.latest (demands i)) now).set s.latest =
          some (decrementStock (callOf s.latest (demands i)) now s.latest) := by
        simp [decrementClause, callOf, hv]
      cases hd : decrementStock (callOf s.latest (demands i)) now s.latest with
      | error e =>
        simp only [step, hp, hset, hd, Option.some.injEq] at h
        exact .inl ⟨_, advances_returned hbefore (by decide), h.symm⟩
      | ok new =>
        simp only [step, hp, hset, hd, Option.some.injEq] at h
        exact .inr ⟨new, rfl, hv, decrementStock_ok_iff.mp hd, h.symm⟩
    · have hset : (decrementClause (callOf s.latest (demands i)) now).set s.latest = none := by
        simp [decrementClause, callOf, hv]
      simp only [step, hp, hset, Option.some.injEq] at h
      exact .inl ⟨_, advances_returned hbefore (by decide), h.symm⟩
  | _ => simp [step, hp] at h

/-- A step moves one call on without touching the row or reporting success, or it
commits the decrement of the latest row at the version the call expects. -/
theorem step_cases {demands : Client → Demand} {s t : State Client} {a : Action Client}
    (h : step demands s a = some t) :
    (∃ i p, Advances demands s i p ∧ t = s.setPhase i p) ∨
    (∃ i now new, s.phase i = .checked ∧ s.latest.version = (demands i).expectedVersion ∧
      Decrements (callOf s.latest (demands i)) now s.latest new ∧ t = s.commit i new) := by
  cases a with
  | start i =>
    by_cases hp : s.phase i = .idle
    · simp only [step, hp, if_true, Option.some.injEq] at h
      exact .inl ⟨i, _, ⟨by simp [hp], by simp, by simp, by simp⟩, h.symm⟩
    · simp [step, hp] at h
  | select i back => exact .inl ⟨i, select_advances h⟩
  | check i => exact .inl ⟨i, check_advances h⟩
  | update i now =>
    rcases update_cases h with hstay | ⟨new, hcommit⟩
    · exact .inl ⟨i, hstay⟩
    · exact .inr ⟨i, now, new, hcommit⟩
  | abort i =>
    cases hp : s.phase i with
    | idle => simp [step, hp] at h
    | returned result => simp [step, hp] at h
    | _ =>
      simp only [step, hp, Option.some.injEq] at h
      exact .inl ⟨i, _, advances_returned (by simp [hp]) (by decide), h.symm⟩

/-- Every step of a call is one compare-and-swap of the cell or none. -/
theorem refines_step {demands : Client → Demand} (s : State Client) (a : Action Client)
    (t : State Client) (c : VersionedCell.Cell Client (Nat × Nat)) (hR : Refines s c)
    (h : step demands s a = some t) :
    Refines t c ∨
      ∃ i d, VersionedCell.commit (protocol demands) c i = some d ∧ Refines t d := by
  rcases step_cases h with ⟨i, p, hp, rfl⟩ | ⟨i, now, new, hp, hv, hd, rfl⟩
  · refine .inl ⟨hR.value, hR.version, ?_⟩
    intro j
    by_cases hj : j = i
    · subst j
      simp [State.setPhase, hR.winners i, hp.before, hp.after]
    · simpa [State.setPhase, hj] using hR.winners j
  · have havailable := hd.available
    have hreserved := hd.reserved
    have hversion := hd.version
    simp only [callOf] at havailable hreserved
    refine .inr ⟨i, ⟨(new.availableStock.val, new.reservedStock.val), new.version.val,
      c.winners ++ [i]⟩, ?_, rfl, rfl, ?_⟩
    · rw [VersionedCell.commit_iff]
      refine ⟨by simp [protocol, hR.version, hv], _, ?_, by rw [hversion, hR.version]⟩
      have hle : (demands i).quantity.val ≤ s.latest.availableStock.val := by omega
      simp only [protocol, hR.value, hle, if_true, Option.some.injEq, Prod.mk.injEq]
      omega
    · intro j
      by_cases hj : j = i
      · subst j
        simp [State.commit]
      · simpa [State.commit, hj] using hR.winners j

/-- Every run of the calls is a run of the cell. -/
theorem run_refines {demands : Client → Demand} {row : InventoryRow} {s : State Client}
    {acts : List (Action Client)} (hrun : Runs.exec (step demands) (start row) acts = some s) :
    ∃ attempts c, Runs.exec (VersionedCell.commit (protocol demands))
        (VersionedCell.fresh (row.availableStock.val, row.reservedStock.val) row.version.val)
        attempts = some c ∧ Refines s c :=
  Runs.simulate_exec Refines refines_step (refines_start row) hrun

/-- The quantities of the calls that have returned 0. -/
def taken [Fintype Client] (demands : Client → Demand) (s : State Client) : Nat :=
  ∑ i with s.phase i = .returned 0, (demands i).quantity.val

theorem taken_winners [Fintype Client] (demands : Client → Demand) {s : State Client}
    {c : VersionedCell.Cell Client (Nat × Nat)} (hR : Refines s c) (hn : c.winners.Nodup) :
    (c.winners.map (fun i => (demands i).quantity.val)).sum = taken demands s := by
  have hset : c.winners.toFinset = Finset.univ.filter (fun i => s.phase i = .returned 0) := by
    ext i
    simp [hR.winners i]
  rw [taken, ← hset, List.sum_toFinset _ hn]

theorem snapshots_advance {demands : Client → Demand} {s : State Client} {i : Client} {p : Phase}
    (hs : Snapshots demands s) (hp : Advances demands s i p) :
    Snapshots demands (s.setPhase i p) := by
  refine ⟨hs.falling, ?_, ?_⟩
  · intro j available version hj
    by_cases he : j = i
    · subst he
      simp only [State.setPhase, Function.update_self] at hj
      exact hp.snapshot available version hj
    · simp only [State.setPhase, ne_eq, he, not_false_eq_true, Function.update_of_ne] at hj
      exact hs.selected j available version hj
  · intro j hj
    by_cases he : j = i
    · subst he
      simp only [State.setPhase, Function.update_self] at hj
      obtain ⟨available, hphase, hroom⟩ := hp.passed hj
      obtain ⟨row, hrow, hav, hver⟩ := hs.selected j _ _ hphase
      exact ⟨row, hrow, hver, by omega⟩
    · simp only [State.setPhase, ne_eq, he, not_false_eq_true, Function.update_of_ne] at hj
      exact hs.checked j hj

theorem snapshots_commit {demands : Client → Demand} {s : State Client} {i : Client}
    {new : InventoryRow} (hs : Snapshots demands s)
    (hversion : new.version.val = s.latest.version.val + 1) :
    Snapshots demands (s.commit i new) := by
  refine ⟨?_, ?_, ?_⟩
  · refine List.pairwise_cons.mpr ⟨?_, hs.falling⟩
    intro row hrow
    simp only [State.commit] at hrow ⊢
    rcases List.mem_cons.mp hrow with rfl | hpast
    · omega
    · have := (List.pairwise_cons.mp hs.falling).1 row hpast
      omega
  · intro j available version hj
    by_cases he : j = i
    · subst he
      simp [State.commit] at hj
    · simp only [State.commit, ne_eq, he, not_false_eq_true, Function.update_of_ne] at hj
      obtain ⟨row, hrow, hrest⟩ := hs.selected j available version hj
      exact ⟨row, List.mem_cons_of_mem _ hrow, hrest⟩
  · intro j hj
    by_cases he : j = i
    · subst he
      simp [State.commit] at hj
    · simp only [State.commit, ne_eq, he, not_false_eq_true, Function.update_of_ne] at hj
      obtain ⟨row, hrow, hrest⟩ := hs.checked j hj
      exact ⟨row, List.mem_cons_of_mem _ hrow, hrest⟩

theorem snapshots_step {demands : Client → Demand} (s : State Client) (a : Action Client)
    (t : State Client) (hs : Snapshots demands s) (h : step demands s a = some t) :
    Snapshots demands t := by
  rcases step_cases h with ⟨i, p, hp, rfl⟩ | ⟨i, now, new, hp, hv, hd, rfl⟩
  · exact snapshots_advance hs hp
  · exact snapshots_commit hs hd.version

theorem snapshots_run {demands : Client → Demand} {row : InventoryRow} {s : State Client}
    {acts : List (Action Client)} (hrun : Runs.exec (step demands) (start row) acts = some s) :
    Snapshots demands s :=
  Runs.invariant_exec (Snapshots demands) snapshots_step
    ⟨by simp [start], by simp [start], by simp [start]⟩ hrun

/-- In every state of every interleaving the stock that the successful calls took
is what the row has lost, no two of them expected the same version, and no update
that finds its version asks for more than there is. -/
theorem no_oversell [Fintype Client] {demands : Client → Demand} {row : InventoryRow}
    {s : State Client} {acts : List (Action Client)}
    (hrun : Runs.exec (step demands) (start row) acts = some s) :
    taken demands s ≤ row.availableStock.val ∧
      s.latest.availableStock.val = row.availableStock.val - taken demands s ∧
      s.latest.reservedStock.val = row.reservedStock.val + taken demands s ∧
      (∀ i j, s.phase i = .returned 0 → s.phase j = .returned 0 →
        (demands i).expectedVersion = (demands j).expectedVersion → i = j) ∧
      (∀ i, s.phase i = .checked → s.latest.version = (demands i).expectedVersion →
        (demands i).quantity.val ≤ s.latest.availableStock.val) := by
  obtain ⟨attempts, c, hcell, hR⟩ := run_refines hrun
  have hconsecutive := VersionedCell.consecutive_run hcell
  have htaken := taken_winners demands hR (VersionedCell.winners_nodup hconsecutive)
  have hcast : (c.winners.map (fun i => ((demands i).quantity.val : Int))).sum =
      (taken demands s : Int) := by
    rw [← htaken, Nat.cast_list_sum, List.map_map]
    rfl
  have havailable := VersionedCell.accounts_run (fun v : Nat × Nat => -(v.1 : Int))
    (fun i => ((demands i).quantity.val : Int))
    (fun i v w h => (protocol_moves h).1) hcell
  have hreserved := VersionedCell.accounts_run (fun v : Nat × Nat => (v.2 : Int))
    (fun i => ((demands i).quantity.val : Int))
    (fun i v w h => (protocol_moves h).2) hcell
  simp only [VersionedCell.Accounts, hcast, hR.value] at havailable hreserved
  refine ⟨by omega, by omega, by omega, ?_, fun i => checked_fits (snapshots_run hrun)⟩
  intro i j hi hj he
  exact VersionedCell.winner_unique hconsecutive ((hR.winners i).mpr hi) ((hR.winners j).mpr hj)
    (congrArg IntUnsigned.val he)

def onePiece : Demand := ⟨⟨1, by decide⟩, seedPhone.version⟩

def staleSnapshot : List (Action (Fin 2)) :=
  [.start 0, .start 1, .select 0 0, .check 0, .update 0 10, .select 1 1, .check 1, .update 1 11]

/-- Two callers ask for one piece at version 0. The second reads a snapshot that
the first has already superseded, passes its checks, and loses the update. -/
theorem no_oversell_stale_snapshot :
    ∃ s, Runs.exec (step (fun _ => onePiece)) (start seedPhone) staleSnapshot = some s ∧
      s.phase 0 = .returned 0 ∧ s.phase 1 = .returned 3 ∧
      s.latest.availableStock.val = 900 - taken (fun _ => onePiece) s := by
  refine ⟨_, rfl, rfl, rfl, ?_⟩
  have hrun : Runs.exec (step (fun _ => onePiece)) (start seedPhone) staleSnapshot = some _ := rfl
  exact (no_oversell hrun).2.1

end ConcurrentDecrement
