import OrderEngine.CleanupEvent
import OrderEngine.Library.Runs

/-!
# Runs of the cleanup event and what they credit

A history keeps the database together with a ledger: which reservations the event
has moved from status 0 to status 3, and which quantities it has moved back to
the available stock of an inventory row. Between executions the tables may change,
but a reservation that has expired stays as it is.
-/
namespace CleanupRuns

open RowUpdate InventorySchema CleanupEvent

/-- The quantity of a reservation, moved back in one inventory row. -/
structure Credit where
  reservationId : String
  quantity : Nat
  deriving DecidableEq, Repr

/-- What the second statement moves back in a row. -/
def creditOf (choice : JoinChoice) (now : Nat) (db : Database) (row : InventoryRow) :
    Option Credit :=
  (choice.pick row (joined now db row)).map (fun r => ⟨r.reservationId, r.quantity.val⟩)

/-- What one execution moves back: nothing when its second statement fails. -/
def executionCredits (choice : JoinChoice) (now : Nat) (db : Database) : List Credit :=
  match updateInventory now (restoreClause choice now (released now db)) (released now db) with
  | .ok _ => db.inventory.rows.filterMap (creditOf choice now (released now db))
  | .error _ => []

structure History where
  db : Database
  clock : Nat
  expired : List String
  credits : List Credit

def History.start (db : Database) (clock : Nat) : History where
  db := db
  clock := clock
  expired := []
  credits := []

structure Execution where
  now : Nat
  choice : JoinChoice

/-- The reservations that an execution moves from status 0 to status 3. -/
def expiredIds (now : Nat) (db : Database) : List String :=
  (db.reservations.rows.filter (Expires now)).map ReservationRow.reservationId

def execute (h : History) (e : Execution) : History where
  db := cleanupExpiredReservations e.choice e.now h.db
  clock := e.now
  expired := h.expired ++ expiredIds e.now h.db
  credits := h.credits ++ executionCredits e.choice e.now h.db

/-- A change of the tables by others, which keeps the expired reservations. -/
def KeepsExpired (db db' : Database) : Prop :=
  ∀ r ∈ db.reservations.rows, r.status = 3 → r ∈ db'.reservations.rows

instance (db db' : Database) : Decidable (KeepsExpired db db') :=
  inferInstanceAs (Decidable (∀ r ∈ db.reservations.rows, _))

inductive Action where
  | execute (e : Execution)
  | change (db : Database)

def step (h : History) : Action → Option History
  | .execute e => if h.clock ≤ e.now then some (execute h e) else none
  | .change db => if KeepsExpired h.db db then some { h with db := db } else none

theorem step_cases {h h' : History} {a : Action} (hstep : step h a = some h') :
    (∃ e, a = .execute e ∧ h' = execute h e) ∨
    (∃ db, a = .change db ∧ KeepsExpired h.db db ∧ h' = { h with db := db }) := by
  cases a with
  | execute e =>
    simp only [step, Option.ite_none_right_eq_some, Option.some.injEq] at hstep
    exact .inl ⟨e, rfl, hstep.2.symm⟩
  | change db =>
    simp only [step, Option.ite_none_right_eq_some, Option.some.injEq] at hstep
    exact .inr ⟨db, rfl, hstep.1, hstep.2.symm⟩

/-- How often the quantity of a reservation was moved back, over all rows. -/
def timesCredited (id : String) (credits : List Credit) : Nat :=
  credits.countP (fun c => c.reservationId = id)

@[simp] theorem timesCredited_append (id : String) (first second : List Credit) :
    timesCredited id (first ++ second) = timesCredited id first + timesCredited id second :=
  List.countP_append

/-- Each reservation that the event expired has been credited once at most. -/
def CreditedOnce (h : History) : Prop := ∀ id ∈ h.expired, timesCredited id h.credits ≤ 1

instance (h : History) : Decidable (CreditedOnce h) :=
  inferInstanceAs (Decidable (∀ id ∈ h.expired, _))

/-- The rows after an execution, one by one: each has gained what was credited to it. -/
theorem credited_rows (choice : JoinChoice) (now : Nat) (db : Database) :
    (executionCredits choice now db = [] ∧
      (cleanupExpiredReservations choice now db).inventory = db.inventory) ∨
    (executionCredits choice now db =
        db.inventory.rows.filterMap (creditOf choice now (released now db)) ∧
      List.Forall₂ (fun row new =>
          match creditOf choice now (released now db) row with
          | none => new = row
          | some credit => Restores now credit.quantity row new)
        db.inventory.rows (cleanupExpiredReservations choice now db).inventory.rows) := by
  cases hup : updateInventory now (restoreClause choice now (released now db)) (released now db) with
  | error e =>
    refine .inl ⟨by simp only [executionCredits, hup], ?_⟩
    simp only [cleanupExpiredReservations, hup]
    rfl
  | ok result =>
    obtain ⟨after, n⟩ := result
    refine .inr ⟨by simp only [executionCredits, hup], ?_⟩
    simp only [cleanupExpiredReservations, hup]
    apply (updateInventory_rows hup).1.imp
    rintro row new ⟨logs, hnew⟩
    cases hpick : choice.pick row (joined now (released now db) row) with
    | none =>
      simp only [creditOf, hpick, Option.map_none]
      simp only [updateRow, restoreClause, hpick, Option.map_none, Except.ok.injEq,
        Prod.mk.injEq] at hnew
      exact hnew.1.symm
    | some r =>
      simp only [creditOf, hpick, Option.map_some]
      exact (updateRow_joined hpick hnew).1

/-- The stock that becomes available is the stock that the ledger records. -/
theorem credited_total (choice : JoinChoice) (now : Nat) (db : Database) :
    ((cleanupExpiredReservations choice now db).inventory.rows.map
        (fun row => row.availableStock.val)).sum =
      (db.inventory.rows.map (fun row => row.availableStock.val)).sum +
        ((executionCredits choice now db).map Credit.quantity).sum := by
  rcases credited_rows choice now db with ⟨hnone, hsame⟩ | ⟨hcredits, hrows⟩
  · simp [hnone, hsame]
  · rw [hcredits]
    generalize db.inventory.rows = rows at hrows ⊢
    generalize (cleanupExpiredReservations choice now db).inventory.rows = news at hrows ⊢
    induction hrows with
    | nil => rfl
    | @cons row new _ _ hhead _ ih =>
      cases hc : creditOf choice now (released now db) row with
      | none =>
        rw [hc] at hhead
        simp only [List.map_cons, List.sum_cons, List.filterMap_cons_none hc, ih, hhead]
        omega
      | some credit =>
        rw [hc] at hhead
        have hav := hhead.available
        simp only [List.map_cons, List.sum_cons, List.filterMap_cons_some hc, ih]
        omega

theorem executionCredits_sublist (choice : JoinChoice) (now : Nat) (db : Database) :
    (executionCredits choice now db).Sublist
      (db.inventory.rows.filterMap (creditOf choice now (released now db))) := by
  rcases credited_rows choice now db with ⟨hnone, _⟩ | ⟨hcredits, _⟩
  · simp [hnone]
  · simp [hcredits]

theorem creditOf_some {choice : JoinChoice} {now : Nat} {db : Database} {row : InventoryRow}
    {credit : Credit} (h : creditOf choice now db row = some credit) :
    ∃ r ∈ db.reservations.rows, r.reservationId = credit.reservationId ∧
      row.productId = r.productId ∧ JustExpired now r := by
  obtain ⟨r, hpick, rfl⟩ := Option.map_eq_some_iff.mp h
  obtain ⟨hr, hproduct, hjust⟩ := mem_joined.mp (choice.mem _ _ _ hpick)
  exact ⟨r, hr, rfl, hproduct, hjust⟩

/-- An execution credits a reservation only in the inventory rows of its product,
and only when it has just expired. -/
theorem timesCredited_execution_le (choice : JoinChoice) (now : Nat) {db : Database}
    {r : ReservationRow} (hr : r ∈ (released now db).reservations.rows) :
    timesCredited r.reservationId (executionCredits choice now db) ≤
      if JustExpired now r then (db.rowsOf r.productId).length else 0 := by
  have hle : timesCredited r.reservationId (executionCredits choice now db) ≤
      db.inventory.rows.countP (fun row => row.productId = r.productId ∧ JustExpired now r) :=
    calc timesCredited r.reservationId (executionCredits choice now db)
        ≤ timesCredited r.reservationId
            (db.inventory.rows.filterMap (creditOf choice now (released now db))) :=
          (executionCredits_sublist choice now db).countP_le
      _ ≤ db.inventory.rows.countP
            (fun row => row.productId = r.productId ∧ JustExpired now r) := by
          rw [timesCredited, List.countP_filterMap]
          apply List.countP_mono_left
          intro row _ hcounted
          cases hcredit : creditOf choice now (released now db) row with
          | none => simp [hcredit] at hcounted
          | some credit =>
            obtain ⟨s, hs, hid, hproduct, hjust⟩ := creditOf_some hcredit
            simp only [hcredit, Option.map_some, Option.getD_some, decide_eq_true_eq] at hcounted
            have hsame : s = r := Table.eq_of_key hs hr (hid.trans hcounted)
            rw [hsame] at hproduct hjust
            simp [hproduct, hjust]
  by_cases hjust : JustExpired now r
  · simpa [hjust, Database.rowsOf, List.countP_eq_length_filter] using hle
  · simpa [hjust] using hle

def Marked (db : Database) (id : String) : Prop :=
  ∃ r ∈ db.reservations.rows, r.reservationId = id ∧ r.status = 3

theorem releaseExpired_marked {now : Nat} {r : ReservationRow} (h : r.status = 3) :
    releaseExpired now r = r := by
  simp [releaseExpired, Expires, h]

theorem mem_released {now : Nat} {db : Database} {r : ReservationRow} :
    r ∈ (released now db).reservations.rows ↔
      ∃ s ∈ db.reservations.rows, releaseExpired now s = r := by
  simp [released]

theorem execute_reservations (h : History) (e : Execution) :
    (execute h e).db.reservations = (released e.now h.db).reservations :=
  (cleanup_cases e.choice e.now h.db).1

theorem marked_execute {h : History} {id : String} (e : Execution) (hm : Marked h.db id) :
    Marked (execute h e).db id := by
  obtain ⟨r, hr, hid, hstatus⟩ := hm
  refine ⟨r, ?_, hid, hstatus⟩
  rw [execute_reservations]
  exact mem_released.mpr ⟨r, hr, releaseExpired_marked hstatus⟩

theorem marked_of_expiredIds {h : History} {e : Execution} {id : String}
    (hid : id ∈ expiredIds e.now h.db) : Marked (execute h e).db id := by
  obtain ⟨r, hr, rfl⟩ := List.mem_map.mp hid
  obtain ⟨hmem, hexpires⟩ := List.mem_filter.mp hr
  refine ⟨releaseExpired e.now r, ?_, by simp, ?_⟩
  · rw [execute_reservations]
    exact mem_released.mpr ⟨r, hmem, rfl⟩
  · simp [releaseExpired, of_decide_eq_true hexpires]

theorem marked_of_credited {h : History} {e : Execution} {id : String}
    (hid : 0 < timesCredited id (executionCredits e.choice e.now h.db)) :
    Marked (execute h e).db id := by
  obtain ⟨credit, hcredit, hsame⟩ := List.countP_pos_iff.mp hid
  obtain ⟨row, _, hrow⟩ := List.mem_filterMap.mp
    ((executionCredits_sublist e.choice e.now h.db).subset hcredit)
  obtain ⟨r, hr, hrid, _, hjust⟩ := creditOf_some hrow
  refine ⟨r, ?_, by simpa [hrid] using hsame, hjust.1⟩
  rw [execute_reservations]
  exact hr

/-- The expired and the credited reservations are marked in the table, and none of
the expired ones is credited twice. -/
structure Ledger (h : History) : Prop where
  expired : ∀ id ∈ h.expired, Marked h.db id
  credited : ∀ id, 0 < timesCredited id h.credits → Marked h.db id
  once : CreditedOnce h

/-- An execution goes well when no reservation it credited before is still in the
window, unless no row of the inventory has its product, and when the product of
each reservation in the window has one row at most. -/
structure Clean (h : History) (now : Nat) : Prop where
  left : ∀ r ∈ h.db.reservations.rows, r.reservationId ∈ h.expired →
    0 < timesCredited r.reservationId h.credits → JustExpired now r →
      h.db.rowsOf r.productId = []
  single : ∀ r ∈ h.db.reservations.rows,
    Expires now r ∨ r.reservationId ∈ h.expired ∧ JustExpired now r →
      (h.db.rowsOf r.productId).length ≤ 1

def CleanStep (h : History) : Action → Prop
  | .execute e => Clean h e.now
  | .change _ => True

/-- A reservation that expires now has no credit yet. -/
theorem uncredited_of_expires {h : History} (hledger : Ledger h) {now : Nat} {r : ReservationRow}
    (hr : r ∈ h.db.reservations.rows) (hexpires : Expires now r) :
    timesCredited r.reservationId h.credits = 0 := by
  by_contra hne
  obtain ⟨s, hs, hid, hstatus⟩ := hledger.credited r.reservationId (by omega)
  have hsame : s = r := Table.eq_of_key hs hr hid
  rw [hsame, hexpires.1] at hstatus
  cases hstatus

theorem execute_once {h : History} {e : Execution} (hledger : Ledger h) (hclean : Clean h e.now) :
    CreditedOnce (execute h e) := by
  intro id hid
  simp only [execute, timesCredited_append]
  rcases List.mem_append.mp hid with hold | hnew
  · obtain ⟨r, hr, rfl, hstatus⟩ := hledger.expired id hold
    have hreleased : r ∈ (released e.now h.db).reservations.rows :=
      mem_released.mpr ⟨r, hr, releaseExpired_marked hstatus⟩
    have hle := timesCredited_execution_le e.choice e.now hreleased
    have honce := hledger.once _ hold
    by_cases hjust : JustExpired e.now r
    · simp only [hjust, if_true] at hle
      have hsingle := hclean.single r hr (.inr ⟨hold, hjust⟩)
      by_cases hcredited : 0 < timesCredited r.reservationId h.credits
      · have hnone := hclean.left r hr hold hcredited hjust
        rw [hnone, List.length_nil] at hle
        omega
      · omega
    · simp only [hjust, if_false] at hle
      omega
  · obtain ⟨r, hr, rfl⟩ := List.mem_map.mp hnew
    obtain ⟨hmem, hexpires⟩ := List.mem_filter.mp hr
    have hexpires := of_decide_eq_true hexpires
    have hreleased : releaseExpired e.now r ∈ (released e.now h.db).reservations.rows :=
      mem_released.mpr ⟨r, hmem, rfl⟩
    have hle := timesCredited_execution_le e.choice e.now hreleased
    have hsingle := hclean.single r hmem (.inl hexpires)
    have hzero := uncredited_of_expires hledger hmem hexpires
    simp only [releaseExpired_reservationId, releaseExpired_productId] at hle
    split at hle <;> omega

/-- A clean step keeps the ledger. -/
theorem ledger_step (h : History) (a : Action) (h' : History) (hledger : Ledger h)
    (hclean : CleanStep h a) (hstep : step h a = some h') : Ledger h' := by
  rcases step_cases hstep with ⟨e, rfl, rfl⟩ | ⟨db, rfl, hkeeps, rfl⟩
  · refine ⟨?_, ?_, execute_once hledger hclean⟩
    · intro id hid
      rcases List.mem_append.mp hid with hold | hnew
      · exact marked_execute e (hledger.expired id hold)
      · exact marked_of_expiredIds hnew
    · intro id hcount
      simp only [execute, timesCredited_append] at hcount
      by_cases hold : 0 < timesCredited id h.credits
      · exact marked_execute e (hledger.credited id hold)
      · exact marked_of_credited (by omega)
  · have hkeep : ∀ id, Marked h.db id → Marked db id := by
      rintro id ⟨r, hr, hid, hstatus⟩
      exact ⟨r, hkeeps r hr hstatus, hid, hstatus⟩
    exact ⟨fun id hid => hkeep id (hledger.expired id hid),
      fun id hid => hkeep id (hledger.credited id hid), hledger.once⟩

/-- In a run whose executions are all clean, no reservation that the event expires
is ever credited twice. -/
theorem credited_once {db : Database} {clock : Nat} {acts : List Action}
    (hclean : Runs.Along step CleanStep (.start db clock) acts) :
    Runs.Throughout step CreditedOnce (.start db clock) acts := by
  have hstart : Ledger (.start db clock) := by
    refine ⟨?_, ?_, ?_⟩ <;> simp [History.start, timesCredited, CreditedOnce]
  exact Runs.throughout_mono (fun _ hledger => hledger.once)
    (Runs.throughout_of_step Ledger ledger_step hstart hclean)

def executeAt (now : Nat) : Action := .execute ⟨now, firstMatch⟩

/-- Executions more than a minute apart are clean. -/
theorem credited_once_apart : Runs.Throughout step CreditedOnce (.start oneExpired 60)
    [executeAt 120, executeAt 181] :=
  credited_once ⟨⟨by decide, by decide⟩, fun _ hstep => by
    cases hstep
    exact ⟨⟨by decide, by decide⟩, fun _ _ => trivial⟩⟩

/-- Executions exactly a minute apart, as the event is scheduled, credit the same
reservation twice: the window is closed at its old end. -/
theorem credited_twice_in_a_minute : ∃ h,
    Runs.exec step (.start oneExpired 60) [executeAt 120, executeAt 180] = some h ∧
      ¬ CreditedOnce h :=
  ⟨_, rfl, by decide⟩

end CleanupRuns
