import OrderEngine.InventorySchema
import Mathlib.Algebra.BigOperators.Group.List.Basic

/-!
# The event cleanup_expired_reservations

Two UPDATE statements under autocommit. The first marks the reservations that
have expired; the second joins inventory to the marked reservations of the last
minute and moves their quantities back. A multi-table UPDATE changes each matching
row once, whatever the number of joined pairs, and which pair it takes is left
open.
-/
namespace CleanupEvent

open RowUpdate InventorySchema

/-- The joined reservation that an inventory row is updated with. -/
structure JoinChoice where
  pick : InventoryRow → List ReservationRow → Option ReservationRow
  mem : ∀ row rs r, pick row rs = some r → r ∈ rs
  total : ∀ row rs, rs ≠ [] → ∃ r, pick row rs = some r

/-- The first joined pair in the order of the reservation table. -/
def firstMatch : JoinChoice where
  pick _ rs := rs.head?
  mem _ _ _ h := List.mem_of_head? h
  total _ rs h := by
    cases rs with
    | nil => exact absurd rfl h
    | cons r rest => exact ⟨r, rfl⟩

/-- The given reservation wherever it is joined, else the first pair. -/
def preferring (favourite : ReservationRow) : JoinChoice where
  pick _ rs := if favourite ∈ rs then some favourite else rs.head?
  mem row rs r h := by
    split at h
    · cases h
      assumption
    · exact List.mem_of_head? h
  total row rs h := by
    split
    · exact ⟨_, rfl⟩
    · exact firstMatch.total row rs h

/-- `status = 0 AND expire_time < CURRENT_TIMESTAMP`. -/
def Expires (now : Nat) (r : ReservationRow) : Prop := r.status = 0 ∧ r.expireTime < now

instance (now : Nat) (r : ReservationRow) : Decidable (Expires now r) :=
  inferInstanceAs (Decidable (_ ∧ _))

/-- `SET status = 3, updated_at = CURRENT_TIMESTAMP` on the rows that expire. -/
def releaseExpired (now : Nat) (r : ReservationRow) : ReservationRow :=
  if Expires now r then { r with status := 3, updatedAt := now } else r

@[simp] theorem releaseExpired_reservationId (now : Nat) (r : ReservationRow) :
    (releaseExpired now r).reservationId = r.reservationId := by
  by_cases h : Expires now r <;> simp [releaseExpired, h]

@[simp] theorem releaseExpired_productId (now : Nat) (r : ReservationRow) :
    (releaseExpired now r).productId = r.productId := by
  by_cases h : Expires now r <;> simp [releaseExpired, h]

@[simp] theorem releaseExpired_quantity (now : Nat) (r : ReservationRow) :
    (releaseExpired now r).quantity = r.quantity := by
  by_cases h : Expires now r <;> simp [releaseExpired, h]

/-- The table after the first statement. -/
def released (now : Nat) (db : Database) : Database :=
  { db with reservations :=
      db.reservations.mapRows (releaseExpired now) (releaseExpired_reservationId now) }

/-- `r.status = 3 AND r.updated_at >= DATE_SUB(CURRENT_TIMESTAMP, INTERVAL 1 MINUTE)`,
in seconds. -/
def JustExpired (now : Nat) (r : ReservationRow) : Prop := r.status = 3 ∧ now - 60 ≤ r.updatedAt

instance (now : Nat) (r : ReservationRow) : Decidable (JustExpired now r) :=
  inferInstanceAs (Decidable (_ ∧ _))

/-- The reservations that the second statement joins to an inventory row. -/
def joined (now : Nat) (db : Database) (row : InventoryRow) : List ReservationRow :=
  db.reservations.rows.filter (fun r => row.productId = r.productId ∧ JustExpired now r)

theorem mem_joined {now : Nat} {db : Database} {row : InventoryRow} {r : ReservationRow} :
    r ∈ joined now db row ↔
      r ∈ db.reservations.rows ∧ row.productId = r.productId ∧ JustExpired now r := by
  simp [joined]

/-- The SET clause of the second statement. -/
def restoreStock (now : Nat) (r : ReservationRow) (row : InventoryRow) :
    Except SqlError InventoryRow := do
  let availableStock ← storeUnsigned (row.availableStock.val + r.quantity.val)
  let reserved ← unsignedSub row.reservedStock.val r.quantity.val
  let reservedStock ← storeUnsigned reserved
  return { row with
    availableStock := availableStock
    reservedStock := reservedStock
    updatedAt := now }

/-- The quantity moved from the reserved to the available stock of a row. -/
structure Restores (now : Nat) (quantity : Nat) (row new : InventoryRow) : Prop where
  available : new.availableStock.val = row.availableStock.val + quantity
  reserved : new.reservedStock.val + quantity = row.reservedStock.val
  rest : new = { row with
    availableStock := new.availableStock
    reservedStock := new.reservedStock
    updatedAt := now }

theorem restoreStock_ok_iff {now : Nat} {r : ReservationRow} {row new : InventoryRow} :
    restoreStock now r row = .ok new ↔ Restores now r.quantity.val row new := by
  simp only [restoreStock, bind_ok_iff, unsignedSub_ok_iff, storeUnsigned_ok_iff, pure,
    Except.pure, Except.ok.injEq]
  constructor
  · rintro ⟨availableStock, hav, reserved, hsub, reservedStock, hres, rfl⟩
    exact ⟨hav, by simp only; omega, rfl⟩
  · intro h
    exact ⟨new.availableStock, h.available, new.reservedStock.val, h.reserved,
      new.reservedStock, rfl, h.rest.symm⟩

theorem restoreStock_exists (now : Nat) {r : ReservationRow} {row : InventoryRow}
    (hav : row.availableStock.val + r.quantity.val < 2 ^ 32)
    (hres : r.quantity.val ≤ row.reservedStock.val) :
    ∃ new, restoreStock now r row = .ok new := by
  have hlt := row.reservedStock.lt
  refine ⟨{ row with
    availableStock := ⟨row.availableStock.val + r.quantity.val, hav⟩
    reservedStock := ⟨row.reservedStock.val - r.quantity.val, by omega⟩
    updatedAt := now }, restoreStock_ok_iff.mpr ⟨rfl, ?_, rfl⟩⟩
  simp only
  omega

/-- `UPDATE inventory i INNER JOIN inventory_reservations r … SET … WHERE …`. -/
def restoreClause (choice : JoinChoice) (now : Nat) (db : Database) : UpdateClause where
  set row := (choice.pick row (joined now db row)).map (fun r => restoreStock now r row)
  keeps row new h := by
    obtain ⟨r, _, hr⟩ := Option.map_eq_some_iff.mp h
    have hrestores := restoreStock_ok_iff.mp hr
    rw [hrestores.rest]
    exact ⟨rfl, rfl⟩

/-- One execution of the event. Each statement is a transaction of its own, so an
error in the second undoes the second only. -/
def cleanupExpiredReservations (choice : JoinChoice) (now : Nat) (db : Database) : Database :=
  match updateInventory now (restoreClause choice now (released now db)) (released now db) with
  | .ok (after, _) => after
  | .error _ => released now db

/-- Where the second statement fails, the first stands. -/
theorem cleanup_failed {choice : JoinChoice} {now : Nat} {db : Database}
    (h : ¬ ∃ result, updateInventory now (restoreClause choice now (released now db))
      (released now db) = .ok result) :
    cleanupExpiredReservations choice now db = released now db := by
  unfold cleanupExpiredReservations
  split
  · rename_i after changed hup
    exact absurd ⟨_, hup⟩ h
  · rfl

/-- A row to which no reservation is joined stays as it is. -/
theorem updateRow_unjoined {choice : JoinChoice} {now : Nat} {db : Database} {row : InventoryRow}
    (h : joined now db row = []) :
    updateRow now (restoreClause choice now db) row = .ok (row, []) := by
  have hpick : choice.pick row [] = none := by
    cases hp : choice.pick row [] with
    | none => rfl
    | some r => simpa using choice.mem row [] r hp
  simp [updateRow, restoreClause, h, hpick]

/-- What the update of a joined row gives. -/
theorem updateRow_joined {choice : JoinChoice} {now : Nat} {db : Database} {row new : InventoryRow}
    {r : ReservationRow} {logs : List LogRow}
    (hpick : choice.pick row (joined now db row) = some r)
    (h : updateRow now (restoreClause choice now db) row = .ok (new, logs)) :
    Restores now r.quantity.val row new ∧ r.quantity.val < 2147483648 := by
  have hset : (restoreClause choice now db).set row = some (restoreStock now r row) := by
    simp [restoreClause, hpick]
  cases hr : restoreStock now r row with
  | error e => simp [updateRow, hset, hr] at h
  | ok restored =>
    cases ht : trInventoryUpdateLog now row restored with
    | error e => simp [updateRow, hset, hr, ht] at h
    | ok log =>
      simp only [updateRow, hset, hr, ht, Except.ok.injEq, Prod.mk.injEq] at h
      have hrestores := restoreStock_ok_iff.mp hr
      have htrigger := (trigger_ok_iff now row restored).mp ⟨log, ht⟩
      have hav := hrestores.available
      rw [← h.1]
      exact ⟨hrestores, by omega⟩

theorem updateRow_joined_exists {choice : JoinChoice} {now : Nat} {db : Database}
    {row : InventoryRow} {r : ReservationRow}
    (hpick : choice.pick row (joined now db row) = some r)
    (hav : row.availableStock.val + r.quantity.val < 2 ^ 32)
    (hres : r.quantity.val ≤ row.reservedStock.val) (hfit : r.quantity.val < 2147483648) :
    ∃ p, updateRow now (restoreClause choice now db) row = .ok p := by
  have hset : (restoreClause choice now db).set row = some (restoreStock now r row) := by
    simp [restoreClause, hpick]
  obtain ⟨new, hnew⟩ := restoreStock_exists now hav hres
  have hmoved := (restoreStock_ok_iff.mp hnew).available
  obtain ⟨log, ht⟩ := (trigger_ok_iff now row new).mpr (by omega)
  exact ⟨(new, [log]), by simp [updateRow, hset, hnew, ht]⟩

/-- The reservation with which the second statement updates the row, if any. -/
def taken (choice : JoinChoice) (now : Nat) (db : Database) (row : InventoryRow) :
    Option ReservationRow :=
  choice.pick row (joined now (released now db) row)

/-- The quantity of the reservation can be moved back in the row, and be logged. -/
structure Fits (r : ReservationRow) (row : InventoryRow) : Prop where
  available : row.availableStock.val + r.quantity.val < 2 ^ 32
  reserved : r.quantity.val ≤ row.reservedStock.val
  logged : r.quantity.val < 2147483648

theorem updateRow_ok_iff {choice : JoinChoice} {now : Nat} {db : Database} {row : InventoryRow} :
    (∃ p, updateRow now (restoreClause choice now (released now db)) row = .ok p) ↔
      ∀ r, taken choice now db row = some r → Fits r row := by
  constructor
  · rintro ⟨⟨new, logs⟩, h⟩ r hpick
    obtain ⟨hrestores, hlogged⟩ := updateRow_joined hpick h
    have hlt := new.availableStock.lt
    rw [hrestores.available] at hlt
    have hreserved := hrestores.reserved
    exact ⟨hlt, by omega, hlogged⟩
  · intro h
    cases hpick : taken choice now db row with
    | none =>
      have hset : (restoreClause choice now (released now db)).set row = none := by
        simpa [restoreClause, taken] using hpick
      exact ⟨(row, []), by simp [updateRow, hset]⟩
    | some r =>
      have hfits := h r hpick
      exact updateRow_joined_exists hpick hfits.available hfits.reserved hfits.logged

/-- The second statement goes through exactly when each row has room for the
reservation that it takes for the row. -/
theorem restore_ok_iff {choice : JoinChoice} {now : Nat} {db : Database} :
    (∃ result, updateInventory now (restoreClause choice now (released now db))
        (released now db) = .ok result) ↔
      ∀ row ∈ db.inventory.rows, ∀ r, taken choice now db row = some r → Fits r row := by
  rw [updateInventory_ok_iff]
  exact forall₂_congr (fun _ _ => updateRow_ok_iff)

/-- The outcome of an execution: the second statement did its work on each row, or
it failed on one and left the inventory as it was. -/
theorem cleanup_cases (choice : JoinChoice) (now : Nat) (db : Database) :
    (cleanupExpiredReservations choice now db).reservations = (released now db).reservations ∧
    ((List.Forall₂ (fun row new => ∃ logs,
        updateRow now (restoreClause choice now (released now db)) row = .ok (new, logs))
        db.inventory.rows (cleanupExpiredReservations choice now db).inventory.rows) ∨
      ((∃ row ∈ db.inventory.rows, ¬ ∃ p,
        updateRow now (restoreClause choice now (released now db)) row = .ok p) ∧
        (cleanupExpiredReservations choice now db).inventory = db.inventory)) := by
  cases hup : updateInventory now (restoreClause choice now (released now db)) (released now db) with
  | ok result =>
    obtain ⟨after, n⟩ := result
    have hrows := updateInventory_rows hup
    simp only [cleanupExpiredReservations, hup]
    exact ⟨hrows.2, .inl hrows.1⟩
  | error e =>
    have hfail : ¬ ∃ result, updateInventory now (restoreClause choice now (released now db))
        (released now db) = .ok result := by
      rintro ⟨result, hr⟩
      rw [hup] at hr
      cases hr
    obtain ⟨row, hrest⟩ := not_forall.mp (mt updateInventory_ok_iff.mpr hfail)
    obtain ⟨hrow, hno⟩ := not_forall.mp hrest
    rw [cleanup_failed hfail]
    exact ⟨rfl, .inr ⟨⟨row, hrow, hno⟩, rfl⟩⟩

/-- A reservation of the seed data's first product, held until second 100. -/
def heldReservation (reservationId : String) (quantity : IntUnsigned) : ReservationRow where
  reservationId := reservationId
  productId := 1
  quantity := quantity
  status := 0
  expireTime := 100
  updatedAt := 40

def oneExpired : Database where
  inventory := ⟨[seedPhone], by decide⟩
  reservations := ⟨[heldReservation "r1" ⟨5, by decide⟩], by decide⟩
  logs := []

end CleanupEvent
