import OrderEngine.Library.RowUpdate
import Mathlib.Algebra.Order.Ring.Nat

/-!
# Inventory tables, their log trigger, and UPDATE statements on inventory

The columns that the procedure, the trigger and the event of `init.sql` read or
write, with the default `sql_mode`: a value outside its column raises an error,
and so does an unsigned subtraction below zero. An error raised by a row or by
its trigger fails the statement, which then leaves nothing behind.
-/
namespace InventorySchema

open RowUpdate

/-- A value of an `INT UNSIGNED` column. -/
structure IntUnsigned where
  val : Nat
  lt : val < 2 ^ 32
  deriving DecidableEq, Repr

/-- A value of an `INT` column, between -2^31 and 2^31 - 1. -/
structure IntSigned where
  val : Int
  ge : -2147483648 ≤ val
  lt : val < 2147483648
  deriving DecidableEq, Repr

theorem IntUnsigned.ext {a b : IntUnsigned} (h : a.val = b.val) : a = b := by
  cases a
  cases b
  cases h
  rfl

inductive SqlError where
  | outOfRange
  | tooManyRows
  deriving DecidableEq, Repr

/-- Assign to an `INT UNSIGNED` column. -/
def storeUnsigned (n : Nat) : Except SqlError IntUnsigned :=
  if h : n < 2 ^ 32 then .ok ⟨n, h⟩ else .error .outOfRange

/-- Assign to an `INT` column. -/
def storeSigned (n : Int) : Except SqlError IntSigned :=
  if h : -2147483648 ≤ n ∧ n < 2147483648 then .ok ⟨n, h.1, h.2⟩ else .error .outOfRange

/-- `a - b` of unsigned operands, computed in `BIGINT UNSIGNED`. -/
def unsignedSub (a b : Nat) : Except SqlError Nat :=
  if b ≤ a then .ok (a - b) else .error .outOfRange

theorem storeUnsigned_ok_iff {n : Nat} {u : IntUnsigned} :
    storeUnsigned n = .ok u ↔ u.val = n := by
  unfold storeUnsigned
  split
  · simp only [Except.ok.injEq]
    constructor
    · intro h
      rw [← h]
    · intro h
      exact IntUnsigned.ext h.symm
  · rename_i hn
    simp only [reduceCtorEq, false_iff]
    intro h
    exact hn (h ▸ u.lt)

theorem unsignedSub_ok_iff {a b n : Nat} : unsignedSub a b = .ok n ↔ n + b = a := by
  unfold unsignedSub
  split
  · simp only [Except.ok.injEq]
    omega
  · simp only [reduceCtorEq, false_iff]
    omega

theorem storeSigned_ok_iff {n : Int} {i : IntSigned} : storeSigned n = .ok i ↔ i.val = n := by
  unfold storeSigned
  split
  · simp only [Except.ok.injEq]
    constructor
    · intro h
      rw [← h]
    · intro h
      cases i
      cases h
      rfl
  · rename_i hn
    simp only [reduceCtorEq, false_iff]
    intro h
    exact hn (h ▸ ⟨i.ge, i.lt⟩)

/-- A row of `inventory`. -/
structure InventoryRow where
  inventoryId : Nat
  productId : Nat
  totalStock : IntUnsigned
  availableStock : IntUnsigned
  reservedStock : IntUnsigned
  soldStock : IntUnsigned
  version : IntUnsigned
  updatedAt : Nat
  deriving DecidableEq, Repr

/-- A row of `inventory_reservations`; status 0 is reserved, 3 is expired. -/
structure ReservationRow where
  reservationId : String
  productId : Nat
  quantity : IntUnsigned
  status : Int
  expireTime : Nat
  updatedAt : Nat
  deriving DecidableEq, Repr

/-- A row of `inventory_logs`. -/
structure LogRow where
  productId : Nat
  operationType : Int
  quantityChange : IntSigned
  beforeStock : IntUnsigned
  afterStock : IntUnsigned
  createdAt : Nat
  deriving DecidableEq, Repr

structure Database where
  inventory : Table InventoryRow.inventoryId
  reservations : Table ReservationRow.reservationId
  logs : List LogRow

/-- The inventory rows of one product, one for each warehouse. -/
def Database.rowsOf (db : Database) (productId : Nat) : List InventoryRow :=
  db.inventory.rows.filter (fun row => row.productId = productId)

theorem Database.mem_rowsOf {db : Database} {productId : Nat} {row : InventoryRow} :
    row ∈ db.rowsOf productId ↔ row ∈ db.inventory.rows ∧ row.productId = productId := by
  simp [Database.rowsOf]

/-- The first inventory row that the script inserts. -/
def seedPhone : InventoryRow where
  inventoryId := 1
  productId := 1
  totalStock := ⟨1000, by decide⟩
  availableStock := ⟨900, by decide⟩
  reservedStock := ⟨50, by decide⟩
  soldStock := ⟨50, by decide⟩
  version := ⟨0, by decide⟩
  updatedAt := 0

def seedLaptop : InventoryRow where
  inventoryId := 2
  productId := 2
  totalStock := ⟨500, by decide⟩
  availableStock := ⟨450, by decide⟩
  reservedStock := ⟨25, by decide⟩
  soldStock := ⟨25, by decide⟩
  version := ⟨0, by decide⟩
  updatedAt := 0

def seedEarphones : InventoryRow where
  inventoryId := 3
  productId := 3
  totalStock := ⟨2000, by decide⟩
  availableStock := ⟨1800, by decide⟩
  reservedStock := ⟨100, by decide⟩
  soldStock := ⟨100, by decide⟩
  version := ⟨0, by decide⟩
  updatedAt := 0

/-- The tables after the script's own INSERT statements. -/
def seedDatabase : Database where
  inventory := ⟨[seedPhone, seedLaptop, seedEarphones], by decide⟩
  reservations := ⟨[], by decide⟩
  logs := []

/-- The row that the trigger inserts, given the value of `quantity_change`. -/
def logEntry (now : Nat) (old new : InventoryRow) (quantityChange : IntSigned) : LogRow where
  productId := new.productId
  operationType :=
    if new.availableStock.val < old.availableStock.val then 2
    else if old.availableStock.val < new.availableStock.val then 1
    else 0
  quantityChange := quantityChange
  beforeStock := old.availableStock
  afterStock := new.availableStock
  createdAt := now

/-- The trigger `tr_inventory_update_log`, run after each updated row: both
operands of `NEW.available_stock - OLD.available_stock` are unsigned. -/
def trInventoryUpdateLog (now : Nat) (old new : InventoryRow) : Except SqlError LogRow := do
  let change ← unsignedSub new.availableStock.val old.availableStock.val
  let quantityChange ← storeSigned change
  return logEntry now old new quantityChange

theorem trigger_eq_iff {now : Nat} {old new : InventoryRow} {log : LogRow} :
    trInventoryUpdateLog now old new = .ok log ↔
      ∃ quantityChange : IntSigned, 0 ≤ quantityChange.val ∧
        old.availableStock.val + quantityChange.val = new.availableStock.val ∧
          logEntry now old new quantityChange = log := by
  simp only [trInventoryUpdateLog, bind_ok_iff, unsignedSub_ok_iff, storeSigned_ok_iff, pure,
    Except.pure, Except.ok.injEq]
  constructor
  · rintro ⟨change, hsub, quantityChange, hstore, rfl⟩
    exact ⟨quantityChange, by omega, by omega, rfl⟩
  · rintro ⟨quantityChange, hge, hsum, rfl⟩
    exact ⟨quantityChange.val.toNat, by omega, quantityChange, by omega, rfl⟩

/-- The trigger goes through only when the available stock does not fall and its
growth fits a signed column. -/
theorem trigger_ok_iff (now : Nat) (old new : InventoryRow) :
    (∃ log, trInventoryUpdateLog now old new = .ok log) ↔
      old.availableStock.val ≤ new.availableStock.val ∧
        new.availableStock.val < old.availableStock.val + 2147483648 := by
  simp only [trigger_eq_iff]
  constructor
  · rintro ⟨log, quantityChange, hge, hsum, _⟩
    have hlt := quantityChange.lt
    omega
  · rintro ⟨hle, hfit⟩
    exact ⟨_, ⟨(new.availableStock.val : Int) - old.availableStock.val, by omega, by omega⟩,
      by simp only; omega, by simp only; omega, rfl⟩

/-- An `UPDATE inventory SET … WHERE …`: `none` is a row that the condition does
not select, an error a row whose new values cannot be computed or stored. -/
structure UpdateClause where
  set : InventoryRow → Option (Except SqlError InventoryRow)
  keeps : ∀ row new, set row = some (.ok new) →
    new.inventoryId = row.inventoryId ∧ new.productId = row.productId

/-- One row of an UPDATE, with the log row of its trigger. -/
def updateRow (now : Nat) (clause : UpdateClause) (row : InventoryRow) :
    Except SqlError (InventoryRow × List LogRow) :=
  match clause.set row with
  | none => .ok (row, [])
  | some (.error e) => .error e
  | some (.ok new) =>
    match trInventoryUpdateLog now row new with
    | .error e => .error e
    | .ok log => .ok (new, [log])

theorem updateRow_keeps {now : Nat} {clause : UpdateClause} {row new : InventoryRow}
    {logs : List LogRow} (h : updateRow now clause row = .ok (new, logs)) :
    new.inventoryId = row.inventoryId ∧ new.productId = row.productId := by
  unfold updateRow at h
  split at h
  · cases h
    exact ⟨rfl, rfl⟩
  · cases h
  · rename_i new' hset
    split at h
    · cases h
    · cases h
      exact clause.keeps row new hset

/-- What `ROW_COUNT()` gives after the statement: the rows it really changed. -/
def changedRows (clause : UpdateClause) (rows : List InventoryRow) : Nat :=
  rows.countP (fun row =>
    match clause.set row with
    | some (.ok new) => new ≠ row
    | _ => false)

/-- The statement, together with the number of rows it changed. -/
def updateInventory (now : Nat) (clause : UpdateClause) (db : Database) :
    Except SqlError (Database × Nat) :=
  match db.inventory.update (updateRow now clause)
      (fun _ _ _ h => (updateRow_keeps h).1) with
  | .error e => .error e
  | .ok (inventory, logs) =>
    .ok ({ db with inventory := inventory, logs := db.logs ++ logs },
      changedRows clause db.inventory.rows)

/-- A statement goes through exactly when every selected row can be computed,
stored and logged. -/
theorem updateInventory_ok_iff {now : Nat} {clause : UpdateClause} {db : Database} :
    (∃ result, updateInventory now clause db = .ok result) ↔
      ∀ row ∈ db.inventory.rows, ∃ p, updateRow now clause row = .ok p := by
  rw [← Table.update_ok_iff_forall (f := updateRow now clause)
    (h := fun _ _ _ hr => (updateRow_keeps hr).1)]
  unfold updateInventory
  constructor
  · rintro ⟨result, h⟩
    split at h
    · cases h
    · rename_i inventory logs hu
      exact ⟨inventory, logs, hu⟩
  · rintro ⟨inventory, logs, h⟩
    simp [h]

/-- A statement that went through did to each row what the update of the row gives. -/
theorem updateInventory_rows {now : Nat} {clause : UpdateClause} {db after : Database} {n : Nat}
    (h : updateInventory now clause db = .ok (after, n)) :
    List.Forall₂ (fun row new => ∃ logs, updateRow now clause row = .ok (new, logs))
      db.inventory.rows after.inventory.rows ∧ after.reservations = db.reservations := by
  simp only [updateInventory] at h
  split at h
  · cases h
  · rename_i inventory logs hu
    cases h
    exact ⟨visit_rows (Table.update_ok_iff.mp hu), rfl⟩

theorem updateInventory_count {now : Nat} {clause : UpdateClause} {db after : Database} {n : Nat}
    (h : updateInventory now clause db = .ok (after, n)) :
    n = changedRows clause db.inventory.rows := by
  simp only [updateInventory] at h
  split at h
  · cases h
  · cases h
    rfl

/-- The result of a statement that does `g` to each row. -/
theorem updateInventory_eq {now : Nat} {clause : UpdateClause} {db : Database}
    {g : InventoryRow → InventoryRow × List LogRow}
    (h : ∀ row ∈ db.inventory.rows, updateRow now clause row = .ok (g row)) :
    ∃ after, updateInventory now clause db = .ok (after, changedRows clause db.inventory.rows) ∧
      after.inventory.rows = db.inventory.rows.map (fun row => (g row).1) ∧
      after.reservations = db.reservations ∧
      after.logs = db.logs ++ db.inventory.rows.flatMap (fun row => (g row).2) := by
  obtain ⟨u, outs, hu⟩ := (Table.update_ok_iff_forall (t := db.inventory)
    (f := updateRow now clause) (h := fun _ _ _ hr => (updateRow_keeps hr).1)).mpr
    (fun row hr => ⟨_, h row hr⟩)
  have hv := Table.update_ok_iff.mp hu
  rw [visit_ok h] at hv
  simp only [Except.ok.injEq, Prod.mk.injEq] at hv
  refine ⟨{ db with inventory := u, logs := db.logs ++ outs }, by simp [updateInventory, hu], ?_⟩
  exact ⟨hv.1.symm, rfl, by rw [hv.2]⟩

end InventorySchema
