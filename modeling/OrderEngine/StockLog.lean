import Mathlib.Algebra.Order.Ring.Int
import OrderEngine.InventoryWriters
import OrderEngine.Library.Journal

/-!
# The log of the inventory table

Runs of UPDATE statements on inventory, those of the two writers and any others that leave
`product_id` alone, in transactions that commit or roll back. The trigger adds a log row for
each row that is updated, and the log accounts for the available stock of each product.
-/
namespace StockLog

open RowUpdate InventorySchema DecrementInventory CleanupEvent Journal

/-- A row that a statement updates: as the trigger sees it under OLD and NEW. -/
structure Change where
  old : InventoryRow
  new : InventoryRow
  deriving DecidableEq

/-- An UPDATE on inventory that leaves `product_id` alone: `none` is a row that it does not
select, an error a row that it fails on. -/
structure Statement where
  set : InventoryRow → Option (Except SqlError InventoryRow)
  keeps : ∀ row new, set row = some (.ok new) → new.productId = row.productId

namespace Statement

/-- One row of the statement, with the log row of its trigger. -/
def visitRow (statement : Statement) (now : Nat) (row : InventoryRow) :
    Except SqlError (InventoryRow × List LogRow) :=
  match statement.set row with
  | none => .ok (row, [])
  | some (.error e) => .error e
  | some (.ok new) =>
    match trInventoryUpdateLog now row new with
    | .error e => .error e
    | .ok log => .ok (new, [log])

/-- The statement; `none` where it fails, on a row, in the trigger or on a duplicate key, and is
rolled back. -/
def execute (statement : Statement) (now : Nat) (db : Database) : Option Database :=
  match visit (statement.visitRow now) db.inventory.rows with
  | .error _ => none
  | .ok (rows, logs) =>
    if h : (rows.map InventoryRow.inventoryId).Nodup then
      some { db with inventory := ⟨rows, h⟩, logs := db.logs ++ logs }
    else none

/-- What the statement does to a row that it selects. -/
def change (statement : Statement) (row : InventoryRow) : Option Change :=
  match statement.set row with
  | some (.ok new) => some { old := row, new := new }
  | _ => none

/-- The rows that the statement updates, in order. -/
def changes (statement : Statement) (now : Nat) (db : Database) : List Change :=
  match statement.execute now db with
  | none => []
  | some _ => db.inventory.rows.filterMap statement.change

/-- The statement in a transaction, which goes on after a statement that fails. -/
def step (db : Database) (run : Statement × Nat) : Option Database :=
  some ((run.1.execute run.2 db).getD db)

end Statement

/-- The statement of a clause that keeps the key, too. -/
def ofClause (clause : UpdateClause) : Statement where
  set := clause.set
  keeps row new h := (clause.keeps row new h).2

inductive Action where
  | writer (a : InventoryWriters.Action)
  /-- Statements of one transaction, each with its `CURRENT_TIMESTAMP`. -/
  | transaction (statements : List (Statement × Nat)) (commits : Bool)

def step (db : Database) : Action → Option Database
  | .writer a => InventoryWriters.step db a
  | .transaction statements commits =>
    if commits then Runs.exec Statement.step db statements else some db

/-- The inventory rows that the action updates and does not roll back, in order. -/
def changes (db : Database) : Action → List Change
  | .writer (.decrementInventory call now) =>
    if (decrementInventory call now db).2.result = 0 then
      (ofClause (decrementClause call now)).changes now db
    else []
  | .writer (.cleanup choice now) =>
    (ofClause (restoreClause choice now (released now db))).changes now (released now db)
  | .writer (.setReservations _) => []
  | .transaction statements commits =>
    if commits then
      Flow.emitted Statement.step (fun db run => run.1.changes run.2 db) db statements
    else []

/-- The action updates no inventory row, or undoes it: the statement fails, or the transaction
that it is in does not commit. -/
def RollsBack (db : Database) : Action → Prop
  | .writer (.decrementInventory call now) => (decrementInventory call now db).2.result ≠ 0
  | .writer (.cleanup choice now) =>
    ∀ result, updateInventory now (restoreClause choice now (released now db)) (released now db) ≠
      .ok result
  | .writer (.setReservations _) => True
  | .transaction statements commits =>
    commits = false ∨ ∀ run ∈ statements, run.1.execute run.2 db = none

/-- The log row of an updated row. -/
structure Logged (change : Change) (log : LogRow) : Prop where
  productId : log.productId = change.old.productId
  before : log.beforeStock = change.old.availableStock
  after : log.afterStock = change.new.availableStock
  balance : (log.afterStock.val : Int) = log.beforeStock.val + log.quantityChange.val

/-- The `available_stock` of a product, over all its rows. -/
def totalAvailable (db : Database) (productId : Nat) : Int :=
  ((db.rowsOf productId).map (fun row => (row.availableStock.val : Int))).sum

/-- The sum of `quantity_change` over the log rows of a product. -/
def netChange (logs : List LogRow) (productId : Nat) : Int :=
  ((logs.filter (fun log => log.productId = productId)).map (fun log => log.quantityChange.val)).sum

/-- The stock of a row, under its product. -/
def stock (row : InventoryRow) : Nat → Int := Pi.single row.productId (row.availableStock.val : Int)

/-- The log, kept of the available stock of every product. -/
def stockBook : Book Database Change LogRow (Nat → Int) where
  entries := Database.logs
  records := Logged
  amount log := Pi.single log.productId log.quantityChange.val
  balance db := (db.inventory.rows.map stock).sum

theorem balance_apply (db : Database) (productId : Nat) :
    stockBook.balance db productId = totalAvailable db productId :=
  sum_single_apply InventoryRow.productId (fun row => (row.availableStock.val : Int)) _ _

theorem amounts_apply (logs : List LogRow) (productId : Nat) :
    (logs.map stockBook.amount).sum productId = netChange logs productId :=
  sum_single_apply LogRow.productId (fun log => log.quantityChange.val) _ _

/-- The row that the trigger adds. -/
theorem logged_of_trigger {now : Nat} {old new : InventoryRow} {log : LogRow}
    (hproduct : new.productId = old.productId) (h : trInventoryUpdateLog now old new = .ok log) :
    Logged { old := old, new := new } log := by
  obtain ⟨quantityChange, _, hsum, rfl⟩ := trigger_eq_iff.mp h
  constructor
  · exact hproduct
  · rfl
  · rfl
  · change (new.availableStock.val : Int) = old.availableStock.val + quantityChange.val
    omega

/-- The change that a log row records is the change of the stock of its row. -/
theorem amount_of_logged {old new : InventoryRow} {log : LogRow}
    (hproduct : new.productId = old.productId) (h : Logged { old := old, new := new } log) :
    stockBook.amount log = stock new - stock old := by
  have hbalance : (new.availableStock.val : Int) =
      old.availableStock.val + log.quantityChange.val := by
    rw [← h.before, ← h.after]
    exact h.balance
  funext productId
  change (Pi.single log.productId log.quantityChange.val : Nat → Int) productId =
    stock new productId - stock old productId
  rw [stock, stock, h.productId, hproduct, Pi.single_apply, Pi.single_apply, Pi.single_apply]
  by_cases hkey : productId = old.productId
  · rw [if_pos hkey, if_pos hkey, if_pos hkey]
    omega
  · rw [if_neg hkey, if_neg hkey, if_neg hkey, sub_zero]

namespace Statement

variable {statement : Statement} {now : Nat}

/-- What a statement does to one row that it goes through. -/
theorem visitRow_cases {row new : InventoryRow} {logs : List LogRow}
    (h : statement.visitRow now row = .ok (new, logs)) :
    statement.change row = none ∧ new = row ∧ logs = [] ∨
      statement.change row = some { old := row, new := new } ∧ new.productId = row.productId ∧
        ∃ log, logs = [log] ∧ Logged { old := row, new := new } log := by
  cases hset : statement.set row with
  | none =>
    simp only [visitRow, hset, Except.ok.injEq, Prod.mk.injEq] at h
    left
    exact ⟨by rw [change, hset], h.1.symm, h.2.symm⟩
  | some result =>
    cases result with
    | error e => simp [visitRow, hset] at h
    | ok updated =>
      have hproduct := statement.keeps row updated hset
      cases htrigger : trInventoryUpdateLog now row updated with
      | error e => simp [visitRow, hset, htrigger] at h
      | ok log =>
        simp only [visitRow, hset, htrigger, Except.ok.injEq, Prod.mk.injEq] at h
        obtain ⟨rfl, rfl⟩ := h
        right
        exact ⟨by rw [change, hset], hproduct, log, rfl, logged_of_trigger hproduct htrigger⟩

/-- A statement that goes through logs each row that it updates, and the log rows add up to the
change of the stock. -/
theorem visit_accounts {rows news : List InventoryRow} {logs : List LogRow}
    (h : visit (statement.visitRow now) rows = .ok (news, logs)) :
    List.Forall₂ Logged (rows.filterMap statement.change) logs ∧
      (logs.map stockBook.amount).sum = (news.map stock).sum - (rows.map stock).sum := by
  induction rows generalizing news logs with
  | nil =>
    cases h
    exact ⟨.nil, (sub_self _).symm⟩
  | cons row rest ih =>
    cases hrow : statement.visitRow now row with
    | error e => simp [visit, hrow] at h
    | ok result =>
      obtain ⟨new, out⟩ := result
      cases hrest : visit (statement.visitRow now) rest with
      | error e => simp [visit, hrow, hrest] at h
      | ok results =>
        obtain ⟨news', outs⟩ := results
        simp only [visit, hrow, hrest, Except.ok.injEq, Prod.mk.injEq] at h
        obtain ⟨rfl, rfl⟩ := h
        obtain ⟨hlogged, hsum⟩ := ih hrest
        rcases visitRow_cases hrow with ⟨hchange, rfl, rfl⟩ | ⟨hchange, hproduct, log, rfl, hlog⟩
        · constructor
          · rw [List.filterMap_cons_none hchange]
            exact hlogged
          · rw [List.nil_append, hsum, List.map_cons, List.map_cons, List.sum_cons, List.sum_cons,
              add_sub_add_left_eq_sub]
        · constructor
          · rw [List.filterMap_cons_some hchange]
            exact .cons hlog hlogged
          · rw [List.singleton_append, List.map_cons, List.sum_cons, hsum,
              amount_of_logged hproduct hlog, List.map_cons, List.map_cons, List.sum_cons,
              List.sum_cons, sub_add_sub_comm]

theorem execute_accounts {db after : Database} (h : statement.execute now db = some after) :
    Accounts stockBook db (statement.changes now db) after := by
  rw [changes, h]
  rw [execute] at h
  split at h
  · cases h
  · rename_i rows logs hvisit
    split at h
    · cases h
      obtain ⟨hlogged, hsum⟩ := visit_accounts hvisit
      exact ⟨logs, rfl, hlogged, hsum⟩
    · cases h

theorem changes_failed {db : Database} (h : statement.execute now db = none) :
    statement.changes now db = [] := by
  rw [changes, h]

theorem step_accounts (db : Database) (run : Statement × Nat) (after : Database)
    (h : step db run = some after) :
    Accounts stockBook db (run.1.changes run.2 db) after := by
  cases h
  cases hexecute : run.1.execute run.2 db with
  | none =>
    rw [changes_failed hexecute]
    exact accounts_of_same rfl rfl
  | some after => exact execute_accounts hexecute

end Statement

theorem execute_ofClause {now : Nat} {clause : UpdateClause} {db after : Database} {n : Nat}
    (h : updateInventory now clause db = .ok (after, n)) :
    (ofClause clause).execute now db = some after := by
  rw [updateInventory] at h
  split at h
  · cases h
  · rename_i inventory logs hupdate
    cases h
    have hvisit : visit ((ofClause clause).visitRow now) db.inventory.rows =
        .ok (inventory.rows, logs) := Table.update_ok_iff.mp hupdate
    simp only [Statement.execute, hvisit, dif_pos inventory.nodup]

theorem execute_ofClause_fails {now : Nat} {clause : UpdateClause} {db : Database}
    (h : ∀ result, updateInventory now clause db ≠ .ok result) :
    (ofClause clause).execute now db = none := by
  rw [Statement.execute]
  split
  · rfl
  · rename_i rows logs hvisit
    have hrows : ∀ row ∈ db.inventory.rows, ∃ p, updateRow now clause row = .ok p :=
      visit_ok_iff.mp ⟨_, hvisit⟩
    obtain ⟨result, hresult⟩ := updateInventory_ok_iff.mpr hrows
    exact absurd hresult (h result)

/-- The second statement of the event. -/
theorem restore_accounts (choice : JoinChoice) (now : Nat) (db : Database) :
    Accounts stockBook (released now db)
      ((ofClause (restoreClause choice now (released now db))).changes now (released now db))
      (cleanupExpiredReservations choice now db) := by
  cases hup : updateInventory now (restoreClause choice now (released now db))
      (released now db) with
  | error e =>
    have hfails : ∀ result, updateInventory now (restoreClause choice now (released now db))
        (released now db) ≠ .ok result := by
      intro result hresult
      rw [hup] at hresult
      cases hresult
    rw [cleanup_failed (not_exists.mpr hfails),
      Statement.changes_failed (execute_ofClause_fails hfails)]
    exact accounts_of_same rfl rfl
  | ok result =>
    obtain ⟨after, n⟩ := result
    simp only [cleanupExpiredReservations, hup]
    exact Statement.execute_accounts (execute_ofClause hup)

/-- Each action is accounted for. -/
theorem step_accounts (db : Database) (a : Action) (after : Database)
    (h : step db a = some after) : Accounts stockBook db (changes db a) after := by
  cases a with
  | writer a =>
    cases a with
    | decrementInventory call now =>
      cases h
      by_cases hzero : (decrementInventory call now db).2.result = 0
      · rw [changes, if_pos hzero]
        exact Statement.execute_accounts (execute_ofClause (success_updates hzero))
      · rw [changes, if_neg hzero, failed_unchanged hzero]
        exact accounts_of_same rfl rfl
    | cleanup choice now =>
      cases h
      -- the statement on the reservations leaves the log and the stock as they are
      have hreleased : Accounts stockBook db [] (released now db) := accounts_of_same rfl rfl
      exact accounts_trans hreleased (restore_accounts choice now db)
    | setReservations reservations =>
      cases h
      exact accounts_of_same rfl rfl
  | transaction statements commits =>
    cases commits with
    | false =>
      cases h
      exact accounts_of_same rfl rfl
    | true => exact accounts_exec Statement.step_accounts h

theorem transaction_fails {db after : Database} {statements : List (Statement × Nat)}
    (hfail : ∀ run ∈ statements, run.1.execute run.2 db = none)
    (h : Runs.exec Statement.step db statements = some after) : after = db := by
  induction statements with
  | nil =>
    cases h
    rfl
  | cons run rest ih =>
    obtain ⟨middle, hmiddle, hrest⟩ := Runs.exec_cons_iff.mp h
    rw [Statement.step, hfail run List.mem_cons_self, Option.getD_none, Option.some.injEq]
      at hmiddle
    subst hmiddle
    exact ih (fun run' hrun => hfail run' (List.mem_cons_of_mem run hrun)) hrest

/-- A statement that fails or is rolled back adds no log row, and changes no inventory row. -/
theorem rollsBack_unchanged (db : Database) (a : Action) (after : Database)
    (h : step db a = some after) (hback : RollsBack db a) :
    after.logs = db.logs ∧ after.inventory = db.inventory := by
  cases a with
  | writer a =>
    cases a with
    | decrementInventory call now =>
      cases h
      rw [failed_unchanged hback]
      exact ⟨rfl, rfl⟩
    | cleanup choice now =>
      cases h
      rw [cleanup_failed (not_exists.mpr hback)]
      exact ⟨rfl, rfl⟩
    | setReservations reservations =>
      cases h
      exact ⟨rfl, rfl⟩
  | transaction statements commits =>
    cases commits with
    | false =>
      cases h
      exact ⟨rfl, rfl⟩
    | true =>
      rcases hback with hfalse | hfail
      · cases hfalse
      · rw [transaction_fails hfail h]
        exact ⟨rfl, rfl⟩

/-- In every run the log grows by one row for each updated row, of its product and with its
stock before and after, and by none for what is rolled back; and for each product the new rows
add up to what its available stock has changed by. -/
theorem log_accounts {db after : Database} {acts : List Action}
    (hrun : Runs.exec step db acts = some after) :
    (∃ added, after.logs = db.logs ++ added ∧
      List.Forall₂ Logged (Flow.emitted step changes db acts) added ∧
      (∀ log ∈ added,
        (log.afterStock.val : Int) = log.beforeStock.val + log.quantityChange.val) ∧
      ∀ productId, netChange added productId =
        totalAvailable after productId - totalAvailable db productId) ∧
    Runs.Along step (fun s a => RollsBack s a → ∀ t, step s a = some t →
      t.logs = s.logs ∧ t.inventory = s.inventory) db acts := by
  constructor
  · obtain ⟨added, hlogs, hlogged, hsum⟩ := accounts_exec step_accounts hrun
    refine ⟨added, hlogs, hlogged, ?_, ?_⟩
    · intro log hlog
      obtain ⟨change, _, hchange⟩ := forall₂_exists hlogged.flip hlog
      exact hchange.balance
    · intro productId
      rw [← amounts_apply, hsum, Pi.sub_apply, balance_apply, balance_apply]
  · apply Runs.along_invariant (fun _ => True)
    · intro s a t _ _
      trivial
    · intro s a _ hback t ht
      exact rollsBack_unchanged s a t ht hback
    · trivial

/-- `UPDATE inventory SET available_stock = available_stock + 7 WHERE product_id = 1`. -/
def addSeven : Statement where
  set row :=
    if row.productId = 1 then
      some ((storeUnsigned (row.availableStock.val + 7)).map
        (fun availableStock => { row with availableStock := availableStock }))
    else none
  keeps row new h := by
    split at h
    · rw [Option.some.injEq] at h
      cases hstore : storeUnsigned (row.availableStock.val + 7) with
      | error e =>
        rw [hstore] at h
        cases h
      | ok availableStock =>
        rw [hstore] at h
        cases h
        rfl
    · cases h

/-- The call fails in the trigger, the event gives back 5 pieces, and the statement adds 7. -/
def threeWriters : List Action :=
  [.writer (.decrementInventory ⟨1, seedPhone.soldStock, seedPhone.version⟩ 90),
    .writer (.cleanup firstMatch 120), .transaction [(addSeven, 130)] true,
    .transaction [(addSeven, 140)] false]

theorem log_accounts_three_writers : ∃ after added,
    Runs.exec step oneExpired threeWriters = some after ∧ after.logs = oneExpired.logs ++ added ∧
      netChange added 1 = 12 := by
  have hafter : ∃ after, Runs.exec step oneExpired threeWriters = some after ∧
      totalAvailable after 1 = 912 := ⟨_, rfl, by decide⟩
  obtain ⟨after, hrun, htotal⟩ := hafter
  obtain ⟨added, hlogs, _, _, hsum⟩ := (log_accounts hrun).1
  have hbefore : totalAvailable oneExpired 1 = 900 := by decide
  refine ⟨after, added, hrun, hlogs, ?_⟩
  rw [hsum, htotal, hbefore]
  rfl

end StockLog
