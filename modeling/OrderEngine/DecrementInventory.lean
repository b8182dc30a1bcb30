import OrderEngine.InventorySchema

/-!
# The stored procedure DecrementInventory

One call run alone: the transaction reads the stock of the product, checks the
version and the quantity, and updates the row under a condition on the version.
Every error raised on the way, also inside the trigger of the update, reaches the
exit handler, which rolls back.
-/
namespace DecrementInventory

open RowUpdate InventorySchema

/-- The IN parameters. -/
structure Call where
  productId : Nat
  quantity : IntUnsigned
  expectedVersion : IntUnsigned
  deriving DecidableEq, Repr

/-- The OUT parameters. -/
structure Reply where
  result : Int
  message : String
  deriving DecidableEq, Repr

/-- `SELECT available_stock, version INTO …`. Without a row the variables keep
their default 0, since a NOT FOUND condition is not an SQLEXCEPTION; with
several rows the statement raises an error. -/
def selectStock (db : Database) (productId : Nat) : Except SqlError (Nat × Nat) :=
  match db.rowsOf productId with
  | [] => .ok (0, 0)
  | [row] => .ok (row.availableStock.val, row.version.val)
  | _ :: _ :: _ => .error .tooManyRows

/-- The two checks on the values read; `none` goes on to the update. -/
def checkStock (call : Call) (currentAvailable currentVersion : Nat) : Option Reply :=
  if currentVersion ≠ call.expectedVersion.val then
    some ⟨1, "Version conflict, please retry"⟩
  else if currentAvailable < call.quantity.val then
    some ⟨2, "Insufficient inventory"⟩
  else none

/-- The SET clause of the update. -/
def decrementStock (call : Call) (now : Nat) (row : InventoryRow) :
    Except SqlError InventoryRow := do
  let available ← unsignedSub row.availableStock.val call.quantity.val
  let availableStock ← storeUnsigned available
  let reservedStock ← storeUnsigned (row.reservedStock.val + call.quantity.val)
  let version ← storeUnsigned (row.version.val + 1)
  return { row with
    availableStock := availableStock
    reservedStock := reservedStock
    version := version
    updatedAt := now }

/-- What the update requires of a row to succeed on it, the trigger aside. -/
structure Decrements (call : Call) (now : Nat) (row new : InventoryRow) : Prop where
  available : new.availableStock.val + call.quantity.val = row.availableStock.val
  reserved : new.reservedStock.val = row.reservedStock.val + call.quantity.val
  version : new.version.val = row.version.val + 1
  rest : new = { row with
    availableStock := new.availableStock
    reservedStock := new.reservedStock
    version := new.version
    updatedAt := now }

theorem decrementStock_ok_iff {call : Call} {now : Nat} {row new : InventoryRow} :
    decrementStock call now row = .ok new ↔ Decrements call now row new := by
  simp only [decrementStock, bind_ok_iff, unsignedSub_ok_iff, storeUnsigned_ok_iff, pure,
    Except.pure, Except.ok.injEq]
  constructor
  · rintro ⟨available, hsub, availableStock, hav, reservedStock, hres, version, hver, rfl⟩
    exact ⟨by simp only; omega, hres, hver, rfl⟩
  · intro h
    exact ⟨new.availableStock.val, h.available, new.availableStock, rfl, new.reservedStock,
      h.reserved, new.version, h.version, h.rest.symm⟩

theorem decrementStock_exists {call : Call} (now : Nat) {row : InventoryRow}
    (hav : call.quantity.val ≤ row.availableStock.val)
    (hres : row.reservedStock.val + call.quantity.val < 2 ^ 32)
    (hver : row.version.val + 1 < 2 ^ 32) : ∃ new, decrementStock call now row = .ok new := by
  have hlt := row.availableStock.lt
  refine ⟨{ row with
    availableStock := ⟨row.availableStock.val - call.quantity.val, by omega⟩
    reservedStock := ⟨row.reservedStock.val + call.quantity.val, hres⟩
    version := ⟨row.version.val + 1, hver⟩
    updatedAt := now }, decrementStock_ok_iff.mpr ⟨?_, rfl, rfl, rfl⟩⟩
  simp only
  omega

/-- `UPDATE inventory SET … WHERE product_id = … AND version = …`. -/
def decrementClause (call : Call) (now : Nat) : UpdateClause where
  set row :=
    if row.productId = call.productId ∧ row.version = call.expectedVersion then
      some (decrementStock call now row)
    else none
  keeps row new h := by
    split at h
    · have hd := decrementStock_ok_iff.mp (Option.some.inj h)
      rw [hd.rest]
      exact ⟨rfl, rfl⟩
    · cases h

/-- The body of the procedure up to its handler. -/
def body (call : Call) (now : Nat) (db : Database) : Except SqlError (Database × Reply) := do
  let (currentAvailable, currentVersion) ← selectStock db call.productId
  match checkStock call currentAvailable currentVersion with
  | some reply => return (db, reply)
  | none =>
    let (after, affectedRows) ← updateInventory now (decrementClause call now) db
    if affectedRows = 1 then
      return (after, ⟨0, "Success"⟩)
    else
      return (db, ⟨3, "Update failed"⟩)

/-- `CALL DecrementInventory`, with its exit handler. -/
def decrementInventory (call : Call) (now : Nat) (db : Database) : Database × Reply :=
  match body call now db with
  | .ok outcome => outcome
  | .error _ => (db, ⟨-1, "Database error occurred"⟩)

/-- The product's only row, at the expected version and with room for the move. -/
structure CanDecrement (call : Call) (db : Database) (row : InventoryRow) : Prop where
  only : db.rowsOf call.productId = [row]
  version : row.version = call.expectedVersion
  available : call.quantity.val ≤ row.availableStock.val
  reserved : row.reservedStock.val + call.quantity.val < 2 ^ 32
  next : row.version.val + 1 < 2 ^ 32

theorem CanDecrement.mem {call : Call} {db : Database} {row : InventoryRow}
    (h : CanDecrement call db row) :
    row ∈ db.inventory.rows ∧ row.productId = call.productId := by
  have hmem : row ∈ db.rowsOf call.productId := by simp [h.only]
  exact Database.mem_rowsOf.mp hmem

/-- The update selects the product's only row, and no other. -/
theorem CanDecrement.selected {call : Call} (now : Nat) {db : Database} {row r : InventoryRow}
    (h : CanDecrement call db row) (hr : r ∈ db.inventory.rows) :
    (decrementClause call now).set r =
      if r = row then some (decrementStock call now row) else none := by
  by_cases hp : r.productId = call.productId ∧ r.version = call.expectedVersion
  · have hmem : r ∈ db.rowsOf call.productId := Database.mem_rowsOf.mpr ⟨hr, hp.1⟩
    rw [h.only, List.mem_singleton] at hmem
    subst hmem
    simp [decrementClause, hp]
  · have hne : r ≠ row := by
      intro he
      subst he
      exact hp ⟨h.mem.2, h.version⟩
    simp [decrementClause, hp, hne]

theorem selectStock_only {call : Call} {db : Database} {row : InventoryRow}
    (h : db.rowsOf call.productId = [row]) :
    selectStock db call.productId = .ok (row.availableStock.val, row.version.val) := by
  simp [selectStock, h]

theorem checkStock_none_iff {call : Call} {available version : Nat} :
    checkStock call available version = none ↔
      version = call.expectedVersion.val ∧ call.quantity.val ≤ available := by
  by_cases hv : version = call.expectedVersion.val
  · by_cases hq : available < call.quantity.val
    · simp [checkStock, hv, hq]
    · have hle : call.quantity.val ≤ available := by omega
      simp [checkStock, hv, hq, hle]
  · simp [checkStock, hv]

theorem checkStock_nonzero {call : Call} {available version : Nat} {reply : Reply}
    (h : checkStock call available version = some reply) : reply.result ≠ 0 := by
  by_cases hv : version = call.expectedVersion.val
  · by_cases hq : available < call.quantity.val
    · simp only [checkStock, hv, ne_eq, not_true_eq_false, if_false, hq, if_true,
        Option.some.injEq] at h
      subst h
      decide
    · simp [checkStock, hv, hq] at h
  · simp only [checkStock, ne_eq, hv, not_false_eq_true, if_true, Option.some.injEq] at h
    subst h
    decide

theorem checkStock_room {call : Call} {db : Database} {row : InventoryRow}
    (h : CanDecrement call db row) :
    checkStock call row.availableStock.val row.version.val = none :=
  checkStock_none_iff.mpr ⟨by rw [h.version], h.available⟩

/-- With room for the move, the call is the update followed by the commit. -/
theorem body_room {call : Call} {now : Nat} {db : Database} {row : InventoryRow}
    (h : CanDecrement call db row) :
    body call now db = (do
      let (after, affectedRows) ← updateInventory now (decrementClause call now) db
      if affectedRows = 1 then
        return (after, ⟨0, "Success"⟩)
      else
        return (db, ⟨3, "Update failed"⟩)) := by
  have hs := selectStock_only h.only
  have hc := checkStock_room h
  simp only [body, hs, bind, Except.bind, hc]

theorem updateRow_other {call : Call} {now : Nat} {db : Database} {row r : InventoryRow}
    (h : CanDecrement call db row) (hr : r ∈ db.inventory.rows) (hne : r ≠ row) :
    updateRow now (decrementClause call now) r = .ok (r, []) := by
  have hsel := h.selected now hr
  rw [if_neg hne] at hsel
  simp [updateRow, hsel]

/-- The trigger subtracts the old stock from the new one, so a move of a positive
quantity fails inside the update. -/
theorem updateRow_positive {call : Call} (now : Nat) {db : Database} {row : InventoryRow}
    (h : CanDecrement call db row) (hq : 0 < call.quantity.val) :
    ∃ e, updateRow now (decrementClause call now) row = .error e := by
  obtain ⟨new, hnew⟩ := decrementStock_exists now h.available h.reserved h.next
  have hsel := h.selected now h.mem.1
  have hd := decrementStock_ok_iff.mp hnew
  have htrigger : ¬ ∃ log, trInventoryUpdateLog now row new = .ok log := by
    rw [trigger_ok_iff]
    have := hd.available
    omega
  cases ht : trInventoryUpdateLog now row new with
  | error e => exact ⟨e, by simp [updateRow, hsel, hnew, ht]⟩
  | ok log => exact absurd ⟨log, ht⟩ htrigger

theorem updateRow_zero {call : Call} (now : Nat) {db : Database} {row : InventoryRow}
    (h : CanDecrement call db row) (hq : call.quantity.val = 0) :
    ∃ new log, Decrements call now row new ∧
      updateRow now (decrementClause call now) row = .ok (new, [log]) := by
  obtain ⟨new, hnew⟩ := decrementStock_exists now h.available h.reserved h.next
  have hsel := h.selected now h.mem.1
  have hd := decrementStock_ok_iff.mp hnew
  have hle : row.availableStock.val ≤ new.availableStock.val ∧
      new.availableStock.val < row.availableStock.val + 2147483648 := by
    have := hd.available
    omega
  obtain ⟨log, ht⟩ := (trigger_ok_iff now row new).mpr hle
  exact ⟨new, log, hd, by simp [updateRow, hsel, hnew, ht]⟩

/-- The update changes the product's only row and counts it once. -/
theorem changedRows_single {call : Call} {now : Nat} {db : Database} {row new : InventoryRow}
    (h : CanDecrement call db row) (hd : Decrements call now row new) :
    changedRows (decrementClause call now) db.inventory.rows = 1 := by
  have hne : new ≠ row := by
    intro he
    have := hd.version
    rw [he] at this
    omega
  have hok := decrementStock_ok_iff.mpr hd
  have hcount : changedRows (decrementClause call now) db.inventory.rows =
      db.inventory.rows.countP (fun r => r == row) := by
    apply List.countP_congr
    intro r hr
    rw [h.selected now hr]
    by_cases hrow : r = row
    · simp [hrow, hok, hne]
    · simp [hrow]
  rw [hcount]
  exact List.count_eq_one_of_mem db.inventory.rows_nodup h.mem.1

/-- The row the call is about becomes `new`, and one log row is added. -/
structure Moved (call : Call) (now : Nat) (db after : Database) (row : InventoryRow) : Prop where
  rows : ∃ new, Decrements call now row new ∧
    after.inventory.rows = db.inventory.rows.map (fun r => if r = row then new else r)
  logs : ∃ log, after.logs = db.logs ++ [log]

theorem decrement_zero {call : Call} {now : Nat} {db : Database} {row : InventoryRow}
    (h : CanDecrement call db row) (hq : call.quantity.val = 0) :
    (decrementInventory call now db).2.result = 0 ∧
      Moved call now db (decrementInventory call now db).1 row := by
  obtain ⟨new, log, hd, hrow⟩ := updateRow_zero now h hq
  have hrows : ∀ r ∈ db.inventory.rows, updateRow now (decrementClause call now) r =
      .ok (if r = row then (new, [log]) else (r, [])) := by
    intro r hr
    by_cases hr' : r = row
    · simp [hr', hrow]
    · simp [hr', updateRow_other h hr hr']
  obtain ⟨after, hup, hinv, _, hlogs⟩ := updateInventory_eq hrows
  have hcount := changedRows_single h hd
  have hcall : decrementInventory call now db = (after, ⟨0, "Success"⟩) := by
    simp [decrementInventory, body_room h, hup, hcount, bind, Except.bind, pure, Except.pure]
  rw [hcall]
  refine ⟨rfl, ⟨new, hd, ?_⟩, log, ?_⟩
  · rw [hinv]
    apply List.map_congr_left
    intro r _
    by_cases hr : r = row <;> simp [hr]
  · have hout : (fun r => (if r = row then (new, [log]) else (r, ([] : List LogRow))).2) =
        (fun r => if r = row then [log] else []) := by
      funext r
      by_cases hr : r = row <;> simp [hr]
    rw [hlogs, hout, flatMap_single db.inventory.rows_nodup h.mem.1 [log]]

theorem decrement_positive {call : Call} {now : Nat} {db : Database} {row : InventoryRow}
    (h : CanDecrement call db row) (hq : 0 < call.quantity.val) :
    decrementInventory call now db = (db, ⟨-1, "Database error occurred"⟩) := by
  obtain ⟨e, he⟩ := updateRow_positive now h hq
  have hfail : ¬ ∃ result, updateInventory now (decrementClause call now) db = .ok result := by
    rw [updateInventory_ok_iff]
    intro hall
    obtain ⟨p, hp⟩ := hall row h.mem.1
    rw [he] at hp
    cases hp
  cases hup : updateInventory now (decrementClause call now) db with
  | ok result => exact absurd ⟨result, hup⟩ hfail
  | error e' => simp [decrementInventory, body_room h, hup, bind, Except.bind]

/-- A product without a row gives the update nothing to change. -/
theorem changedRows_missing {call : Call} {now : Nat} {db : Database}
    (h : db.rowsOf call.productId = []) :
    changedRows (decrementClause call now) db.inventory.rows = 0 := by
  rw [changedRows, List.countP_eq_zero]
  intro r hr
  have hp : r.productId ≠ call.productId := by
    intro hp
    have hmem : r ∈ db.rowsOf call.productId := Database.mem_rowsOf.mpr ⟨hr, hp⟩
    rw [h] at hmem
    simp at hmem
  simp [decrementClause, hp]

/-- A body that raises no error has left the database as it was and reports no success, or it
has passed both checks and its update has changed one row. -/
theorem body_cases {call : Call} {now : Nat} {db after : Database} {reply : Reply}
    (h : body call now db = .ok (after, reply)) :
    reply.result ≠ 0 ∧ after = db ∨
      reply.result = 0 ∧ ∃ available version,
        selectStock db call.productId = .ok (available, version) ∧
        checkStock call available version = none ∧
        updateInventory now (decrementClause call now) db = .ok (after, 1) := by
  obtain ⟨⟨available, version⟩, hselect, hbody⟩ := bind_ok_iff.mp h
  cases hcheck : checkStock call available version with
  | some early =>
    simp only [hcheck, pure, Except.pure, Except.ok.injEq, Prod.mk.injEq] at hbody
    left
    exact ⟨hbody.2 ▸ checkStock_nonzero hcheck, hbody.1.symm⟩
  | none =>
    simp only [hcheck] at hbody
    obtain ⟨⟨updated, affectedRows⟩, hup, hreply⟩ := bind_ok_iff.mp hbody
    by_cases haffected : affectedRows = 1
    · simp only [haffected, if_true, pure, Except.pure, Except.ok.injEq, Prod.mk.injEq] at hreply
      obtain ⟨rfl, rfl⟩ := hreply
      rw [haffected] at hup
      right
      exact ⟨rfl, available, version, hselect, hcheck, hup⟩
    · simp only [haffected, if_false, pure, Except.pure, Except.ok.injEq, Prod.mk.injEq] at hreply
      obtain ⟨rfl, rfl⟩ := hreply
      left
      exact ⟨by decide, rfl⟩

/-- The row on which the update could be done had room for the move. -/
theorem canDecrement_of_update {call : Call} {now : Nat} {db : Database} {row : InventoryRow}
    {p : InventoryRow × List LogRow} (honly : db.rowsOf call.productId = [row])
    (hversion : row.version = call.expectedVersion)
    (havailable : call.quantity.val ≤ row.availableStock.val)
    (hp : updateRow now (decrementClause call now) row = .ok p) : CanDecrement call db row := by
  have hmem : row ∈ db.rowsOf call.productId := by simp [honly]
  have hset : (decrementClause call now).set row = some (decrementStock call now row) := by
    simp [decrementClause, (Database.mem_rowsOf.mp hmem).2, hversion]
  cases hdec : decrementStock call now row with
  | error e => simp [updateRow, hset, hdec] at hp
  | ok new =>
    have hd := decrementStock_ok_iff.mp hdec
    have hreserved := new.reservedStock.lt
    have hnext := new.version.lt
    rw [hd.reserved] at hreserved
    rw [hd.version] at hnext
    exact ⟨honly, hversion, havailable, hreserved, hnext⟩

/-- A successful body took the update path, on the product's only row. -/
theorem body_success {call : Call} {now : Nat} {db after : Database} {reply : Reply}
    (h : body call now db = .ok (after, reply)) (hzero : reply.result = 0) :
    ∃ row, CanDecrement call db row ∧
      (∃ p, updateRow now (decrementClause call now) row = .ok p) := by
  obtain ⟨available, version, hselect, hcheck, hup⟩ :=
    ((body_cases h).resolve_left (fun hfailed => hfailed.1 hzero)).2
  obtain ⟨hversion, hroom⟩ := checkStock_none_iff.mp hcheck
  have hcount := updateInventory_count hup
  cases hrows : db.rowsOf call.productId with
  | nil =>
    rw [changedRows_missing hrows] at hcount
    cases hcount
  | cons row rest =>
    cases rest with
    | cons second more => simp [selectStock, hrows] at hselect
    | nil =>
      simp only [selectStock_only hrows, Except.ok.injEq, Prod.mk.injEq] at hselect
      have hmem : row ∈ db.rowsOf call.productId := by simp [hrows]
      obtain ⟨p, hp⟩ := updateInventory_ok_iff.mp ⟨_, hup⟩ row (Database.mem_rowsOf.mp hmem).1
      have hexpected : row.version = call.expectedVersion :=
        IntUnsigned.ext (by rw [hselect.2, hversion])
      exact ⟨row, canDecrement_of_update hrows hexpected (by rw [hselect.1]; exact hroom) hp, p, hp⟩

/-- A call reports success exactly when it moves nothing and could move it. -/
theorem result_zero_iff (call : Call) (now : Nat) (db : Database) :
    (decrementInventory call now db).2.result = 0 ↔
      call.quantity.val = 0 ∧ ∃ row, CanDecrement call db row := by
  refine ⟨?_, fun ⟨hq, row, h⟩ => (decrement_zero h hq).1⟩
  intro hzero
  cases hbody : body call now db with
  | error e => simp [decrementInventory, hbody] at hzero
  | ok outcome =>
    simp only [decrementInventory, hbody] at hzero
    obtain ⟨row, hrow, p, hp⟩ := body_success hbody hzero
    refine ⟨?_, row, hrow⟩
    by_contra hq
    obtain ⟨e, he⟩ := updateRow_positive now hrow (by omega)
    rw [he] at hp
    cases hp

/-- A call that does not report success leaves the database as it was. -/
theorem failed_unchanged {call : Call} {now : Nat} {db : Database}
    (h : (decrementInventory call now db).2.result ≠ 0) :
    (decrementInventory call now db).1 = db := by
  cases hbody : body call now db with
  | error e => simp [decrementInventory, hbody]
  | ok outcome =>
    simp only [decrementInventory, hbody] at h ⊢
    rcases body_cases hbody with ⟨_, hsame⟩ | ⟨hzero, _⟩
    · exact hsame
    · exact absurd hzero h

/-- A call that reports success has committed its update. -/
theorem success_updates {call : Call} {now : Nat} {db : Database}
    (h : (decrementInventory call now db).2.result = 0) :
    updateInventory now (decrementClause call now) db =
      .ok ((decrementInventory call now db).1, 1) := by
  cases hbody : body call now db with
  | error e => simp [decrementInventory, hbody] at h
  | ok outcome =>
    simp only [decrementInventory, hbody] at h ⊢
    rcases body_cases hbody with ⟨hfailed, _⟩ | ⟨_, _, _, _, _, hup⟩
    · exact absurd h hfailed
    · exact hup

/-- The contract of one call: success exactly when the product's only row has
the version and the room, and then the move and its log row; otherwise nothing. -/
structure MeetsContract (call : Call) (now : Nat) (db : Database) : Prop where
  success : (decrementInventory call now db).2.result = 0 ↔ ∃ row, CanDecrement call db row
  moved : ∀ row, CanDecrement call db row →
    Moved call now db (decrementInventory call now db).1 row
  untouched : (¬ ∃ row, CanDecrement call db row) →
    (decrementInventory call now db).2.result ≠ 0 ∧
      (decrementInventory call now db).1.inventory = db.inventory ∧
      (decrementInventory call now db).1.logs = db.logs

/-- The contract holds of every call except those that could move a positive
quantity: there the trigger turns the success into the error reply. -/
theorem meets_contract_iff (call : Call) (now : Nat) (db : Database) :
    MeetsContract call now db ↔
      ¬ (0 < call.quantity.val ∧ ∃ row, CanDecrement call db row) := by
  constructor
  · rintro h ⟨hq, hrow⟩
    have hzero := ((result_zero_iff call now db).mp (h.success.mpr hrow)).1
    omega
  · intro h
    have hzero : (∃ row, CanDecrement call db row) → call.quantity.val = 0 := by
      intro hrow
      by_contra hq
      exact h ⟨by omega, hrow⟩
    refine ⟨?_, ?_, ?_⟩
    · rw [result_zero_iff]
      exact ⟨fun hr => hr.2, fun hr => ⟨hzero hr, hr⟩⟩
    · intro row hrow
      exact (decrement_zero hrow (hzero ⟨row, hrow⟩)).2
    · intro hnone
      have hne : (decrementInventory call now db).2.result ≠ 0 := by
        rw [ne_eq, result_zero_iff]
        exact fun hr => hnone hr.2
      rw [failed_unchanged hne]
      exact ⟨hne, rfl, rfl⟩

/-- Taking one of the 900 available pieces of the first seeded product at its
version 0 meets every condition of success and is answered with -1. -/
theorem seed_call_fails :
    ¬ MeetsContract ⟨1, ⟨1, by decide⟩, ⟨0, by decide⟩⟩ 0 seedDatabase := by
  intro h
  have hroom : CanDecrement ⟨1, ⟨1, by decide⟩, ⟨0, by decide⟩⟩ seedDatabase seedPhone :=
    ⟨by decide, rfl, by decide, by decide, by decide⟩
  have hzero := h.success.mpr ⟨_, hroom⟩
  rw [decrement_positive hroom (by decide)] at hzero
  exact absurd hzero (by decide)

end DecrementInventory
