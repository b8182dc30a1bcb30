import OrderEngine.CleanupEvent
import OrderEngine.DecrementInventory
import OrderEngine.Library.Runs

/-!
# The two writers of the inventory table

Runs of calls of `DecrementInventory` and executions of the event, in any order;
others may change the reservations in between. Both writers only move stock between
the columns of a row. The procedure advances the version of the row it changes, the
event does not.
-/
namespace InventoryWriters

open RowUpdate InventorySchema DecrementInventory CleanupEvent

inductive Action where
  | decrementInventory (call : Call) (now : Nat)
  | cleanup (choice : JoinChoice) (now : Nat)
  | setReservations (reservations : Table ReservationRow.reservationId)

def step (db : Database) : Action → Option Database
  | .decrementInventory call now => some (decrementInventory call now db).1
  | .cleanup choice now => some (cleanupExpiredReservations choice now db)
  | .setReservations reservations => some { db with reservations := reservations }

/-- What a writer may do to a row. -/
inductive Moves (row new : InventoryRow) : Prop where
  | same (h : new = row)
  | decremented (call : Call) (now : Nat) (h : Decrements call now row new)
  | restored (now quantity : Nat) (h : Restores now quantity row new)

theorem decrement_rows (call : Call) (now : Nat) (db : Database) :
    List.Forall₂ (fun row new => new = row ∨ Decrements call now row new)
      db.inventory.rows (decrementInventory call now db).1.inventory.rows := by
  by_cases hzero : (decrementInventory call now db).2.result = 0
  · obtain ⟨hq, row, hrow⟩ := (result_zero_iff call now db).mp hzero
    obtain ⟨new, hnew, hrows⟩ := (decrement_zero hrow hq).2.rows
    rw [hrows, List.forall₂_map_right_iff, List.forall₂_same]
    intro r _
    by_cases hr : r = row
    · simp [hr, hnew]
    · simp [hr]
  · rw [failed_unchanged hzero, List.forall₂_same]
    intro r _
    exact .inl rfl

/-- An execution moves back what it takes for each row, or nothing at all. -/
theorem cleanup_rows (choice : JoinChoice) (now : Nat) (db : Database) :
    (∀ row ∈ db.inventory.rows, ∀ r, taken choice now db row = some r → Fits r row) ∧
      List.Forall₂ (fun row new => match taken choice now db row with
          | none => new = row
          | some r => Restores now r.quantity.val row new)
        db.inventory.rows (cleanupExpiredReservations choice now db).inventory.rows ∨
    (∃ row ∈ db.inventory.rows, ∃ r, taken choice now db row = some r ∧ ¬ Fits r row) ∧
      (cleanupExpiredReservations choice now db).inventory = db.inventory := by
  rcases (cleanup_cases choice now db).2 with hrows | ⟨⟨row, hrow, hno⟩, hsame⟩
  · refine .inl ⟨?_, ?_⟩
    · intro row hrow
      obtain ⟨new, _, logs, hnew⟩ := forall₂_exists hrows hrow
      exact updateRow_ok_iff.mp ⟨_, hnew⟩
    · apply hrows.imp
      rintro row new ⟨logs, hnew⟩
      cases hpick : taken choice now db row with
      | none =>
        have hset : (restoreClause choice now (released now db)).set row = none := by
          simpa [restoreClause, taken] using hpick
        simp only [updateRow, hset, Except.ok.injEq, Prod.mk.injEq] at hnew
        exact hnew.1.symm
      | some r => exact (updateRow_joined hpick hnew).1
  · rw [updateRow_ok_iff] at hno
    simp only [not_forall] at hno
    obtain ⟨r, hpick, hfits⟩ := hno
    exact .inr ⟨⟨row, hrow, r, hpick, hfits⟩, hsame⟩

theorem step_rows {db db' : Database} {a : Action} (hstep : step db a = some db') :
    List.Forall₂ Moves db.inventory.rows db'.inventory.rows := by
  have hsame : List.Forall₂ Moves db.inventory.rows db.inventory.rows :=
    List.forall₂_same.mpr (fun _ _ => .same rfl)
  cases a with
  | decrementInventory call now =>
    cases hstep
    apply (decrement_rows call now db).imp
    rintro row new (h | h)
    · exact .same h
    · exact .decremented call now h
  | cleanup choice now =>
    cases hstep
    rcases cleanup_rows choice now db with ⟨_, hrows⟩ | ⟨_, hinventory⟩
    · apply hrows.imp
      intro row new h
      cases hpick : taken choice now db row with
      | none =>
        simp only [hpick] at h
        exact .same h
      | some r =>
        simp only [hpick] at h
        exact .restored now r.quantity.val h
    · rw [hinventory]
      exact hsame
  | setReservations reservations =>
    cases hstep
    exact hsame

/-- The pieces of a row, whatever they are kept for. -/
def pieces (row : InventoryRow) : Nat :=
  row.availableStock.val + row.reservedStock.val + row.soldStock.val

/-- The same row of the table, with as many pieces. -/
structure SamePieces (row new : InventoryRow) : Prop where
  inventoryId : new.inventoryId = row.inventoryId
  productId : new.productId = row.productId
  total : new.totalStock = row.totalStock
  pieces : pieces new = pieces row

theorem samePieces_refl (row : InventoryRow) : SamePieces row row := ⟨rfl, rfl, rfl, rfl⟩

theorem samePieces_trans (row middle new : InventoryRow) (h : SamePieces row middle)
    (h' : SamePieces middle new) : SamePieces row new :=
  ⟨h'.inventoryId.trans h.inventoryId, h'.productId.trans h.productId, h'.total.trans h.total,
    h'.pieces.trans h.pieces⟩

/-- Stock that only moves between the available and the reserved column keeps the pieces. -/
theorem samePieces_of_sum {row new : InventoryRow} (hid : new.inventoryId = row.inventoryId)
    (hproduct : new.productId = row.productId) (htotal : new.totalStock = row.totalStock)
    (hsold : new.soldStock = row.soldStock)
    (hsum : new.availableStock.val + new.reservedStock.val =
      row.availableStock.val + row.reservedStock.val) : SamePieces row new := by
  refine ⟨hid, hproduct, htotal, ?_⟩
  rw [pieces, pieces, hsold, hsum]

theorem samePieces_of_moves {row new : InventoryRow} (h : Moves row new) : SamePieces row new := by
  cases h with
  | same h =>
    subst h
    exact samePieces_refl new
  | decremented call now h =>
    have hrest := h.rest
    have havailable := h.available
    have hreserved := h.reserved
    apply samePieces_of_sum (by rw [hrest]) (by rw [hrest]) (by rw [hrest]) (by rw [hrest])
    omega
  | restored now quantity h =>
    have hrest := h.rest
    have havailable := h.available
    have hreserved := h.reserved
    apply samePieces_of_sum (by rw [hrest]) (by rw [hrest]) (by rw [hrest]) (by rw [hrest])
    omega

/-- `total_stock = available_stock + reserved_stock + sold_stock`. -/
def Balanced (row : InventoryRow) : Prop := row.totalStock.val = pieces row

instance (row : InventoryRow) : Decidable (Balanced row) :=
  inferInstanceAs (Decidable (row.totalStock.val = _))

theorem rows_conserved {db after : Database} {acts : List Action}
    (hrun : Runs.exec step db acts = some after) :
    List.Forall₂ SamePieces db.inventory.rows after.inventory.rows := by
  have hstart : List.Forall₂ SamePieces db.inventory.rows db.inventory.rows :=
    List.forall₂_same.mpr (fun row _ => samePieces_refl row)
  refine Runs.invariant_exec
    (fun s => List.Forall₂ SamePieces db.inventory.rows s.inventory.rows) ?_ hstart hrun
  intro s a t hs hstep
  exact forall₂_trans samePieces_trans hs ((step_rows hstep).imp fun _ _ => samePieces_of_moves)

/-- Each row keeps its pieces in every run, so balanced tables stay balanced, those of
the script among them. -/
theorem stock_conserved {db after : Database} {acts : List Action}
    (hrun : Runs.exec step db acts = some after) :
    List.Forall₂ SamePieces db.inventory.rows after.inventory.rows ∧
      ((∀ row ∈ db.inventory.rows, Balanced row) → ∀ row ∈ after.inventory.rows, Balanced row) ∧
      ∀ row ∈ seedDatabase.inventory.rows, Balanced row := by
  have hrows := rows_conserved hrun
  refine ⟨hrows, ?_, by decide⟩
  intro hbalanced new hnew
  obtain ⟨row, hrow, hsame⟩ := forall₂_exists hrows.flip hnew
  have htotal := hbalanced row hrow
  unfold Balanced at htotal ⊢
  rw [hsame.total, hsame.pieces, htotal]

/-- An empty call takes the first product to version 1, and the event gives back 5
pieces of it. -/
def callAndCleanup : List Action :=
  [.decrementInventory ⟨1, seedPhone.version, seedPhone.version⟩ 100,
    .setReservations oneExpired.reservations, .cleanup firstMatch 120]

theorem stock_conserved_call_and_cleanup : ∃ after,
    Runs.exec step seedDatabase callAndCleanup = some after ∧
      after.inventory.rows.map (fun row => row.availableStock.val) = [905, 450, 1800] ∧
      ∀ row ∈ after.inventory.rows, Balanced row := by
  refine ⟨_, rfl, by decide, ?_⟩
  have h := stock_conserved (rfl : Runs.exec step seedDatabase callAndCleanup = some _)
  exact h.2.1 h.2.2

/-- The stock columns of the two rows agree. -/
def SameStock (row new : InventoryRow) : Prop :=
  new.availableStock = row.availableStock ∧ new.reservedStock = row.reservedStock ∧
    new.soldStock = row.soldStock

/-- A row that has the same version in both databases has the same stock in both. -/
def VersionGuards (before after : Database) : Prop :=
  ∀ row ∈ before.inventory.rows, ∀ new ∈ after.inventory.rows,
    new.inventoryId = row.inventoryId → new.version = row.version → SameStock row new

/-- An execution of the event takes a reservation that does not fit its row, or only
reservations of no piece at all. -/
def MovesNothing (db : Database) : Action → Prop
  | .cleanup choice now =>
    (∃ row ∈ db.inventory.rows, ∃ r, taken choice now db row = some r ∧ ¬ Fits r row) ∨
      ∀ row ∈ db.inventory.rows, ∀ r, taken choice now db row = some r → r.quantity.val = 0
  | _ => True

/-- The row has a later version, or the same version and the same stock. -/
structure Advances (row new : InventoryRow) : Prop where
  inventoryId : new.inventoryId = row.inventoryId
  version : row.version.val < new.version.val ∨ new.version = row.version ∧ SameStock row new

theorem advances_refl (row : InventoryRow) : Advances row row := ⟨rfl, .inr ⟨rfl, rfl, rfl, rfl⟩⟩

theorem advances_trans (row middle new : InventoryRow) (h : Advances row middle)
    (h' : Advances middle new) : Advances row new := by
  refine ⟨h'.inventoryId.trans h.inventoryId, ?_⟩
  rcases h.version with hlt | ⟨heq, havailable, hreserved, hsold⟩
  · rcases h'.version with hlt' | ⟨heq', _⟩
    · exact .inl (Nat.lt_trans hlt hlt')
    · rw [heq']
      exact .inl hlt
  · rcases h'.version with hlt' | ⟨heq', havailable', hreserved', hsold'⟩
    · rw [heq] at hlt'
      exact .inl hlt'
    · exact .inr ⟨heq'.trans heq, havailable'.trans havailable, hreserved'.trans hreserved,
        hsold'.trans hsold⟩

theorem advances_of_decrements {call : Call} {now : Nat} {row new : InventoryRow}
    (h : Decrements call now row new) : Advances row new := by
  have hversion := h.version
  refine ⟨by rw [h.rest], .inl ?_⟩
  omega

/-- Moving back no piece leaves the stock as it is. -/
theorem advances_of_restores {now quantity : Nat} {row new : InventoryRow}
    (h : Restores now quantity row new) (hq : quantity = 0) : Advances row new := by
  have hrest := h.rest
  have havailable := h.available
  have hreserved := h.reserved
  subst hq
  refine ⟨by rw [hrest], .inr ⟨by rw [hrest], ?_, ?_, by rw [hrest]⟩⟩
  · exact IntUnsigned.ext havailable
  · exact IntUnsigned.ext hreserved

theorem advances_step {db db' : Database} {a : Action} (hnothing : MovesNothing db a)
    (hstep : step db a = some db') :
    List.Forall₂ Advances db.inventory.rows db'.inventory.rows := by
  have hsame : List.Forall₂ Advances db.inventory.rows db.inventory.rows :=
    List.forall₂_same.mpr (fun row _ => advances_refl row)
  cases a with
  | decrementInventory call now =>
    cases hstep
    apply (decrement_rows call now db).imp
    rintro row new (rfl | h)
    · exact advances_refl new
    · exact advances_of_decrements h
  | cleanup choice now =>
    cases hstep
    rcases cleanup_rows choice now db with ⟨hfits, hrows⟩ | ⟨_, hinventory⟩
    · have hzero : ∀ row ∈ db.inventory.rows, ∀ r, taken choice now db row = some r →
          r.quantity.val = 0 := by
        rcases hnothing with ⟨row, hrow, r, hpick, hno⟩ | hzero
        · exact absurd (hfits row hrow r hpick) hno
        · exact hzero
      apply forall₂_imp_mem hrows
      intro row hrow new h
      cases hpick : taken choice now db row with
      | none =>
        simp only [hpick] at h
        rw [h]
        exact advances_refl row
      | some r =>
        simp only [hpick] at h
        exact advances_of_restores h (hzero row hrow r hpick)
    · rw [hinventory]
      exact hsame
  | setReservations reservations =>
    cases hstep
    exact hsame

theorem versionGuards_of_advances {before after : Database}
    (h : List.Forall₂ Advances before.inventory.rows after.inventory.rows) :
    VersionGuards before after := by
  intro row hrow new hnew hid hversion
  obtain ⟨o, ho, hadvances⟩ := forall₂_exists h hrow
  have hsame : o = new := Table.eq_of_key ho hnew (hadvances.inventoryId.trans hid.symm)
  rw [hsame] at hadvances
  rcases hadvances.version with hlt | ⟨_, hstock⟩
  · rw [hversion] at hlt
    exact absurd hlt (Nat.lt_irrefl _)
  · exact hstock

/-- An execution that moves a piece keeps the version of the row that it changes. -/
theorem movesNothing_of_guards {db : Database} {a : Action}
    (h : ∀ db', step db a = some db' → VersionGuards db db') : MovesNothing db a := by
  cases a with
  | decrementInventory call now => trivial
  | cleanup choice now =>
    have hguards := h _ rfl
    rcases cleanup_rows choice now db with ⟨_, hrows⟩ | ⟨hno, _⟩
    · refine .inr ?_
      intro row hrow r hpick
      obtain ⟨new, hnew, hmoved⟩ := forall₂_exists hrows hrow
      simp only [hpick] at hmoved
      have hrest := hmoved.rest
      obtain ⟨havailable, _, _⟩ := hguards row hrow new hnew (by rw [hrest]) (by rw [hrest])
      have hsum := hmoved.available
      rw [havailable] at hsum
      omega
    · exact .inl hno
  | setReservations reservations => trivial

/-- The version guards the stock of a row in exactly the runs in which no execution of
the event moves a piece. -/
theorem version_guards_iff {db : Database} {acts : List Action} :
    Runs.Moments step VersionGuards db acts ↔ Runs.Along step MovesNothing db acts := by
  constructor
  · intro h
    refine Runs.along_of_moments ?_ h
    intro db a hguards
    exact movesNothing_of_guards hguards
  · intro h
    have hadvances : Runs.Moments step
        (fun before after => List.Forall₂ Advances before.inventory.rows after.inventory.rows)
        db acts := by
      refine Runs.moments_of_step ?_ ?_ h
      · intro first second third hfirst hsecond
        exact forall₂_trans advances_trans hfirst hsecond
      · intro first a second hnothing hstep
        exact advances_step hnothing hstep
    exact Runs.moments_mono (fun _ _ => versionGuards_of_advances) hadvances

/-- The event gives back 5 pieces of the first product and leaves its version at 0. -/
theorem cleanup_keeps_version :
    ¬ Runs.Moments step VersionGuards oneExpired [.cleanup firstMatch 120] := by
  intro h
  have hguards := Runs.throughout_first (h _ rfl).1
  obtain ⟨havailable, _⟩ := hguards seedPhone (by simp [oneExpired])
    { seedPhone with
      availableStock := ⟨905, by decide⟩
      reservedStock := ⟨45, by decide⟩
      updatedAt := 120 } (by decide) rfl rfl
  exact absurd havailable (by decide)

end InventoryWriters
