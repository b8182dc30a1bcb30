import OrderEngine.CleanupEvent
import Mathlib.Algebra.Order.BigOperators.Group.List

/-!
# What one execution of the cleanup event gives back

A consistent state has one inventory row for each product, no reservation marked
expired yet, and room for the quantities that expire. There the event should give
back the sum of the quantities it expires, product by product. The second
statement takes one joined pair for each inventory row, so it gives back the
quantity of one reservation, and its log row has room for a signed value only.
-/
namespace CleanupRestores

open RowUpdate InventorySchema CleanupEvent

/-- The reservations of a product that an execution at `now` expires. -/
def expiring (now : Nat) (db : Database) (productId : Nat) : List ReservationRow :=
  db.reservations.rows.filter (fun r => productId = r.productId ∧ Expires now r)

def expiredQuantity (now : Nat) (db : Database) (productId : Nat) : Nat :=
  ((expiring now db productId).map (fun r => r.quantity.val)).sum

structure Consistent (now : Nat) (db : Database) : Prop where
  oneRow : (db.inventory.rows.map InventoryRow.productId).Nodup
  unexpired : ∀ r ∈ db.reservations.rows, r.status ≠ 3
  reserved : ∀ row ∈ db.inventory.rows,
    expiredQuantity now db row.productId ≤ row.reservedStock.val
  available : ∀ row ∈ db.inventory.rows,
    row.availableStock.val + expiredQuantity now db row.productId < 2 ^ 32

/-- The stock of a product's row, with the quantity moved from reserved to available. -/
structure RestoredRow (quantity : Nat) (row new : InventoryRow) : Prop where
  inventoryId : new.inventoryId = row.inventoryId
  productId : new.productId = row.productId
  available : new.availableStock.val = row.availableStock.val + quantity
  reserved : new.reservedStock.val + quantity = row.reservedStock.val
  total : new.totalStock = row.totalStock
  sold : new.soldStock = row.soldStock

/-- The execution gives back, for each product, all that it expires. -/
def RestoresAll (choice : JoinChoice) (now : Nat) (db : Database) : Prop :=
  List.Forall₂ (fun row new => RestoredRow (expiredQuantity now db row.productId) row new)
    db.inventory.rows (cleanupExpiredReservations choice now db).inventory.rows

theorem restoredRow_of_restores {now quantity : Nat} {row new : InventoryRow}
    (h : Restores now quantity row new) : RestoredRow quantity row new := by
  have hrest := h.rest
  refine ⟨?_, ?_, h.available, h.reserved, ?_, ?_⟩ <;> rw [hrest]

theorem restoredRow_same {quantity : Nat} {row : InventoryRow} :
    RestoredRow quantity row row ↔ quantity = 0 := by
  constructor
  · intro h
    have := h.available
    omega
  · intro h
    subst h
    exact ⟨rfl, rfl, rfl, rfl, rfl, rfl⟩

/-- With no reservation marked before, the join finds what the first statement marked. -/
theorem joined_released (now : Nat) {db : Database}
    (h : ∀ r ∈ db.reservations.rows, r.status ≠ 3) (row : InventoryRow) :
    joined now (released now db) row =
      (expiring now db row.productId).map (releaseExpired now) := by
  simp only [joined, released, Table.mapRows_rows, List.filter_map, expiring]
  congr 1
  apply List.filter_congr
  intro r hr
  have hstatus := h r hr
  by_cases he : Expires now r
  · have hmarked : JustExpired now (releaseExpired now r) := by
      simp [JustExpired, releaseExpired, he]
    simp [he, hmarked]
  · have hunmarked : ¬ JustExpired now (releaseExpired now r) := by
      simp [JustExpired, releaseExpired, he, hstatus]
    simp [he, hunmarked]

theorem quantity_le_expired {now : Nat} {db : Database} {productId : Nat} {r : ReservationRow}
    (hr : r ∈ expiring now db productId) :
    r.quantity.val ≤ expiredQuantity now db productId :=
  List.single_le_sum (by simp) _ (List.mem_map.mpr ⟨r, hr, rfl⟩)

/-- The join takes one of the expiring reservations, when there is one. -/
theorem pick_expiring (choice : JoinChoice) {now : Nat} {db : Database}
    (hdb : ∀ r ∈ db.reservations.rows, r.status ≠ 3) (row : InventoryRow)
    (h : expiring now db row.productId ≠ []) :
    ∃ r ∈ expiring now db row.productId,
      choice.pick row (joined now (released now db) row) = some (releaseExpired now r) := by
  have hjoined := joined_released now hdb row
  have hne : joined now (released now db) row ≠ [] := by simp [hjoined, h]
  obtain ⟨picked, hpick⟩ := choice.total row _ hne
  have hmem := choice.mem _ _ _ hpick
  rw [hjoined, List.mem_map] at hmem
  obtain ⟨r, hr, rfl⟩ := hmem
  exact ⟨r, hr, hpick⟩

/-- The update of a row moved the quantity of one of the expired reservations. -/
theorem updated_row {choice : JoinChoice} {now : Nat} {db : Database} {row new : InventoryRow}
    {logs : List LogRow} (hdb : ∀ r ∈ db.reservations.rows, r.status ≠ 3)
    (h : updateRow now (restoreClause choice now (released now db)) row = .ok (new, logs)) :
    (expiring now db row.productId = [] ∧ new = row) ∨
      ∃ r ∈ expiring now db row.productId,
        choice.pick row (joined now (released now db) row) = some (releaseExpired now r) ∧
        RestoredRow r.quantity.val row new ∧ r.quantity.val < 2147483648 := by
  have hjoined := joined_released now hdb row
  by_cases hempty : expiring now db row.productId = []
  · rw [hempty, List.map_nil] at hjoined
    rw [updateRow_unjoined hjoined] at h
    cases h
    exact .inl ⟨hempty, rfl⟩
  · obtain ⟨r, hr, hpick⟩ := pick_expiring choice hdb row hempty
    have hmoved := updateRow_joined hpick h
    simp only [releaseExpired_quantity] at hmoved
    exact .inr ⟨r, hr, hpick, restoredRow_of_restores hmoved.1, hmoved.2⟩

/-- Where each expired reservation carries the whole sum of its product, every
execution goes through and gives the sum back. -/
theorem restores_all_of_equal {choice : JoinChoice} {now : Nat} {db : Database}
    (hdb : Consistent now db)
    (h : ∀ row ∈ db.inventory.rows, (∀ r ∈ expiring now db row.productId,
        r.quantity.val = expiredQuantity now db row.productId) ∧
      expiredQuantity now db row.productId < 2147483648) :
    RestoresAll choice now db := by
  have hgoes : ∀ row ∈ db.inventory.rows, ∃ p,
      updateRow now (restoreClause choice now (released now db)) row = .ok p := by
    intro row hrow
    have hjoined := joined_released now hdb.unexpired row
    by_cases hempty : expiring now db row.productId = []
    · rw [hempty, List.map_nil] at hjoined
      exact ⟨_, updateRow_unjoined hjoined⟩
    · obtain ⟨r, hr, hpick⟩ := pick_expiring choice hdb.unexpired row hempty
      have heq := (h row hrow).1 r hr
      have hav := hdb.available row hrow
      have hres := hdb.reserved row hrow
      have hfit := (h row hrow).2
      exact updateRow_joined_exists hpick (by rw [releaseExpired_quantity, heq]; exact hav)
        (by rw [releaseExpired_quantity, heq]; exact hres)
        (by rw [releaseExpired_quantity, heq]; exact hfit)
  obtain ⟨_, hrows | ⟨⟨row, hrow, hno⟩, _⟩⟩ := cleanup_cases choice now db
  · apply forall₂_imp_mem hrows
    rintro row hrow new ⟨logs, hnew⟩
    rcases updated_row hdb.unexpired hnew with ⟨hempty, rfl⟩ | ⟨r, hr, _, hrestored, _⟩
    · exact restoredRow_same.mpr (by simp [expiredQuantity, hempty])
    · rw [← (h row hrow).1 r hr]
      exact hrestored
  · exact absurd (hgoes row hrow) hno

/-- When everything is given back, the reservation that the join took carries the
whole sum of its product. -/
theorem picked_of_restores_all {choice : JoinChoice} {now : Nat} {db : Database}
    {row : InventoryRow} (hrow : row ∈ db.inventory.rows) {r : ReservationRow}
    (hr : r ∈ expiring now db row.productId)
    (hpick : choice.pick row (joined now (released now db) row) = some (releaseExpired now r))
    (h : RestoresAll choice now db) :
    r.quantity.val = expiredQuantity now db row.productId ∧
      expiredQuantity now db row.productId < 2147483648 := by
  obtain ⟨_, hrows | ⟨_, hsame⟩⟩ := cleanup_cases choice now db
  · have hboth := List.Forall₂.mp (fun _ _ hupdate hrestored => And.intro hupdate hrestored)
      hrows h
    obtain ⟨new, _, ⟨logs, hnew⟩, hall⟩ := forall₂_exists hboth hrow
    have hmoved := updateRow_joined hpick hnew
    simp only [releaseExpired_quantity] at hmoved
    have hsingle := hmoved.1.available
    have hsum := hall.available
    omega
  · rw [RestoresAll, hsame, List.forall₂_same] at h
    have hzero := restoredRow_same.mp (h row hrow)
    have hle := quantity_le_expired hr
    omega

/-- So every expiring reservation does, when the join may take any of them. -/
theorem equal_of_restores_all {now : Nat} {db : Database} (hdb : Consistent now db)
    {row : InventoryRow} (hrow : row ∈ db.inventory.rows) {r : ReservationRow}
    (hr : r ∈ expiring now db row.productId)
    (h : RestoresAll (preferring (releaseExpired now r)) now db) :
    r.quantity.val = expiredQuantity now db row.productId ∧
      expiredQuantity now db row.productId < 2147483648 := by
  have hmem : releaseExpired now r ∈ joined now (released now db) row := by
    rw [joined_released now hdb.unexpired row]
    exact List.mem_map_of_mem hr
  exact picked_of_restores_all hrow hr (by simp [preferring, hmem]) h

/-- One expiring reservation at most, or none with a quantity, and no more in all
than a signed column holds. -/
def AtMostOne (now : Nat) (db : Database) (productId : Nat) : Prop :=
  ((expiring now db productId).length ≤ 1 ∨
    ∀ r ∈ expiring now db productId, r.quantity.val = 0) ∧
  expiredQuantity now db productId < 2147483648

instance (now : Nat) (db : Database) (productId : Nat) : Decidable (AtMostOne now db productId) :=
  inferInstanceAs (Decidable (_ ∧ _))

theorem sum_of_equal {now : Nat} {db : Database} {productId n : Nat}
    (h : ∀ r ∈ expiring now db productId, r.quantity.val = n) :
    expiredQuantity now db productId = (expiring now db productId).length * n := by
  have hsum := List.sum_eq_card_nsmul
    ((expiring now db productId).map (fun r => r.quantity.val)) n (by simpa using h)
  simpa [expiredQuantity] using hsum

/-- Several reservations carry the whole sum each only when they carry nothing. -/
theorem equal_iff_atMostOne (now : Nat) (db : Database) (productId : Nat) :
    ((expiring now db productId).length ≤ 1 ∨
      ∀ r ∈ expiring now db productId, r.quantity.val = 0) ↔
    ∀ r ∈ expiring now db productId, r.quantity.val = expiredQuantity now db productId := by
  constructor
  · rintro (hlength | hzero) r hr
    · obtain ⟨only, honly⟩ : ∃ only, expiring now db productId = [only] :=
        List.length_eq_one_iff.mp (by have := List.length_pos_of_mem hr; omega)
      rw [honly, List.mem_singleton] at hr
      simp [expiredQuantity, honly, hr]
    · have hsum := sum_of_equal hzero
      rw [hzero r hr, hsum, Nat.mul_zero]
  · intro heq
    have hsum := sum_of_equal heq
    by_cases hlength : (expiring now db productId).length ≤ 1
    · exact .inl hlength
    · refine .inr ?_
      intro r hr
      rw [heq r hr]
      have htwice : 2 * expiredQuantity now db productId ≤ expiredQuantity now db productId :=
        calc 2 * expiredQuantity now db productId
            ≤ (expiring now db productId).length * expiredQuantity now db productId :=
              Nat.mul_le_mul_right _ (by omega)
          _ = expiredQuantity now db productId := hsum.symm
      omega

/-- From a consistent state the event gives everything back, whichever joined
pairs the statement takes, exactly when no product has two expiring reservations
that matter and no product gives back more than a signed column holds. -/
theorem restores_all_iff {now : Nat} {db : Database} (hdb : Consistent now db) :
    (∀ choice, RestoresAll choice now db) ↔
      ∀ row ∈ db.inventory.rows, AtMostOne now db row.productId := by
  constructor
  · intro h row hrow
    refine ⟨(equal_iff_atMostOne now db row.productId).mpr fun r hr =>
      (equal_of_restores_all hdb hrow hr (h _)).1, ?_⟩
    by_cases hempty : expiring now db row.productId = []
    · simp [expiredQuantity, hempty]
    · obtain ⟨r, hr⟩ := List.exists_mem_of_ne_nil _ hempty
      exact (equal_of_restores_all hdb hrow hr (h _)).2
  · intro h choice
    apply restores_all_of_equal hdb
    intro row hrow
    exact ⟨(equal_iff_atMostOne now db row.productId).mp (h row hrow).1, (h row hrow).2⟩

theorem one_expired_restored : RestoresAll firstMatch 120 oneExpired := by
  have hdb : Consistent 120 oneExpired := ⟨by decide, by decide, by decide, by decide⟩
  exact (restores_all_iff hdb).mpr (by decide) firstMatch

def twoExpired : Database :=
  { oneExpired with reservations :=
      ⟨oneExpired.reservations.rows ++ [heldReservation "r2" ⟨3, by decide⟩], by decide⟩ }

/-- Two reservations of one product expire together: eight units should come back,
and either five or three do. -/
theorem two_expired_not_restored :
    Consistent 120 twoExpired ∧ ∀ choice, ¬ RestoresAll choice 120 twoExpired := by
  have hdb : Consistent 120 twoExpired := ⟨by decide, by decide, by decide, by decide⟩
  refine ⟨hdb, ?_⟩
  intro choice h
  have hrow : seedPhone ∈ twoExpired.inventory.rows := by decide
  have hsome : expiring 120 twoExpired seedPhone.productId ≠ [] := by decide
  obtain ⟨r, hr, hpick⟩ := pick_expiring choice hdb.unexpired seedPhone hsome
  have hwhole := (picked_of_restores_all hrow hr hpick h).1
  have hless : ∀ r ∈ expiring 120 twoExpired seedPhone.productId,
      r.quantity.val ≠ expiredQuantity 120 twoExpired seedPhone.productId := by decide
  exact hless r hr hwhole

end CleanupRestores
