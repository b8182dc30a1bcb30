import OrderEngine.CleanupEvent

/-!
# Which executions of the cleanup event are all-or-nothing

`DecrementInventory` opens a transaction and rolls it back in a handler; the event
does neither. Where its second statement fails, what the first has marked stays
marked.
-/
namespace CleanupAtomicity

open RowUpdate InventorySchema CleanupEvent

/-- Both statements take effect, or the two tables are as they were. -/
def AllOrNothing (choice : JoinChoice) (now : Nat) (db : Database) : Prop :=
  (∃ after changed, updateInventory now (restoreClause choice now (released now db))
      (released now db) = .ok (after, changed) ∧
    cleanupExpiredReservations choice now db = after) ∨
  (cleanupExpiredReservations choice now db).reservations = db.reservations ∧
    (cleanupExpiredReservations choice now db).inventory = db.inventory

theorem releaseExpired_eq_self {now : Nat} {r : ReservationRow} :
    releaseExpired now r = r ↔ ¬ Expires now r := by
  constructor
  · intro hsame hexpires
    have hstatus : (releaseExpired now r).status = 3 := by simp [releaseExpired, hexpires]
    rw [hsame, hexpires.1] at hstatus
    cases hstatus
  · intro h
    simp [releaseExpired, h]

/-- The first statement changes the table exactly when a reservation expires. -/
theorem released_eq_self {now : Nat} {db : Database} :
    (released now db).reservations = db.reservations ↔
      ∀ r ∈ db.reservations.rows, ¬ Expires now r := by
  have hrows : (released now db).reservations = db.reservations ↔
      db.reservations.rows.map (releaseExpired now) = db.reservations.rows.map id := by
    rw [List.map_id]
    constructor
    · intro h
      exact congrArg Table.rows h
    · intro h
      exact Table.ext h
  rw [hrows, List.map_inj_left]
  exact forall₂_congr (fun _ _ => releaseExpired_eq_self)

/-- An execution is all-or-nothing exactly when each row has room for the reservation
that is taken for it, or when no reservation expires. -/
theorem all_or_nothing_iff (choice : JoinChoice) (now : Nat) (db : Database) :
    AllOrNothing choice now db ↔
      (∀ row ∈ db.inventory.rows, ∀ r, taken choice now db row = some r → Fits r row) ∨
        ∀ r ∈ db.reservations.rows, ¬ Expires now r := by
  rw [← restore_ok_iff, ← released_eq_self]
  by_cases hok : ∃ result, updateInventory now (restoreClause choice now (released now db))
      (released now db) = .ok result
  · refine iff_of_true (.inl ?_) (.inl hok)
    obtain ⟨⟨after, changed⟩, hup⟩ := hok
    exact ⟨after, changed, hup, by simp only [cleanupExpiredReservations, hup]⟩
  · have hfailed := cleanup_failed hok
    unfold AllOrNothing
    rw [hfailed]
    constructor
    · rintro (⟨after, changed, hup, _⟩ | ⟨hsame, _⟩)
      · exact absurd ⟨_, hup⟩ hok
      · exact .inr hsame
    · rintro (hup | hsame)
      · exact absurd hup hok
      · exact .inr ⟨hsame, rfl⟩

/-- Nothing is reserved any more, and a reservation of 5 pieces expires. -/
def nothingReserved : Database :=
  { oneExpired with inventory := ⟨[{ seedPhone with reservedStock := seedPhone.version }], by decide⟩ }

theorem half_done_at_120 :
    ¬ AllOrNothing firstMatch 120 nothingReserved ∧
      (cleanupExpiredReservations firstMatch 120 nothingReserved).reservations.rows.map
        ReservationRow.status = [3] := by
  have hstatus : (cleanupExpiredReservations firstMatch 120 nothingReserved).reservations.rows.map
      ReservationRow.status = [3] := by decide
  refine ⟨?_, hstatus⟩
  rintro (⟨after, changed, hup, _⟩ | ⟨hsame, _⟩)
  · cases hup
  · rw [hsame] at hstatus
    exact absurd hstatus (by decide)

end CleanupAtomicity
