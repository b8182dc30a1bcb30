import OrderEngine.ConcurrentCalls
import OrderEngine.InventoryWriters

/-!
# Calls of DecrementInventory while the event runs

Each statement of the event is a transaction of its own, so both come between the steps of the
calls. The first one, like those who make reservations, changes the reservations only; the second
one is the only other update of the inventory.
-/
namespace ConcurrentWriters

open RowUpdate InventorySchema DecrementInventory CleanupEvent
open ConcurrentCalls hiding committed
open InventoryWriters (SamePieces samePieces_refl samePieces_trans samePieces_of_moves)

variable {Client : Type*}

/-- Another update of the inventory is the event's second statement, on what is committed then. -/
def EventOnly (s : State Client) : Action Client → Prop
  | .otherUpdate clause now => ∃ choice, clause = restoreClause choice now s.latest
  | _ => True

/-- How many of the transactions are calls on the product. -/
def callsOn (calls : Client → Call) (productId : Nat) (done : List (Transaction Client)) : Nat :=
  done.countP (fun t => t.caller.any (fun i => (calls i).productId = productId))

theorem countP_callers (calls : Client → Call) (productId : Nat)
    (done : List (Transaction Client)) :
    (done.filterMap Transaction.caller).countP (fun i => (calls i).productId = productId) =
      callsOn calls productId done := by
  rw [List.countP_filterMap, callsOn]
  apply List.countP_congr
  intro t _
  cases t.caller <;> simp

/-- The row keeps its pieces and none of its stock is taken; its version counts the calls. -/
structure Accounts (calls : Client → Call) (done : List (Transaction Client))
    (row new : InventoryRow) : Prop where
  pieces : SamePieces row new
  available : row.availableStock.val ≤ new.availableStock.val
  version : new.version.val = row.version.val + callsOn calls row.productId done

/-- The transactions account for the tables, and their calls take no pieces. -/
def Explained (calls : Client → Call) (done : List (Transaction Client))
    (before after : State Client) : Prop :=
  List.Forall₂ (Accounts calls done) before.latest.inventory.rows after.latest.inventory.rows ∧
    ∀ t ∈ done, ∀ i ∈ t.caller, (calls i).quantity.val = 0

theorem accounts_refl (calls : Client → Call) (row : InventoryRow) : Accounts calls [] row row :=
  ⟨samePieces_refl row, Nat.le_refl _, rfl⟩

theorem accounts_trans {calls : Client → Call} {first rest : List (Transaction Client)}
    (row middle new : InventoryRow) (h : Accounts calls first row middle)
    (h' : Accounts calls rest middle new) : Accounts calls (first ++ rest) row new := by
  constructor
  · exact samePieces_trans row middle new h.pieces h'.pieces
  · exact Nat.le_trans h.available h'.available
  · rw [h'.version, h.version, h.pieces.productId, callsOn, callsOn, callsOn, List.countP_append,
      Nat.add_assoc]

theorem explained_refl (calls : Client → Call) (s : State Client) : Explained calls [] s s := by
  constructor
  · exact List.forall₂_same.mpr (fun row _ => accounts_refl calls row)
  · simp

theorem explained_trans (calls : Client → Call) (first rest : List (Transaction Client))
    (s t u : State Client) (h : Explained calls first s t) (h' : Explained calls rest t u) :
    Explained calls (first ++ rest) s u := by
  constructor
  · exact forall₂_comp accounts_trans h.1 h'.1
  · intro t ht
    cases List.mem_append.mp ht with
    | inl hfirst => exact h.2 t hfirst
    | inr hrest => exact h'.2 t hrest

/-- A call that succeeds takes nothing, and advances the version of its product's row. -/
theorem accounts_call {calls : Client → Call} {i : Client} {now : Nat} {db after : Database}
    (h : decrementInventory (calls i) now db = (after, ⟨0, "Success"⟩)) :
    (calls i).quantity.val = 0 ∧
      List.Forall₂ (Accounts calls [.call i now]) db.inventory.rows after.inventory.rows := by
  have hzero : (decrementInventory (calls i) now db).2.result = 0 := by rw [h]
  obtain ⟨hq, row, hcan⟩ := (result_zero_iff (calls i) now db).mp hzero
  refine ⟨hq, ?_⟩
  obtain ⟨new, hnew, hrows⟩ := (decrement_zero hcan hq).2.rows
  rw [h] at hrows
  rw [hrows, List.forall₂_map_right_iff, List.forall₂_same]
  intro r hr
  by_cases hrow : r = row
  · subst hrow
    rw [if_pos rfl]
    have havailable := hnew.available
    refine ⟨samePieces_of_moves (.decremented (calls i) now hnew), by omega, ?_⟩
    simpa [callsOn, Transaction.caller, hcan.mem.2] using hnew.version
  · have hother : (calls i).productId ≠ r.productId := by
      intro hp
      have hmem : r ∈ db.rowsOf (calls i).productId := Database.mem_rowsOf.mpr ⟨hr, hp.symm⟩
      rw [hcan.only] at hmem
      exact hrow (List.mem_singleton.mp hmem)
    rw [if_neg hrow]
    exact ⟨samePieces_refl r, Nat.le_refl _, by simp [callsOn, Transaction.caller, hother]⟩

/-- The event's second statement moves stock back, or fails and moves none. -/
theorem accounts_event (calls : Client → Call) (clause : UpdateClause) (choice : JoinChoice)
    (now : Nat) (db : Database) (hclause : clause = restoreClause choice now db) :
    List.Forall₂ (Accounts calls [.otherUpdate clause now]) db.inventory.rows
      (otherUpdate clause now db).inventory.rows := by
  have hsame : ∀ row, Accounts calls [.otherUpdate clause now] row row := fun row =>
    ⟨samePieces_refl row, Nat.le_refl _, by simp [callsOn, Transaction.caller]⟩
  unfold otherUpdate
  split
  · rename_i after n hupdate
    apply (updateInventory_rows hupdate).1.imp
    rintro row new ⟨logs, hrow⟩
    subst hclause
    cases hpick : choice.pick row (joined now db row) with
    | none =>
      have hset : (restoreClause choice now db).set row = none := by simp [restoreClause, hpick]
      simp only [updateRow, hset, Except.ok.injEq, Prod.mk.injEq] at hrow
      rw [← hrow.1]
      exact hsame row
    | some r =>
      have hrestores := (updateRow_joined hpick hrow).1
      have havailable := hrestores.available
      refine ⟨samePieces_of_moves (.restored now r.quantity.val hrestores), by omega, ?_⟩
      rw [hrestores.rest]
      simp [callsOn, Transaction.caller]
  · exact List.forall₂_same.mpr (fun row _ => hsame row)

variable [DecidableEq Client]

theorem explained_step {calls : Client → Call} (s : State Client) (a : Action Client)
    (t : State Client) (hs : Sound calls s) (hevent : EventOnly s a)
    (h : step calls s a = some t) : Explained calls (committing calls s a) s t := by
  cases outcome_of_step h with
  | starts | selects | selectFails | refuses | passes | aborts => exact explained_refl calls s
  | conflicts i since now n after hphase hupdate hn =>
    have hnone : committing calls s (.update i now) = [] := by
      simp [committing, hphase, hupdate, hn]
    rw [hnone]
    exact explained_refl calls s
  | updateFails i since now e hphase hupdate =>
    have hnone : committing calls s (.update i now) = [] := by simp [committing, hphase, hupdate]
    rw [hnone]
    exact explained_refl calls s
  | updates i since now after hphase hupdate =>
    obtain ⟨_, _, _, _, _, _, hrows⟩ := rows_of_checked hs hphase
    obtain ⟨hq, haccounts⟩ := accounts_call (alone_success hrows hupdate)
    rw [committing_update hphase hupdate]
    exact ⟨haccounts, by simp [Transaction.caller, hq]⟩
  | otherUpdate clause now =>
    obtain ⟨choice, hclause⟩ := hevent
    exact ⟨accounts_event calls clause choice now s.latest hclause,
      by simp [committing, Transaction.caller]⟩
  | setReservations reservations =>
    constructor
    · apply List.forall₂_same.mpr
      intro row _
      exact ⟨samePieces_refl row, Nat.le_refl _,
        by simp [callsOn, committing, Transaction.caller]⟩
    · simp [committing, Transaction.caller]

/-- However the calls overlap with each other and with the event, a call returns with success only
where it takes 0 pieces, no row loses a piece or any of its available stock, and its version has
advanced by the number of the calls on its product that return with success. -/
theorem stock_accounted {calls : Client → Call} {db : Database} {s : State Client}
    {acts : List (Action Client)} (hrun : Runs.exec (step calls) (start db) acts = some s)
    (hevent : Runs.Along (step calls) EventOnly (start db) acts) :
    ∃ winners : List Client, winners.Nodup ∧
      (∀ i, i ∈ winners ↔ ∃ since till, s.phase i = .returned since till ⟨0, "Success"⟩) ∧
      (∀ i ∈ winners, (calls i).quantity.val = 0) ∧
      List.Forall₂ (fun row new => SamePieces row new ∧
          row.availableStock.val ≤ new.availableStock.val ∧
          new.version.val = row.version.val +
            winners.countP (fun i => (calls i).productId = row.productId))
        db.inventory.rows s.latest.inventory.rows := by
  obtain ⟨hnodup, hwinners⟩ := callers_succeeded hrun
  obtain ⟨haccounts, hnothing⟩ := Flow.relates_exec (explained_refl calls)
    (explained_trans calls) (Sound calls) EventOnly sound_step explained_step
    (sound_start calls db) hevent hrun
  refine ⟨_, hnodup, hwinners, ?_, ?_⟩
  · intro i hi
    obtain ⟨t, ht, hcaller⟩ := List.mem_filterMap.mp hi
    exact hnothing t ht i hcaller
  · apply haccounts.imp
    intro row new h
    refine ⟨h.pieces, h.available, ?_⟩
    rw [h.version, countP_callers]
    rfl

/-- The seed data with a reservation that has expired, as the event's first statement leaves it. -/
def releasedSeed : Database :=
  released 120 { seedDatabase with reservations := oneExpired.reservations }

/-- A call has passed its checks when the event gives 5 pieces back. -/
def eventMeanwhile : List (Action Unit) :=
  [.start (), .select () 0, .check (), .setReservations oneExpired.reservations,
    .setReservations releasedSeed.reservations,
    .otherUpdate (restoreClause firstMatch 120 releasedSeed) 120, .update () 121]

theorem stock_accounted_meanwhile :
    ∃ s, Runs.exec (step (fun _ => takesNothing)) (start seedDatabase) eventMeanwhile = some s ∧
      s.latest.inventory.rows.map (fun row => row.availableStock.val) = [905, 450, 1800] ∧
      List.Forall₂ (fun row new => row.availableStock.val ≤ new.availableStock.val)
        seedDatabase.inventory.rows s.latest.inventory.rows := by
  have hrun : Runs.exec (step (fun _ => takesNothing)) (start seedDatabase) eventMeanwhile =
    some _ := rfl
  have hevent : Runs.Along (step (fun _ => takesNothing)) EventOnly (start seedDatabase)
      eventMeanwhile := by
    apply Runs.along_of_enabled rfl trivial
    apply Runs.along_of_enabled rfl trivial
    apply Runs.along_of_enabled rfl trivial
    apply Runs.along_of_enabled rfl trivial
    apply Runs.along_of_enabled rfl trivial
    apply Runs.along_of_enabled rfl ⟨firstMatch, rfl⟩
    exact Runs.along_of_enabled rfl trivial trivial
  refine ⟨_, hrun, by decide, ?_⟩
  obtain ⟨_, _, _, _, hrows⟩ := stock_accounted hrun hevent
  exact hrows.imp (fun _ _ h => h.2.1)

end ConcurrentWriters
