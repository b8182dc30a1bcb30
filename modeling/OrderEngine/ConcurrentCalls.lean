import OrderEngine.DecrementInventory
import OrderEngine.Library.Flow

/-!
# Concurrent calls of DecrementInventory on the whole database

Any number of calls, on any products, with the trigger in place, while other transactions
update the inventory as well. A call is split into the start of its transaction, its SELECT,
its checks, and its UPDATE with the COMMIT. What is committed is what the successful calls
commit when they run alone, one after the other; and each reply is one that the call would
have got alone, at some time between its start and its return.
-/
namespace ConcurrentCalls

open RowUpdate InventorySchema DecrementInventory

variable {Client : Type*}

/-- The reply of the exit handler. -/
def databaseError : Reply := ⟨-1, "Database error occurred"⟩

/-- Where a call is. `since` and `till` are the numbers of commits before its transaction began
and before it returned. -/
inductive Phase where
  | idle
  | begun (since : Nat)
  | selected (since currentAvailable currentVersion : Nat)
  | checked (since : Nat)
  | returned (since till : Nat) (reply : Reply)
  deriving DecidableEq, Repr

/-- The latest committed database, and those before it, the oldest first. -/
structure State (Client : Type*) where
  superseded : List Database
  latest : Database
  phase : Client → Phase

def start (db : Database) : State Client where
  superseded := []
  latest := db
  phase _ := .idle

namespace State

/-- The databases committed so far, by the number of commits before them. -/
def committed (s : State Client) : List Database := s.superseded ++ [s.latest]

/-- The number of commits so far. -/
def commits (s : State Client) : Nat := s.superseded.length

def commit (s : State Client) (db : Database) : State Client :=
  { s with superseded := s.superseded ++ [s.latest], latest := db }

variable [DecidableEq Client]

def setPhase (s : State Client) (i : Client) (p : Phase) : State Client :=
  { s with phase := Function.update s.phase i p }

@[simp] theorem phase_setPhase (s : State Client) (i : Client) (p : Phase) :
    (s.setPhase i p).phase i = p := by
  simp [setPhase]

theorem phase_setPhase_of_ne (s : State Client) {i j : Client} {p : Phase} (h : j ≠ i) :
    (s.setPhase i p).phase j = s.phase j := by
  simp [setPhase, Function.update_of_ne h]

/-- The SELECT of a call that began after `since` commits, on a committed database. -/
def selectStock (s : State Client) (i : Client) (call : Call) (since : Nat) (db : Database) :
    State Client :=
  match DecrementInventory.selectStock db call.productId with
  | .ok (currentAvailable, currentVersion) =>
    s.setPhase i (.selected since currentAvailable currentVersion)
  | .error _ => s.setPhase i (.returned since s.commits databaseError)

def checkStock (s : State Client) (i : Client) (call : Call)
    (since currentAvailable currentVersion : Nat) : State Client :=
  match DecrementInventory.checkStock call currentAvailable currentVersion with
  | some reply => s.setPhase i (.returned since s.commits reply)
  | none => s.setPhase i (.checked since)

/-- The UPDATE and the COMMIT, or the rollback. -/
def update (s : State Client) (i : Client) (call : Call) (since now : Nat) : State Client :=
  match updateInventory now (decrementClause call now) s.latest with
  | .error _ => s.setPhase i (.returned since s.commits databaseError)
  | .ok (after, affectedRows) =>
    if affectedRows = 1 then
      (s.setPhase i (.returned since s.commits ⟨0, "Success"⟩)).commit after
    else s.setPhase i (.returned since s.commits ⟨3, "Update failed"⟩)

end State

inductive Action (Client : Type*) where
  | start (i : Client)
  | select (i : Client) (k : Nat)
  | check (i : Client)
  | update (i : Client) (now : Nat)
  | abort (i : Client)
  | otherUpdate (clause : UpdateClause) (now : Nat)
  | setReservations (reservations : Table ReservationRow.reservationId)

/-- Another transaction's UPDATE of the inventory; it changes nothing where it fails. -/
def otherUpdate (clause : UpdateClause) (now : Nat) (db : Database) : Database :=
  match updateInventory now clause db with
  | .ok (after, _) => after
  | .error _ => db

variable [DecidableEq Client]

/-- One step of a call, or another transaction. The SELECT reads a snapshot that is not older
than the transaction; a lock wait that times out or deadlocks reaches the exit handler at any
point before the call has returned. -/
def step (calls : Client → Call) (s : State Client) : Action Client → Option (State Client)
  | .start i => Runs.guarded (s.phase i = .idle) (s.setPhase i (.begun s.commits))
  | .select i k =>
    match s.phase i, s.committed[k]? with
    | .begun since, some db => Runs.guarded (since ≤ k) (s.selectStock i (calls i) since db)
    | _, _ => none
  | .check i =>
    match s.phase i with
    | .selected since currentAvailable currentVersion =>
      some (s.checkStock i (calls i) since currentAvailable currentVersion)
    | _ => none
  | .update i now =>
    match s.phase i with
    | .checked since => some (s.update i (calls i) since now)
    | _ => none
  | .abort i =>
    match s.phase i with
    | .begun since | .selected since _ _ | .checked since =>
      some (s.setPhase i (.returned since s.commits databaseError))
    | _ => none
  | .otherUpdate clause now => some (s.commit (otherUpdate clause now s.latest))
  | .setReservations reservations =>
    some (s.commit { s.latest with reservations := reservations })

/-- What a step can do, one case for each outcome. -/
inductive Outcome (calls : Client → Call) (s : State Client) : Action Client → State Client → Prop
    where
  | starts (i : Client) (hphase : s.phase i = .idle) :
      Outcome calls s (.start i) (s.setPhase i (.begun s.commits))
  | selects (i : Client) (since k currentAvailable currentVersion : Nat) (db : Database)
      (hphase : s.phase i = .begun since) (hsince : since ≤ k) (hdb : s.committed[k]? = some db)
      (hselect : selectStock db (calls i).productId = .ok (currentAvailable, currentVersion)) :
      Outcome calls s (.select i k)
        (s.setPhase i (.selected since currentAvailable currentVersion))
  | selectFails (i : Client) (since k : Nat) (hphase : s.phase i = .begun since) :
      Outcome calls s (.select i k) (s.setPhase i (.returned since s.commits databaseError))
  | refuses (i : Client) (since currentAvailable currentVersion : Nat) (reply : Reply)
      (hphase : s.phase i = .selected since currentAvailable currentVersion)
      (hcheck : checkStock (calls i) currentAvailable currentVersion = some reply) :
      Outcome calls s (.check i) (s.setPhase i (.returned since s.commits reply))
  | passes (i : Client) (since currentAvailable currentVersion : Nat)
      (hphase : s.phase i = .selected since currentAvailable currentVersion)
      (hcheck : checkStock (calls i) currentAvailable currentVersion = none) :
      Outcome calls s (.check i) (s.setPhase i (.checked since))
  | updates (i : Client) (since now : Nat) (after : Database)
      (hphase : s.phase i = .checked since)
      (hupdate : updateInventory now (decrementClause (calls i) now) s.latest = .ok (after, 1)) :
      Outcome calls s (.update i now)
        ((s.setPhase i (.returned since s.commits ⟨0, "Success"⟩)).commit after)
  | conflicts (i : Client) (since now affectedRows : Nat) (after : Database)
      (hphase : s.phase i = .checked since)
      (hupdate : updateInventory now (decrementClause (calls i) now) s.latest =
        .ok (after, affectedRows)) (hrows : affectedRows ≠ 1) :
      Outcome calls s (.update i now)
        (s.setPhase i (.returned since s.commits ⟨3, "Update failed"⟩))
  | updateFails (i : Client) (since now : Nat) (e : SqlError)
      (hphase : s.phase i = .checked since)
      (hupdate : updateInventory now (decrementClause (calls i) now) s.latest = .error e) :
      Outcome calls s (.update i now) (s.setPhase i (.returned since s.commits databaseError))
  | aborts (i : Client) (since : Nat) (p : Phase) (hphase : s.phase i = p)
      (hopen : p = .begun since ∨ (∃ a v, p = .selected since a v) ∨ p = .checked since) :
      Outcome calls s (.abort i) (s.setPhase i (.returned since s.commits databaseError))
  | otherUpdate (clause : UpdateClause) (now : Nat) :
      Outcome calls s (.otherUpdate clause now) (s.commit (otherUpdate clause now s.latest))
  | setReservations (reservations : Table ReservationRow.reservationId) :
      Outcome calls s (.setReservations reservations)
        (s.commit { s.latest with reservations := reservations })

theorem outcome_of_select {calls : Client → Call} {s t : State Client} {i : Client} {k : Nat}
    (h : step calls s (.select i k) = some t) : Outcome calls s (.select i k) t := by
  simp only [step] at h
  split at h
  · rename_i since db hphase hdb
    obtain ⟨hsince, rfl⟩ := Runs.guarded_eq_some.mp h
    cases hselect : selectStock db (calls i).productId with
    | ok stock =>
      simp only [State.selectStock, hselect]
      exact .selects i since k _ _ db hphase hsince hdb hselect
    | error e =>
      simp only [State.selectStock, hselect]
      exact .selectFails i since k hphase
  · cases h

theorem outcome_of_update {calls : Client → Call} {s t : State Client} {i : Client} {now : Nat}
    (h : step calls s (.update i now) = some t) : Outcome calls s (.update i now) t := by
  simp only [step] at h
  split at h
  · rename_i since hphase
    cases h
    cases hupdate : updateInventory now (decrementClause (calls i) now) s.latest with
    | ok result =>
      obtain ⟨after, affectedRows⟩ := result
      by_cases hrows : affectedRows = 1
      · subst hrows
        simp only [State.update, hupdate, if_true]
        exact .updates i since now after hphase hupdate
      · simp only [State.update, hupdate, if_neg hrows]
        exact .conflicts i since now affectedRows after hphase hupdate hrows
    | error e =>
      simp only [State.update, hupdate]
      exact .updateFails i since now e hphase hupdate
  · cases h

theorem outcome_of_step {calls : Client → Call} {s t : State Client} {a : Action Client}
    (h : step calls s a = some t) : Outcome calls s a t := by
  cases a with
  | start i =>
    obtain ⟨hphase, rfl⟩ := Runs.guarded_eq_some.mp h
    exact .starts i hphase
  | select i k => exact outcome_of_select h
  | check i =>
    simp only [step] at h
    split at h
    · rename_i since currentAvailable currentVersion hphase
      cases h
      cases hcheck : checkStock (calls i) currentAvailable currentVersion with
      | some reply =>
        simp only [State.checkStock, hcheck]
        exact .refuses i since _ _ reply hphase hcheck
      | none =>
        simp only [State.checkStock, hcheck]
        exact .passes i since _ _ hphase hcheck
    · cases h
  | update i now => exact outcome_of_update h
  | abort i =>
    simp only [step] at h
    split at h
    · rename_i since hphase
      cases h
      exact .aborts i since _ hphase (.inl rfl)
    · rename_i since a v hphase
      cases h
      exact .aborts i since _ hphase (.inr (.inl ⟨a, v, rfl⟩))
    · rename_i since hphase
      cases h
      exact .aborts i since _ hphase (.inr (.inr rfl))
    · cases h
  | otherUpdate clause now =>
    cases h
    exact .otherUpdate clause now
  | setReservations reservations =>
    cases h
    exact .setReservations reservations

/-- The products of the inventory rows, in the order of the rows. -/
def products (db : Database) : List Nat := db.inventory.rows.map InventoryRow.productId

theorem length_rowsOf (db : Database) (productId : Nat) :
    (db.rowsOf productId).length = (products db).count productId := by
  rw [Database.rowsOf, products, List.count, List.countP_map, List.countP_eq_length_filter]
  congr 1

/-- An UPDATE leaves each row to its product. -/
theorem products_update {now : Nat} {clause : UpdateClause} {db after : Database} {n : Nat}
    (h : updateInventory now clause db = .ok (after, n)) : products after = products db := by
  apply map_key_of_forall₂
  apply (updateInventory_rows h).1.imp
  rintro row new ⟨logs, hrow⟩
  exact (updateRow_keeps hrow).2

theorem products_otherUpdate (clause : UpdateClause) (now : Nat) (db : Database) :
    products (otherUpdate clause now db) = products db := by
  cases h : updateInventory now clause db with
  | ok result => simp [otherUpdate, h, products_update h]
  | error e => simp [otherUpdate, h]

/-- What the SELECT answers says how many rows the product has. -/
theorem length_of_select {db : Database} {productId currentAvailable currentVersion : Nat}
    (h : selectStock db productId = .ok (currentAvailable, currentVersion)) :
    (db.rowsOf productId).length ≤ 1 := by
  unfold selectStock at h
  split at h
  · rename_i hrows
    simp [hrows]
  · rename_i row hrows
    simp [hrows]
  · cases h

/-- The only row of the product is not changed at another version. -/
theorem changedRows_stale {call : Call} {now : Nat} {db : Database} {row : InventoryRow}
    (honly : db.rowsOf call.productId = [row]) (hversion : row.version ≠ call.expectedVersion) :
    changedRows (decrementClause call now) db.inventory.rows = 0 := by
  rw [changedRows, List.countP_eq_zero]
  intro r hr
  have hstale : ¬ (r.productId = call.productId ∧ r.version = call.expectedVersion) := by
    rintro ⟨hproduct, hexpected⟩
    have hmem : r ∈ db.rowsOf call.productId := Database.mem_rowsOf.mpr ⟨hr, hproduct⟩
    rw [honly, List.mem_singleton] at hmem
    rw [hmem] at hexpected
    exact hversion hexpected
  simp [decrementClause, hstale]

/-- The update goes through on a product's only row, at its version, only where it has room. -/
theorem canDecrement_of_ok {call : Call} {now : Nat} {db after : Database} {row : InventoryRow}
    {n : Nat} (honly : db.rowsOf call.productId = [row])
    (hversion : row.version = call.expectedVersion)
    (hupdate : updateInventory now (decrementClause call now) db = .ok (after, n)) :
    CanDecrement call db row := by
  have hmem : row ∈ db.rowsOf call.productId := by simp [honly]
  obtain ⟨p, hp⟩ := updateInventory_ok_iff.mp ⟨_, hupdate⟩ row (Database.mem_rowsOf.mp hmem).1
  have hset : (decrementClause call now).set row = some (decrementStock call now row) := by
    simp [decrementClause, (Database.mem_rowsOf.mp hmem).2, hversion]
  have havailable : call.quantity.val ≤ row.availableStock.val := by
    cases hdec : decrementStock call now row with
    | error e => simp [updateRow, hset, hdec] at hp
    | ok new =>
      have hd := (decrementStock_ok_iff.mp hdec).available
      omega
  exact canDecrement_of_update honly hversion havailable hp

/-- An update that changes one row is that of the call run alone. -/
theorem alone_success {call : Call} {now : Nat} {db after : Database}
    (hrows : (db.rowsOf call.productId).length ≤ 1)
    (hupdate : updateInventory now (decrementClause call now) db = .ok (after, 1)) :
    decrementInventory call now db = (after, ⟨0, "Success"⟩) := by
  have hcount := updateInventory_count hupdate
  match honly : db.rowsOf call.productId with
  | [] =>
    rw [changedRows_missing honly] at hcount
    cases hcount
  | [row] =>
    by_cases hversion : row.version = call.expectedVersion
    · have hroom := canDecrement_of_ok honly hversion hupdate
      simp [decrementInventory, body_room hroom, hupdate, bind, Except.bind, pure, Except.pure]
    · rw [changedRows_stale honly hversion] at hcount
      cases hcount
  | _ :: _ :: _ => simp [honly] at hrows

/-- An update that changes no row is that of a call which, run alone, is told that its version is
stale; or the product has no row at all, and the reply is the same. -/
theorem alone_conflict {call : Call} {now currentAvailable currentVersion n : Nat}
    {seen db after : Database} (hproducts : products seen = products db)
    (hselect : selectStock seen call.productId = .ok (currentAvailable, currentVersion))
    (hcheck : checkStock call currentAvailable currentVersion = none)
    (hupdate : updateInventory now (decrementClause call now) db = .ok (after, n)) (hn : n ≠ 1) :
    (decrementInventory call now db).2 = ⟨3, "Update failed"⟩ ∨
      (decrementInventory call now db).2 = ⟨1, "Version conflict, please retry"⟩ := by
  have hlength : (db.rowsOf call.productId).length = (seen.rowsOf call.productId).length := by
    rw [length_rowsOf, length_rowsOf, hproducts]
  match honly : db.rowsOf call.productId with
  | [] =>
    have hseen : seen.rowsOf call.productId = [] := by
      rw [honly, List.length_nil] at hlength
      exact List.eq_nil_of_length_eq_zero hlength.symm
    have hzero : currentAvailable = 0 ∧ currentVersion = 0 := by
      simpa [selectStock, hseen, eq_comm] using hselect
    rw [hzero.1, hzero.2] at hcheck
    left
    simp [decrementInventory, body, selectStock, honly, hcheck, hupdate, hn, bind, Except.bind,
      pure, Except.pure]
  | [row] =>
    by_cases hversion : row.version = call.expectedVersion
    · have hroom := canDecrement_of_ok honly hversion hupdate
      obtain ⟨new, hnew⟩ := decrementStock_exists now hroom.available hroom.reserved hroom.next
      have hcount := changedRows_single hroom (decrementStock_ok_iff.mp hnew)
      rw [updateInventory_count hupdate] at hn
      exact absurd hcount hn
    · have hstale : row.version.val ≠ call.expectedVersion.val :=
        fun hval => hversion (IntUnsigned.ext hval)
      right
      simp [decrementInventory, body, selectStock, honly, checkStock, hstale, bind, Except.bind,
        pure, Except.pure]
  | _ :: _ :: _ =>
    have hseen := length_of_select hselect
    rw [honly] at hlength
    simp only [List.length_cons] at hlength
    omega

/-- A refusal by the checks is that of the call run alone, at any time. -/
theorem alone_refused {call : Call} {currentAvailable currentVersion : Nat} {db : Database}
    {reply : Reply} (now : Nat)
    (hselect : selectStock db call.productId = .ok (currentAvailable, currentVersion))
    (hcheck : checkStock call currentAvailable currentVersion = some reply) :
    decrementInventory call now db = (db, reply) := by
  simp [decrementInventory, body, hselect, hcheck, bind, Except.bind, pure, Except.pure]

/-- The reply is what the call gets when it runs alone on the database, or it says that the
update failed where the call alone is told of a version conflict, or it is the exit handler's. -/
inductive Explains (call : Call) (db : Database) : Reply → Prop where
  | alone (now : Nat) (reply : Reply) (h : (decrementInventory call now db).2 = reply) :
      Explains call db reply
  | conflict (now : Nat)
      (h : (decrementInventory call now db).2 = ⟨1, "Version conflict, please retry"⟩) :
      Explains call db ⟨3, "Update failed"⟩
  | error : Explains call db databaseError

/-- What is known of a call: what it has read, and what its reply says, is so on a database that
was committed after its start. -/
def Accounted (call : Call) (committed : List Database) : Phase → Prop
  | .idle => True
  | .begun since => since < committed.length
  | .selected since currentAvailable currentVersion =>
    ∃ k db, since ≤ k ∧ committed[k]? = some db ∧
      selectStock db call.productId = .ok (currentAvailable, currentVersion)
  | .checked since =>
    ∃ k db currentAvailable currentVersion, since ≤ k ∧ committed[k]? = some db ∧
      selectStock db call.productId = .ok (currentAvailable, currentVersion) ∧
      checkStock call currentAvailable currentVersion = none
  | .returned since till reply =>
    ∃ k db, since ≤ k ∧ k ≤ till ∧ committed[k]? = some db ∧ Explains call db reply

/-- What has been committed stays where it is. -/
theorem getElem?_commit {committed : List Database} {k : Nat} {db : Database} (new : Database)
    (h : committed[k]? = some db) : (committed ++ [new])[k]? = some db := by
  obtain ⟨hlt, _⟩ := List.getElem?_eq_some_iff.mp h
  rw [List.getElem?_append_left hlt, h]

theorem accounted_commit {call : Call} {committed : List Database} {p : Phase} (new : Database)
    (h : Accounted call committed p) : Accounted call (committed ++ [new]) p := by
  cases p with
  | idle => trivial
  | begun since =>
    rw [Accounted, List.length_append, List.length_singleton]
    exact Nat.lt_succ_of_lt h
  | selected since a v =>
    obtain ⟨k, db, hsince, hdb, hselect⟩ := h
    exact ⟨k, db, hsince, getElem?_commit new hdb, hselect⟩
  | checked since =>
    obtain ⟨k, db, a, v, hsince, hdb, hrest⟩ := h
    exact ⟨k, db, a, v, hsince, getElem?_commit new hdb, hrest⟩
  | returned since till reply =>
    obtain ⟨k, db, hsince, htill, hdb, hexplains⟩ := h
    exact ⟨k, db, hsince, htill, getElem?_commit new hdb, hexplains⟩

/-- An open call began before now. -/
theorem since_lt {call : Call} {committed : List Database} {since : Nat} {p : Phase}
    (h : Accounted call committed p)
    (hopen : p = .begun since ∨ (∃ a v, p = .selected since a v) ∨ p = .checked since) :
    since < committed.length := by
  rcases hopen with rfl | ⟨a, v, rfl⟩ | rfl
  · exact h
  · obtain ⟨k, db, hsince, hdb, _⟩ := h
    exact Nat.lt_of_le_of_lt hsince (List.getElem?_eq_some_iff.mp hdb).1
  · obtain ⟨k, db, _, _, hsince, hdb, _⟩ := h
    exact Nat.lt_of_le_of_lt hsince (List.getElem?_eq_some_iff.mp hdb).1

structure Sound (calls : Client → Call) (s : State Client) : Prop where
  products : ∀ db ∈ s.committed, products db = products s.latest
  calls : ∀ i, Accounted (calls i) s.committed (s.phase i)

section
omit [DecidableEq Client]

theorem committed_commits (s : State Client) : s.committed[s.commits]? = some s.latest := by
  simp [State.committed, State.commits]

theorem length_committed (s : State Client) : s.committed.length = s.commits + 1 := by
  simp [State.committed, State.commits]

/-- A reply that is explained now. -/
theorem accounted_now {call : Call} {s : State Client} {since : Nat} {reply : Reply}
    (hsince : since < s.committed.length) (h : Explains call s.latest reply) :
    Accounted call s.committed (.returned since s.commits reply) := by
  rw [length_committed] at hsince
  exact ⟨s.commits, s.latest, Nat.le_of_lt_succ hsince, Nat.le_refl _, committed_commits s, h⟩

theorem sound_start (calls : Client → Call) (db : Database) :
    Sound calls (start db : State Client) := by
  constructor
  · intro d hd
    have hlatest : d = db := by simpa [State.committed, start] using hd
    rw [hlatest]
    rfl
  · intro i
    trivial

theorem sound_commit {calls : Client → Call} {s : State Client} {new : Database}
    (h : Sound calls s) (hproducts : products new = products s.latest) :
    Sound calls (s.commit new) := by
  constructor
  · intro db hdb
    have happend : (s.commit new).committed = s.committed ++ [new] := rfl
    rw [happend, List.mem_append, List.mem_singleton] at hdb
    change products db = products new
    cases hdb with
    | inl hbefore => rw [h.products db hbefore, hproducts]
    | inr hnew => rw [hnew]
  · intro i
    exact accounted_commit new (h.calls i)

/-- The product of a call that has passed its checks has at most one row, also now. -/
theorem rows_of_checked {calls : Client → Call} {s : State Client} {i : Client} {since : Nat}
    (h : Sound calls s) (hphase : s.phase i = .checked since) :
    ∃ seen currentAvailable currentVersion, products seen = products s.latest ∧
      selectStock seen (calls i).productId = .ok (currentAvailable, currentVersion) ∧
      checkStock (calls i) currentAvailable currentVersion = none ∧
      (s.latest.rowsOf (calls i).productId).length ≤ 1 := by
  have haccounted := h.calls i
  rw [hphase] at haccounted
  obtain ⟨k, seen, a, v, _, hseen, hselect, hcheck⟩ := haccounted
  have hproducts := h.products seen (List.mem_of_getElem? hseen)
  have hlength := length_of_select hselect
  rw [length_rowsOf, hproducts, ← length_rowsOf] at hlength
  exact ⟨seen, a, v, hproducts, hselect, hcheck, hlength⟩

end

theorem sound_setPhase {calls : Client → Call} {s : State Client} {i : Client} {p : Phase}
    (h : Sound calls s) (hp : Accounted (calls i) s.committed p) :
    Sound calls (s.setPhase i p) := by
  constructor
  · exact h.products
  · intro j
    change Accounted (calls j) s.committed ((s.setPhase i p).phase j)
    by_cases hj : j = i
    · rw [hj, s.phase_setPhase]
      exact hp
    · rw [s.phase_setPhase_of_ne hj]
      exact h.calls j

theorem sound_step {calls : Client → Call} (s : State Client) (a : Action Client)
    (t : State Client) (hs : Sound calls s) (h : step calls s a = some t) : Sound calls t := by
  have hcalls := hs.calls
  cases outcome_of_step h with
  | starts i hphase =>
    apply sound_setPhase hs
    rw [Accounted, length_committed]
    exact Nat.lt_succ_self _
  | selects i since k a v db hphase hsince hdb hselect =>
    exact sound_setPhase hs ⟨k, db, hsince, hdb, hselect⟩
  | selectFails i since k hphase =>
    have hlt := since_lt (hcalls i) (.inl hphase)
    exact sound_setPhase hs (accounted_now hlt .error)
  | refuses i since a v reply hphase hcheck =>
    have haccounted := hcalls i
    rw [hphase] at haccounted
    obtain ⟨k, db, hsince, hdb, hselect⟩ := haccounted
    have hlast : k ≤ s.commits := by
      have hlt := (List.getElem?_eq_some_iff.mp hdb).1
      rw [length_committed] at hlt
      omega
    have halone := alone_refused 0 hselect hcheck
    exact sound_setPhase hs ⟨k, db, hsince, hlast, hdb, .alone 0 reply (by rw [halone])⟩
  | passes i since a v hphase hcheck =>
    have haccounted := hcalls i
    rw [hphase] at haccounted
    obtain ⟨k, db, hsince, hdb, hselect⟩ := haccounted
    exact sound_setPhase hs ⟨k, db, a, v, hsince, hdb, hselect, hcheck⟩
  | updates i since now after hphase hupdate =>
    obtain ⟨_, _, _, _, _, _, hrows⟩ := rows_of_checked hs hphase
    have halone := alone_success hrows hupdate
    have hlt := since_lt (hcalls i) (.inr (.inr hphase))
    have hreturned := sound_setPhase hs (accounted_now hlt (.alone now _ (by rw [halone])))
    exact sound_commit hreturned (products_update hupdate)
  | conflicts i since now n after hphase hupdate hn =>
    obtain ⟨seen, a, v, hproducts, hselect, hcheck, _⟩ := rows_of_checked hs hphase
    have hlt := since_lt (hcalls i) (.inr (.inr hphase))
    apply sound_setPhase hs (accounted_now hlt _)
    cases alone_conflict hproducts hselect hcheck hupdate hn with
    | inl hsame => exact .alone now _ hsame
    | inr hstale => exact .conflict now hstale
  | updateFails i since now e hphase =>
    have hlt := since_lt (hcalls i) (.inr (.inr hphase))
    exact sound_setPhase hs (accounted_now hlt .error)
  | aborts i since p hphase hopen =>
    have haccounted := hcalls i
    rw [hphase] at haccounted
    exact sound_setPhase hs (accounted_now (since_lt haccounted hopen) .error)
  | otherUpdate clause now => exact sound_commit hs (products_otherUpdate clause now s.latest)
  | setReservations reservations => exact sound_commit hs rfl

/-- In every run, the reply of each call that has returned is explained by a database that was
the committed one at some time between the start of the call and its return. -/
theorem replies_explained {calls : Client → Call} {db : Database} {s : State Client}
    {acts : List (Action Client)} (hrun : Runs.exec (step calls) (start db) acts = some s)
    {i : Client} {since till : Nat} {reply : Reply}
    (hreturned : s.phase i = .returned since till reply) :
    ∃ k current, since ≤ k ∧ k ≤ till ∧ s.committed[k]? = some current ∧
      Explains (calls i) current reply := by
  have hsound := Runs.invariant_exec (Sound calls) sound_step (sound_start calls db) hrun
  have haccounted := hsound.calls i
  rw [hreturned] at haccounted
  exact haccounted

section
omit [DecidableEq Client]

/-- A transaction that runs alone. -/
inductive Transaction (Client : Type*) where
  | call (i : Client) (now : Nat)
  | otherUpdate (clause : UpdateClause) (now : Nat)
  | setReservations (reservations : Table ReservationRow.reservationId)

/-- The call that a transaction is. -/
def Transaction.caller : Transaction Client → Option Client
  | .call i _ => some i
  | _ => none

/-- The transactions one after the other; a call is one that succeeds. -/
def serialStep (calls : Client → Call) (db : Database) : Transaction Client → Option Database
  | .call i now =>
    match decrementInventory (calls i) now db with
    | (after, reply) => Runs.guarded (reply = ⟨0, "Success"⟩) after
  | .otherUpdate clause now => some (otherUpdate clause now db)
  | .setReservations reservations => some { db with reservations := reservations }

/-- The transaction that a step commits. -/
def committing (calls : Client → Call) (s : State Client) :
    Action Client → List (Transaction Client)
  | .update i now =>
    match s.phase i, updateInventory now (decrementClause (calls i) now) s.latest with
    | .checked _, .ok (_, 1) => [.call i now]
    | _, _ => []
  | .otherUpdate clause now => [.otherUpdate clause now]
  | .setReservations reservations => [.setReservations reservations]
  | _ => []

/-- The call has returned with success. -/
def Succeeded (s : State Client) (i : Client) : Prop :=
  ∃ since till, s.phase i = .returned since till ⟨0, "Success"⟩

theorem not_succeeded {s : State Client} {i : Client} {p : Phase} (hphase : s.phase i = p)
    (hp : ∀ since till, p ≠ .returned since till ⟨0, "Success"⟩) : ¬ Succeeded s i := by
  rintro ⟨since, till, h⟩
  rw [hphase] at h
  exact hp since till h

theorem committing_update {calls : Client → Call} {s : State Client} {i : Client}
    {since now : Nat} {after : Database} (hphase : s.phase i = .checked since)
    (hupdate : updateInventory now (decrementClause (calls i) now) s.latest = .ok (after, 1)) :
    committing calls s (.update i now) = [.call i now] := by
  simp [committing, hphase, hupdate]

end

theorem serial_step {calls : Client → Call} (s : State Client) (a : Action Client)
    (t : State Client) (hs : Sound calls s) (h : step calls s a = some t) :
    Runs.exec (serialStep calls) s.latest (committing calls s a) = some t.latest := by
  cases outcome_of_step h with
  | starts | selects | selectFails | refuses | passes | aborts | otherUpdate | setReservations =>
    rfl
  | updates i since now after hphase hupdate =>
    obtain ⟨_, _, _, _, _, _, hrows⟩ := rows_of_checked hs hphase
    have halone := alone_success hrows hupdate
    rw [committing_update hphase hupdate]
    simp [serialStep, halone, Runs.guarded, State.commit]
  | conflicts i since now n after hphase hupdate hn =>
    simp [committing, hphase, hupdate, hn, State.setPhase]
  | updateFails i since now e hphase hupdate =>
    simp [committing, hphase, hupdate, State.setPhase]

theorem succeeded_setPhase {s : State Client} {i : Client} {p : Phase} (hopen : ¬ Succeeded s i)
    (hp : ∀ since till, p ≠ .returned since till ⟨0, "Success"⟩) (j : Client) :
    Succeeded (s.setPhase i p) j ↔ Succeeded s j := by
  by_cases hj : j = i
  · subst hj
    exact iff_of_false (not_succeeded (s.phase_setPhase j p) hp) hopen
  · simp only [Succeeded, s.phase_setPhase_of_ne hj]

/-- The calls that a step commits. -/
def committed (calls : Client → Call) (s : State Client) (a : Action Client) : List Client :=
  (committing calls s a).filterMap Transaction.caller

/-- A step of an open call that does not succeed. -/
theorem marks_open {calls : Client → Call} {s : State Client} {a : Action Client} {i : Client}
    {p : Phase} (hnone : committed calls s a = []) (hopen : ¬ Succeeded s i)
    (hp : ∀ since till, p ≠ .returned since till ⟨0, "Success"⟩) :
    Flow.Marks Succeeded (committed calls s a) s (s.setPhase i p) := by
  rw [hnone]
  exact ⟨List.nodup_nil, by simp [succeeded_setPhase hopen hp], by simp⟩

/-- A step reports success to the call that it commits, and to no other. -/
theorem marks_step {calls : Client → Call} (s : State Client) (a : Action Client)
    (t : State Client) (h : step calls s a = some t) :
    Flow.Marks Succeeded (committed calls s a) s t := by
  cases outcome_of_step h with
  | starts i hphase | selects i _ _ _ _ _ hphase | selectFails i _ _ hphase
  | passes i _ _ _ hphase =>
    exact marks_open rfl (not_succeeded hphase (by simp)) (by simp [databaseError])
  | refuses i since a v reply hphase hcheck =>
    apply marks_open rfl (not_succeeded hphase (by simp))
    intro since' till hsuccess
    cases hsuccess
    exact checkStock_nonzero hcheck rfl
  | updates i since now after hphase hupdate =>
    have hcommitted : committed calls s (.update i now) = [i] := by
      simp [committed, committing_update hphase hupdate, Transaction.caller]
    rw [hcommitted]
    constructor
    · exact List.nodup_singleton i
    · intro j
      change Succeeded (s.setPhase i _) j ↔ _
      by_cases hj : j = i
      · subst hj
        exact iff_of_true ⟨since, s.commits, s.phase_setPhase j _⟩ (.inr List.mem_cons_self)
      · simp only [Succeeded, s.phase_setPhase_of_ne hj, List.mem_singleton, hj, or_false]
    · intro j hj
      rw [List.mem_singleton.mp hj]
      exact not_succeeded hphase (by simp)
  | conflicts i since now n after hphase hupdate hn =>
    apply marks_open _ (not_succeeded hphase (by simp)) (by simp)
    simp [committed, committing, hphase, hupdate, hn]
  | updateFails i since now e hphase hupdate =>
    apply marks_open _ (not_succeeded hphase (by simp)) (by simp [databaseError])
    simp [committed, committing, hphase, hupdate]
  | aborts i since p hphase hopen =>
    apply marks_open rfl (not_succeeded hphase _) (by simp [databaseError])
    rcases hopen with rfl | ⟨a, v, rfl⟩ | rfl <;> simp
  | otherUpdate clause now =>
    have hnone : committed calls s (.otherUpdate clause now) = [] := rfl
    rw [hnone]
    exact ⟨List.nodup_nil, by simp [Succeeded, State.commit], by simp⟩
  | setReservations reservations =>
    have hnone : committed calls s (.setReservations reservations) = [] := rfl
    rw [hnone]
    exact ⟨List.nodup_nil, by simp [Succeeded, State.commit], by simp⟩

/-- What is committed in a run, in the order of the commits. -/
def transactions (calls : Client → Call) (db : Database) (acts : List (Action Client)) :
    List (Transaction Client) :=
  Flow.emitted (step calls) (committing calls) (start db) acts

/-- The calls that are committed are those that return with success, each once. -/
theorem callers_succeeded {calls : Client → Call} {db : Database} {s : State Client}
    {acts : List (Action Client)} (hrun : Runs.exec (step calls) (start db) acts = some s) :
    ((transactions calls db acts).filterMap Transaction.caller).Nodup ∧
      ∀ i, i ∈ (transactions calls db acts).filterMap Transaction.caller ↔ Succeeded s i := by
  have hmarks := Flow.marks_exec Succeeded marks_step hrun
  have hcommitted : Flow.emitted (step calls) (committed calls) (start db) acts =
      (transactions calls db acts).filterMap Transaction.caller := Flow.emitted_filterMap _
  rw [hcommitted] at hmarks
  refine ⟨hmarks.nodup, ?_⟩
  intro i
  have hidle : (start db : State Client).phase i = .idle := rfl
  have hnone : ¬ Succeeded (start db : State Client) i := not_succeeded hidle (by simp)
  have hiff := hmarks.marked_iff i
  simp only [hnone, false_or] at hiff
  exact hiff.symm

/-- In every run, what is committed is what the calls that return with success, each once, and
the other transactions commit when they run alone, one after the other in the order of their
commits. -/
theorem commits_serial {calls : Client → Call} {db : Database} {s : State Client}
    {acts : List (Action Client)} (hrun : Runs.exec (step calls) (start db) acts = some s) :
    Runs.exec (serialStep calls) db (transactions calls db acts) = some s.latest ∧
      ((transactions calls db acts).filterMap Transaction.caller).Nodup ∧
      ∀ i, i ∈ (transactions calls db acts).filterMap Transaction.caller ↔
        ∃ since till, s.phase i = .returned since till ⟨0, "Success"⟩ := by
  refine ⟨?_, callers_succeeded hrun⟩
  exact Flow.exec_emitted (Sound calls) State.latest (committing calls) sound_step serial_step
    (sound_start calls db) hrun

/-- A call that takes 0 pieces of the first product, at its version 0. -/
def takesNothing : Call := ⟨1, seedPhone.version, seedPhone.version⟩

/-- Two such calls; the second has read the database before the first commits. -/
def overlapping : List (Action Bool) :=
  [.start false, .start true, .select false 0, .select true 0, .check false, .check true,
    .update false 10, .update true 11]

theorem commits_serial_overlapping :
    ∃ s, Runs.exec (step (fun _ => takesNothing)) (start seedDatabase) overlapping = some s ∧
      s.latest.logs.length = 1 ∧
      Runs.exec (serialStep (fun _ => takesNothing)) seedDatabase
        (transactions (fun _ => takesNothing) seedDatabase overlapping) = some s.latest := by
  have hrun : Runs.exec (step (fun _ => takesNothing)) (start seedDatabase) overlapping =
    some _ := rfl
  exact ⟨_, hrun, rfl, (commits_serial hrun).1⟩

theorem replies_explained_overlapping :
    ∃ s, Runs.exec (step (fun _ => takesNothing)) (start seedDatabase) overlapping = some s ∧
      s.phase true = .returned 0 1 ⟨3, "Update failed"⟩ ∧
      ∃ k current, 0 ≤ k ∧ k ≤ 1 ∧ s.committed[k]? = some current ∧
        Explains takesNothing current ⟨3, "Update failed"⟩ := by
  have hrun : Runs.exec (step (fun _ => takesNothing)) (start seedDatabase) overlapping =
    some _ := rfl
  exact ⟨_, hrun, rfl,
    @replies_explained Bool _ _ seedDatabase _ overlapping hrun true 0 1 _ rfl⟩

end ConcurrentCalls
