import Mathlib.Data.List.Basic
import Mathlib.Data.List.Forall2
import Mathlib.Data.List.Nodup

/-!
# All-or-nothing updates of keyed tables

A statement visits the rows of a table in order. On each row it may fail, which
fails the whole statement, or give the new row together with what it emits (the
work of a row trigger). A table carries the fact that its keys are distinct, and
an update that keeps the key of each row gives a table again.
-/
namespace RowUpdate

universe u

variable {Row Out Err Key : Type*}

theorem bind_ok_iff {α β : Type u} {x : Except Err α} {f : α → Except Err β} {b : β} :
    (x >>= f) = .ok b ↔ ∃ a, x = .ok a ∧ f a = .ok b := by
  cases x with
  | error e => simp [bind, Except.bind]
  | ok a => simp [bind, Except.bind]

/-- Visit all rows; the first error is the result of the statement. -/
def visit (f : Row → Except Err (Row × List Out)) :
    List Row → Except Err (List Row × List Out)
  | [] => .ok ([], [])
  | r :: rest =>
    match f r with
    | .error e => .error e
    | .ok (new, out) =>
      match visit f rest with
      | .error e => .error e
      | .ok (news, outs) => .ok (new :: news, out ++ outs)

@[simp] theorem visit_nil (f : Row → Except Err (Row × List Out)) :
    visit f [] = .ok ([], []) := rfl

/-- A statement that fails on no row maps the rows and collects what they emit. -/
theorem visit_ok {f : Row → Except Err (Row × List Out)} {g : Row → Row × List Out}
    {rows : List Row} (h : ∀ r ∈ rows, f r = .ok (g r)) :
    visit f rows = .ok (rows.map (fun r => (g r).1), rows.flatMap (fun r => (g r).2)) := by
  induction rows with
  | nil => rfl
  | cons r rest ih =>
    have hr := h r (by simp)
    have hrest := ih (fun s hs => h s (by simp [hs]))
    simp [visit, hr, hrest]

/-- A statement that fails on some row fails. -/
theorem visit_error {f : Row → Except Err (Row × List Out)} {rows : List Row} {r : Row}
    {e : Err} (hr : r ∈ rows) (hf : f r = .error e) : ∃ e', visit f rows = .error e' := by
  induction rows with
  | nil => simp at hr
  | cons s rest ih =>
    cases hs : f s with
    | error e' => exact ⟨e', by simp [visit, hs]⟩
    | ok p =>
      rcases List.mem_cons.mp hr with rfl | hrest
      · rw [hs] at hf
        cases hf
      · obtain ⟨e', he⟩ := ih hrest
        exact ⟨e', by simp [visit, hs, he]⟩

/-- What a successful statement did to each row. -/
theorem visit_rows {f : Row → Except Err (Row × List Out)} {rows news : List Row}
    {outs : List Out} (h : visit f rows = .ok (news, outs)) :
    List.Forall₂ (fun r new => ∃ out, f r = .ok (new, out)) rows news := by
  induction rows generalizing news outs with
  | nil =>
    cases h
    exact .nil
  | cons r rest ih =>
    cases hr : f r with
    | error e => simp [visit, hr] at h
    | ok p =>
      obtain ⟨new, out⟩ := p
      cases hrest : visit f rest with
      | error e => simp [visit, hr, hrest] at h
      | ok q =>
        obtain ⟨news', outs'⟩ := q
        simp only [visit, hr, hrest, Except.ok.injEq, Prod.mk.injEq] at h
        obtain ⟨rfl, rfl⟩ := h
        exact .cons ⟨out, hr⟩ (ih hrest)

theorem forall₂_imp_mem {R S : Row → Out → Prop} {rows : List Row} {outs : List Out}
    (h : List.Forall₂ R rows outs) (himp : ∀ r ∈ rows, ∀ o, R r o → S r o) :
    List.Forall₂ S rows outs := by
  induction h with
  | nil => exact .nil
  | cons hr _ ih =>
    exact .cons (himp _ (by simp) _ hr) (ih (fun r hr => himp r (by simp [hr])))

theorem forall₂_exists {R : Row → Out → Prop} {rows : List Row} {outs : List Out}
    (h : List.Forall₂ R rows outs) {r : Row} (hr : r ∈ rows) : ∃ o ∈ outs, R r o := by
  induction h with
  | nil => simp at hr
  | cons hhead _ ih =>
    rcases List.mem_cons.mp hr with rfl | hrest
    · exact ⟨_, by simp, hhead⟩
    · obtain ⟨o, ho, hR⟩ := ih hrest
      exact ⟨o, by simp [ho], hR⟩

theorem forall₂_comp {R S T : Row → Row → Prop} (hcomp : ∀ a b c, R a b → S b c → T a c)
    {first second third : List Row} (h : List.Forall₂ R first second)
    (h' : List.Forall₂ S second third) : List.Forall₂ T first third := by
  induction h generalizing third with
  | nil =>
    cases h'
    exact .nil
  | cons hhead _ ih =>
    cases h' with
    | cons hhead' hrest' => exact .cons (hcomp _ _ _ hhead hhead') (ih hrest')

theorem forall₂_trans {R : Row → Row → Prop} (htrans : ∀ a b c, R a b → R b c → R a c)
    {first second third : List Row} (h : List.Forall₂ R first second)
    (h' : List.Forall₂ R second third) : List.Forall₂ R first third :=
  forall₂_comp htrans h h'

theorem visit_ok_iff {f : Row → Except Err (Row × List Out)} {rows : List Row} :
    (∃ result, visit f rows = .ok result) ↔ ∀ r ∈ rows, ∃ p, f r = .ok p := by
  constructor
  · rintro ⟨⟨news, outs⟩, h⟩ r hr
    cases hf : f r with
    | error e =>
      obtain ⟨e', he⟩ := visit_error hr hf
      rw [he] at h
      cases h
    | ok p => exact ⟨p, rfl⟩
  · intro h
    induction rows with
    | nil => exact ⟨_, rfl⟩
    | cons r rest ih =>
      obtain ⟨p, hp⟩ := h r (by simp)
      obtain ⟨q, hq⟩ := ih (fun s hs => h s (by simp [hs]))
      exact ⟨(p.1 :: q.1, p.2 ++ q.2), by simp [visit, hp, hq]⟩

/-- Rows whose keys are distinct. -/
structure Table {Row Key : Type*} (key : Row → Key) where
  rows : List Row
  nodup : (rows.map key).Nodup

variable {key : Row → Key}

theorem Table.ext {t u : Table key} (h : t.rows = u.rows) : t = u := by
  cases t
  cases u
  cases h
  rfl

/-- Rows of one table with the same key are the same row. -/
theorem Table.eq_of_key {t : Table key} {r s : Row} (hr : r ∈ t.rows) (hs : s ∈ t.rows)
    (h : key r = key s) : r = s :=
  List.inj_on_of_nodup_map t.nodup hr hs h

theorem Table.rows_nodup (t : Table key) : t.rows.Nodup := List.Nodup.of_map _ t.nodup

/-- What a statement emits when it does something to a single row only. -/
theorem flatMap_single [DecidableEq Row] {rows : List Row} {row : Row} (hn : rows.Nodup)
    (hr : row ∈ rows) (out : List Out) :
    rows.flatMap (fun r => if r = row then out else []) = out := by
  obtain ⟨before, after, rfl⟩ := List.append_of_mem hr
  have hbefore : row ∉ before := fun h => (List.nodup_append.mp hn).2.2 row h row (by simp) rfl
  have hafter : row ∉ after := (List.nodup_cons.mp (List.nodup_append.mp hn).2.1).1
  have hempty : ∀ rest : List Row, row ∉ rest →
      rest.flatMap (fun r => if r = row then out else []) = [] := by
    intro rest hrest
    rw [List.flatMap_eq_nil_iff]
    intro r hmem
    have hne : r ≠ row := by
      intro he
      rw [he] at hmem
      exact hrest hmem
    simp [hne]
  simp [List.flatMap_append, hempty before hbefore, hempty after hafter]

/-- Change every row by a function that keeps its key. -/
def Table.mapRows (t : Table key) (f : Row → Row) (hf : ∀ r, key (f r) = key r) : Table key :=
  ⟨t.rows.map f, by
    rw [List.map_map, show key ∘ f = key from funext hf]
    exact t.nodup⟩

@[simp] theorem Table.mapRows_rows (t : Table key) (f : Row → Row)
    (hf : ∀ r, key (f r) = key r) : (t.mapRows f hf).rows = t.rows.map f := rfl

theorem map_key_of_forall₂ {rows news : List Row}
    (h : List.Forall₂ (fun r new => key new = key r) rows news) :
    news.map key = rows.map key := by
  induction h with
  | nil => rfl
  | cons hk _ ih => simp [hk, ih]

theorem visit_keys {f : Row → Except Err (Row × List Out)}
    (hf : ∀ r new out, f r = .ok (new, out) → key new = key r) {rows news : List Row}
    {outs : List Out} (h : visit f rows = .ok (news, outs)) :
    news.map key = rows.map key :=
  map_key_of_forall₂ ((visit_rows h).imp fun _ _ hr => hr.elim fun out ho => hf _ _ out ho)

/-- One statement on a table. -/
def Table.update (t : Table key) (f : Row → Except Err (Row × List Out))
    (hf : ∀ r new out, f r = .ok (new, out) → key new = key r) :
    Except Err (Table key × List Out) :=
  match h : visit f t.rows with
  | .error e => .error e
  | .ok (news, outs) => .ok (⟨news, by rw [visit_keys hf h]; exact t.nodup⟩, outs)

theorem Table.update_ok_iff {t u : Table key} {f : Row → Except Err (Row × List Out)}
    {h : ∀ r new out, f r = .ok (new, out) → key new = key r} {outs : List Out} :
    t.update f h = .ok (u, outs) ↔ visit f t.rows = .ok (u.rows, outs) := by
  unfold Table.update
  split
  · rename_i e he
    simp [he]
  · rename_i news outs' he
    constructor
    · intro hu
      cases hu
      exact he
    · intro hv
      rw [he] at hv
      cases hv
      rfl

/-- A statement goes through exactly when it fails on no row. -/
theorem Table.update_ok_iff_forall {t : Table key} {f : Row → Except Err (Row × List Out)}
    {h : ∀ r new out, f r = .ok (new, out) → key new = key r} :
    (∃ u outs, t.update f h = .ok (u, outs)) ↔ ∀ r ∈ t.rows, ∃ p, f r = .ok p := by
  rw [← visit_ok_iff]
  constructor
  · rintro ⟨u, outs, hu⟩
    exact ⟨_, Table.update_ok_iff.mp hu⟩
  · rintro ⟨⟨news, outs⟩, hv⟩
    exact ⟨⟨news, by rw [visit_keys h hv]; exact t.nodup⟩, outs, Table.update_ok_iff.mpr hv⟩

end RowUpdate
