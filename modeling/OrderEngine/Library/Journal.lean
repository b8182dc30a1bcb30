import Mathlib.Algebra.BigOperators.Group.List.Basic
import Mathlib.Algebra.Group.Pi.Basic
import OrderEngine.Library.Flow

/-!
# Journals that account for a balance

The steps of a system make changes and append entries to a journal. A step is accounted for
where it appends one entry for each of its changes and the amounts of the entries add up to
what the balance has changed by. Then a whole run is accounted for, whatever its steps are.
-/
namespace Journal

variable {State Action Change Entry Balance : Type*}

/-- A journal, what an entry of it records, and the balance that it is kept of. -/
structure Book (State Change Entry Balance : Type*) where
  entries : State → List Entry
  records : Change → Entry → Prop
  amount : Entry → Balance
  balance : State → Balance

section Runs

variable [AddCommGroup Balance] {book : Book State Change Entry Balance}

/-- Between the two states, the journal has grown by one entry for each of the changes, and the
entries add up to the difference of the balances. -/
def Accounts (book : Book State Change Entry Balance) (s : State) (changes : List Change)
    (t : State) : Prop :=
  ∃ added, book.entries t = book.entries s ++ added ∧ List.Forall₂ book.records changes added ∧
    (added.map book.amount).sum = book.balance t - book.balance s

/-- What touches neither the journal nor the balance makes no change. -/
theorem accounts_of_same {s t : State} (hentries : book.entries t = book.entries s)
    (hbalance : book.balance t = book.balance s) : Accounts book s [] t := by
  refine ⟨[], ?_, .nil, ?_⟩
  · rw [hentries, List.append_nil]
  · rw [hbalance, sub_self, List.map_nil, List.sum_nil]

theorem accounts_trans {s t u : State} {first rest : List Change} (h : Accounts book s first t)
    (h' : Accounts book t rest u) : Accounts book s (first ++ rest) u := by
  obtain ⟨added, hentries, hrecords, hsum⟩ := h
  obtain ⟨added', hentries', hrecords', hsum'⟩ := h'
  refine ⟨added ++ added', ?_, List.rel_append hrecords hrecords', ?_⟩
  · rw [hentries', hentries, List.append_assoc]
  · rw [List.map_append, List.sum_append, hsum, hsum', add_comm, sub_add_sub_cancel]

/-- Where each step is accounted for, a whole run is. -/
theorem accounts_exec {step : State → Action → Option State}
    {changes : State → Action → List Change}
    (hstep : ∀ s a t, step s a = some t → Accounts book s (changes s a) t)
    {s t : State} {acts : List Action} (hrun : Runs.exec step s acts = some t) :
    Accounts book s (Flow.emitted step changes s acts) t := by
  induction acts generalizing s with
  | nil =>
    cases hrun
    exact accounts_of_same rfl rfl
  | cons a rest ih =>
    obtain ⟨u, hu, hrest⟩ := Runs.exec_cons_iff.mp hrun
    rw [Flow.emitted_cons hu]
    exact accounts_trans (hstep s a u hu) (ih hrest)

end Runs

section Keys

variable {Item Key Amount : Type*} [DecidableEq Key] [AddCommMonoid Amount]

/-- A balance that is kept for each key is, at one key, the sum over the items of the key. -/
theorem sum_single_apply (key : Item → Key) (value : Item → Amount) (items : List Item) (k : Key) :
    (items.map (fun i => (Pi.single (key i) (value i) : Key → Amount))).sum k =
      ((items.filter (fun i => key i = k)).map value).sum := by
  induction items with
  | nil => rfl
  | cons i items ih =>
    rw [List.map_cons, List.sum_cons, Pi.add_apply, ih, Pi.single_apply]
    by_cases hkey : key i = k
    · rw [if_pos hkey.symm, List.filter_cons_of_pos (by simpa using hkey), List.map_cons,
        List.sum_cons]
    · have hne : k ≠ key i := fun h => hkey h.symm
      rw [if_neg hne, List.filter_cons_of_neg (by simpa using hkey), zero_add]

end Keys

end Journal
