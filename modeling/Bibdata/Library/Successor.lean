import Mathlib.Data.List.MinMax
import Mathlib.Data.Int.Order.Basic

/-!
# Walking a table by a key

The position in a table is held only as the row reached last. The next row is the first one in
the order of the key among the rows whose key is at least the current one's, the current row
itself (told by its id) left out. Keys may tie: the walk then never gets past the tie
(`successor_le`), and without ties each hop leaves fewer rows ahead (`ahead_length_lt`).
-/

namespace Successor

variable {α ι τ : Type*} [LinearOrder τ] [DecidableEq ι] (key : α → τ) (id : α → ι)

def ahead (rows : List α) (x : α) : List α :=
  rows.filter fun y => key x ≤ key y ∧ id y ≠ id x

/-- The row after `x`: the first of the least among those ahead. -/
def successor (rows : List α) (x : α) : Option α :=
  (ahead key id rows x).argmin key

variable {key id} {rows : List α} {x y c : α}

@[simp] theorem mem_ahead : y ∈ ahead key id rows x ↔ y ∈ rows ∧ key x ≤ key y ∧ id y ≠ id x := by
  simp [ahead]

theorem mem_ahead_of_successor (h : successor key id rows x = some y) :
    y ∈ rows ∧ key x ≤ key y ∧ id y ≠ id x :=
  mem_ahead.1 (List.argmin_mem h)

/-- A hop goes no further than any row ahead of it. -/
theorem successor_le (hc : c ∈ ahead key id rows x) :
    ∃ y, successor key id rows x = some y ∧ key y ≤ key c := by
  rcases h : successor key id rows x with _ | y
  · rw [successor, List.argmin_eq_none] at h
    rw [h] at hc
    cases hc
  · exact ⟨y, rfl, List.le_of_mem_argmin hc h⟩

theorem successor_eq_none (h : successor key id rows x = none) : ahead key id rows x = [] :=
  List.argmin_eq_none.1 h

/-- A hop past the row left behind leaves fewer rows ahead. -/
theorem ahead_length_lt (h : successor key id rows x = some y)
    (hlt : ∀ z ∈ rows, id z = id x → key z < key y) :
    (ahead key id rows y).length < (ahead key id rows x).length := by
  obtain ⟨hy, hle, hne⟩ := mem_ahead_of_successor h
  have hsub : (ahead key id rows y).length
      ≤ ((ahead key id rows x).filter (id · ≠ id y)).length := by
    unfold ahead
    rw [List.filter_filter, ← List.countP_eq_length_filter, ← List.countP_eq_length_filter]
    refine List.countP_mono_left fun z hz hzy => ?_
    simp only [decide_eq_true_eq, Bool.and_eq_true] at hzy ⊢
    refine ⟨hzy.2, hle.trans hzy.1, fun hzx => ?_⟩
    exact absurd (hlt z hz hzx) (not_lt.2 hzy.1)
  have hlen : ((ahead key id rows x).filter (id · ≠ id y)).length
      < (ahead key id rows x).length := by
    rw [List.length_filter_lt_length_iff_exists]
    exact ⟨y, mem_ahead.2 ⟨hy, hle, hne⟩, by simp⟩
  exact hsub.trans_lt hlen

end Successor
