import Mathlib.Data.List.Basic
import Mathlib.Order.Lattice
import Mathlib.Order.Nat
import Mathlib.Data.Nat.Find
import Mathlib.Tactic.Common

/-!
# Pages fetched with retries

Page after page is fetched and added to what is there, each again while it fails and attempts are
left. Where the answers to a page are always the same, a run from the first page does one of three
things: it ends with all pages (`ends_ok`), it ends with an error because a page that is asked for
fails too often (`ends_error`), or it never ends (`loop_eq_none`).
-/

/-- With enough fuel the result is `a`. -/
def Ends {α : Type*} (run : ℕ → Option α) (a : α) : Prop := ∃ n, ∀ fuel ≥ n, run fuel = some a

theorem Ends.unique {α : Type*} {run : ℕ → Option α} {a b : α} (ha : Ends run a)
    (hb : Ends run b) : a = b := by
  obtain ⟨n, hn⟩ := ha
  obtain ⟨m, hm⟩ := hb
  have h := (hn (max n m) (le_max_left ..)).symm.trans (hm (max n m) (le_max_right ..))
  exact Option.some_inj.1 h

namespace RetriedPages

variable {ε α : Type*} (retries : ℕ) (fetch : ℕ → ℕ → Except ε (List α × Bool))

/-- What page `k` gives at an attempt is its items, and whether there is another page. -/
def loop : ℕ → List α → ℕ → ℕ → Option (Except ε Unit × List α)
  | 0, _, _, _ => none
  | fuel + 1, items, k, attempt =>
    match fetch k attempt with
    | .ok (new, more) =>
      if more then loop fuel (items ++ new) (k + 1) 0 else some (.ok (), items ++ new)
    | .error e =>
      if attempt < retries then loop fuel items k (attempt + 1) else some (.error e, items)

/-- Page `k` fails more often than it is retried. -/
def Fails (k : ℕ) : Prop := ∀ attempt ≤ retries, ∃ e, fetch k attempt = .error e

variable {retries fetch} {page : ℕ → List α} {more : ℕ → Bool}

theorem loop_error {fuel k attempt : ℕ} {items : List α} {e : ε}
    (h : fetch k attempt = .error e) (hlt : attempt < retries) :
    loop retries fetch (fuel + 1) items k attempt =
      loop retries fetch fuel items k (attempt + 1) := by
  simp only [loop, h, if_pos hlt]

theorem loop_ok {fuel k attempt : ℕ} {items : List α}
    (h : fetch k attempt = .ok (page k, more k)) :
    loop retries fetch (fuel + 1) items k attempt =
      if more k then loop retries fetch fuel (items ++ page k) (k + 1) 0
      else some (.ok (), items ++ page k) := by
  simp only [loop, h]

/-- The attempts until one is answered. -/
theorem exists_attempt {k : ℕ}
    (hanswer : ∀ attempt x, fetch k attempt = .ok x → x = (page k, more k))
    (hfails : ¬Fails retries fetch k) :
    ∃ n, ∀ fuel (items : List α), loop retries fetch (fuel + n + 1) items k 0 =
      if more k then loop retries fetch fuel (items ++ page k) (k + 1) 0
      else some (.ok (), items ++ page k) := by
  classical
  simp only [Fails, not_forall] at hfails
  -- The first attempt that is answered.
  have hsome : ∃ attempt, attempt ≤ retries ∧ ¬∃ e, fetch k attempt = .error e := by
    obtain ⟨attempt, hle, hno⟩ := hfails
    exact ⟨attempt, hle, hno⟩
  obtain ⟨hle, hno⟩ := Nat.find_spec hsome
  have hbefore (attempt : ℕ) (h : attempt < Nat.find hsome) : ∃ e, fetch k attempt = .error e := by
    by_contra hcontra
    exact Nat.find_min hsome h ⟨by omega, hcontra⟩
  have hsteps : ∀ n attempt, attempt + n = Nat.find hsome → ∀ fuel (items : List α),
      loop retries fetch (fuel + n + 1) items k attempt =
        if more k then loop retries fetch fuel (items ++ page k) (k + 1) 0
        else some (.ok (), items ++ page k) := by
    intro n
    induction n with
    | zero =>
      intro attempt hattempt fuel items
      obtain rfl : attempt = Nat.find hsome := by omega
      cases hfetch : fetch k (Nat.find hsome) with
      | error e => exact absurd ⟨e, hfetch⟩ hno
      | ok x =>
        obtain rfl := hanswer _ _ hfetch
        exact loop_ok hfetch
    | succ n ih =>
      intro attempt hattempt fuel items
      obtain ⟨e, he⟩ := hbefore attempt (by omega)
      rw [loop_error he (by omega)]
      exact ih (attempt + 1) (by omega) fuel items
  exact ⟨Nat.find hsome, hsteps _ 0 (by omega)⟩

theorem exists_failure {k : ℕ} (hfails : Fails retries fetch k) :
    ∃ e n, ∀ fuel ≥ n, ∀ items : List α,
      loop retries fetch fuel items k 0 = some (.error e, items) := by
  obtain ⟨e, he⟩ := hfails retries (le_refl _)
  have hsteps : ∀ n attempt, attempt + n = retries → ∀ fuel (items : List α),
      loop retries fetch (fuel + n + 1) items k attempt = some (.error e, items) := by
    intro n
    induction n with
    | zero =>
      intro attempt hattempt fuel items
      obtain rfl : attempt = retries := by omega
      simp only [loop, he, if_neg (Nat.lt_irrefl _)]
    | succ n ih =>
      intro attempt hattempt fuel items
      obtain ⟨e', he'⟩ := hfails attempt (by omega)
      rw [loop_error he' (by omega)]
      exact ih (attempt + 1) (by omega) fuel items
  refine ⟨e, retries + 1, fun fuel hfuel items => ?_⟩
  obtain ⟨extra, rfl⟩ := Nat.exists_eq_add_of_le hfuel
  rw [show retries + 1 + extra = extra + retries + 1 by omega]
  exact hsteps retries 0 (by omega) extra items

section Runs

variable {last : ℕ}

/-- From page `k` on, of which `n` are left until the last. -/
theorem exists_ends_ok
    (hanswer : ∀ k ≤ last, ∀ attempt x, fetch k attempt = .ok x → x = (page k, more k))
    (hmore : ∀ k < last, more k = true) (hlast : more last = false)
    (hfails : ∀ k ≤ last, ¬Fails retries fetch k) :
    ∀ n k, k + n = last → ∃ m, ∀ fuel ≥ m, ∀ items : List α,
      loop retries fetch fuel items k 0 =
        some (.ok (), items ++ (List.range' k (n + 1)).flatMap page) := by
  intro n
  induction n with
  | zero =>
    intro k hk
    obtain rfl : k = last := by omega
    obtain ⟨m, hm⟩ := exists_attempt (hanswer k (le_refl _)) (hfails k (le_refl _))
    refine ⟨m + 1, fun fuel hfuel items => ?_⟩
    obtain ⟨extra, rfl⟩ := Nat.exists_eq_add_of_le hfuel
    rw [show m + 1 + extra = extra + m + 1 by omega, hm, hlast]
    simp
  | succ n ih =>
    intro k hk
    obtain ⟨m, hm⟩ := exists_attempt (hanswer k (by omega)) (hfails k (by omega))
    obtain ⟨m', hm'⟩ := ih (k + 1) (by omega)
    refine ⟨m + m' + 1, fun fuel hfuel items => ?_⟩
    obtain ⟨extra, rfl⟩ := Nat.exists_eq_add_of_le hfuel
    have hrange : List.range' k (n + 1 + 1) = k :: List.range' (k + 1) (n + 1) := List.range'_succ
    rw [show m + m' + 1 + extra = (extra + m') + m + 1 by omega, hm, hmore k (by omega), if_pos rfl,
      hm' _ (by omega), hrange, List.flatMap_cons, List.append_assoc]

/-- All pages are answered, up to the last. -/
theorem ends_ok
    (hanswer : ∀ k ≤ last, ∀ attempt x, fetch k attempt = .ok x → x = (page k, more k))
    (hmore : ∀ k < last, more k = true) (hlast : more last = false)
    (hfails : ∀ k ≤ last, ¬Fails retries fetch k) :
    ∃ n, ∀ fuel ≥ n, ∀ items : List α, loop retries fetch fuel items 0 0 =
      some (.ok (), items ++ (List.range (last + 1)).flatMap page) := by
  obtain ⟨n, hn⟩ := exists_ends_ok hanswer hmore hlast hfails last 0 (by omega)
  refine ⟨n, fun fuel hfuel items => ?_⟩
  rw [hn fuel hfuel, List.range_eq_range']

theorem exists_ends_error
    (hanswer : ∀ k ≤ last, ∀ attempt x, fetch k attempt = .ok x → x = (page k, more k))
    (hmore : ∀ k < last, more k = true) (hbefore : ∀ k < last, ¬Fails retries fetch k)
    (hfails : Fails retries fetch last) :
    ∃ e, ∀ n k, k + n = last → ∃ m, ∀ fuel ≥ m, ∀ items : List α,
      ∃ items', loop retries fetch fuel items k 0 = some (.error e, items') := by
  obtain ⟨e, m, hm⟩ := exists_failure (α := α) hfails
  refine ⟨e, fun n => ?_⟩
  induction n with
  | zero =>
    intro k hk
    obtain rfl : k = last := by omega
    exact ⟨m, fun fuel hfuel items => ⟨items, hm fuel hfuel items⟩⟩
  | succ n ih =>
    intro k hk
    obtain ⟨m₁, hm₁⟩ := exists_attempt (hanswer k (by omega)) (hbefore k (by omega))
    obtain ⟨m₂, hm₂⟩ := ih (k + 1) (by omega)
    refine ⟨m₁ + m₂ + 1, fun fuel hfuel items => ?_⟩
    obtain ⟨extra, rfl⟩ := Nat.exists_eq_add_of_le hfuel
    rw [show m₁ + m₂ + 1 + extra = (extra + m₂) + m₁ + 1 by omega, hm₁, hmore k (by omega),
      if_pos rfl]
    exact hm₂ _ (by omega) _

/-- A page fails too often to which all pages before it lead. -/
theorem ends_error
    (hanswer : ∀ k ≤ last, ∀ attempt x, fetch k attempt = .ok x → x = (page k, more k))
    (hmore : ∀ k < last, more k = true) (hfails : Fails retries fetch last) :
    ∃ e n, ∀ fuel ≥ n, ∀ items : List α,
      ∃ items', loop retries fetch fuel items 0 0 = some (.error e, items') := by
  classical
  -- The first such page.
  have hsome : ∃ k, Fails retries fetch k := ⟨last, hfails⟩
  have hle : Nat.find hsome ≤ last := Nat.find_min' hsome hfails
  obtain ⟨e, he⟩ := exists_ends_error (fun k hk => hanswer k (by omega))
    (fun k hk => hmore k (by omega)) (fun k hk => Nat.find_min hsome hk) (Nat.find_spec hsome)
  obtain ⟨n, hn⟩ := he (Nat.find hsome) 0 (by omega)
  exact ⟨e, n, hn⟩

/-- There is always another page, and none that fails too often. -/
theorem loop_eq_none
    (hanswer : ∀ k attempt x, fetch k attempt = .ok x → x = (page k, more k))
    (hmore : ∀ k, more k = true) (hfails : ∀ k, ¬Fails retries fetch k) :
    ∀ fuel (items : List α) k attempt,
      (∃ later, attempt ≤ later ∧ later ≤ retries ∧ ∃ x, fetch k later = .ok x) →
      loop retries fetch fuel items k attempt = none := by
  intro fuel
  induction fuel with
  | zero =>
    intro items k attempt _
    rfl
  | succ fuel ih =>
    intro items k attempt hlater
    obtain ⟨later, hle, hretries, x, hx⟩ := hlater
    cases hfetch : fetch k attempt with
    | ok y =>
      obtain rfl := hanswer _ _ _ hfetch
      rw [loop_ok hfetch, hmore, if_pos rfl]
      refine ih _ _ _ ?_
      have hno := hfails (k + 1)
      simp only [Fails, not_forall] at hno
      obtain ⟨attempt', hle', hno⟩ := hno
      refine ⟨attempt', by omega, hle', ?_⟩
      cases hfetch' : fetch (k + 1) attempt' with
      | ok z => exact ⟨z, rfl⟩
      | error e => exact absurd ⟨e, hfetch'⟩ hno
    | error e =>
      have hne : attempt ≠ later := by
        rintro rfl
        rw [hx] at hfetch
        cases hfetch
      rw [loop_error hfetch (by omega)]
      exact ih _ _ _ ⟨later, by omega, hretries, x, hx⟩

end Runs

end RetriedPages
