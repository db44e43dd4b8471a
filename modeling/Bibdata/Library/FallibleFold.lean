import Bibdata.Library.RetriedPages

/-!
# Fallible work divided among threads

A list of things is cut into segments, each segment is gone through in order with one accumulator,
and the results of neighbours are put together. Things that finish add their own part, whatever is
in the accumulator; others fail, or never finish. The parts come in the order of the list however
it is cut (`ends_ok`); a failure shows unless something that does not finish comes before it in its
segment (`ends_error`, `exists_eq_none`).
-/

namespace FallibleFold

variable {ι ε α : Type*}

/-- How a list is cut, and in which order the results are put together. -/
inductive Division (ι : Type*)
  | segment (items : List ι)
  | join (left right : Division ι)

namespace Division

def segments : Division ι → List (List ι)
  | segment items => [items]
  | join left right => left.segments ++ right.segments

def items (D : Division ι) : List ι := D.segments.flatten

end Division

def tryFold (visit : List α → ι → Option (Except ε (List α))) :
    List α → List ι → Option (Except ε (List α))
  | acc, [] => some (.ok acc)
  | acc, x :: xs =>
    match visit acc x with
    | none => none
    | some (.error e) => some (.error e)
    | some (.ok acc) => tryFold visit acc xs

def tryReduce (visit : List α → ι → Option (Except ε (List α))) :
    Division ι → Option (Except ε (List α))
  | .segment items => tryFold visit [] items
  | .join left right =>
    match tryReduce visit left, tryReduce visit right with
    | none, _ => none
    | _, none => none
    | some (.error e), _ => some (.error e)
    | _, some (.error e) => some (.error e)
    | some (.ok a), some (.ok b) => some (.ok (a ++ b))

variable (visit : ℕ → List α → ι → Option (Except ε (List α))) (part : ι → List α)

def Finishes (x : ι) : Prop := ∃ n, ∀ fuel ≥ n, ∀ acc, visit fuel acc x = some (.ok (acc ++ part x))

def Fails (x : ι) : Prop := ∃ n, ∀ fuel ≥ n, ∀ acc, ∃ e, visit fuel acc x = some (.error e)

def NeverFinishes (x : ι) : Prop := ∀ fuel acc, visit fuel acc x = none

/-- Nothing that never finishes comes before the first failure. -/
def Ended : List ι → Prop
  | [] => True
  | x :: xs => Fails visit x ∨ Finishes visit part x ∧ Ended xs

variable {visit part}

theorem tryFold_ok {xs : List ι} (h : ∀ x ∈ xs, Finishes visit part x) :
    ∃ n, ∀ fuel ≥ n, ∀ acc, tryFold (visit fuel) acc xs = some (.ok (acc ++ xs.flatMap part)) := by
  induction xs with
  | nil => exact ⟨0, fun fuel _ acc => by simp [tryFold]⟩
  | cons x xs ih =>
    obtain ⟨n₁, hn₁⟩ := h x List.mem_cons_self
    obtain ⟨n₂, hn₂⟩ := ih fun y hy => h y (List.mem_cons_of_mem _ hy)
    refine ⟨max n₁ n₂, fun fuel hfuel acc => ?_⟩
    rw [tryFold, hn₁ fuel (by omega)]
    simp only
    rw [hn₂ fuel (by omega), List.flatMap_cons, List.append_assoc]

theorem Fails.not_finishes {x : ι} (hfails : Fails visit x) : ¬Finishes visit part x := by
  rintro ⟨n, hn⟩
  obtain ⟨m, hm⟩ := hfails
  obtain ⟨e, he⟩ := hm (max n m) (le_max_right ..) []
  rw [hn (max n m) (le_max_left ..)] at he
  cases he

theorem NeverFinishes.not_finishes {x : ι} (hnever : NeverFinishes visit x) :
    ¬Finishes visit part x := by
  rintro ⟨n, hn⟩
  have h := hn n (le_refl _) []
  rw [hnever] at h
  cases h

theorem NeverFinishes.not_fails {x : ι} (hnever : NeverFinishes visit x) : ¬Fails visit x := by
  rintro ⟨n, hn⟩
  obtain ⟨e, he⟩ := hn n (le_refl _) []
  rw [hnever] at he
  cases he

theorem ended_of_forall {xs : List ι} (h : ∀ x ∈ xs, Fails visit x ∨ Finishes visit part x) :
    Ended visit part xs := by
  induction xs with
  | nil => trivial
  | cons x xs ih =>
    rcases h x List.mem_cons_self with hfails | hfinishes
    · exact .inl hfails
    · exact .inr ⟨hfinishes, ih fun y hy => h y (List.mem_cons_of_mem _ hy)⟩

/-- An ended segment with a failure in it fails. -/
theorem tryFold_error {xs : List ι} (hended : Ended visit part xs) {x : ι} (hx : x ∈ xs)
    (hfails : Fails visit x) :
    ∃ n, ∀ fuel ≥ n, ∀ acc, ∃ e, tryFold (visit fuel) acc xs = some (.error e) := by
  induction xs with
  | nil => cases hx
  | cons y ys ih =>
    rcases hended with ⟨n, hn⟩ | ⟨⟨n₁, hn₁⟩, hended⟩
    · refine ⟨n, fun fuel hfuel acc => ?_⟩
      obtain ⟨e, he⟩ := hn fuel hfuel acc
      exact ⟨e, by rw [tryFold, he]⟩
    · have hx' : x ∈ ys := by
        rcases List.mem_cons.1 hx with rfl | hx
        · exact absurd ⟨n₁, hn₁⟩ hfails.not_finishes
        · exact hx
      obtain ⟨n₂, hn₂⟩ := ih hended hx'
      refine ⟨max n₁ n₂, fun fuel hfuel acc => ?_⟩
      rw [tryFold, hn₁ fuel (by omega)]
      exact hn₂ fuel (by omega) _

/-- An ended segment ends with its parts or with an error. -/
theorem tryFold_ended {xs : List ι} (hended : Ended visit part xs) :
    ∃ n, ∀ fuel ≥ n, ∀ acc, ∃ r, tryFold (visit fuel) acc xs = some r := by
  induction xs with
  | nil => exact ⟨0, fun fuel _ acc => ⟨.ok acc, rfl⟩⟩
  | cons y ys ih =>
    rcases hended with ⟨n, hn⟩ | ⟨⟨n₁, hn₁⟩, hended⟩
    · refine ⟨n, fun fuel hfuel acc => ?_⟩
      obtain ⟨e, he⟩ := hn fuel hfuel acc
      exact ⟨.error e, by rw [tryFold, he]⟩
    · obtain ⟨n₂, hn₂⟩ := ih hended
      refine ⟨max n₁ n₂, fun fuel hfuel acc => ?_⟩
      rw [tryFold, hn₁ fuel (by omega)]
      exact hn₂ fuel (by omega) _

theorem tryFold_none {xs : List ι} (hcases : ∀ x ∈ xs, Finishes visit part x ∨ Fails visit x
      ∨ NeverFinishes visit x) (hended : ¬Ended visit part xs) :
    ∃ n, ∀ fuel ≥ n, ∀ acc, tryFold (visit fuel) acc xs = none := by
  induction xs with
  | nil => exact absurd trivial hended
  | cons y ys ih =>
    rcases hcases y List.mem_cons_self with ⟨n₁, hn₁⟩ | hfails | hnever
    · obtain ⟨n₂, hn₂⟩ := ih (fun x hx => hcases x (List.mem_cons_of_mem _ hx))
        fun h => hended (.inr ⟨⟨n₁, hn₁⟩, h⟩)
      refine ⟨max n₁ n₂, fun fuel hfuel acc => ?_⟩
      rw [tryFold, hn₁ fuel (by omega)]
      exact hn₂ fuel (by omega) _
    · exact absurd (.inl hfails) hended
    · exact ⟨0, fun fuel _ acc => by rw [tryFold, hnever]⟩

theorem tryReduce_ok (D : Division ι) (h : ∀ x ∈ D.items, Finishes visit part x) :
    Ends (fun fuel => tryReduce (visit fuel) D) (.ok (D.items.flatMap part)) := by
  induction D with
  | segment items =>
    have hitems : ∀ x ∈ items, Finishes visit part x :=
      fun x hx => h x (by simpa [Division.items, Division.segments] using hx)
    obtain ⟨n, hn⟩ := tryFold_ok hitems
    refine ⟨n, fun fuel hfuel => ?_⟩
    simp [tryReduce, hn fuel hfuel, Division.items, Division.segments]
  | join left right ihl ihr =>
    have hitems : (Division.join left right).items = left.items ++ right.items := by
      simp [Division.items, Division.segments]
    rw [hitems] at h ⊢
    obtain ⟨n₁, hn₁⟩ := ihl fun x hx => h x (List.mem_append_left _ hx)
    obtain ⟨n₂, hn₂⟩ := ihr fun x hx => h x (List.mem_append_right _ hx)
    refine ⟨max n₁ n₂, fun fuel hfuel => ?_⟩
    simp only [tryReduce, hn₁ fuel (by omega), hn₂ fuel (by omega), List.flatMap_append]

/-- What a joined result is, when both of its sides are there. -/
theorem tryReduce_join {visit : List α → ι → Option (Except ε (List α))} {left right : Division ι}
    {a b : Except ε (List α)} (ha : tryReduce visit left = some a)
    (hb : tryReduce visit right = some b) :
    (∃ r, tryReduce visit (.join left right) = some r)
      ∧ ((∃ e, a = .error e) ∨ (∃ e, b = .error e) →
        ∃ e, tryReduce visit (.join left right) = some (.error e)) := by
  rcases a with e | a <;> rcases b with e' | b <;> simp [tryReduce, ha, hb]

theorem tryReduce_ended (D : Division ι) (h : ∀ xs ∈ D.segments, Ended visit part xs) :
    ∃ n, ∀ fuel ≥ n, ∃ r, tryReduce (visit fuel) D = some r := by
  induction D with
  | segment items =>
    obtain ⟨n, hn⟩ := tryFold_ended (h items (List.mem_singleton_self _))
    exact ⟨n, fun fuel hfuel => hn fuel hfuel []⟩
  | join left right ihl ihr =>
    obtain ⟨n₁, hn₁⟩ := ihl fun xs hxs => h xs (List.mem_append_left _ hxs)
    obtain ⟨n₂, hn₂⟩ := ihr fun xs hxs => h xs (List.mem_append_right _ hxs)
    refine ⟨max n₁ n₂, fun fuel hfuel => ?_⟩
    obtain ⟨a, ha⟩ := hn₁ fuel (by omega)
    obtain ⟨b, hb⟩ := hn₂ fuel (by omega)
    exact (tryReduce_join ha hb).1

theorem tryReduce_error (D : Division ι) (h : ∀ xs ∈ D.segments, Ended visit part xs) {x : ι}
    (hx : x ∈ D.items) (hfails : Fails visit x) :
    ∃ n, ∀ fuel ≥ n, ∃ e, tryReduce (visit fuel) D = some (.error e) := by
  induction D with
  | segment items =>
    obtain ⟨n, hn⟩ := tryFold_error (h items (List.mem_singleton_self _))
      (by simpa [Division.items, Division.segments] using hx) hfails
    exact ⟨n, fun fuel hfuel => hn fuel hfuel []⟩
  | join left right ihl ihr =>
    have hleft := fun xs hxs => h xs (List.mem_append_left _ hxs)
    have hright := fun xs hxs => h xs (List.mem_append_right _ hxs)
    have hitems : x ∈ left.items ∨ x ∈ right.items := by
      simpa [Division.items, Division.segments] using hx
    rcases hitems with hx | hx
    · obtain ⟨n₁, hn₁⟩ := ihl hleft hx
      obtain ⟨n₂, hn₂⟩ := tryReduce_ended right hright
      refine ⟨max n₁ n₂, fun fuel hfuel => ?_⟩
      obtain ⟨e, he⟩ := hn₁ fuel (by omega)
      obtain ⟨b, hb⟩ := hn₂ fuel (by omega)
      exact (tryReduce_join he hb).2 (.inl ⟨e, rfl⟩)
    · obtain ⟨n₁, hn₁⟩ := tryReduce_ended left hleft
      obtain ⟨n₂, hn₂⟩ := ihr hright hx
      refine ⟨max n₁ n₂, fun fuel hfuel => ?_⟩
      obtain ⟨a, ha⟩ := hn₁ fuel (by omega)
      obtain ⟨e, he⟩ := hn₂ fuel (by omega)
      exact (tryReduce_join ha he).2 (.inr ⟨e, rfl⟩)

theorem tryReduce_none (D : Division ι) (hcases : ∀ x ∈ D.items, Finishes visit part x
      ∨ Fails visit x ∨ NeverFinishes visit x) {xs : List ι} (hxs : xs ∈ D.segments)
    (hended : ¬Ended visit part xs) : ∃ n, ∀ fuel ≥ n, tryReduce (visit fuel) D = none := by
  induction D with
  | segment items =>
    obtain rfl := List.mem_singleton.1 hxs
    obtain ⟨n, hn⟩ := tryFold_none (fun x hx => hcases x (by
      simpa [Division.items, Division.segments] using hx)) hended
    exact ⟨n, fun fuel hfuel => hn fuel hfuel []⟩
  | join left right ihl ihr =>
    have hitems : (Division.join left right).items = left.items ++ right.items := by
      simp [Division.items, Division.segments]
    rw [hitems] at hcases
    rcases List.mem_append.1 hxs with hxs | hxs
    · obtain ⟨n, hn⟩ := ihl (fun x hx => hcases x (List.mem_append_left _ hx)) hxs
      exact ⟨n, fun fuel hfuel => by simp [tryReduce, hn fuel hfuel]⟩
    · obtain ⟨n, hn⟩ := ihr (fun x hx => hcases x (List.mem_append_right _ hx)) hxs
      refine ⟨n, fun fuel hfuel => ?_⟩
      rw [tryReduce, hn fuel hfuel]
      rcases tryReduce (visit fuel) left with _ | a | a <;> rfl

end FallibleFold
