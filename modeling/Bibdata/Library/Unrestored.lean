import Mathlib.Data.List.Infix
import Mathlib.Tactic.Common

/-!
# Programs that raise and restore nothing

A program changes a state and returns a value or raises, and where it raises the state stays as it
is by then. So a loop that raises leaves what it did for the things before the one that it raises
at, and what it did for that one (`each_raises`).
-/

/-- What is returned, `none` where it raises, and the state that is left. -/
def Unrestored (σ α : Type) := σ → Option α × σ

namespace Unrestored

variable {σ α β ι : Type} {p : Unrestored σ α} {k : α → Unrestored σ β} {s s' : σ} {a : α}

instance : Monad (Unrestored σ) where
  pure a := fun s => (some a, s)
  bind p k := fun s =>
    match p s with
    | (some a, s') => k a s'
    | (none, s') => (none, s')

/-- A step that is done or raises. -/
def step (f : σ → Option (α × σ)) : Unrestored σ α := fun s =>
  match f s with
  | some (a, s') => (some a, s')
  | none => (none, s)

/-- A step that cannot raise. -/
def change (f : σ → σ) : Unrestored σ Unit := fun s => (some (), f s)

/-- A value that the state does not matter for, and no step. -/
def value (a : Option α) : Unrestored σ α := fun s => (a, s)

def each (f : ι → Unrestored σ Unit) : List ι → Unrestored σ Unit
  | [] => pure ()
  | x :: xs => do
    f x
    each f xs

theorem step_raises {f : σ → Option (α × σ)} (h : (step f s).1 = none) : (step f s).2 = s := by
  unfold step at h ⊢
  cases hf : f s with
  | none => rfl
  | some r =>
    rw [hf] at h
    cases h

theorem value_eq_some {v : Option α} (h : value v s = (some a, s')) : v = some a ∧ s = s' :=
  Prod.mk.inj h

theorem bind_of_some (h : p s = (some a, s')) : (p >>= k) s = k a s' := by
  change (match p s with
    | (some a, s') => k a s'
    | (none, s') => (none, s')) = _
  rw [h]

theorem bind_of_none (h : (p s).1 = none) : (p >>= k) s = (none, (p s).2) := by
  change (match p s with
    | (some a, s') => k a s'
    | (none, s') => (none, s')) = _
  rcases hp : p s with ⟨_ | a, s'⟩
  · rfl
  · rw [hp] at h
    cases h

theorem bind_returns {b : β} {s'' : σ} (h : (p >>= k) s = (some b, s'')) :
    ∃ a s', p s = (some a, s') ∧ k a s' = (some b, s'') := by
  rcases hp : p s with ⟨_ | a, s'⟩
  · rw [bind_of_none (by rw [hp])] at h
    cases h
  · rw [bind_of_some hp] at h
    exact ⟨a, s', rfl, h⟩

/-- A program that raises does so in its first part or in its second. -/
theorem bind_raises (h : ((p >>= k) s).1 = none) :
    (p s).1 = none ∧ ((p >>= k) s).2 = (p s).2
      ∨ ∃ a s', p s = (some a, s') ∧ (k a s').1 = none ∧ ((p >>= k) s).2 = (k a s').2 := by
  rcases hp : p s with ⟨_ | a, s'⟩
  · exact .inl ⟨rfl, by rw [bind_of_none (by rw [hp]), hp]⟩
  · rw [bind_of_some hp] at h ⊢
    exact .inr ⟨a, s', rfl, h, rfl⟩

theorem each_raises {f : ι → Unrestored σ Unit} {xs : List ι} (h : (each f xs s).1 = none) :
    ∃ before x after s', xs = before ++ x :: after ∧ each f before s = (some (), s')
      ∧ (f x s').1 = none ∧ (each f xs s).2 = (f x s').2 := by
  induction xs generalizing s with
  | nil => cases h
  | cons x xs ih =>
    rw [each] at h ⊢
    rcases bind_raises h with ⟨hraises, hleft⟩ | ⟨u, s', hx, hraises, hleft⟩
    · exact ⟨[], x, xs, s, rfl, rfl, hraises, hleft⟩
    · obtain ⟨before, y, after, s₁, rfl, hbefore, hy, hlast⟩ := ih hraises
      refine ⟨x :: before, y, after, s₁, rfl, ?_, hy, hleft.trans hlast⟩
      rw [each, bind_of_some hx, hbefore]

section Keeps

variable {I : σ → Prop}

/-- What holds of the state still holds of what is left, raised or not. -/
def Keeps (I : σ → Prop) (p : Unrestored σ α) : Prop := ∀ s, I s → I (p s).2

theorem Keeps.of_eq {o : Option α} (hp : Keeps I p) (hs : I s) (h : p s = (o, s')) : I s' := by
  have hleft := hp s hs
  rwa [h] at hleft

theorem Keeps.bind (hp : Keeps I p) (hk : ∀ a, Keeps I (k a)) : Keeps I (p >>= k) := by
  intro s hs
  rcases hps : p s with ⟨_ | a, s'⟩
  · rw [bind_of_none (by rw [hps])]
    exact hp s hs
  · rw [bind_of_some hps]
    exact hk a s' (hp.of_eq hs hps)

theorem Keeps.each {f : ι → Unrestored σ Unit} (hf : ∀ x, Keeps I (f x)) (xs : List ι) :
    Keeps I (each f xs) := by
  induction xs with
  | nil => exact fun s hs => hs
  | cons x xs ih => exact (hf x).bind fun _ => ih

theorem Keeps.each_of_mem {f : ι → Unrestored σ Unit} :
    ∀ {xs : List ι}, (∀ x ∈ xs, Keeps I (f x)) → Keeps I (Unrestored.each f xs)
  | [], _ => fun _ hs => hs
  | x :: _, hf => (hf x List.mem_cons_self).bind fun _ =>
    Keeps.each_of_mem fun y hy => hf y (List.mem_cons_of_mem x hy)

/-- A loop that comes to its end has done all of its things, where what is done stays done. -/
theorem each_returns {P : ι → σ → Prop} {f : ι → Unrestored σ Unit} : ∀ {xs : List ι} {s s' : σ},
    (∀ x ∈ xs, ∀ s s', f x s = (some (), s') → P x s') →
    (∀ x ∈ xs, ∀ y, Keeps (P y) (f x)) → Unrestored.each f xs s = (some (), s') →
      ∀ x ∈ xs, P x s'
  | [], _, _, _, _, _ => fun _ hx => absurd hx List.not_mem_nil
  | x :: xs, s, s', hdone, hkeeps, h => by
    obtain ⟨_, s₁, hx, hrest⟩ := bind_returns h
    have hdone' : ∀ y ∈ xs, ∀ s s', f y s = (some (), s') → P y s' :=
      fun y hy => hdone y (List.mem_cons_of_mem x hy)
    have hkeeps' : ∀ y ∈ xs, ∀ z, Keeps (P z) (f y) :=
      fun y hy => hkeeps y (List.mem_cons_of_mem x hy)
    intro y hy
    rcases List.mem_cons.1 hy with rfl | hy
    · refine (Keeps.each_of_mem fun z hz => hkeeps' z hz y).of_eq ?_ hrest
      exact hdone y List.mem_cons_self s s₁ hx
    · exact each_returns hdone' hkeeps' hrest y hy

/-- What holds of the result, if there is one. -/
def Yields (Q : β → Prop) (o : Option β) : Prop := ∀ r, o = some r → Q r

theorem Yields.bind {Q : β → Prop} {o : Option α} {k : α → Option β} (h : ∀ a, Yields Q (k a)) :
    Yields Q (o >>= k) := by
  intro r hr
  obtain ⟨a, -, hr⟩ := Option.bind_eq_some_iff.1 hr
  exact h a r hr

theorem Yields.some {Q : β → Prop} {r : β} (h : Q r) : Yields Q (some r) := by
  intro r' hr
  rwa [← Option.some_inj.1 hr]

theorem Yields.none {Q : β → Prop} : Yields Q none := fun r hr => by cases hr

theorem Yields.ite {Q : β → Prop} {c : Prop} [Decidable c] {o o' : Option β} (h : Yields Q o)
    (h' : Yields Q o') : Yields Q (if c then o else o') := by
  split_ifs
  · exact h
  · exact h'

theorem Keeps.step {f : σ → Option (α × σ)} (h : ∀ s, I s → Yields (fun r => I r.2) (f s)) :
    Keeps I (step f) := by
  intro s hs
  rcases hf : f s with _ | ⟨a, s'⟩
  · simpa [Unrestored.step, hf] using hs
  · simpa [Unrestored.step, hf] using h s hs _ hf

theorem Keeps.value (a : Option α) : Keeps I (value a) := fun _ hs => hs

end Keeps

end Unrestored
