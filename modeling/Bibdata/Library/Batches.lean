import Mathlib.Data.List.Basic
import Mathlib.Tactic.Common

/-!
# Nested batches of jobs

A batch holds jobs and other batches. A job that is done may leave more work in its batch; a job
that fails stays there and is run again. A batch in which nothing is left runs its callback, which
may leave work in the batch above it. So what some work owes is done once no work is left, where
each step does it or leaves work that owes it (`Owed.step`); and a callback can rely on what is
owed inside of its batch (`Sound.step`).
-/

namespace Batches

inductive Work (J C : Type*)
  | job (j : J)
  | batch (callback : C) (inside : List (Work J C))

/-- What an attempt at a job does, given what comes from outside, and the work that it leaves, or
`none` where it fails; and the same for a callback, which is run until it does not fail. -/
structure Handlers (σ J C ε : Type*) where
  perform : σ → J → ε → Option (σ × Option (List (Work J C)))
  callback : σ → C → ε → Option (σ × List (Work J C))

variable {σ J C ε : Type*} (handlers : Handlers σ J C ε)

/-- What a job or callback leaves that may be run again though it was done. -/
def left (again : Bool) (w : Work J C) (work : List (Work J C)) : List (Work J C) :=
  work ++ if again then [w] else []

/-- The work `i` of a list is replaced. -/
def replace {α : Type*} (xs : List α) (i : ℕ) (new : List α) : List α :=
  xs.take i ++ new ++ xs.drop (i + 1)

def stepWork (s : σ) (e : ε) : Work J C → Option (σ × Option (List (Work J C)))
  | .job j => handlers.perform s j e
  | .batch c [] => (handlers.callback s c e).map fun r => (r.1, some r.2)
  | .batch _ (_ :: _) => none

/-- The work at a place, which is a path through the batches. -/
def stepAt (s : σ) (e : ε) : List ℕ → List (Work J C) → Option (σ × List (Work J C))
  | [], _ => none
  | [i], work =>
    work[i]?.bind fun w =>
      (stepWork handlers s e w).map fun r => (r.1, r.2.elim work (replace work i))
  | i :: k :: path, work =>
    match work[i]? with
    | some (.batch c inside) =>
      (stepAt s e (k :: path) inside).map fun r => (r.1, replace work i [.batch c r.2])
    | _ => none

section Left

variable {again : Bool} {w v : Work J C} {work : List (Work J C)}

theorem mem_left (h : v ∈ work) : v ∈ left again w work := List.mem_append_left _ h

theorem eq_of_mem_left (h : v ∈ left again w work) : v = w ∨ v ∈ work := by
  rcases List.mem_append.1 h with h | h
  · exact .inr h
  · split_ifs at h
    · exact .inl (List.mem_singleton.1 h)
    · cases h

end Left

section Replace

variable {α : Type*} {xs new : List α} {i : ℕ} {x y : α}

theorem mem_replace_of_new (h : y ∈ new) : y ∈ replace xs i new :=
  List.mem_append_left _ (List.mem_append_right _ h)

theorem mem_replace (h : y ∈ replace xs i new) : y ∈ xs ∨ y ∈ new := by
  unfold replace at h
  rcases List.mem_append.1 h with h | h
  · exact (List.mem_append.1 h).imp_left List.mem_of_mem_take
  · exact .inl (List.mem_of_mem_drop h)

/-- What is not replaced stays. -/
theorem mem_replace_of_mem (hi : xs[i]? = some x) (hy : y ∈ xs) : y = x ∨ y ∈ replace xs i new := by
  obtain ⟨hlt, hx⟩ := List.getElem?_eq_some_iff.1 hi
  rw [← List.take_append_drop i xs, List.drop_eq_getElem_cons hlt, hx] at hy
  unfold replace
  rcases List.mem_append.1 hy with hy | hy
  · exact .inr (List.mem_append_left _ (List.mem_append_left _ hy))
  · rcases List.mem_cons.1 hy with hy | hy
    · exact .inl hy
    · exact .inr (List.mem_append_right _ hy)

end Replace

section Owes

variable {job : J → Prop} {callback : C → Prop}

/-- Some job or some callback in the work owes something. -/
inductive Owes (job : J → Prop) (callback : C → Prop) : Work J C → Prop
  | job {j : J} (h : job j) : Owes job callback (.job j)
  | callback {c : C} {inside : List (Work J C)} (h : callback c) :
    Owes job callback (.batch c inside)
  | inside {c : C} {inside : List (Work J C)} {w : Work J C} (hw : w ∈ inside)
    (h : Owes job callback w) : Owes job callback (.batch c inside)

/-- It is done, or some work owes it. -/
def Owed (done : Prop) (job : J → Prop) (callback : C → Prop) (work : List (Work J C)) : Prop :=
  done ∨ ∃ w ∈ work, Owes job callback w

theorem Owed.of_nil {done : Prop} (h : Owed done job callback ([] : List (Work J C))) : done := by
  rcases h with h | ⟨w, hw, -⟩
  · exact h
  · cases hw

end Owes

section Sound

/-- What is relied on: of a job, whenever it is there; of a callback, for each `i`, once it runs,
and until then it is owed inside of its batch. -/
structure Reliance (σ J C ι : Type*) where
  job : σ → J → Prop
  callback : σ → C → ι → Prop
  owedByJob : C → ι → J → Prop
  owedByCallback : C → ι → C → Prop

variable {ι : Type*} (r : Reliance σ J C ι)

inductive Sound (s : σ) : Work J C → Prop
  | job {j : J} (h : r.job s j) : Sound s (.job j)
  | batch {c : C} {inside : List (Work J C)}
    (hc : ∀ i, Owed (r.callback s c i) (r.owedByJob c i) (r.owedByCallback c i) inside)
    (hinside : ∀ w ∈ inside, Sound s w) : Sound s (.batch c inside)

/-- Once it is done, or where it is owed by a job or callback, an attempt at that leaves it done or
leaves work that owes it. -/
structure Pays (handlers : Handlers σ J C ε) (inv done : σ → Prop) (job : J → Prop)
    (callback : C → Prop) : Prop where
  failed : ∀ s j e s', inv s → r.job s j → handlers.perform s j e = some (s', none) → done s →
    done s'
  perform : ∀ s j e s' new, inv s → r.job s j → handlers.perform s j e = some (s', some new) →
    done s ∨ job j → Owed (done s') job callback new
  callback : ∀ s c e s' new, inv s → (∀ i, r.callback s c i) →
    handlers.callback s c e = some (s', new) → done s ∨ callback c →
    Owed (done s') job callback new

/-- What is relied on stays so, and each attempt keeps the invariant and leaves work that can rely
on what it needs. -/
structure Guards (handlers : Handlers σ J C ε) (inv : σ → Prop) : Prop where
  pays : ∀ c i, Pays r handlers inv (fun s => r.callback s c i) (r.owedByJob c i)
    (r.owedByCallback c i)
  perform : ∀ s j e s' new, inv s → r.job s j → handlers.perform s j e = some (s', new) →
    inv s' ∧ (∀ j, r.job s j → r.job s' j) ∧ (∀ c i, r.callback s c i → r.callback s' c i)
      ∧ ∀ ws ∈ new, ∀ w ∈ ws, Sound r s' w
  callback : ∀ s c e s' new, inv s → (∀ i, r.callback s c i) →
    handlers.callback s c e = some (s', new) →
    inv s' ∧ (∀ j, r.job s j → r.job s' j) ∧ (∀ c i, r.callback s c i → r.callback s' c i)
      ∧ ∀ w ∈ new, Sound r s' w

variable {r} {handlers} {inv : σ → Prop}

theorem Sound.mono {s s' : σ} (hjob : ∀ j, r.job s j → r.job s' j)
    (hcallback : ∀ c i, r.callback s c i → r.callback s' c i) {w : Work J C} (h : Sound r s w) :
    Sound r s' w := by
  induction h with
  | job h => exact .job (hjob _ h)
  | batch hc _ ih => exact .batch (fun i => (hc i).imp_left (hcallback _ i)) ih

theorem Sound.left {s : σ} {again : Bool} {w : Work J C} {work : List (Work J C)}
    (hw : Sound r s w) (hwork : ∀ v ∈ work, Sound r s v) :
    ∀ v ∈ Batches.left again w work, Sound r s v := by
  intro v hv
  rcases eq_of_mem_left hv with rfl | hv
  · exact hw
  · exact hwork v hv

theorem Sound.callback {s : σ} {c : C} (h : Sound r s (.batch c [])) (i : ι) :
    r.callback s c i := by
  cases h with
  | batch hc _ => exact (hc i).of_nil

section Owed

variable {done : σ → Prop} {job : J → Prop} {callback : C → Prop}

/-- What always holds is owed by nothing. -/
theorem Pays.of_forall (h : ∀ s, done s) : Pays r handlers inv done job callback :=
  ⟨fun _ _ _ s' _ _ _ _ => h s', fun _ _ _ s' _ _ _ _ _ => .inl (h s'),
    fun _ _ _ s' _ _ _ _ _ => .inl (h s')⟩

theorem Pays.of_stepWork (h : Pays r handlers inv done job callback) {s s' : σ} {e : ε}
    {w : Work J C} {new : List (Work J C)} (hs : inv s) (hw : Sound r s w)
    (hstep : stepWork handlers s e w = some (s', some new))
    (howes : done s ∨ Owes job callback w) : Owed (done s') job callback new := by
  cases w with
  | job j =>
    cases hw with
    | job hj =>
      refine h.perform s j e s' new hs hj hstep (howes.imp_right ?_)
      rintro ⟨howes⟩
      exact howes
  | batch c inside =>
    cases inside with
    | cons w ws => cases hstep
    | nil =>
      obtain ⟨⟨s₁, new₁⟩, hr, heq⟩ := Option.map_eq_some_iff.1 hstep
      cases heq
      refine h.callback s c e _ _ hs hw.callback hr (howes.imp_right ?_)
      rintro (_ | ⟨hc⟩ | ⟨hw, -⟩)
      · exact hc
      · cases hw

theorem Pays.of_failed (h : Pays r handlers inv done job callback) {s s' : σ} {e : ε}
    {w : Work J C} (hs : inv s) (hw : Sound r s w)
    (hstep : stepWork handlers s e w = some (s', none)) (hdone : done s) : done s' := by
  cases w with
  | job j =>
    cases hw with
    | job hj => exact h.failed s j e s' hs hj hstep hdone
  | batch c inside =>
    cases inside with
    | cons w ws => cases hstep
    | nil =>
      obtain ⟨r, -, heq⟩ := Option.map_eq_some_iff.1 hstep
      cases heq

theorem Owed.step (h : Pays r handlers inv done job callback) {s s' : σ} {e : ε} (hs : inv s) :
    ∀ {path : List ℕ} {work work' : List (Work J C)},
      stepAt handlers s e path work = some (s', work') → (∀ w ∈ work, Sound r s w) →
        Owed (done s) job callback work → Owed (done s') job callback work'
  | [], work, work', hstep, _, _ => by cases hstep
  | [i], work, work', hstep, hwork, howed => by
    obtain ⟨w, hi, hstep⟩ := Option.bind_eq_some_iff.1 hstep
    obtain ⟨⟨s₁, _ | new⟩, hr, heq⟩ := Option.map_eq_some_iff.1 hstep
    · cases heq
      exact howed.imp_left (h.of_failed hs (hwork w (List.mem_of_getElem? hi)) hr)
    · cases heq
      have hnew : done s ∨ Owes job callback w →
          Owed (done s₁) job callback (replace work i new) := by
        intro howes
        refine (h.of_stepWork hs (hwork w (List.mem_of_getElem? hi)) hr howes).imp_right ?_
        rintro ⟨v, hv, hvowes⟩
        exact ⟨v, mem_replace_of_new hv, hvowes⟩
      rcases howed with howed | ⟨v, hv, howes⟩
      · exact hnew (.inl howed)
      · rcases mem_replace_of_mem hi hv with rfl | hv
        · exact hnew (.inr howes)
        · exact .inr ⟨v, hv, howes⟩
  | i :: k :: path, work, work', hstep, hwork, howed => by
    simp only [stepAt] at hstep
    split at hstep
    · rename_i c inside hi
      obtain ⟨⟨s₁, inside'⟩, hr, heq⟩ := Option.map_eq_some_iff.1 hstep
      cases heq
      have hmem : Work.batch c inside' ∈ replace work i [.batch c inside'] :=
        mem_replace_of_new List.mem_cons_self
      have hinside : Owed (done s) job callback inside →
          Owed (done s₁) job callback (replace work i [.batch c inside']) := by
        intro howed
        cases hwork _ (List.mem_of_getElem? hi) with
        | batch _ hsound =>
          refine (Owed.step h hs hr hsound howed).imp_right ?_
          rintro ⟨v, hv, howes⟩
          exact ⟨_, hmem, .inside hv howes⟩
      rcases howed with howed | ⟨v, hv, howes⟩
      · exact hinside (.inl howed)
      · rcases mem_replace_of_mem hi hv with rfl | hv
        · cases howes with
          | callback hc => exact .inr ⟨_, hmem, .callback hc⟩
          | inside hw howes => exact hinside (.inr ⟨_, hw, howes⟩)
        · exact .inr ⟨v, hv, howes⟩
    · cases hstep

end Owed

theorem Guards.of_stepWork (h : Guards r handlers inv) {s s' : σ} {e : ε} {w : Work J C}
    {new : Option (List (Work J C))} (hs : inv s) (hw : Sound r s w)
    (hstep : stepWork handlers s e w = some (s', new)) :
    inv s' ∧ (∀ j, r.job s j → r.job s' j) ∧ (∀ c i, r.callback s c i → r.callback s' c i)
      ∧ ∀ ws ∈ new, ∀ w ∈ ws, Sound r s' w := by
  cases w with
  | job j =>
    cases hw with
    | job hj => exact h.perform s j e s' new hs hj hstep
  | batch c inside =>
    cases inside with
    | cons w ws => cases hstep
    | nil =>
      obtain ⟨⟨s₁, new₁⟩, hr, heq⟩ := Option.map_eq_some_iff.1 hstep
      cases heq
      obtain ⟨hinv, hjobs, hcallbacks, hnew⟩ := h.callback s c e _ _ hs hw.callback hr
      exact ⟨hinv, hjobs, hcallbacks, by simpa using hnew⟩

/-- The invariant holds after each step, and all the work can rely on what it needs. -/
theorem Sound.step (h : Guards r handlers inv) {s s' : σ} {e : ε} (hs : inv s) :
    ∀ {path : List ℕ} {work work' : List (Work J C)},
      stepAt handlers s e path work = some (s', work') → (∀ w ∈ work, Sound r s w) →
        inv s' ∧ (∀ j, r.job s j → r.job s' j) ∧ (∀ c i, r.callback s c i → r.callback s' c i)
          ∧ ∀ w ∈ work', Sound r s' w
  | [], work, work', hstep, _ => by cases hstep
  | [i], work, work', hstep, hwork => by
    obtain ⟨w, hi, hstep⟩ := Option.bind_eq_some_iff.1 hstep
    obtain ⟨⟨s₁, new⟩, hr, heq⟩ := Option.map_eq_some_iff.1 hstep
    obtain ⟨hinv, hjobs, hcallbacks, hnew⟩ :=
      h.of_stepWork hs (hwork w (List.mem_of_getElem? hi)) hr
    have hold : ∀ v ∈ work, Sound r s₁ v := fun v hv => (hwork v hv).mono hjobs hcallbacks
    cases heq
    refine ⟨hinv, hjobs, hcallbacks, fun v hv => ?_⟩
    cases new with
    | none => exact hold v hv
    | some new =>
      rcases mem_replace hv with hv | hv
      · exact hold v hv
      · exact hnew new rfl v hv
  | i :: k :: path, work, work', hstep, hwork => by
    simp only [stepAt] at hstep
    split at hstep
    · rename_i c inside hi
      obtain ⟨⟨s₁, inside'⟩, hr, heq⟩ := Option.map_eq_some_iff.1 hstep
      cases heq
      cases hwork _ (List.mem_of_getElem? hi) with
      | batch hc hinside =>
        obtain ⟨hinv, hjobs, hcallbacks, hnew⟩ := Sound.step h hs hr hinside
        refine ⟨hinv, hjobs, hcallbacks, fun v hv => ?_⟩
        rcases mem_replace hv with hv | hv
        · exact (hwork v hv).mono hjobs hcallbacks
        · rw [List.mem_singleton.1 hv]
          exact .batch (fun i => (hc i).step (h.pays c i) hs hr hinside) hnew
    · cases hstep

end Sound

end Batches
