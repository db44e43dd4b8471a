import Mathlib.Data.List.Basic
import Mathlib.Data.List.Nodup
import Mathlib.Logic.Function.Basic
import Mathlib.Tactic.Common

/-!
# Values that are put in place for a while

A call saves the values of some keys, one by one, sets its own, does its work, and puts back what it
saved, also where it raises. Several threads do so with the same values, and their steps interleave.
A call holds a key from when it saves its value until it puts it back. Where no call starts while
another one is at its keys, each call has its own values for its work, and a key that no call holds
has the value that it had at the beginning (`Inv.step`); so has one that is saved but not yet set
(`Inv.unset`).
-/

namespace Overrides

variable {κ ν : Type*}

/-- What is still to do comes before what was saved. -/
inductive Call (κ ν : Type*)
  | ended
  | saving (options todo original : List (κ × ν))
  | setting (options todo original : List (κ × ν))
  | body (options original : List (κ × ν))
  | restoring (todo : List (κ × ν))

structure State (n : ℕ) (κ ν : Type*) where
  config : κ → ν
  calls : Fin n → Call κ ν := fun _ => .ended

inductive Act (κ ν : Type*)
  | start (options : List (κ × ν))
  | next
  | raise

section Step

variable [DecidableEq κ] {n : ℕ}

/-- The values and the call after its next step. -/
def nextStep (config : κ → ν) : Call κ ν → Option ((κ → ν) × Call κ ν)
  | .ended => none
  | .saving options [] original => some (config, .setting options options original)
  | .saving options ((k, _) :: todo) original =>
    some (config, .saving options todo (original ++ [(k, config k)]))
  | .setting options [] original => some (config, .body options original)
  | .setting options ((k, v) :: todo) original =>
    some (Function.update config k v, .setting options todo original)
  | .body _ original => some (config, .restoring original)
  | .restoring [] => some (config, .ended)
  | .restoring ((k, v) :: todo) => some (Function.update config k v, .restoring todo)

def raised : Call κ ν → Option (Call κ ν)
  | .saving .. => some .ended
  | .setting _ _ original => some (.restoring original)
  | .body _ original => some (.restoring original)
  | _ => none

def act (config : κ → ν) (c : Call κ ν) : Act κ ν → Option ((κ → ν) × Call κ ν)
  | .start options =>
    match c with
    | .ended => some (config, .saving options options [])
    | _ => none
  | .next => nextStep config c
  | .raise => (raised c).map fun c => (config, c)

def step (s : State n κ ν) (e : Fin n × Act κ ν) : Option (State n κ ν) :=
  (act s.config (s.calls e.1) e.2).map fun r =>
    { config := r.1, calls := Function.update s.calls e.1 r.2 }

end Step

section Holds

def keys (xs : List (κ × ν)) : List κ := xs.map Prod.fst

/-- The keys with a value to put back. -/
def held : Call κ ν → List κ
  | .ended => []
  | .saving _ _ original => keys original
  | .setting _ _ original => keys original
  | .body _ original => keys original
  | .restoring todo => keys todo

/-- The keys that the call holds or will hold. -/
def claimed : Call κ ν → List κ
  | .ended => []
  | .saving options _ _ => keys options
  | .setting options _ _ => keys options
  | .body options _ => keys options
  | .restoring todo => keys todo

/-- The keys that the call has set, or that it is putting back. -/
def overridden [DecidableEq κ] : Call κ ν → List κ
  | .ended => []
  | .saving .. => []
  | .setting options todo _ => (keys options).filter (· ∉ keys todo)
  | .body _ original => keys original
  | .restoring todo => keys todo

/-- A call that starts has keys that no other call is at. -/
def Apart {n : ℕ} (s : State n κ ν) (e : Fin n × Act κ ν) : Prop :=
  match e.2 with
  | .start options => (keys options).Nodup ∧ ∀ k ∈ keys options, ∀ j, k ∉ claimed (s.calls j)
  | _ => True

/-- What was saved is what was there at the beginning, and what was set is there. -/
def Good (initial config : κ → ν) : Call κ ν → Prop
  | .ended => True
  | .saving options todo original =>
    (keys options).Nodup ∧ keys original ++ keys todo = keys options
    ∧ ∀ x ∈ original, x.2 = initial x.1 ∧ config x.1 = initial x.1
  | .setting options todo original => (keys options).Nodup ∧ keys original = keys options
    ∧ (∀ x ∈ original, x.2 = initial x.1)
    ∧ ∃ done, options = done ++ todo ∧ (∀ x ∈ done, config x.1 = x.2)
      ∧ ∀ x ∈ todo, config x.1 = initial x.1
  | .body options original => (keys options).Nodup ∧ keys original = keys options
    ∧ (∀ x ∈ original, x.2 = initial x.1) ∧ ∀ x ∈ options, config x.1 = x.2
  | .restoring todo => (keys todo).Nodup ∧ ∀ x ∈ todo, x.2 = initial x.1

structure Inv {n : ℕ} (initial : κ → ν) (s : State n κ ν) : Prop where
  free : ∀ k, (∀ i, k ∉ held (s.calls i)) → s.config k = initial k
  alone : ∀ i j k, k ∈ claimed (s.calls i) → k ∈ claimed (s.calls j) → i = j
  good : ∀ i, Good initial s.config (s.calls i)

variable {initial config config' : κ → ν} {c c' : Call κ ν} {n : ℕ} {s s' : State n κ ν}

theorem mem_keys {xs : List (κ × ν)} {x : κ × ν} (h : x ∈ xs) : x.1 ∈ keys xs :=
  List.mem_map_of_mem h

theorem mem_of_keys_eq {xs ys : List (κ × ν)} (h : keys xs = keys ys) {k : κ} (hk : k ∈ keys xs) :
    k ∈ keys ys := h ▸ hk

theorem Good.congr (h : Good initial config c) (heq : ∀ k ∈ held c, config' k = config k) :
    Good initial config' c := by
  cases c with
  | ended => trivial
  | saving options todo original =>
    obtain ⟨hnodup, hkeys, hsaved⟩ := h
    refine ⟨hnodup, hkeys, fun x hx => ⟨(hsaved x hx).1, ?_⟩⟩
    rw [heq x.1 (mem_keys hx), (hsaved x hx).2]
  | setting options todo original =>
    obtain ⟨hnodup, hkeys, hsaved, done, rfl, hdone, htodo⟩ := h
    refine ⟨hnodup, hkeys, hsaved, done, rfl, fun x hx => ?_, fun x hx => ?_⟩
    · have hheld : x.1 ∈ keys original := hkeys ▸ mem_keys (List.mem_append_left _ hx)
      rw [heq x.1 hheld, hdone x hx]
    · have hheld : x.1 ∈ keys original := hkeys ▸ mem_keys (List.mem_append_right _ hx)
      rw [heq x.1 hheld, htodo x hx]
  | body options original =>
    obtain ⟨hnodup, hkeys, hsaved, hset⟩ := h
    refine ⟨hnodup, hkeys, hsaved, fun x hx => ?_⟩
    have hheld : x.1 ∈ keys original := hkeys ▸ mem_keys hx
    rw [heq x.1 hheld, hset x hx]
  | restoring todo => exact h

theorem Good.held_subset (h : Good initial config c) {k : κ} (hk : k ∈ held c) : k ∈ claimed c := by
  cases c with
  | ended => exact hk
  | saving options todo original =>
    change k ∈ keys options
    rw [← h.2.1]
    exact List.mem_append_left _ hk
  | setting options todo original =>
    change k ∈ keys options
    rwa [← h.2.1]
  | body options original =>
    change k ∈ keys options
    rwa [← h.2.1]
  | restoring todo => exact hk

/-- A step changes only what its call holds, and what it no longer holds is as at the beginning. -/
structure Allowed (initial config config' : κ → ν) (c c' : Call κ ν) (fresh : κ → Prop) : Prop where
  changed : ∀ k, config' k ≠ config k → k ∈ held c
  good : Good initial config' c'
  claimed : ∀ k ∈ claimed c', k ∈ claimed c ∨ fresh k
  released : ∀ k ∈ held c, k ∉ held c' → config' k = initial k

theorem Inv.of_allowed (h : Inv initial s) {i : Fin n}
    (ha : Allowed initial s.config config' (s.calls i) c'
      fun k => ∀ j, k ∉ Overrides.claimed (s.calls j)) :
    Inv initial { config := config', calls := Function.update s.calls i c' } := by
  have hself : Function.update s.calls i c' i = c' := Function.update_self ..
  have hother : ∀ j, j ≠ i → Function.update s.calls i c' j = s.calls j :=
    fun j hj => Function.update_of_ne hj ..
  have hkept : ∀ j k, j ≠ i → k ∈ Overrides.claimed c' → k ∉ Overrides.claimed (s.calls j) := by
    intro j k hj hk hjk
    rcases ha.claimed k hk with hik | hfresh
    · exact hj (h.alone j i k hjk hik)
    · exact hfresh j hjk
  refine ⟨fun k hk => ?_, fun j j' k hj hj' => ?_, fun j => ?_⟩
  · have hnot : k ∉ held c' := hself ▸ hk i
    change config' k = initial k
    by_cases hik : k ∈ held (s.calls i)
    · exact ha.released k hik hnot
    · have hsame : config' k = s.config k := by
        by_contra hne
        exact hik (ha.changed k hne)
      rw [hsame]
      refine h.free k fun j => ?_
      by_cases hj : j = i
      · rwa [hj]
      · exact hother j hj ▸ hk j
  · simp only at hj hj'
    by_cases hji : j = i
    · by_cases hji' : j' = i
      · rw [hji, hji']
      · rw [hji, hself] at hj
        rw [hother j' hji'] at hj'
        exact absurd hj' (hkept j' k hji' hj)
    · rw [hother j hji] at hj
      by_cases hji' : j' = i
      · rw [hji', hself] at hj'
        exact absurd hj (hkept j k hji hj')
      · rw [hother j' hji'] at hj'
        exact h.alone j j' k hj hj'
  · simp only
    by_cases hj : j = i
    · rw [hj, hself]
      exact ha.good
    · rw [hother j hj]
      refine (h.good j).congr fun k hk => ?_
      by_contra hne
      exact hj (h.alone j i k ((h.good j).held_subset hk)
        ((h.good i).held_subset (ha.changed k hne)))

/-- A step that changes no value and keeps what is held. -/
theorem Allowed.of_same {fresh : κ → Prop} (hgood : Good initial config c')
    (hheld : ∀ k ∈ held c, k ∈ held c')
    (hclaimed : ∀ k ∈ Overrides.claimed c', k ∈ Overrides.claimed c ∨ fresh k) :
    Allowed initial config config c c' fresh :=
  ⟨fun _ hne => absurd rfl hne, hgood, hclaimed, fun k hk hk' => absurd (hheld k hk) hk'⟩

theorem allowed_of_raised {fresh : κ → Prop} (hgood : Good initial config c)
    (h : raised c = some c') : Allowed initial config config c c' fresh := by
  cases c with
  | ended => cases h
  | saving options todo original =>
    cases h
    refine ⟨fun _ hne => absurd rfl hne, trivial, fun k hk => absurd hk List.not_mem_nil,
      fun k hk _ => ?_⟩
    obtain ⟨x, hx, rfl⟩ := List.mem_map.1 hk
    exact (hgood.2.2 x hx).2
  | setting options todo original =>
    cases h
    obtain ⟨hnodup, hkeys, hsaved, -⟩ := hgood
    exact .of_same ⟨hkeys ▸ hnodup, hsaved⟩ (fun _ => id) fun k hk => .inl (mem_of_keys_eq hkeys hk)
  | body options original =>
    cases h
    obtain ⟨hnodup, hkeys, hsaved, -⟩ := hgood
    exact .of_same ⟨hkeys ▸ hnodup, hsaved⟩ (fun _ => id) fun k hk => .inl (mem_of_keys_eq hkeys hk)
  | restoring todo => cases h

theorem inv_ended : Inv initial ({ config := initial } : State n κ ν) :=
  ⟨fun _ _ => rfl, fun _ _ _ hk => absurd hk List.not_mem_nil, fun _ => trivial⟩

variable [DecidableEq κ]

theorem allowed_of_nextStep {fresh : κ → Prop} (hgood : Good initial config c)
    (hsave : ∀ options k v todo original, c = .saving options ((k, v) :: todo) original →
      config k = initial k)
    (h : nextStep config c = some (config', c')) : Allowed initial config config' c c' fresh := by
  cases c with
  | ended => cases h
  | saving options todo original =>
    obtain ⟨hnodup, hkeys, hsaved⟩ := hgood
    cases todo with
    | nil =>
      cases h
      have hall : keys original = keys options := by simpa [keys] using hkeys
      refine .of_same ⟨hnodup, hall, fun x hx => (hsaved x hx).1, [], rfl, by simp, fun x hx => ?_⟩
        (fun _ => id) fun _ => .inl
      obtain ⟨y, hy, heq⟩ := List.mem_map.1 (mem_of_keys_eq hall.symm (mem_keys hx))
      rw [← heq]
      exact (hsaved y hy).2
    | cons x todo =>
      cases h
      have hinitial := hsave options x.1 x.2 todo original rfl
      refine .of_same ⟨hnodup, by simpa [keys] using hkeys, fun y hy => ?_⟩ (fun k hk => ?_)
        fun _ => .inl
      · rcases List.mem_append.1 hy with hy | hy
        · exact hsaved y hy
        · rw [List.mem_singleton.1 hy]
          exact ⟨hinitial, hinitial⟩
      · have hmem : k ∈ keys original ++ [x.1] := List.mem_append_left _ hk
        simpa [keys, held] using hmem
  | setting options todo original =>
    obtain ⟨hnodup, hkeys, hsaved, done, rfl, hdone, htodo⟩ := hgood
    cases todo with
    | nil =>
      cases h
      exact .of_same ⟨hnodup, hkeys, hsaved, by simpa using hdone⟩ (fun _ => id) fun _ => .inl
    | cons x todo =>
      cases h
      have hx : x.1 ∈ keys original :=
        hkeys ▸ mem_keys (List.mem_append_right _ List.mem_cons_self)
      refine ⟨fun k hne => ?_, ⟨hnodup, hkeys, hsaved, done ++ [x], by simp, fun y hy => ?_,
        fun y hy => ?_⟩, fun _ => .inl, fun k hk hk' => absurd hk hk'⟩
      · by_contra hk
        refine hne (Function.update_of_ne ?_ ..)
        rintro rfl
        exact hk hx
      · rcases List.mem_append.1 hy with hy | hy
        · have hne : y.1 ≠ x.1 := by
            have hdisjoint := List.disjoint_of_nodup_append (by simpa [keys] using hnodup)
            rintro heq
            exact hdisjoint (mem_keys hy) (by simp [heq])
          rw [Function.update_of_ne hne, hdone y hy]
        · rw [List.mem_singleton.1 hy, Function.update_self]
      · have hne : y.1 ≠ x.1 := by
          have hrest := List.Nodup.of_append_right (by simpa [keys] using hnodup)
          rintro heq
          exact (List.nodup_cons.1 hrest).1 (heq ▸ mem_keys hy)
        rw [Function.update_of_ne hne, htodo y (List.mem_cons_of_mem x hy)]
  | body options original =>
    cases h
    obtain ⟨hnodup, hkeys, hsaved, -⟩ := hgood
    exact .of_same ⟨hkeys ▸ hnodup, hsaved⟩ (fun _ => id) fun k hk => .inl (mem_of_keys_eq hkeys hk)
  | restoring todo =>
    obtain ⟨hnodup, hsaved⟩ := hgood
    cases todo with
    | nil =>
      cases h
      exact .of_same trivial (fun _ => id) fun _ => .inl
    | cons x todo =>
      cases h
      refine ⟨fun k hne => ?_, ⟨(List.nodup_cons.1 hnodup).2, fun y hy =>
        hsaved y (List.mem_cons_of_mem x hy)⟩, fun k hk => .inl (List.mem_cons_of_mem _ hk),
        fun k hk hk' => ?_⟩
      · by_contra hk
        refine hne (Function.update_of_ne ?_ ..)
        rintro rfl
        exact hk List.mem_cons_self
      · rcases List.mem_cons.1 hk with rfl | hk
        · change Function.update config x.1 x.2 x.1 = _
          rw [Function.update_self]
          exact hsaved x List.mem_cons_self
        · exact absurd hk hk'

/-- A key that is saved but not set has the value that it had at the beginning, too. -/
theorem Inv.unset (h : Inv initial s) {k : κ} (hk : ∀ i, k ∉ overridden (s.calls i)) :
    s.config k = initial k := by
  by_cases hheld : ∃ i, k ∈ held (s.calls i)
  · obtain ⟨i, hi⟩ := hheld
    have hgood := h.good i
    have hnot := hk i
    revert hi hgood hnot
    cases s.calls i with
    | ended => exact fun hi => absurd hi List.not_mem_nil
    | saving options todo original =>
      intro hi hgood _
      obtain ⟨x, hx, rfl⟩ := List.mem_map.1 hi
      exact (hgood.2.2 x hx).2
    | setting options todo original =>
      intro hi hgood hnot
      obtain ⟨-, hkeys, -, done, -, -, htodo⟩ := hgood
      have hleft : k ∈ keys todo := by
        by_contra hset
        exact hnot (List.mem_filter.2 ⟨mem_of_keys_eq hkeys hi, by simpa using hset⟩)
      obtain ⟨x, hx, rfl⟩ := List.mem_map.1 hleft
      exact htodo x hx
    | body options original => exact fun hi _ hnot => absurd hi hnot
    | restoring todo => exact fun hi _ hnot => absurd hi hnot
  · exact h.free k fun i hi => hheld ⟨i, hi⟩

/-- Each step keeps what holds of the values, where no call starts that others are in the way of. -/
theorem Inv.step (h : Inv initial s) {e : Fin n × Act κ ν} (hapart : Apart s e)
    (hstep : step s e = some s') : Inv initial s' := by
  obtain ⟨⟨config', c'⟩, hact, rfl⟩ := Option.map_eq_some_iff.1 hstep
  obtain ⟨i, a⟩ := e
  refine h.of_allowed ?_
  have hgood := h.good i
  unfold act at hact
  cases a with
  | start options =>
    simp only at hact
    split at hact
    · rename_i hended
      cases hact
      rw [hended]
      exact .of_same ⟨hapart.1, rfl, by simp⟩ (fun _ => id) fun k hk => .inr (hapart.2 k hk)
    · cases hact
  | next =>
    refine allowed_of_nextStep hgood (fun options k v todo original hc => ?_) hact
    rw [hc] at hgood
    have hkeys : keys original ++ k :: keys todo = keys options := hgood.2.1
    have hclaimed : k ∈ Overrides.claimed (s.calls i) := by
      rw [hc]
      change k ∈ keys options
      rw [← hkeys]
      exact List.mem_append_right _ List.mem_cons_self
    refine h.free k fun j hj => ?_
    obtain rfl := h.alone j i k ((h.good j).held_subset hj) hclaimed
    rw [hc] at hj
    have hnodup : (keys original ++ k :: keys todo).Nodup := hkeys ▸ hgood.1
    exact List.disjoint_of_nodup_append hnodup hj List.mem_cons_self
  | raise =>
    obtain ⟨c'', hraised, heq⟩ := Option.map_eq_some_iff.1 hact
    cases heq
    exact allowed_of_raised hgood hraised

end Holds

end Overrides
