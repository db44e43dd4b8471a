import Bibdata.Library.Transition

/-!
# Deletes at once, adds by jobs

A program goes through a list of adds and deletes on a store. A delete takes effect when the
program comes to it; an add is a job that runs at any time after that. What a key holds once all
is done depends on the schedule, unless the program never adds it (`store_of_not_added`), or adds
only one value and comes to an add of it after its last delete (`store_of_addedLast`).
-/

namespace DeferredAdds

open Transition

variable {κ ν ι : Type*}

inductive Op (κ ι : Type*)
  | add (job : ι)
  | delete (keys : List κ)

variable {docs : ι → κ → Option ν} {k : κ} {v : ν}

def Op.adds (docs : ι → κ → Option ν) (k : κ) : Op κ ι → Prop
  | .add j => (docs j k).isSome
  | .delete _ => False

def Op.deletes (k : κ) : Op κ ι → Prop
  | .add _ => False
  | .delete keys => k ∈ keys

@[simp] theorem adds_add {j : ι} : (Op.add j : Op κ ι).adds docs k ↔ (docs j k).isSome := Iff.rfl

@[simp] theorem adds_delete {keys : List κ} : ¬ (Op.delete keys : Op κ ι).adds docs k := id

@[simp] theorem deletes_add {j : ι} : ¬ (Op.add j : Op κ ι).deletes k := id

@[simp] theorem deletes_delete {keys : List κ} : (Op.delete keys : Op κ ι).deletes k ↔ k ∈ keys :=
  Iff.rfl

/-- An add of the key comes after every delete of it. -/
def AddedLast (docs : ι → κ → Option ν) (k : κ) : List (Op κ ι) → Prop
  | [] => False
  | op :: ops => AddedLast docs k ops ∨ op.adds docs k ∧ ∀ op' ∈ ops, ¬ op'.deletes k

theorem addedLast_append {ops' : List (Op κ ι)} : ∀ {ops : List (Op κ ι)},
    AddedLast docs k (ops ++ ops')
      ↔ AddedLast docs k ops' ∨ AddedLast docs k ops ∧ ∀ op ∈ ops', ¬ op.deletes k
  | [] => by simp [AddedLast]
  | op :: ops => by
    rw [List.cons_append, AddedLast, AddedLast, addedLast_append]
    simp only [List.mem_append]
    constructor
    · rintro ((h | ⟨h, h'⟩) | ⟨h, h'⟩)
      · exact .inl h
      · exact .inr ⟨.inl h, h'⟩
      · exact .inr ⟨.inr ⟨h, fun o ho => h' o (.inl ho)⟩, fun o ho => h' o (.inr ho)⟩
    · rintro (h | ⟨h | ⟨h, h'⟩, h''⟩)
      · exact .inl (.inl h)
      · exact .inl (.inr ⟨h, h''⟩)
      · exact .inr ⟨h, fun o ho => ho.elim (h' o) (h'' o)⟩

variable [DecidableEq κ] [DecidableEq ι]

def put (docs : ι → κ → Option ν) (j : ι) (store : κ → Option ν) : κ → Option ν :=
  fun k => docs j k <|> store k

def remove (keys : List κ) (store : κ → Option ν) : κ → Option ν :=
  fun k => if k ∈ keys then none else store k

def applyOp (docs : ι → κ → Option ν) (store : κ → Option ν) : Op κ ι → κ → Option ν
  | .add j => put docs j store
  | .delete keys => remove keys store

def applyOps (docs : ι → κ → Option ν) (ops : List (Op κ ι)) (store : κ → Option ν) :
    κ → Option ν :=
  ops.foldl (applyOp docs) store

structure State (κ ν ι : Type*) where
  todo : List (Op κ ι)
  pending : List ι := []
  store : κ → Option ν

inductive Act (ι : Type*)
  | next
  | job (j : ι)

def step (docs : ι → κ → Option ν) (s : State κ ν ι) : Act ι → Option (State κ ν ι)
  | .next =>
    match s.todo with
    | [] => none
    | .add j :: ops => some { s with todo := ops, pending := j :: s.pending }
    | .delete keys :: ops => some { s with todo := ops, store := remove keys s.store }
  | .job j =>
    if j ∈ s.pending then
      some { s with pending := s.pending.erase j, store := put docs j s.store }
    else none

def Reaches (docs : ι → κ → Option ν) (ops : List (Op κ ι)) (store store' : κ → Option ν) : Prop :=
  Transition.Reaches (step docs) ⟨ops, [], store⟩ ⟨[], [], store'⟩

/-! ### Schedules -/

theorem reaches_cons {s s' s'' : State κ ν ι} {a : Act ι} (h : step docs s a = some s')
    (h' : Transition.Reaches (step docs) s' s'') : Transition.Reaches (step docs) s s'' := by
  obtain ⟨es, hes⟩ := h'
  exact ⟨a :: es, .cons trivial h hes⟩

/-- Where each job runs at once, the adds and deletes are done one after the other. -/
theorem reaches_applyOps : ∀ (ops : List (Op κ ι)) (store : κ → Option ν),
    Reaches docs ops store (applyOps docs ops store)
  | [], store => ⟨[], .nil _⟩
  | .add j :: ops, store => by
    have h : step docs ⟨ops, [j], store⟩ (.job j) = some ⟨ops, [], put docs j store⟩ := by
      simp [step]
    exact reaches_cons (a := .next) rfl (reaches_cons h (reaches_applyOps ops _))
  | .delete keys :: ops, store => reaches_cons (a := .next) rfl (reaches_applyOps ops _)

/-- The program can come to its end before any job runs. -/
theorem reaches_pending : ∀ (ops : List (Op κ ι)) (pending : List ι) (store : κ → Option ν),
    ∃ pending' store', Transition.Reaches (step docs) ⟨ops, pending, store⟩
        ⟨[], pending', store'⟩
      ∧ ∀ j, j ∈ pending ∨ .add j ∈ ops → j ∈ pending'
  | [], pending, store => ⟨pending, store, ⟨[], .nil _⟩, by simp⟩
  | .add j :: ops, pending, store => by
    obtain ⟨p, s, hr, hp⟩ := reaches_pending ops (j :: pending) store
    refine ⟨p, s, reaches_cons (a := .next) rfl hr, fun i hi => hp i ?_⟩
    rcases hi with hi | hi
    · exact .inl (List.mem_cons_of_mem _ hi)
    · rcases List.mem_cons.1 hi with hi | hi
      · cases hi
        exact .inl (List.mem_cons_self ..)
      · exact .inr hi
  | .delete keys :: ops, pending, store => by
    obtain ⟨p, s, hr, hp⟩ := reaches_pending ops pending (remove keys store)
    refine ⟨p, s, reaches_cons (a := .next) rfl hr, fun i hi => hp i ?_⟩
    simpa using hi

/-- Of the jobs that are left any one can be the last. -/
theorem reaches_last {j : ι} : ∀ (rest pending : List ι) (store : κ → Option ν),
    pending.Perm (j :: rest) → ∃ store', Transition.Reaches (step docs) ⟨[], pending, store⟩
      ⟨[], [], put docs j store'⟩
  | [], pending, store, hp => by
    obtain rfl := List.perm_singleton.1 hp
    have h : step docs ⟨[], [j], store⟩ (.job j) = some ⟨[], [], put docs j store⟩ := by
      simp [step]
    exact ⟨store, reaches_cons h ⟨[], .nil _⟩⟩
  | i :: rest, pending, store, hp => by
    have hmem : i ∈ pending := hp.mem_iff.2 (by simp)
    have hp' : (pending.erase i).Perm (j :: rest) :=
      (hp.erase i).trans ((List.Perm.swap i j rest).erase i |>.trans (by simp))
    obtain ⟨s, hs⟩ := reaches_last rest (pending.erase i) (put docs i store) hp'
    exact ⟨s, reaches_cons (a := .job i) (if_pos hmem) hs⟩

theorem reaches_put {ops : List (Op κ ι)} {j : ι} (hj : .add j ∈ ops) (store : κ → Option ν) :
    ∃ store', Reaches docs ops store (put docs j store') := by
  obtain ⟨p, s, ⟨es, hes⟩, hp⟩ := reaches_pending ops [] store
  have hmem := hp j (.inr hj)
  obtain ⟨s', ⟨es', hes'⟩⟩ := reaches_last (p.erase j) p s (List.perm_cons_erase hmem)
  exact ⟨s', es ++ es', hes.append hes'⟩

/-! ### What a key holds in the end -/

structure NotAdded (docs : ι → κ → Option ν) (k : κ) (s : State κ ν ι) : Prop where
  todo : ∀ op ∈ s.todo, ¬ op.adds docs k
  pending : ∀ j ∈ s.pending, docs j k = none

instance (op : Op κ ι) : Decidable (op.deletes k) :=
  match op with
  | .add _ => isFalse id
  | .delete keys => inferInstanceAs (Decidable (k ∈ keys))

/-- What the key holds once the deletes to come are done. -/
def remains (k : κ) (s : State κ ν ι) : Option ν :=
  if ∃ op ∈ s.todo, op.deletes k then none else s.store k

theorem NotAdded.step {s s' : State κ ν ι} {a : Act ι} (hs : NotAdded docs k s)
    (h : step docs s a = some s') : NotAdded docs k s' ∧ remains k s' = remains k s := by
  obtain ⟨todo, pending, store⟩ := s
  cases a with
  | next =>
    rcases todo with _ | ⟨_ | keys, ops⟩
    · cases h
    · rename_i j
      cases h
      refine ⟨⟨fun op hop => hs.todo op (List.mem_cons_of_mem _ hop), fun i hi => ?_⟩, ?_⟩
      · rcases List.mem_cons.1 hi with rfl | hi
        · simpa using hs.todo _ (List.mem_cons_self ..)
        · exact hs.pending i hi
      · simp [remains]
    · cases h
      refine ⟨⟨fun op hop => hs.todo op (List.mem_cons_of_mem _ hop), hs.pending⟩, ?_⟩
      by_cases hk : k ∈ keys <;> simp [remains, DeferredAdds.remove, hk]
  | job j =>
    simp only [DeferredAdds.step] at h
    split_ifs at h with hj
    cases h
    refine ⟨⟨hs.todo, fun i hi => hs.pending i (List.mem_of_mem_erase hi)⟩, ?_⟩
    simp [remains, put, hs.pending j hj]

/-- A key that is never added holds what it held, unless it is deleted. -/
theorem store_of_not_added {ops : List (Op κ ι)} {store store' : κ → Option ν}
    (hops : ∀ op ∈ ops, ¬ op.adds docs k) (h : Reaches docs ops store store') :
    store' k = remains k (⟨ops, [], store⟩ : State κ ν ι) := by
  obtain ⟨es, hes⟩ := h
  have hinv : ∀ s a s', NotAdded docs k s ∧ remains k s = remains k ⟨ops, [], store⟩ → True →
      step docs s a = some s' → NotAdded docs k s' ∧ remains k s' = remains k ⟨ops, [], store⟩ :=
    fun _ _ _ hs _ hstep => ⟨(hs.1.step hstep).1, (hs.1.step hstep).2.trans hs.2⟩
  have := (hes.invariant hinv ⟨⟨hops, by simp⟩, rfl⟩).2
  simpa [remains] using this

/-- Every add of the key puts `v` there, and one is still to come after the last delete, or is
done. -/
structure Secured (docs : ι → κ → Option ν) (k : κ) (v : ν) (s : State κ ν ι) : Prop where
  todo : ∀ j w, .add j ∈ s.todo → docs j k = some w → w = v
  pending : ∀ j ∈ s.pending, ∀ w, docs j k = some w → w = v
  last : AddedLast docs k s.todo ∨ (∀ op ∈ s.todo, ¬ op.deletes k)
    ∧ ((∃ j ∈ s.pending, (docs j k).isSome) ∨ s.store k = some v)

theorem Secured.step {s s' : State κ ν ι} {a : Act ι} (hs : Secured docs k v s)
    (h : step docs s a = some s') : Secured docs k v s' := by
  obtain ⟨todo, pending, store⟩ := s
  obtain ⟨htodo, hpending, hlast⟩ := hs
  cases a with
  | next =>
    rcases todo with _ | ⟨_ | keys, ops⟩
    · cases h
    · rename_i j
      cases h
      refine ⟨fun i w hi => htodo i w (List.mem_cons_of_mem _ hi), fun i hi w hw => ?_, ?_⟩
      · rcases List.mem_cons.1 hi with rfl | hi
        · exact htodo i w (List.mem_cons_self ..) hw
        · exact hpending i hi w hw
      · rcases hlast with (h | ⟨h, hno⟩) | ⟨hno, h⟩
        · exact .inl h
        · exact .inr ⟨hno, .inl ⟨j, List.mem_cons_self .., h⟩⟩
        · refine .inr ⟨fun op hop => hno op (List.mem_cons_of_mem _ hop), ?_⟩
          rcases h with ⟨i, hi, hik⟩ | h
          · exact .inl ⟨i, List.mem_cons_of_mem _ hi, hik⟩
          · exact .inr h
    · cases h
      refine ⟨fun i w hi => htodo i w (List.mem_cons_of_mem _ hi), hpending, ?_⟩
      rcases hlast with (h | ⟨h, -⟩) | ⟨hno, h⟩
      · exact .inl h
      · exact h.elim
      · have hk : k ∉ keys := hno _ (List.mem_cons_self ..)
        refine .inr ⟨fun op hop => hno op (List.mem_cons_of_mem _ hop), h.imp_right fun h => ?_⟩
        simpa [DeferredAdds.remove, hk] using h
  | job j =>
    simp only [DeferredAdds.step] at h
    split_ifs at h with hj
    cases h
    refine ⟨htodo, fun i hi => hpending i (List.mem_of_mem_erase hi), ?_⟩
    refine hlast.imp_right fun ⟨hno, h⟩ => ⟨hno, ?_⟩
    rcases hjk : docs j k with _ | w
    · -- the job does not touch the key
      rcases h with ⟨i, hi, hik⟩ | h
      · refine .inl ⟨i, (List.mem_erase_of_ne fun hij => ?_).2 hi, hik⟩
        rw [hij, hjk] at hik
        cases hik
      · exact .inr (by simpa [put, hjk] using h)
    · refine .inr ?_
      simp [put, hjk, hpending j hj w hjk]

/-- A key that gets one value only, and gets it after its last delete, holds that value. -/
theorem store_of_addedLast {ops : List (Op κ ι)} {store store' : κ → Option ν}
    (hagree : ∀ j w, .add j ∈ ops → docs j k = some w → w = v) (hlast : AddedLast docs k ops)
    (h : Reaches docs ops store store') : store' k = some v := by
  obtain ⟨es, hes⟩ := h
  have hinv : ∀ s a s', Secured docs k v s → True → step docs s a = some s' →
      Secured docs k v s' := fun _ _ _ hs _ hstep => hs.step hstep
  have := (hes.invariant hinv ⟨hagree, by simp, .inl hlast⟩).last
  simpa [AddedLast] using this

/-- Done one after the other, what a key that is added holds in the end was added last. -/
theorem addedLast_of_isSome : ∀ {ops : List (Op κ ι)} {store : κ → Option ν},
    (∃ op ∈ ops, op.adds docs k) → (applyOps docs ops store k).isSome → AddedLast docs k ops
  | [], _, ⟨op, hop, _⟩, _ => by cases hop
  | op :: ops, store, hadd, h => by
    by_cases hops : ∃ op ∈ ops, op.adds docs k
    · exact .inl (addedLast_of_isSome hops h)
    · obtain ⟨op', hop', hadd⟩ := hadd
      push Not at hops
      rcases List.mem_cons.1 hop' with rfl | hop'
      · refine .inr ⟨hadd, fun o ho hok => ?_⟩
        have := store_of_not_added hops (reaches_applyOps ops (applyOp docs store op'))
        change (applyOps docs ops (applyOp docs store op') k).isSome at h
        rw [this, remains, if_pos ⟨o, ho, hok⟩] at h
        cases h
      · exact absurd hadd (hops op' hop')

end DeferredAdds
