import Mathlib.Data.List.Basic
import Mathlib.Data.List.Perm.Basic
import Mathlib.Tactic.Common

/-!
# Filing things under keys

A thing is filed under a key; the first to come opens the key with a heading. Reopening a key puts
a new heading there and drops what was filed under it. What is kept in the end are the filings
that no later reopening of their key drops (`kept_run`), and a heading stays as the first filing
or the last reopening of its key left it (`opened_run`).
-/

namespace Shelf

variable {κ γ ι : Type*} [DecidableEq κ]

inductive Op (κ γ ι : Type*)
  | file (key : κ) (heading : γ) (x : ι)
  | reopen (key : κ) (heading : γ)

/-- What is kept under each key, in the order it came, and the headings. -/
structure State (κ γ ι : Type*) where
  kept : List (κ × ι) := []
  opened : κ → Option γ := fun _ => none

def step (s : State κ γ ι) : Op κ γ ι → State κ γ ι
  | .file k g x =>
    { kept := s.kept ++ [(k, x)]
      opened := fun k' => if k' = k then s.opened k <|> some g else s.opened k' }
  | .reopen k g =>
    { kept := s.kept.filter (·.1 ≠ k)
      opened := fun k' => if k' = k then some g else s.opened k' }

def run (s : State κ γ ι) (ops : List (Op κ γ ι)) : State κ γ ι := ops.foldl step s

def Op.reopens (k : κ) : Op κ γ ι → Bool
  | .file _ _ _ => false
  | .reopen k' _ => k' = k

/-- The filings that nothing after them drops. -/
def survivors : List (Op κ γ ι) → List (κ × ι)
  | [] => []
  | .file k _ x :: ops =>
    if ops.any (Op.reopens k) then survivors ops else (k, x) :: survivors ops
  | .reopen _ _ :: ops => survivors ops

def firstFiled (k : κ) : List (Op κ γ ι) → Option γ
  | [] => none
  | .file k' g _ :: ops => if k' = k then some g else firstFiled k ops
  | .reopen _ _ :: ops => firstFiled k ops

theorem run_cons (s : State κ γ ι) (op : Op κ γ ι) (ops : List (Op κ γ ι)) :
    run s (op :: ops) = run (step s op) ops := rfl

theorem run_append (s : State κ γ ι) (ops ops' : List (Op κ γ ι)) :
    run s (ops ++ ops') = run (run s ops) ops' :=
  List.foldl_append

theorem kept_run : ∀ (ops : List (Op κ γ ι)) (s : State κ γ ι),
    (run s ops).kept = s.kept.filter (fun e => !ops.any (Op.reopens e.1)) ++ survivors ops
  | [], s => by simp [run, survivors]
  | .file k g x :: ops, s => by
    rw [run_cons, kept_run ops]
    simp only [step, survivors, List.filter_append, List.any_cons, Op.reopens, Bool.false_or]
    split_ifs with h <;> simp [h]
  | .reopen k g :: ops, s => by
    rw [run_cons, kept_run ops]
    simp only [step, survivors, List.filter_filter, List.any_cons, Op.reopens, Bool.not_or]
    congr 2
    funext e
    by_cases h : e.1 = k
    · simp [h]
    · have h' : ¬ k = e.1 := fun he => h he.symm
      simp [h, h']

/-- A key that is never reopened has its heading from before or from the first filing. -/
theorem opened_run {k : κ} : ∀ {ops : List (Op κ γ ι)} {s : State κ γ ι},
    ops.any (Op.reopens k) = false → (run s ops).opened k = (s.opened k <|> firstFiled k ops)
  | [], s, _ => by simp [run, firstFiled]
  | .file k' g x :: ops, s, h => by
    rw [List.any_cons, Bool.or_eq_false_iff] at h
    rw [run_cons, opened_run h.2]
    simp only [step, firstFiled]
    by_cases hk : k' = k
    · subst hk
      cases s.opened k' <;> simp
    · have hk' : ¬ k = k' := fun he => hk he.symm
      simp [hk, hk']
  | .reopen k' g :: ops, s, h => by
    rw [List.any_cons, Bool.or_eq_false_iff] at h
    rw [run_cons, opened_run h.2]
    have hk : ¬ k = k' := fun he => by simp [Op.reopens, he] at h
    simp [step, firstFiled, hk]

theorem survivors_append : ∀ ops ops' : List (Op κ γ ι), survivors (ops ++ ops')
    = (survivors ops).filter (fun e => !ops'.any (Op.reopens e.1)) ++ survivors ops'
  | [], _ => rfl
  | .reopen _ _ :: ops, ops' => survivors_append ops ops'
  | .file k g x :: ops, ops' => by
    rw [List.cons_append, survivors, survivors, List.any_append, survivors_append ops ops']
    by_cases h : ops.any (Op.reopens k)
    · simp [h]
    · by_cases h' : ops'.any (Op.reopens k) <;> simp [h, h']

theorem file_of_mem_survivors {e : κ × ι} : ∀ ops : List (Op κ γ ι), e ∈ survivors ops →
    ∃ g, .file e.1 g e.2 ∈ ops
  | .reopen _ _ :: ops, h => by
    obtain ⟨g, hg⟩ := file_of_mem_survivors ops h
    exact ⟨g, List.mem_cons_of_mem _ hg⟩
  | .file k g x :: ops, h => by
    have hrest : e ∈ survivors ops → ∃ g', .file e.1 g' e.2 ∈ Op.file k g x :: ops := fun h => by
      obtain ⟨g', hg'⟩ := file_of_mem_survivors ops h
      exact ⟨g', List.mem_cons_of_mem _ hg'⟩
    rw [survivors] at h
    split_ifs at h
    · exact hrest h
    · rcases List.mem_cons.1 h with rfl | h
      · exact ⟨g, List.mem_cons_self ..⟩
      · exact hrest h

/-- What is filed under a key that is never reopened is kept. -/
theorem mem_survivors_of_file {k : κ} {g : γ} {x : ι} : ∀ {ops : List (Op κ γ ι)},
    ops.any (Op.reopens k) = false → .file k g x ∈ ops → (k, x) ∈ survivors ops
  | op :: ops, hno, h => by
    rw [List.any_cons, Bool.or_eq_false_iff] at hno
    rcases List.mem_cons.1 h with rfl | h
    · simp [survivors, hno.2]
    · have ih := mem_survivors_of_file hno.2 h
      cases op with
      | file k' g' x' =>
        rw [survivors]
        split_ifs
        · exact ih
        · exact List.mem_cons_of_mem _ ih
      | reopen k' g' => exact ih

theorem firstFiled_append (k : κ) : ∀ ops ops' : List (Op κ γ ι),
    firstFiled k (ops ++ ops') = (firstFiled k ops <|> firstFiled k ops')
  | [], _ => by simp [firstFiled]
  | .reopen _ _ :: ops, ops' => firstFiled_append k ops ops'
  | .file k' g x :: ops, ops' => by
    rw [List.cons_append, firstFiled, firstFiled, firstFiled_append k ops ops']
    split_ifs
    · rfl
    · rfl

def Op.heads (k : κ) (g : γ) : Op κ γ ι → Prop
  | .file k' g' _ => k' = k ∧ g' = g
  | .reopen k' g' => k' = k ∧ g' = g

/-- Every heading comes from some operation. -/
theorem heads_of_opened {k : κ} {g : γ} : ∀ {ops : List (Op κ γ ι)} {s : State κ γ ι},
    (run s ops).opened k = some g → s.opened k = some g ∨ ∃ op ∈ ops, op.heads k g
  | [], s, h => .inl h
  | op :: ops, s, h => by
    rw [run_cons] at h
    rcases heads_of_opened h with h | ⟨op', hop', h⟩
    · cases op with
      | file k' g' x =>
        simp only [step] at h
        split_ifs at h with hk
        · subst hk
          rcases hs : s.opened k with _ | g''
          · rw [hs] at h
            exact .inr ⟨_, List.mem_cons_self .., rfl, by simpa using h⟩
          · rw [hs] at h
            exact .inl (by simpa using h)
        · exact .inl h
      | reopen k' g' =>
        simp only [step] at h
        split_ifs at h with hk
        · exact .inr ⟨_, List.mem_cons_self .., hk.symm, by simpa using h⟩
        · exact .inl h
    · exact .inr ⟨op', List.mem_cons_of_mem _ hop', h⟩

/-- A key under which something was filed has a heading. -/
theorem opened_of_file {k : κ} {g : γ} {x : ι} : ∀ {ops : List (Op κ γ ι)} {s : State κ γ ι},
    .file k g x ∈ ops → ((run s ops).opened k).isSome := by
  have hkeep : ∀ (ops : List (Op κ γ ι)) (s : State κ γ ι), (s.opened k).isSome →
      ((run s ops).opened k).isSome := by
    intro ops
    induction ops with
    | nil => exact fun _ h => h
    | cons op ops ih =>
      intro s h
      refine ih _ ?_
      cases op <;> simp only [step] <;> split_ifs with hk
      · subst hk
        rw [Option.isSome_iff_exists] at h
        obtain ⟨g, hg⟩ := h
        simp [hg]
      · exact h
      · rfl
      · exact h
  intro ops
  induction ops with
  | nil => exact fun h => by cases h
  | cons op ops ih =>
    intro s h
    rcases List.mem_cons.1 h with rfl | h
    · refine hkeep ops _ ?_
      simp only [step, if_true]
      cases s.opened k <;> rfl
    · exact ih h

end Shelf
