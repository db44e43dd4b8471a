import Bibdata.Proofs.PassedOver

/-!
# Overlapping catch-ups

`index_remaining!` looks at `in_progress`, which only the `RemainingDumpsJob` that it enqueues
sets. So a second catch-up can be enqueued before the first one starts, and both then index. Where
a catch-up is enqueued only once the ones before have nothing but `indexed_remaining` left, one
dump at a time is indexed (`single_of_run`).
-/

namespace Bibdata

open Transition

/-- The copy of the row on which a step calls `index_remaining!`. -/
def Act.copy (s : Sys) : Act → Option (IndexManager × ℕ)
  | .imported d fuel => if incrementalDump d then some (s.manager, fuel) else none
  | .indexRemaining fuel => some (s.manager, fuel)
  | .reindexed copy fuel => some (copy, fuel)
  | _ => none

/-- A call that finds a next dump and `in_progress` unset finds every earlier catch-up with only
`indexed_remaining` left. -/
def OneAtATime (s : Sys) (a : Act) : Prop :=
  ∀ c ∈ a.copy s, c.1.inProgress = false →
    (∃ r ∈ nextDump s.db c.2 c.1.lastDumpCompleted, r.1.isSome) → ∀ b ∈ s.batches, b = .finished

instance (s : Sys) (a : Act) : Decidable (OneAtATime s a) :=
  inferInstanceAs (Decidable (∀ c ∈ a.copy s, _ = false →
    (∃ r ∈ nextDump s.db c.2 c.1.lastDumpCompleted, _ = true) → ∀ b ∈ s.batches, _))

namespace Sys

variable {s s' : Sys} {fuel : ℕ}

/-- At most one dump is being indexed, and none by two batches. -/
structure Single (s : Sys) : Prop where
  one : s.underway.length ≤ 1
  once : s.underway.Nodup

/-- How many catch-ups have more than `indexed_remaining` left. -/
def running (s : Sys) : ℕ := s.batches.countP (· ≠ .finished)

theorem length_underway_le (s : Sys) : s.underway.length ≤ s.running := by
  unfold underway running
  rw [List.length_filterMap_eq_countP]
  refine List.countP_mono_left fun b _ hb => ?_
  cases b <;> simp_all [CatchUpBatch.dump]

theorem Single.of_running (h : s.running ≤ 1) : s.Single := by
  have hlen := s.length_underway_le
  refine ⟨by omega, ?_⟩
  rcases hu : s.underway with _ | ⟨d, _ | ⟨e, ds⟩⟩
  · exact List.nodup_nil
  · exact List.nodup_singleton d
  · rw [hu] at hlen
    simp only [List.length_cons] at hlen
    omega

theorem callIndexRemaining_batches {copy : IndexManager}
    (h : s.callIndexRemaining copy fuel = some s') :
    s'.batches = s.batches ∨ s'.batches = .queued :: s.batches ∧ copy.inProgress = false
      ∧ ∃ r ∈ nextDump s.db fuel copy.lastDumpCompleted, r.1.isSome := by
  simp only [callIndexRemaining, Bibdata.indexRemaining, Option.map_map,
    Option.map_eq_some_iff] at h
  obtain ⟨r, hr, rfl⟩ := h
  simp only [Function.comp_apply]
  split_ifs with hc
  · simp only [Bool.and_eq_true, Bool.not_eq_true'] at hc
    exact .inr ⟨rfl, hc.2, r, hr, hc.1⟩
  · exact .inl rfl

/-- What a step does to the catch-ups: nothing, one is enqueued, one goes on, or one is over. -/
theorem step_batches {a : Act} (h : step s a = some s') :
    s'.batches = s.batches
      ∨ (s'.batches = .queued :: s.batches ∧ ∃ c ∈ a.copy s, c.1.inProgress = false
        ∧ ∃ r ∈ nextDump s.db c.2 c.1.lastDumpCompleted, r.1.isSome)
      ∨ (∃ b ∈ s.batches, b ≠ .finished ∧ ∃ c, s'.batches = c :: s.batches.erase b)
      ∨ s'.batches = s.batches.erase .finished := by
  cases a with
  | poll m eventId id =>
    simp only [step] at h
    split at h
    · cases h
    · split_ifs at h
      cases h
      exact .inl rfl
  | attach d f =>
    simp only [step] at h
    split_ifs at h
    cases h
    exact .inl rfl
  | imported d fuel =>
    simp only [step] at h
    split_ifs at h with hd hinc
    · rcases callIndexRemaining_batches h with hb | ⟨hb, hc⟩
      · exact .inl hb
      · exact .inr (.inl ⟨hb, _, if_pos hinc, hc⟩)
    · cases h
      exact .inl rfl
  | scan rows =>
    simp only [step] at h
    split_ifs at h
    cases h
    exact .inl rfl
  | indexRemaining fuel =>
    rcases callIndexRemaining_batches h with hb | ⟨hb, hc⟩
    · exact .inl hb
    · exact .inr (.inl ⟨hb, _, rfl, hc⟩)
  | reindex =>
    simp only [step] at h
    split_ifs at h
    cases h
    exact .inl rfl
  | reindexed copy fuel =>
    simp only [step] at h
    split_ifs at h
    rcases callIndexRemaining_batches h with hb | ⟨hb, hc⟩
    · exact .inl hb
    · exact .inr (.inl ⟨hb, _, rfl, hc⟩)
  | remainingDumpsJob fuel =>
    simp only [step] at h
    split_ifs at h with hb
    obtain ⟨r, -, rfl⟩ := Option.map_eq_some_iff.1 h
    exact .inr (.inr (.inl ⟨_, hb, by simp, r.2, rfl⟩))
  | dumpFileJob d jobs f =>
    simp only [step] at h
    split_ifs at h with hb
    cases h
    exact .inr (.inr (.inl ⟨_, hb.1, by simp, _, rfl⟩))
  | onSuccess d fuel =>
    simp only [step] at h
    split_ifs at h with hb
    obtain ⟨r, -, rfl⟩ := Option.map_eq_some_iff.1 h
    exact .inr (.inr (.inl ⟨_, hb, by simp, r.2, rfl⟩))
  | indexedRemaining =>
    simp only [step] at h
    split_ifs at h
    cases h
    exact .inr (.inr (.inr rfl))

theorem running_step {a : Act} (hs : s.running ≤ 1) (ha : OneAtATime s a)
    (h : step s a = some s') : s'.running ≤ 1 := by
  unfold running at hs ⊢
  rcases step_batches h with hb | ⟨hb, c, hc, hprog, hnext⟩ | ⟨b, hmem, hne, c, hb⟩ | hb
  · rwa [hb]
  · -- the catch-up enqueued is the only one that runs
    have hall := ha c hc hprog hnext
    have hzero : s.batches.countP (· ≠ .finished) = 0 := by
      rw [List.countP_eq_zero]
      simpa using hall
    rw [hb, List.countP_cons, hzero]
    split_ifs <;> omega
  · -- the one that goes on was counted already
    rw [(List.perm_cons_erase hmem).countP_eq, List.countP_cons_of_pos (by simpa using hne)] at hs
    rw [hb, List.countP_cons]
    split_ifs <;> omega
  · rw [hb]
    exact (List.erase_sublist.countP_le).trans hs

/-- Where a catch-up is enqueued only once the ones before have just `indexed_remaining` left, one
dump at a time is indexed. -/
theorem single_of_run {s₀ : Sys} (h₀ : s₀.batches = []) {es : List Act}
    (h : Run step OneAtATime s₀ es s) : s.Single := by
  have hinv : ∀ s a s', s.running ≤ 1 → OneAtATime s a → step s a = some s' → s'.running ≤ 1 :=
    fun _ _ _ hs hok hstep => running_step hs hok hstep
  exact Single.of_running (h.invariant hinv (by simp [running, h₀]))

end Sys

section Runs

open Sys

/-- Two calls of `index_remaining!` come before the first one's job starts: both index the dump. -/
theorem not_single_two_calls : ∃ s,
    Run step (fun _ _ => True) (fresh { dumps := [dumpOf 1], dumpFiles := [fileOf 1] })
        [.indexRemaining 1, .indexRemaining 1, .remainingDumpsJob 1, .remainingDumpsJob 1] s
      ∧ ¬s.Single := by
  obtain ⟨s, hs, hlen⟩ : ∃ s ∈ exec (guarded step fun _ _ => True)
      (fresh { dumps := [dumpOf 1], dumpFiles := [fileOf 1] })
      [.indexRemaining 1, .indexRemaining 1, .remainingDumpsJob 1, .remainingDumpsJob 1],
      s.batches = [.indexing (dumpOf 1) [fileOf 1], .indexing (dumpOf 1) [fileOf 1]] := by
    decide +kernel
  refine ⟨s, run_of_exec hs, fun hsingle => ?_⟩
  have hone := hsingle.one
  simp [underway, hlen, CatchUpBatch.dump] at hone

theorem single_importOf : ∃ s, ∃ es : List Act, (fresh {}).batches = []
    ∧ Run step OneAtATime (fresh {}) es s ∧ s.underway = [dumpOf 1] ∧ s.Single := by
  obtain ⟨s, hs, hu⟩ : ∃ s ∈ exec (guarded step OneAtATime) (fresh {})
      (importOf 1 ++ [.remainingDumpsJob 1] ++ importOf 2), s.underway = [dumpOf 1] := by
    decide +kernel
  exact ⟨s, _, rfl, run_of_exec hs, hu, single_of_run rfl (run_of_exec hs)⟩

end Runs

end Bibdata
