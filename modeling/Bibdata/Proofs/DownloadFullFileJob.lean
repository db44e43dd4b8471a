import Bibdata.DownloadFullFileJob
import Mathlib.Data.List.Nodup

/-!
# An archive unzipped again

Once a target exists the number stays at it, so that all later entries meet the same target
(`unzipEntries_of_exists`). The archive is unzipped as it should if that happens to no entry but the
last (`unzipFile_unzipped_iff`).
-/

namespace Bibdata

namespace DownloadFullFileJob

variable {updateDirectory file filePrefix : String}

section Targets

theorem targetPath_injective :
    Function.Injective (targetPath updateDirectory file filePrefix) := by
  intro i j h
  rw [targetPath, targetPath, target, target, String.append_right_inj, String.append_left_inj,
    String.append_right_inj] at h
  have hdigits : Nat.toDigits 10 i = Nat.toDigits 10 j := by
    rw [← Nat.toList_repr, ← Nat.toList_repr]
    exact congrArg String.toList h
  rw [← Nat.ofDigitChars_ten_toDigits (n := i), hdigits, Nat.ofDigitChars_ten_toDigits]

theorem targetPath_ne {i j : ℕ} (h : i ≠ j) :
    targetPath updateDirectory file filePrefix i ≠ targetPath updateDirectory file filePrefix j :=
  targetPath_injective.ne h

variable (updateDirectory file filePrefix) in
/-- The targets of `n` entries, the first with the number `i`. -/
def targetPaths (i n : ℕ) : List String :=
  (List.range' i n).map (targetPath updateDirectory file filePrefix)

@[simp] theorem targetPaths_zero (i : ℕ) :
    targetPaths updateDirectory file filePrefix i 0 = [] := rfl

@[simp] theorem targetPaths_succ (i n : ℕ) :
    targetPaths updateDirectory file filePrefix i (n + 1)
      = targetPath updateDirectory file filePrefix i
        :: targetPaths updateDirectory file filePrefix (i + 1) n := by
  simp [targetPaths, List.range'_succ]

theorem notMem_targetPaths {i j : ℕ} (h : i < j) (n : ℕ) :
    targetPath updateDirectory file filePrefix i
      ∉ targetPaths updateDirectory file filePrefix j n := by
  intro hmem
  obtain ⟨k, hk, heq⟩ := List.mem_map.1 hmem
  have hki := targetPath_injective heq
  have hjk := List.mem_range'_1.1 hk
  omega

end Targets

section Entries

variable {i : ℕ} {entry : String} {entries : List String} {files : Files}

theorem unzipEntries_of_absent (h : files (targetPath updateDirectory file filePrefix i) = none) :
    unzipEntries updateDirectory file filePrefix i (entry :: entries) files
      = (targetPath updateDirectory file filePrefix i
          :: (unzipEntries updateDirectory file filePrefix (i + 1) entries
              (Function.update files (targetPath updateDirectory file filePrefix i)
                (some entry))).1,
        (unzipEntries updateDirectory file filePrefix (i + 1) entries
          (Function.update files (targetPath updateDirectory file filePrefix i)
            (some entry))).2) := by
  simp [unzipEntries, extract, h]

theorem unzipEntries_of_exists {text : String}
    (h : files (targetPath updateDirectory file filePrefix i) = some text) :
    unzipEntries updateDirectory file filePrefix i entries files
      = (List.replicate entries.length (targetPath updateDirectory file filePrefix i), files) := by
  induction entries with
  | nil => rfl
  | cons entry entries ih => simp [unzipEntries, extract, h, ih, List.replicate_succ]

/-- No file that is there is written again. -/
theorem unzipEntries_eq_some {path text : String} (h : files path = some text) :
    (unzipEntries updateDirectory file filePrefix i entries files).2 path = some text := by
  induction entries generalizing i files with
  | nil => exact h
  | cons entry entries ih =>
    rcases ht : files (targetPath updateDirectory file filePrefix i) with _ | t
    · rw [unzipEntries_of_absent ht]
      apply ih
      have hne : path ≠ targetPath updateDirectory file filePrefix i := by
        intro heq
        rw [heq, ht] at h
        simp at h
      rw [Function.update_of_ne hne, h]
    · rw [unzipEntries_of_exists ht]
      exact h

end Entries

section Unzipped

variable (updateDirectory file filePrefix) in
/-- What unzipping should end with: a target for each entry, all of them returned. -/
structure Unzipped (i : ℕ) (entries : List String) (result : List String × Files) : Prop where
  paths : result.1 = targetPaths updateDirectory file filePrefix i entries.length
  distinct : result.1.Nodup
  contents : result.1.map result.2 = entries.map some

variable (updateDirectory file filePrefix) in
/-- No target is on disk but that of the last entry, which may be if it holds the entry. -/
def Unhindered (i : ℕ) (entries : List String) (files : Files) : Prop :=
  ∀ k text, entries[k]? = some text →
    files (targetPath updateDirectory file filePrefix (i + k)) = none ∨
      k + 1 = entries.length ∧
        files (targetPath updateDirectory file filePrefix (i + k)) = some text

variable {i : ℕ} {entry : String} {entries : List String} {files : Files}

theorem unzipped_cons_of_absent
    (h : files (targetPath updateDirectory file filePrefix i) = none) :
    Unzipped updateDirectory file filePrefix i (entry :: entries)
        (unzipEntries updateDirectory file filePrefix i (entry :: entries) files) ↔
      Unzipped updateDirectory file filePrefix (i + 1) entries
        (unzipEntries updateDirectory file filePrefix (i + 1) entries
          (Function.update files (targetPath updateDirectory file filePrefix i)
            (some entry))) := by
  rw [unzipEntries_of_absent h]
  refine ⟨fun hu => ⟨?_, ?_, ?_⟩, fun hu => ⟨?_, ?_, ?_⟩⟩
  · simpa using hu.paths
  · exact (List.nodup_cons.1 hu.distinct).2
  · exact (List.cons.inj hu.contents).2
  · simp [hu.paths]
  · refine List.nodup_cons.2 ⟨?_, hu.distinct⟩
    rw [hu.paths]
    exact notMem_targetPaths (by omega) _
  · rw [List.map_cons, List.map_cons, hu.contents]
    rw [unzipEntries_eq_some (Function.update_self _ _ files)]

theorem unzipped_cons_of_exists {text : String}
    (h : files (targetPath updateDirectory file filePrefix i) = some text) :
    Unzipped updateDirectory file filePrefix i (entry :: entries)
        (unzipEntries updateDirectory file filePrefix i (entry :: entries) files) ↔
      entries = [] ∧ text = entry := by
  rw [unzipEntries_of_exists h]
  refine ⟨fun hu => ?_, ?_⟩
  · have hlen : (entry :: entries).length ≤ 1 := List.nodup_replicate.1 hu.distinct
    have hnil : entries = [] := by simpa using hlen
    subst hnil
    exact ⟨rfl, by simpa [h] using hu.contents⟩
  · rintro ⟨rfl, rfl⟩
    exact ⟨by simp, by simp, by simp [h]⟩

theorem unhindered_cons_of_absent
    (h : files (targetPath updateDirectory file filePrefix i) = none) :
    Unhindered updateDirectory file filePrefix i (entry :: entries) files ↔
      Unhindered updateDirectory file filePrefix (i + 1) entries
        (Function.update files (targetPath updateDirectory file filePrefix i) (some entry)) := by
  have hlater : ∀ k, Function.update files (targetPath updateDirectory file filePrefix i)
      (some entry) (targetPath updateDirectory file filePrefix (i + 1 + k))
        = files (targetPath updateDirectory file filePrefix (i + (k + 1))) := by
    intro k
    rw [Function.update_of_ne (targetPath_ne (by omega)), Nat.add_assoc, Nat.add_comm 1 k]
  refine ⟨fun hu k text hk => ?_, fun hu k text hk => ?_⟩
  · have := hu (k + 1) text (by simpa using hk)
    simpa [hlater] using this
  · cases k with
    | zero => exact .inl h
    | succ k =>
      have := hu k text (by simpa using hk)
      simpa [hlater] using this

theorem unhindered_cons_of_exists {text : String}
    (h : files (targetPath updateDirectory file filePrefix i) = some text) :
    Unhindered updateDirectory file filePrefix i (entry :: entries) files ↔
      entries = [] ∧ text = entry := by
  refine ⟨fun hu => ?_, ?_⟩
  · have hfirst := hu 0 entry rfl
    simpa [h] using hfirst
  · rintro ⟨rfl, rfl⟩ k t hk
    obtain ⟨rfl, rfl⟩ : k = 0 ∧ text = t := by simpa [List.getElem?_singleton] using hk
    exact .inr ⟨rfl, h⟩

theorem unzipEntries_unzipped_iff (i : ℕ) (entries : List String) (files : Files) :
    Unzipped updateDirectory file filePrefix i entries
        (unzipEntries updateDirectory file filePrefix i entries files) ↔
      Unhindered updateDirectory file filePrefix i entries files := by
  induction entries generalizing i files with
  | nil => exact ⟨fun _ k t hk => by simp at hk, fun _ => ⟨rfl, List.nodup_nil, rfl⟩⟩
  | cons entry entries ih =>
    rcases h : files (targetPath updateDirectory file filePrefix i) with _ | text
    · rw [unzipped_cons_of_absent h, ih, unhindered_cons_of_absent h]
    · rw [unzipped_cons_of_exists h, unhindered_cons_of_exists h]

theorem unzipFile_unzipped_iff (updateDirectory file filePrefix : String) (entries : List String)
    (files : Files) :
    Unzipped updateDirectory file filePrefix 1 entries
        (unzipFile updateDirectory file filePrefix entries files) ↔
      Unhindered updateDirectory file filePrefix 1 entries files :=
  unzipEntries_unzipped_iff 1 entries files

/-- An earlier run was stopped when it had extracted the first of two entries. -/
theorem not_unzipped_rerun :
    ¬ Unzipped "/tmp/updates" "/tmp/updates/NYPL_20210430_015000.zip" "scsbfull_nypl_" 1
        ["<one/>", "<two/>"]
        (unzipFile "/tmp/updates" "/tmp/updates/NYPL_20210430_015000.zip" "scsbfull_nypl_"
          ["<one/>", "<two/>"]
          (Function.update (fun _ => none) (targetPath "/tmp/updates"
            "/tmp/updates/NYPL_20210430_015000.zip" "scsbfull_nypl_" 1) (some "<one/>"))) := by
  rw [unzipFile, unzipped_cons_of_exists (Function.update_self ..)]
  simp

end Unzipped

end DownloadFullFileJob

end Bibdata
