import Bibdata.Library.Json
import Mathlib.Data.List.Nodup

/-!
# Records as JSON objects

A record is written member by member, and members may be left out. It is read by the names of its
members, in any order and among others, or from an array of all of them in their order. A member
reads as it was written (`lookup_kept`).
-/

namespace Json

variable {α : Type*}

section Write

def strings (xs : List String) : Json := .arr (xs.map .str)

/-- What is not there is written as null. -/
def nullable (write : α → Json) : Option α → Json
  | none => .null
  | some x => write x

/-- The members that are not left out. -/
def kept (entries : List (String × Option Json)) : List (String × Json) :=
  entries.filterMap fun (key, v) => v.map (key, ·)

end Write

section Read

def readString : Json → Option String
  | .str s => some s
  | _ => none

def readList (read : Json → Option α) : Json → Option (List α)
  | .arr vs => vs.mapM read
  | _ => none

def readNullable (read : Json → Option α) : Json → Option (Option α)
  | .null => some none
  | v => (read v).map some

/-- The members of a record with these names, none of which may come twice. -/
def fields (names : List String) : Json → Option (List (String × Json))
  | .obj members =>
    if ((members.map Prod.fst).filter (· ∈ names)).Nodup then some members else none
  | .arr elements => if elements.length = names.length then some (names.zip elements) else none
  | _ => none

def readRequired (members : List (String × Json)) (key : String) (read : Json → Option α) :
    Option α :=
  (members.lookup key).bind read

def readOptional (members : List (String × Json)) (key : String) (read : Json → Option α) :
    Option (Option α) :=
  match members.lookup key with
  | none => some none
  | some v => readNullable read v

end Read

section Values

theorem mapM_readString (xs : List String) : (xs.map Json.str).mapM readString = some xs := by
  induction xs with
  | nil => rfl
  | cons x xs ih => simp [readString, ih]

@[simp] theorem readList_strings (xs : List String) : readList readString (strings xs) = some xs :=
  mapM_readString xs

@[simp] theorem readNullable_null (read : Json → Option α) : readNullable read .null = some none :=
  rfl

@[simp] theorem readNullable_int (read : Json → Option α) (n : ℤ) :
    readNullable read (.int n) = (read (.int n)).map some := rfl

@[simp] theorem readNullable_str (read : Json → Option α) (s : String) :
    readNullable read (.str s) = (read (.str s)).map some := rfl

@[simp] theorem readNullable_arr (read : Json → Option α) (vs : List Json) :
    readNullable read (.arr vs) = (read (.arr vs)).map some := rfl

@[simp] theorem readNullable_strings (xs : List String) :
    readNullable (readList readString) (strings xs) = some (some xs) := by
  rw [strings, readNullable_arr, ← strings, readList_strings]
  rfl

theorem readableElements_iff {vs : List Json} {depth : ℕ} :
    ReadableElements vs depth ↔ ∀ v ∈ vs, v.Readable depth := by
  induction vs with
  | nil => simp [ReadableElements]
  | cons v vs ih => simp [ReadableElements, ih]

theorem readableMembers_iff {ms : List (String × Json)} {depth : ℕ} :
    ReadableMembers ms depth ↔ ∀ m ∈ ms, m.2.Readable depth := by
  induction ms with
  | nil => simp [ReadableMembers]
  | cons m ms ih => simp [ReadableMembers, ih]

theorem readable_strings (xs : List String) : (strings xs).Readable 1 := by
  refine ⟨le_refl 1, readableElements_iff.2 fun v hv => ?_⟩
  obtain ⟨x, -, rfl⟩ := List.mem_map.1 hv
  trivial

end Values

section Members

variable {entries : List (String × Option Json)}

theorem kept_cons (key : String) (v : Option Json) (entries : List (String × Option Json)) :
    kept ((key, v) :: entries) = v.toList.map (key, ·) ++ kept entries := by
  cases v <;> rfl

theorem mem_keys_of_kept {key : String} (h : key ∈ (kept entries).map Prod.fst) :
    key ∈ entries.map Prod.fst := by
  obtain ⟨m, hm, rfl⟩ := List.mem_map.1 h
  obtain ⟨⟨key', v⟩, hentry, hv⟩ := List.mem_filterMap.1 hm
  obtain ⟨v', -, rfl⟩ := Option.map_eq_some_iff.1 hv
  exact List.mem_map_of_mem hentry

theorem nodup_keys_kept (h : (entries.map Prod.fst).Nodup) :
    ((kept entries).map Prod.fst).Nodup := by
  induction entries with
  | nil => simp [kept]
  | cons entry entries ih =>
    obtain ⟨key, v⟩ := entry
    rw [List.map_cons, List.nodup_cons] at h
    rw [kept_cons]
    cases v with
    | none => exact ih h.2
    | some v => exact List.nodup_cons.2 ⟨fun hkey => h.1 (mem_keys_of_kept hkey), ih h.2⟩

theorem lookup_kept (h : (entries.map Prod.fst).Nodup) {n : ℕ} {key : String} {v : Option Json}
    (hn : entries[n]? = some (key, v)) : (kept entries).lookup key = v := by
  have hmem : (key, v) ∈ entries := List.mem_of_getElem? hn
  clear hn
  induction entries with
  | nil => cases hmem
  | cons entry entries ih =>
    obtain ⟨key', v'⟩ := entry
    rw [List.map_cons, List.nodup_cons] at h
    rw [kept_cons]
    rcases List.mem_cons.1 hmem with heq | htail
    · cases heq
      cases v with
      | none =>
        exact List.lookup_eq_none_iff.2 fun m hm => bne_iff_ne.2 fun heq =>
          h.1 (mem_keys_of_kept (heq ▸ List.mem_map_of_mem hm))
      | some v => simp
    · have hne : key ≠ key' := by
        rintro rfl
        exact h.1 (List.mem_map.2 ⟨_, htail, rfl⟩)
      cases v' with
      | none => exact ih h.2 htail
      | some v' =>
        rw [Option.toList_some, List.map_singleton, List.singleton_append, List.lookup_cons,
          beq_false_of_ne hne]
        exact ih h.2 htail

theorem fields_kept (names : List String) (h : (entries.map Prod.fst).Nodup) :
    fields names (.obj (kept entries)) = some (kept entries) :=
  if_pos ((nodup_keys_kept h).filter _)

theorem readRequired_kept (h : (entries.map Prod.fst).Nodup) (n : ℕ) {key : String} {v : Json}
    (hn : entries[n]? = some (key, some v)) (read : Json → Option α) :
    readRequired (kept entries) key read = read v := by
  rw [readRequired, lookup_kept h hn]
  rfl

/-- Null stands for what is not there, so nothing that is there may be written so. -/
theorem readOptional_map (h : (entries.map Prod.fst).Nodup) (n : ℕ) {key : String} {o : Option α}
    {write : α → Json} (hn : entries[n]? = some (key, o.map write)) {read : Json → Option α}
    (hread : ∀ x, readNullable read (write x) = some (some x)) :
    readOptional (kept entries) key read = some o := by
  rw [readOptional, lookup_kept h hn]
  cases o with
  | none => rfl
  | some x => exact hread x

theorem readOptional_nullable (h : (entries.map Prod.fst).Nodup) (n : ℕ) {key : String}
    {o : Option α} {write : α → Json} (hn : entries[n]? = some (key, some (nullable write o)))
    {read : Json → Option α} (hread : ∀ x, readNullable read (write x) = some (some x)) :
    readOptional (kept entries) key read = some o := by
  rw [readOptional, lookup_kept h hn]
  cases o with
  | none => rfl
  | some x => exact hread x

theorem readable_kept {depth : ℕ} (h : (entries.map Prod.fst).Nodup)
    (hvalues : ∀ entry ∈ entries, ∀ v ∈ entry.2, v.Readable depth) :
    (Json.obj (kept entries)).Readable (depth + 1) := by
  refine ⟨Nat.le_add_left 1 depth, nodup_keys_kept h, readableMembers_iff.2 fun m hm => ?_⟩
  obtain ⟨⟨key, v⟩, hentry, hv⟩ := List.mem_filterMap.1 hm
  obtain ⟨v', hv', rfl⟩ := Option.map_eq_some_iff.1 hv
  exact hvalues _ hentry v' hv'

end Members

end Json
