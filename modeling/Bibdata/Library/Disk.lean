import Mathlib.Logic.Function.Basic
import Mathlib.Tactic.Common

/-!
# Named files

A disk has inodes, which hold blocks, and names for some of them. A file that is open stays open
when its name goes. What is done to the file of one name leaves the files of the others as they
were.
-/

variable {ν β : Type*}

structure Disk (ν β : Type*) where
  inodes : List (List β)
  names : ν → Option ℕ
  named : ∀ a i, names a = some i → i < inodes.length
  unshared : ∀ a b i, names a = some i → names b = some i → a = b

namespace Disk

def file (d : Disk ν β) (a : ν) : Option (List β) := (d.names a).bind (d.inodes[·]?)

def read (d : Disk ν β) (i n : ℕ) : Option β := d.inodes[i]?.bind (·[n]?)

/-- A block put at a position, which may be beyond the end. -/
def writeAt (hole : β) (n : ℕ) (b : β) (xs : List β) : List β :=
  if n < xs.length then xs.set n b else xs ++ List.replicate (n - xs.length) hole ++ [b]

def write (hole : β) (d : Disk ν β) (i n : ℕ) (b : β) : Disk ν β where
  inodes := d.inodes.modify i (writeAt hole n b)
  names := d.names
  named a j h := by simpa using d.named a j h
  unshared := d.unshared

def truncate (d : Disk ν β) (i : ℕ) : Disk ν β where
  inodes := d.inodes.set i []
  names := d.names
  named a j h := by simpa using d.named a j h
  unshared := d.unshared

variable [DecidableEq ν]

def create (d : Disk ν β) (a : ν) : Disk ν β where
  inodes := d.inodes ++ [[]]
  names := Function.update d.names a (some d.inodes.length)
  named b i h := by
    rw [List.length_append, List.length_singleton]
    rcases eq_or_ne b a with rfl | hb
    · rw [Function.update_self] at h
      cases h
      omega
    · rw [Function.update_of_ne hb] at h
      have := d.named b i h
      omega
  unshared b c i hb hc := by
    rcases eq_or_ne b a with rfl | hba <;> rcases eq_or_ne c b with rfl | hcb
    · rfl
    · rw [Function.update_self] at hb
      rw [Function.update_of_ne hcb] at hc
      cases hb
      exact absurd (d.named c _ hc) (by omega)
    · rfl
    · rw [Function.update_of_ne hba] at hb
      rcases eq_or_ne c a with rfl | hca
      · rw [Function.update_self] at hc
        cases hc
        exact absurd (d.named b _ hb) (by omega)
      · rw [Function.update_of_ne hca] at hc
        exact d.unshared b c i hb hc

/-- Opens the file of that name for writing, from its start. -/
def openWrite (d : Disk ν β) (a : ν) : ℕ × Disk ν β :=
  match d.names a with
  | some i => (i, d.truncate i)
  | none => (d.inodes.length, d.create a)

def delete (d : Disk ν β) (a : ν) : Disk ν β where
  inodes := d.inodes
  names := Function.update d.names a none
  named b i h := by
    rcases eq_or_ne b a with rfl | hb
    · simp at h
    · rw [Function.update_of_ne hb] at h
      exact d.named b i h
  unshared b c i hb hc := by
    rcases eq_or_ne b a with rfl | hba
    · simp at hb
    · rcases eq_or_ne c a with rfl | hca
      · simp at hc
      · rw [Function.update_of_ne hba] at hb
        rw [Function.update_of_ne hca] at hc
        exact d.unshared b c i hb hc

section Rules

variable {d : Disk ν β} {a b : ν} {i n : ℕ} {x hole : β} {xs : List β}

omit [DecidableEq ν] in
theorem read_of_file (hi : d.names a = some i) (hf : d.file a = some xs) : d.read i n = xs[n]? := by
  rw [file, hi, Option.bind_some] at hf
  rw [read, hf, Option.bind_some]

theorem writeAt_length : writeAt hole xs.length x xs = xs ++ [x] := by
  simp [writeAt]

omit [DecidableEq ν] in
theorem file_write_self (hi : d.names a = some i) (hf : d.file a = some xs) :
    (d.write hole i n x).file a = some (writeAt hole n x xs) := by
  rw [file, hi, Option.bind_some] at hf
  simp [file, write, hi, hf]

omit [DecidableEq ν] in
theorem file_write_of_ne (hi : d.names a = some i) (hb : b ≠ a) :
    (d.write hole i n x).file b = d.file b := by
  rcases hj : d.names b with _ | j
  · simp [file, write, hj]
  · have hne : i ≠ j := fun h => hb (d.unshared b a j hj (h ▸ hi))
    simp [file, write, hj, List.getElem?_modify, hne]

theorem names_openWrite_self : (d.openWrite a).2.names a = some (d.openWrite a).1 := by
  rcases hi : d.names a with _ | i <;> simp [openWrite, hi, create, truncate]

theorem file_openWrite_self : (d.openWrite a).2.file a = some [] := by
  rcases hi : d.names a with _ | i
  · simp [openWrite, hi, create, file]
  · have := d.named a i hi
    simp [openWrite, hi, truncate, file, this]

theorem names_openWrite_of_ne (hb : b ≠ a) : (d.openWrite a).2.names b = d.names b := by
  rcases hi : d.names a with _ | i
  · simp [openWrite, hi, create, hb]
  · simp [openWrite, hi, truncate]

theorem file_openWrite_of_ne (hb : b ≠ a) : (d.openWrite a).2.file b = d.file b := by
  rcases hj : d.names b with _ | j
  · rw [file, names_openWrite_of_ne hb, hj, file, hj]
    rfl
  · have hlt := d.named b j hj
    rw [file, names_openWrite_of_ne hb, hj, file, hj]
    rcases hi : d.names a with _ | i
    · simp [openWrite, hi, create, List.getElem?_append_left hlt]
    · have hne : i ≠ j := fun h => hb (d.unshared b a j hj (h ▸ hi))
      simp [openWrite, hi, truncate, List.getElem?_set, hne]

theorem file_delete_of_ne (hb : b ≠ a) : (d.delete a).file b = d.file b := by
  simp [file, delete, hb]

end Rules

end Disk
