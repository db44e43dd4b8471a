import Mathlib.Data.List.Nodup
import Mathlib.Data.List.Perm.Lattice
import Mathlib.Tactic.Common

/-!
# Hashes that keep the order of insertion

A key is set in place where it is present and at the end where it is not. What an operation does
to the entries is said up to their order (`perm_set`): the one entry of the key is taken out and
the new one put in.
-/

/-- A hash: no key has two entries. -/
structure OrderedHash (κ β : Type*) where
  entries : List (κ × β) := []
  nodup : (entries.map Prod.fst).Nodup := by simp

namespace OrderedHash

variable {κ β ι : Type*} [DecidableEq κ]

def setEntry (k : κ) (v : β) : List (κ × β) → List (κ × β)
  | [] => [(k, v)]
  | e :: es => if e.1 = k then (k, v) :: es else e :: setEntry k v es

theorem mem_keys_setEntry (k : κ) (v : β) {k' : κ} : ∀ es : List (κ × β),
    k' ∈ (setEntry k v es).map Prod.fst ↔ k' = k ∨ k' ∈ es.map Prod.fst
  | [] => by simp [setEntry]
  | e :: es => by
    unfold setEntry
    split_ifs with he
    · simp [he]
    · rw [List.map_cons, List.mem_cons, mem_keys_setEntry k v es, List.map_cons, List.mem_cons]
      exact or_left_comm

theorem nodup_setEntry (k : κ) (v : β) : ∀ {es : List (κ × β)}, (es.map Prod.fst).Nodup →
    ((setEntry k v es).map Prod.fst).Nodup
  | [], _ => List.nodup_singleton k
  | e :: es, h => by
    rw [List.map_cons, List.nodup_cons] at h
    unfold setEntry
    split_ifs with he
    · rw [List.map_cons, List.nodup_cons, ← he]
      exact h
    · rw [List.map_cons, List.nodup_cons, mem_keys_setEntry]
      exact ⟨fun hk => hk.elim he h.1, nodup_setEntry k v h.2⟩

def set (h : OrderedHash κ β) (k : κ) (v : β) : OrderedHash κ β where
  entries := setEntry k v h.entries
  nodup := nodup_setEntry k v h.nodup

def get (h : OrderedHash κ β) (k : κ) : Option β :=
  (h.entries.find? (·.1 = k)).map Prod.snd

variable {h : OrderedHash κ β} {k k' : κ} {v : β}

theorem get_eq_some : h.get k = some v ↔ (k, v) ∈ h.entries := by
  unfold get
  rw [Option.map_eq_some_iff]
  refine ⟨?_, fun hmem => ?_⟩
  · rintro ⟨⟨k', v'⟩, hfind, rfl⟩
    obtain rfl : k' = k := by simpa using List.find?_some hfind
    exact List.mem_of_find?_eq_some hfind
  · obtain ⟨⟨k', v'⟩, hfind⟩ := Option.isSome_iff_exists.1
      (List.find?_isSome.2 ⟨(k, v), hmem, by simp⟩ : (h.entries.find? (·.1 = k)).isSome)
    have hk : k' = k := by simpa using List.find?_some hfind
    refine ⟨_, hfind, ?_⟩
    -- one key has one entry
    have heq := List.inj_on_of_nodup_map h.nodup (List.mem_of_find?_eq_some hfind) hmem hk
    exact (Prod.mk.inj heq).2

theorem get_eq_none : h.get k = none ↔ k ∉ h.entries.map Prod.fst := by
  rw [Option.eq_none_iff_forall_ne_some]
  simp [get_eq_some]

theorem mem_setEntry {e : κ × β} : ∀ {es : List (κ × β)}, (es.map Prod.fst).Nodup →
    (e ∈ setEntry k v es ↔ e = (k, v) ∨ e ∈ es ∧ e.1 ≠ k)
  | [], _ => by simp [setEntry]
  | a :: es, hes => by
    rw [List.map_cons, List.nodup_cons] at hes
    unfold setEntry
    split_ifs with ha
    · rw [List.mem_cons, List.mem_cons]
      refine or_congr_right ⟨fun he => ⟨.inr he, ?_⟩, ?_⟩
      · rintro rfl
        exact hes.1 (ha ▸ List.mem_map_of_mem he)
      · rintro ⟨rfl | he, hne⟩
        · exact absurd ha hne
        · exact he
    · rw [List.mem_cons, List.mem_cons, mem_setEntry hes.2]
      constructor
      · rintro (rfl | rfl | he)
        · exact .inr ⟨.inl rfl, ha⟩
        · exact .inl rfl
        · exact .inr ⟨.inr he.1, he.2⟩
      · rintro (rfl | ⟨rfl | he, hne⟩)
        · exact .inr (.inl rfl)
        · exact .inl rfl
        · exact .inr (.inr ⟨he, hne⟩)

theorem mem_set {e : κ × β} : e ∈ (h.set k v).entries ↔ e = (k, v) ∨ e ∈ h.entries ∧ e.1 ≠ k :=
  mem_setEntry h.nodup

theorem get_set : (h.set k v).get k' = if k' = k then some v else h.get k' := by
  split_ifs with hk
  · rw [get_eq_some, mem_set, hk]
    exact .inl rfl
  · refine Option.ext fun w => ?_
    rw [get_eq_some, get_eq_some, mem_set]
    simp [hk]

theorem perm_set : (h.set k v).entries.Perm ((k, v) :: h.entries.filter (·.1 ≠ k)) := by
  have hdup : ∀ {es : List (κ × β)}, (es.map Prod.fst).Nodup → es.Nodup :=
    fun hes => hes.of_map Prod.fst
  refine (List.perm_ext_iff_of_nodup (hdup (h.set k v).nodup) ?_).2 fun e => ?_
  · exact List.nodup_cons.2 ⟨by simp, (hdup h.nodup).filter _⟩
  · rw [mem_set, List.mem_cons, List.mem_filter]
    simp

theorem perm_of_get (hk : h.get k = some v) :
    h.entries.Perm ((k, v) :: h.entries.filter (·.1 ≠ k)) := by
  have hdup : h.entries.Nodup := h.nodup.of_map Prod.fst
  refine (List.perm_ext_iff_of_nodup hdup ?_).2 fun e => ?_
  · exact List.nodup_cons.2 ⟨by simp, hdup.filter _⟩
  · rw [List.mem_cons, List.mem_filter]
    refine ⟨fun he => ?_, ?_⟩
    · by_cases hek : e.1 = k
      · exact .inl (List.inj_on_of_nodup_map h.nodup he (get_eq_some.1 hk) hek)
      · exact .inr ⟨he, by simpa using hek⟩
    · rintro (rfl | he)
      · exact get_eq_some.1 hk
      · exact he.1

theorem filter_of_get_none (hk : h.get k = none) : h.entries.filter (·.1 ≠ k) = h.entries := by
  rw [List.filter_eq_self]
  intro e he
  rw [get_eq_none] at hk
  have hne : e.1 ≠ k := fun hek => hk (hek ▸ List.mem_map_of_mem he)
  simpa using hne

theorem entries_eq_nil : h.entries = [] ↔ ∀ k, h.get k = none := by
  simp only [get_eq_none]
  constructor
  · intro hnil k
    simp [hnil]
  · intro hnone
    rw [List.eq_nil_iff_forall_not_mem]
    exact fun e he => hnone e.1 (List.mem_map_of_mem he)

def erase (h : OrderedHash κ β) (k : κ) : OrderedHash κ β where
  entries := h.entries.filter (·.1 ≠ k)
  nodup := (List.filter_sublist.map _).nodup h.nodup

theorem get_erase_of_ne (hk : k' ≠ k) : (h.erase k).get k' = h.get k' := by
  refine Option.ext fun w => ?_
  rw [get_eq_some, get_eq_some, erase, List.mem_filter]
  simp [hk]

def mapValues {γ : Type*} (f : β → γ) (h : OrderedHash κ β) : OrderedHash κ γ where
  entries := h.entries.map (Prod.map id f)
  nodup := by
    rw [List.map_map]
    exact h.nodup

theorem get_mapValues {γ : Type*} {f : β → γ} : (h.mapValues f).get k = (h.get k).map f := by
  refine Option.ext fun w => ?_
  rw [get_eq_some, Option.map_eq_some_iff]
  simp [mapValues, get_eq_some]

/-- The values that something becomes of. -/
def filterMapValues {γ : Type*} (f : β → Option γ) (h : OrderedHash κ β) : OrderedHash κ γ where
  entries := h.entries.filterMap fun e => (f e.2).map fun w => (e.1, w)
  nodup := by
    have hkeys : ∀ es : List (κ × β),
        ((es.filterMap fun e => (f e.2).map fun w => (e.1, w)).map Prod.fst).Sublist
          (es.map Prod.fst) := by
      intro es
      induction es with
      | nil => exact List.Sublist.slnil
      | cons e es ih =>
        rcases hf : f e.2 with _ | w
        · simpa [hf] using ih.cons e.1
        · simpa [hf] using ih.cons_cons e.1
    exact (hkeys h.entries).nodup h.nodup

omit [DecidableEq κ] in
theorem mem_filterMapValues {γ : Type*} {f : β → Option γ} {w : γ} :
    (k, w) ∈ (h.filterMapValues f).entries ↔ ∃ v, (k, v) ∈ h.entries ∧ f v = some w := by
  simp only [filterMapValues, List.mem_filterMap, Option.map_eq_some_iff, Prod.mk.injEq]
  constructor
  · rintro ⟨⟨k', v⟩, he, w', hw, rfl, rfl⟩
    exact ⟨v, he, hw⟩
  · rintro ⟨v, he, hw⟩
    exact ⟨(k, v), he, w, hw, rfl, rfl⟩

theorem get_filterMapValues {γ : Type*} {f : β → Option γ} :
    (h.filterMapValues f).get k = (h.get k).bind f := by
  refine Option.ext fun w => ?_
  rw [get_eq_some, mem_filterMapValues, Option.bind_eq_some_iff]
  simp only [get_eq_some]

omit [DecidableEq κ] in
theorem filterMapValues_filterMapValues {f : β → Option β} (hf : ∀ v w, f v = some w → f w = some w)
    (h : OrderedHash κ β) : (h.filterMapValues f).filterMapValues f = h.filterMapValues f := by
  simp only [filterMapValues, OrderedHash.mk.injEq, List.filterMap_filterMap]
  refine List.filterMap_congr fun e _ => ?_
  rcases hv : f e.2 with _ | w
  · rfl
  · simp [hf _ _ hv]

/-- The same entries in some order. -/
def Reordered (h h' : OrderedHash κ β) : Prop := h.entries.Perm h'.entries

theorem reordered_iff {h h' : OrderedHash κ β} : h.Reordered h' ↔ ∀ k, h.get k = h'.get k := by
  refine ⟨fun hperm k => Option.ext fun v => ?_, fun hget => ?_⟩
  · rw [get_eq_some, get_eq_some, List.Perm.mem_iff hperm]
  · refine (List.perm_ext_iff_of_nodup (h.nodup.of_map _) (h'.nodup.of_map _)).2 fun e => ?_
    rw [← get_eq_some, ← get_eq_some, hget]

/-- The entries in another order. -/
def reorder (h : OrderedHash κ β) {es : List (κ × β)} (hperm : es.Perm h.entries) :
    OrderedHash κ β where
  entries := es
  nodup := (hperm.map Prod.fst).nodup_iff.2 h.nodup

/-! ### Setting many entries -/

section SetAll

def setAll (h : OrderedHash κ β) (es : List (κ × β)) : OrderedHash κ β :=
  es.foldl (fun h e => h.set e.1 e.2) h

def ofList (es : List (κ × β)) : OrderedHash κ β := setAll {} es

theorem find_of_nodup {α : Type*} {f : α → κ} {xs : List α} {x : α}
    (hxs : (xs.map f).Nodup) (hx : x ∈ xs) : xs.find? (f · = f x) = some x := by
  cases hfind : xs.find? (f · = f x) with
  | none =>
    have hnone := List.find?_eq_none.1 hfind x hx
    simp at hnone
  | some y =>
    have hsame : f y = f x := by simpa using List.find?_some hfind
    rw [List.inj_on_of_nodup_map hxs (List.mem_of_find?_eq_some hfind) hx hsame]

/-- The value of the last of these entries that has the key. -/
def lastSet (es : List (κ × β)) (k : κ) : Option β :=
  (es.filter (·.1 = k)).getLast?.map Prod.snd

variable {es fs : List (κ × β)} {e : κ × β}

theorem lastSet_append : lastSet (es ++ fs) k = (lastSet fs k).or (lastSet es k) := by
  unfold lastSet
  rw [List.filter_append, List.getLast?_append]
  cases (fs.filter (·.1 = k)).getLast? <;> simp

theorem lastSet_cons : lastSet (e :: es) k
    = (lastSet es k).or (if e.1 = k then some e.2 else none) := by
  have h : lastSet ([e] ++ es) k = (lastSet es k).or (lastSet [e] k) := lastSet_append
  rw [List.singleton_append] at h
  rw [h]
  by_cases hk : e.1 = k
  · simp [lastSet, hk]
  · simp [lastSet, hk]

theorem mem_of_lastSet (h : lastSet es k = some v) : (k, v) ∈ es := by
  obtain ⟨e, he, rfl⟩ := Option.map_eq_some_iff.1 h
  have hmem := List.mem_filter.1 (List.mem_of_getLast? he)
  have hk : e.1 = k := by simpa using hmem.2
  exact hk ▸ hmem.1

theorem lastSet_eq_none : lastSet es k = none ↔ ∀ e ∈ es, e.1 ≠ k := by
  simp [lastSet]

theorem lastSet_of_nodup (hes : (es.map Prod.fst).Nodup) (h : (k, v) ∈ es) :
    lastSet es k = some v := by
  cases hlast : lastSet es k with
  | none => exact absurd rfl (lastSet_eq_none.1 hlast (k, v) h)
  | some w =>
    have hsame := List.inj_on_of_nodup_map hes (mem_of_lastSet hlast) h rfl
    rw [(Prod.mk.inj hsame).2]

theorem lastSet_map {γ : Type*} {f : β → γ} :
    lastSet (es.map (Prod.map id f)) k = (lastSet es k).map f := by
  induction es with
  | nil => rfl
  | cons e es ih =>
    rw [List.map_cons, lastSet_cons, ih, lastSet_cons]
    by_cases hk : e.1 = k
    · cases lastSet es k <;> simp [hk]
    · simp [hk]

theorem get_setAll : (h.setAll es).get k = (lastSet es k).or (h.get k) := by
  unfold setAll
  induction es generalizing h with
  | nil => simp [lastSet]
  | cons e es ih =>
    rw [List.foldl_cons, ih, get_set, lastSet_cons, Option.or_assoc]
    by_cases hk : k = e.1
    · simp [hk]
    · simp [hk, Ne.symm hk]

theorem lastSet_entries : lastSet h.entries k = h.get k := by
  cases hv : lastSet h.entries k with
  | none =>
    refine (get_eq_none.2 fun hk => ?_).symm
    obtain ⟨e, he, rfl⟩ := List.mem_map.1 hk
    exact lastSet_eq_none.1 hv e he rfl
  | some v => exact (get_eq_some.2 (mem_of_lastSet hv)).symm

end SetAll

/-! ### Groups of the things with one key -/

section GroupBy

variable (f : ι → κ)

/-- One more thing in its group. -/
def push (h : OrderedHash κ (List ι)) (x : ι) : OrderedHash κ (List ι) :=
  h.set (f x) ((h.get (f x)).getD [] ++ [x])

def groupBy (xs : List ι) : OrderedHash κ (List ι) := xs.foldl (push f) {}

variable {f} {xs : List ι}

theorem get_foldl_push (h : OrderedHash κ (List ι)) :
    (xs.foldl (push f) h).get k =
      if xs.filter (f · = k) = [] then h.get k
      else some ((h.get k).getD [] ++ xs.filter (f · = k)) := by
  induction xs generalizing h with
  | nil => rfl
  | cons x xs ih =>
    rw [List.foldl_cons, ih, push, get_set]
    by_cases hk : k = f x
    · subst hk
      by_cases hrest : xs.filter (f · = f x) = []
      · simp [hrest]
      · simp [hrest]
    · rw [if_neg hk, List.filter_cons_of_neg (by simpa using Ne.symm hk)]

theorem get_groupBy : (groupBy f xs).get k =
    if xs.filter (f · = k) = [] then none else some (xs.filter (f · = k)) := by
  rw [groupBy, get_foldl_push]
  rfl

theorem mem_groupBy {group : List ι} : (k, group) ∈ (groupBy f xs).entries ↔
    group ≠ [] ∧ xs.filter (f · = k) = group := by
  rw [← get_eq_some, get_groupBy]
  split_ifs with hnil
  · rw [hnil]
    exact iff_of_false (by simp) fun h => h.1 h.2.symm
  · rw [Option.some_inj]
    exact ⟨fun h => ⟨h ▸ hnil, h⟩, fun h => h.2⟩

end GroupBy

/-! ### What the values list, under their keys -/

section Listed

variable (items : β → List ι)

/-- What all the values list, each with the key of its value. -/
def listed (h : OrderedHash κ β) : List (κ × ι) :=
  h.entries.flatMap fun e => (items e.2).map (e.1, ·)

variable {items}

theorem filter_flatMap_key (k : κ) : ∀ es : List (κ × β),
    (es.flatMap fun e => (items e.2).map (e.1, ·)).filter (·.1 ≠ k)
      = (es.filter (·.1 ≠ k)).flatMap fun e => (items e.2).map (e.1, ·)
  | [] => rfl
  | e :: es => by
    rw [List.flatMap_cons, List.filter_append, filter_flatMap_key k es, List.filter_cons]
    by_cases hk : e.1 = k
    · simp [hk]
    · simp [hk]

theorem listed_set : (h.set k v).listed items |>.Perm
    ((items v).map (k, ·) ++ (h.listed items).filter (·.1 ≠ k)) := by
  unfold listed
  rw [filter_flatMap_key]
  exact perm_set.flatMap_right _

theorem listed_of_get (hk : h.get k = some v) : (h.listed items).Perm
    ((items v).map (k, ·) ++ (h.listed items).filter (·.1 ≠ k)) := by
  unfold listed
  rw [filter_flatMap_key]
  exact (perm_of_get hk).flatMap_right _

theorem listed_of_get_none (hk : h.get k = none) :
    (h.listed items).filter (·.1 ≠ k) = h.listed items := by
  unfold listed
  rw [filter_flatMap_key, filter_of_get_none hk]

theorem mem_listed {e : κ × ι} : e ∈ h.listed items ↔ ∃ v, h.get e.1 = some v ∧ e.2 ∈ items v := by
  unfold listed
  rw [List.mem_flatMap]
  constructor
  · rintro ⟨⟨k, v⟩, he, hi⟩
    obtain ⟨x, hx, rfl⟩ := List.mem_map.1 hi
    exact ⟨v, get_eq_some.2 he, hx⟩
  · rintro ⟨v, hv, hx⟩
    exact ⟨_, get_eq_some.1 hv, List.mem_map.2 ⟨e.2, hx, rfl⟩⟩

end Listed

end OrderedHash
