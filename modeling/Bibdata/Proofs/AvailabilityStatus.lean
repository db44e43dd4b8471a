import Bibdata.AvailabilityStatus

/-!
# Labels for all items of a holding

A holding has the status of its last item under a label that is chosen by all of them
(`get_bibAvailabilityFromItems`). The label says how many items are available if each item has one
of the two codes; an item without a code counts neither way (`statusLaw_iff`).
-/

namespace Bibdata

open AlmaItem

namespace AlmaItem

variable {item : AlmaItem}

/-- Not in process, not requested and not in place. -/
def HasNoCode (item : AlmaItem) : Prop :=
  item.processTypeValue = "" ∧ item.requested = false ∧ item.baseStatusValue ≠ some "1"

def Available (item : AlmaItem) : Prop := item.calculateStatus.code = some "Available"

def Unavailable (item : AlmaItem) : Prop := item.calculateStatus.code = some "Unavailable"

instance (item : AlmaItem) : Decidable item.Available :=
  inferInstanceAs (Decidable (item.calculateStatus.code = some "Available"))

instance (item : AlmaItem) : Decidable item.Unavailable :=
  inferInstanceAs (Decidable (item.calculateStatus.code = some "Unavailable"))

theorem calculateStatus_code (item : AlmaItem) :
    item.calculateStatus.code =
      if item.processTypeValue ≠ "" ∨ item.requested then some "Unavailable"
      else if item.baseStatusValue = some "1" then some "Available"
      else none := by
  unfold calculateStatus
  by_cases hprocess : item.processTypeValue = ""
  · rw [if_neg (not_not.2 hprocess), if_pos hprocess, noProcessTypeCalculateStatus]
    by_cases hrequested : item.requested = true
    · simp [hrequested]
    · by_cases hbase : item.baseStatusValue = some "1"
      · simp [hprocess, hrequested, hbase]
      · simp [hprocess, hrequested, hbase]
  · rw [if_pos hprocess, if_pos (.inl hprocess)]
    rfl

theorem available_or_unavailable_iff :
    item.Available ∨ item.Unavailable ↔ ¬item.HasNoCode := by
  unfold Available Unavailable HasNoCode
  rw [calculateStatus_code]
  split_ifs with hcode hbase
  · refine iff_of_true (.inr rfl) fun h => ?_
    rcases hcode with hprocess | hrequested
    · exact hprocess h.1
    · rw [h.2.1] at hrequested
      cases hrequested
  · exact iff_of_true (.inl rfl) fun h => h.2.2 hbase
  · simp only [not_or, not_not, Bool.not_eq_true] at hcode
    simp [hcode, hbase]

theorem Unavailable.not_available (h : item.Unavailable) : ¬item.Available := by
  intro h'
  have heq := h.symm.trans h'
  simp at heq

end AlmaItem

variable (tables : LocationTables) (changeStatus : Bool)

section Tally

variable {tables} {changeStatus} {tally : Tally} {holdingId : Option String}

/-- A flag that one item leaves set is left set by all of them. -/
theorem foldl_withItem_and (flag : Tally → Bool) {leaves : AlmaItem → Bool}
    (hstep : ∀ tally item, flag (Tally.withItem tables holdingId tally item)
      = (flag tally && leaves item)) (items : List AlmaItem) :
    flag (items.foldl (Tally.withItem tables holdingId) tally)
      = (flag tally && items.all leaves) := by
  induction items generalizing tally with
  | nil => simp
  | cons item items ih => rw [List.foldl_cons, ih, hstep, List.all_cons, Bool.and_assoc]

theorem foldl_withItem_allAvailable (items : List AlmaItem) :
    (items.foldl (Tally.withItem tables holdingId) tally).allAvailable =
      (tally.allAvailable && items.all (decide ·.Available)) :=
  foldl_withItem_and Tally.allAvailable (fun _ _ => rfl) items

theorem foldl_withItem_noneAvailable (items : List AlmaItem) :
    (items.foldl (Tally.withItem tables holdingId) tally).noneAvailable =
      (tally.noneAvailable && items.all (decide ·.Unavailable)) :=
  foldl_withItem_and Tally.noneAvailable (fun _ _ => rfl) items

theorem get_foldl_withItem (items : List AlmaItem) (k : Option String) :
    (items.foldl (Tally.withItem tables holdingId) tally).availability.get k =
      if k = holdingId then (items.getLast?.map (holdingStatusFromItem tables)).or
        (tally.availability.get k)
      else tally.availability.get k := by
  induction items using List.reverseRecOn with
  | nil => simp
  | append_singleton items item ih =>
    rw [List.foldl_append, List.foldl_cons, List.foldl_nil, Tally.withItem,
      OrderedHash.get_set, ih, List.getLast?_append]
    split_ifs <;> simp

end Tally

/-- The label that all items of a holding give it. -/
def holdingLabel (items : List AlmaItem) : String :=
  if ∀ item ∈ items, item.Available then "Available"
  else if ∀ item ∈ items, item.Unavailable then "Unavailable"
  else someAvailable changeStatus

/-- The status of the last item under that label. -/
def holdingStatus (items : List AlmaItem) (last : AlmaItem) : HoldingStatus :=
  { holdingStatusFromItem tables last with statusLabel := some (holdingLabel changeStatus items) }

theorem holdingAvailability_foldl (availability : Availability) (holdingId : Option String)
    (items : List AlmaItem) :
    (items.foldl (Tally.withItem tables holdingId) { availability }).holdingAvailability
      changeStatus = holdingLabel changeStatus items := by
  rw [Tally.holdingAvailability, foldl_withItem_allAvailable, foldl_withItem_noneAvailable,
    holdingLabel]
  simp only [Bool.true_and, List.all_eq_true, decide_eq_true_eq]

theorem get_withHolding (availability : Availability) (k holdingId : Option String)
    (items : List AlmaItem) :
    (withHolding tables changeStatus availability (holdingId, items)).get k =
      if k = holdingId then
        (items.getLast?.map (holdingStatus tables changeStatus items)).or (availability.get k)
      else availability.get k := by
  cases hlast : items.getLast? with
  | none =>
    rw [List.getLast?_eq_none_iff] at hlast
    simp [withHolding, hlast]
  | some last =>
    have hne : items.isEmpty = false := by
      cases items with
      | nil => cases hlast
      | cons item items => rfl
    have hget (k : Option String) :
        (items.foldl (Tally.withItem tables holdingId) { availability }).availability.get k = _ :=
      get_foldl_withItem items k
    rw [withHolding, hne, if_neg Bool.false_ne_true]
    simp only [hget holdingId, hlast, if_true, Option.map_some, Option.some_or,
      OrderedHash.get_set, holdingAvailability_foldl]
    split_ifs with hk
    · rfl
    · rw [hget k, if_neg hk]

section Holdings

variable {tables} {changeStatus}

theorem get_foldl_withHolding_of_notMem {k : Option String} :
    ∀ {entries : List (Option String × List AlmaItem)} {availability : Availability},
      k ∉ entries.map Prod.fst →
      (entries.foldl (withHolding tables changeStatus) availability).get k = availability.get k
  | [], _, _ => rfl
  | (holdingId, items) :: entries, availability, hk => by
    rw [List.map_cons, List.mem_cons, not_or] at hk
    rw [List.foldl_cons, get_foldl_withHolding_of_notMem hk.2, get_withHolding, if_neg hk.1]

theorem get_foldl_withHolding {k : Option String} {items : List AlmaItem} {last : AlmaItem}
    (hlast : items.getLast? = some last) :
    ∀ {entries : List (Option String × List AlmaItem)} {availability : Availability},
      (entries.map Prod.fst).Nodup → (k, items) ∈ entries →
      (entries.foldl (withHolding tables changeStatus) availability).get k =
        some (holdingStatus tables changeStatus items last)
  | entry :: entries, availability, hnodup, hmem => by
    rw [List.map_cons, List.nodup_cons] at hnodup
    rw [List.foldl_cons]
    rcases List.mem_cons.1 hmem with rfl | htail
    · rw [get_foldl_withHolding_of_notMem hnodup.1, get_withHolding, if_pos rfl, hlast]
      rfl
    · exact get_foldl_withHolding hlast hnodup.2 htail

end Holdings

/-- The items of the holding that an item is in. -/
def itemsOfHolding (items : List AlmaItem) (holdingId : Option String) : List AlmaItem :=
  items.filter (·.holdingId = holdingId)

theorem get_bibAvailabilityFromItems {items : List AlmaItem} {item : AlmaItem}
    (hitem : item ∈ items) :
    ∃ last ∈ itemsOfHolding items item.holdingId,
      (bibAvailabilityFromItems tables changeStatus items).get item.holdingId =
        some (holdingStatus tables changeStatus (itemsOfHolding items item.holdingId) last) := by
  have hmem : item ∈ itemsOfHolding items item.holdingId :=
    List.mem_filter.2 ⟨hitem, by simp⟩
  have hne : itemsOfHolding items item.holdingId ≠ [] := List.ne_nil_of_mem hmem
  have hlast := List.getLast?_eq_some_getLast hne
  refine ⟨_, List.getLast_mem hne, get_foldl_withHolding hlast (OrderedHash.nodup _) ?_⟩
  exact OrderedHash.mem_groupBy.2 ⟨hne, rfl⟩

/-- What the label of a holding says of how many of its items are available. -/
def LabelLaw (items : List AlmaItem) (label : Option String) : Prop :=
  (label = some "Available" ↔ ∀ item ∈ items, item.Available)
    ∧ (label = some "Unavailable" ↔ ∀ item ∈ items, ¬item.Available)
    ∧ ((∃ item ∈ items, item.Available) → (∃ item ∈ items, ¬item.Available) →
      label = some (someAvailable changeStatus))

structure StatusLaw (items : List AlmaItem) : Prop where
  code : ∀ item ∈ items, item.Available ∨ item.Unavailable
  label : ∀ item ∈ items, ∃ status,
    (bibAvailabilityFromItems tables changeStatus items).get item.holdingId = some status
      ∧ LabelLaw changeStatus (itemsOfHolding items item.holdingId) status.statusLabel

theorem someAvailable_ne : someAvailable changeStatus ≠ "Available"
    ∧ someAvailable changeStatus ≠ "Unavailable" := by
  cases changeStatus <;> decide

theorem labelLaw_holdingLabel {items : List AlmaItem} (hne : items ≠ [])
    (hcode : ∀ item ∈ items, item.Available ∨ item.Unavailable) :
    LabelLaw changeStatus items (some (holdingLabel changeStatus items)) := by
  obtain ⟨item, hitem⟩ := List.exists_mem_of_ne_nil items hne
  have hnot : (∀ item ∈ items, item.Unavailable) ↔ ∀ item ∈ items, ¬item.Available :=
    forall₂_congr fun item hitem => ⟨fun h => h.not_available, (hcode item hitem).resolve_left⟩
  have hpart := someAvailable_ne changeStatus
  unfold holdingLabel LabelLaw
  by_cases hall : ∀ item ∈ items, item.Available
  · have hsome : ¬∀ item ∈ items, ¬item.Available := fun h => h item hitem (hall item hitem)
    rw [if_pos hall]
    refine ⟨iff_of_true rfl hall, iff_of_false (by simp) hsome, ?_⟩
    rintro - ⟨other, hother, hno⟩
    exact absurd (hall other hother) hno
  · rw [if_neg hall]
    by_cases hnone : ∀ item ∈ items, item.Unavailable
    · rw [if_pos hnone]
      refine ⟨iff_of_false (by simp) hall, iff_of_true rfl (hnot.1 hnone), ?_⟩
      rintro ⟨other, hother, hyes⟩ -
      exact absurd hyes (hnot.1 hnone other hother)
    · rw [if_neg hnone]
      refine ⟨iff_of_false ?_ hall, iff_of_false ?_ fun h => hnone (hnot.2 h), fun _ _ => rfl⟩
      · simpa using hpart.1
      · simpa using hpart.2

/-- The law holds of items none of which is without a code. -/
theorem statusLaw_iff (items : List AlmaItem) :
    StatusLaw tables changeStatus items ↔ ∀ item ∈ items, ¬item.HasNoCode := by
  refine ⟨fun h item hitem => available_or_unavailable_iff.1 (h.code item hitem), fun h => ?_⟩
  have hcode : ∀ item ∈ items, item.Available ∨ item.Unavailable := fun item hitem =>
    available_or_unavailable_iff.2 (h item hitem)
  refine ⟨hcode, fun item hitem => ?_⟩
  obtain ⟨last, hlast, hget⟩ := get_bibAvailabilityFromItems tables changeStatus hitem
  refine ⟨_, hget, labelLaw_holdingLabel changeStatus (List.ne_nil_of_mem hlast) ?_⟩
  exact fun other hother => hcode other (List.mem_of_mem_filter hother)

/-- An item that is not in place, for no reason that Alma gives. -/
def notInPlace : AlmaItem where
  holdingId := some "22194161030006421"
  processTypeValue := ""
  baseStatusValue := some "0"
  baseStatusDesc := some "Item not in place"
  requested := false

theorem not_statusLaw_notInPlace :
    ¬StatusLaw ⟨fun _ _ => false, fun _ => none⟩ false [notInPlace] := by
  intro h
  have hcode := h.code notInPlace List.mem_cons_self
  exact available_or_unavailable_iff.1 hcode ⟨rfl, rfl, by decide⟩

end Bibdata
