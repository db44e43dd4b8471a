import Bibdata.Proofs.ItemsOnce

/-!
# The temporary places of items

An item elsewhere than its `852` is looked up by the code of that place: a key of the holdings or,
at `RES_SHARE$IN_RS_REQ`, the `temp_location_code` of the permanent holding. That code is put
there by the first item of the holding only (`hasCounterpart_iff`).
-/

namespace Bibdata

open Shelf

variable {labels : HoldingLocations} {r : Record} {f852 f876 : Field} {key : String}

/-- The code of each item that is elsewhere than its `852` is a key, or the temporary code of a
holding with the item. -/
def HasCounterpart (labels : HoldingLocations) (r : Record) : Prop :=
  ∀ (α : Type) (build : Field → α), ∃ h, processHoldings labels build r = some h
    ∧ ∀ f852 ∈ fields852Alma r, ∀ f876 ∈ itemsBy852 r f852, ∀ code,
        currentLocationCode f876 = some code → almaPermanentLocationCode f852 ≠ some code →
          (h.get (some code)).isSome
            ∨ ∃ k hd, h.get k = some hd ∧ build f876 ∈ hd.items ∧ hd.tempLocationCode = some code

/-- The items as they are taken, each with its `852`. -/
def takenItems (r : Record) : List (Field × Field) :=
  (fields852Alma r).flatMap fun f852 => (orderedItems r f852).map (f852, ·)

def firstAt (r : Record) (key : String) : Option (Field × Field) :=
  (takenItems r).find? fun e => place r e.1 e.2 = some key

/-- Where an `852` has an item at `RES_SHARE$IN_RS_REQ`, the first item of its holding is such an
item too. -/
def SharedFirst (r : Record) : Prop :=
  ∀ f852 ∈ fields852Alma r, ∀ f876 ∈ itemsBy852 r f852,
    currentLocationCode f876 = some resShare → almaPermanentLocationCode f852 ≠ some resShare →
      ∀ id ∈ holdingId r f852, ∃ e ∈ firstAt r id, currentLocationCode e.2 = some resShare
        ∧ almaPermanentLocationCode e.1 ≠ some resShare

instance (r : Record) : Decidable (SharedFirst r) :=
  inferInstanceAs (Decidable (∀ f852 ∈ fields852Alma r, ∀ f876 ∈ itemsBy852 r f852,
    _ → _ → ∀ id ∈ holdingId r f852, ∃ e ∈ firstAt r id, _))

theorem firstFiled_fileOps (f852 : Field) : ∀ items : List Field,
    firstFiled key (items.filterMap (fileOp r f852))
      = ((items.map (f852, ·)).find? fun e => place r e.1 e.2 = some key).map
          fun e => ((e.1, some e.2) : Heading)
  | [] => rfl
  | i :: items => by
    rw [List.filterMap_cons, List.map_cons, List.find?_cons]
    rcases hplace : place r f852 i with _ | k
    · simpa [fileOp, hplace] using firstFiled_fileOps f852 items
    · simp only [fileOp, hplace, Option.map_some, firstFiled, Option.some.injEq]
      by_cases hk : k = key
      · simp [hk]
      · simpa [hk] using firstFiled_fileOps f852 items

theorem firstFiled_filings : firstFiled key (filings labels r)
    = (firstAt r key).map fun e => ((e.1, some e.2) : Heading) := by
  unfold filings firstAt takenItems
  induction fields852Alma r with
  | nil => rfl
  | cons f852 fs ih =>
    rw [List.flatMap_cons, List.flatMap_cons, firstFiled_append, List.find?_append, ih]
    have hfirst : firstFiled key (filingsOf labels r f852)
        = (((orderedItems r f852).map (f852, ·)).find? fun e => place r e.1 e.2 = some key).map
            fun e => ((e.1, some e.2) : Heading) := by
      by_cases hitems : itemsBy852 r f852 = []
      · have hnil : orderedItems r f852 = [] :=
          List.perm_nil.1 (hitems ▸ perm_orderedItems r f852)
        unfold filingsOf
        rw [if_neg (not_not.2 hitems), hnil]
        split_ifs
        · rfl
        · cases holdingId r f852 <;> rfl
      · rw [filingsOf, if_pos hitems]
        exact firstFiled_fileOps f852 _
    rw [hfirst]
    cases ((orderedItems r f852).map (f852, ·)).find? fun e => place r e.1 e.2 = some key <;> rfl

/-- The key of an `852` with items is not taken by an `852` without. -/
theorem not_reopened (hi : f876 ∈ itemsBy852 r f852) (hid : holdingId r f852 = some key) :
    (filings labels r).any (Op.reopens key) = false := by
  rw [← Bool.not_eq_true, filings, reopens_iff]
  rintro ⟨g, -, hg, -, hgid⟩
  have : f876 ∈ itemsBy852 r g :=
    mem_itemsBy852.2 ⟨(mem_itemsBy852.1 hi).1, by rw [hgid, (mem_itemsBy852.1 hi).2, hid]⟩
  rw [hg] at this
  cases this

theorem file_mem_filings (hf : f852 ∈ fields852Alma r) (hi : f876 ∈ itemsBy852 r f852)
    (hplace : place r f852 f876 = some key) :
    .file key (f852, some f876) f876 ∈ filings labels r := by
  refine List.mem_flatMap.2 ⟨f852, hf, ?_⟩
  unfold filingsOf
  rw [if_pos (List.ne_nil_of_mem hi)]
  refine List.mem_filterMap.2 ⟨f876, (perm_orderedItems r f852).mem_iff.2 hi, ?_⟩
  rw [hplace]
  rfl

theorem resShare_ne_holdingId (hf : f852 ∈ fields852Alma r) : holdingId r f852 ≠ some resShare := by
  obtain ⟨-, id, hid8, halma⟩ := mem_fields852Alma.1 hf
  intro h
  have : holdingId r f852 = some id := by simp [holdingId, hid8, halma]
  rw [this, Option.some.injEq] at h
  rw [h] at halma
  exact absurd halma (by decide)

/-- The place of a resource sharing request is no key of the holdings. -/
theorem get_resShare {α : Type} {build : Field → α} {h : Holdings α}
    (hs : Shows build h (run {} (filings labels r))) : h.get (some resShare) = none := by
  rcases hget : h.get (some resShare) with _ | hd
  · rfl
  · have hlabel := hs.label resShare
    rw [hget, Option.map_some, eq_comm, Option.map_eq_some_iff] at hlabel
    obtain ⟨g, hg, -⟩ := hlabel
    rcases heads_of_opened hg with hg | ⟨op, hop, hheads⟩
    · cases hg
    · obtain ⟨f852, hf, hop⟩ := List.mem_flatMap.1 hop
      unfold filingsOf at hop
      split_ifs at hop
      · obtain ⟨i, -, hi⟩ := List.mem_filterMap.1 hop
        obtain ⟨k, hk, rfl⟩ := Option.map_eq_some_iff.1 hi
        obtain ⟨rfl, -⟩ := hheads
        unfold place at hk
        split_ifs at hk with hc
        · exact absurd hk (resShare_ne_holdingId hf)
        · exact absurd (.inr hk) hc
      · cases hop
      · obtain ⟨k, hk, rfl⟩ := List.mem_map.1 hop
        obtain ⟨rfl, -⟩ := hheads
        exact absurd (by simpa using hk) (resShare_ne_holdingId hf)

/-- The permanent holding of an `852` with items has the temporary code of its first item. -/
theorem label_of_get {α : Type} {build : Field → α} {h : Holdings α}
    (hs : Shows build h (run {} (filings labels r))) (hi : f876 ∈ itemsBy852 r f852)
    (hid : holdingId r f852 = some key) :
    (h.get (some key)).map Holding.label
      = (firstAt r key).map fun e => Heading.label (e.1, some e.2) := by
  rw [hs.label, opened_run (not_reopened hi hid), firstFiled_filings]
  cases firstAt r key <;> rfl

theorem tempLocationCode_eq_resShare {e : Field × Field} :
    Heading.tempLocationCode (e.1, some e.2) = some resShare
      ↔ currentLocationCode e.2 = some resShare
        ∧ almaPermanentLocationCode e.1 ≠ some resShare := by
  simp only [Heading.tempLocationCode, inTemporaryLocation, decide_eq_true_eq]
  split_ifs with h
  · exact ⟨fun hc => ⟨hc, fun hp => h (hc.trans hp.symm)⟩, And.left⟩
  · rw [not_not] at h
    refine ⟨fun hnone => ?_, fun hc => absurd (h.symm.trans hc.1) hc.2⟩
    cases hnone

theorem HasCounterpart.sharedFirst (hr : r.IsAlma) (h : HasCounterpart labels r) :
    SharedFirst r := by
  intro f852 hf f876 hi hcode hperm id hid
  obtain ⟨hash, hhash, hall⟩ := h Field fun x => x
  obtain ⟨hash', hhash', hs⟩ := processHoldings_shows labels (fun x : Field => x) hr
  obtain rfl : hash = hash' := Option.some.inj (hhash.symm.trans hhash')
  rcases hall f852 hf f876 hi resShare hcode hperm with hget | ⟨k, hd, hget, hmem, htemp⟩
  · rw [get_resShare hs] at hget
    cases hget
  · -- a holding with the item is that of its id
    have hlisted : (k, f876) ∈ hash.listed Holding.items :=
      OrderedHash.mem_listed.2 ⟨hd, hget, hmem⟩
    obtain ⟨e, he, hek⟩ := List.mem_map.1 (hs.items.mem_iff.1 hlisted)
    rw [kept_filings] at he
    obtain ⟨g, -, hgi, hplace⟩ := place_of_mem_survivors he
    obtain ⟨rfl, rfl⟩ := Prod.mk.inj hek
    rw [Option.mem_def] at hid
    have hkey : e.1 = id := by
      rw [place, if_pos (.inr hcode), ← (mem_itemsBy852.1 hgi).2, (mem_itemsBy852.1 hi).2,
        hid] at hplace
      exact (Option.some.inj hplace).symm
    have hlabel := label_of_get hs hi hid
    rw [hkey] at hget
    rw [hget, Option.map_some, eq_comm, Option.map_eq_some_iff] at hlabel
    obtain ⟨e', he', hlabel⟩ := hlabel
    refine ⟨e', he', tempLocationCode_eq_resShare.1 ?_⟩
    exact (Prod.mk.inj hlabel).2.trans htemp

theorem SharedFirst.hasCounterpart (hr : r.IsAlma) (h : SharedFirst r) :
    HasCounterpart labels r := by
  intro α build
  obtain ⟨hash, hhash, hs⟩ := processHoldings_shows labels build hr
  refine ⟨hash, hhash, fun f852 hf f876 hi code hcode hperm => ?_⟩
  have hget : ∀ {key}, place r f852 f876 = some key → (hash.get (some key)).isSome := by
    intro key hplace
    have hfile : .file key (f852, some f876) f876 ∈ filings labels r :=
      file_mem_filings hf hi hplace
    have hopened := opened_of_file (s := {}) hfile
    rw [← Option.isSome_map (f := Heading.label), ← hs.label, Option.isSome_map] at hopened
    exact hopened
  by_cases hres : code = resShare
  · subst hres
    obtain ⟨id, -, hid, -⟩ := holdingId_of_mem hf
    have hplace : place r f852 f876 = some id := by
      rw [place, if_pos (.inr hcode), hid]
    obtain ⟨e, he, hshared⟩ := h f852 hf f876 hi hcode hperm id hid
    have hmem : (some id, build f876) ∈ hash.listed Holding.items := by
      refine hs.items.mem_iff.2 (List.mem_map.2 ⟨(id, f876), ?_, rfl⟩)
      rw [kept_filings]
      exact mem_survivors_of_file (not_reopened hi hid) (file_mem_filings hf hi hplace)
    obtain ⟨hd, hgetd, hitem⟩ := OrderedHash.mem_listed.1 hmem
    refine .inr ⟨some id, hd, hgetd, hitem, ?_⟩
    have hlabel := label_of_get hs hi hid
    rw [hgetd, he, Option.map_some, Option.map_some, Option.some.injEq] at hlabel
    exact (Prod.mk.inj hlabel).2.trans (tempLocationCode_eq_resShare.2 hshared)
  · refine .inl (hget ?_)
    rw [place, if_neg, hcode]
    rintro (hc | hc)
    · exact hperm (hc.symm.trans hcode)
    · exact hres (Option.some.inj (hcode.symm.trans hc))

/-- Each item elsewhere has its counterpart exactly when the items at `RES_SHARE$IN_RS_REQ` come
first in their holdings. -/
theorem hasCounterpart_iff (labels : HoldingLocations) (r : Record) (hr : r.IsAlma) :
    HasCounterpart labels r ↔ SharedFirst r :=
  ⟨HasCounterpart.sharedFirst hr, SharedFirst.hasCounterpart hr⟩

section Examples

/-- One item on the stacks, and one at `RES_SHARE$IN_RS_REQ`. -/
def requested : Record := almaRecord
  [holding852 "22106421" "firestone" "stacks", item876 "22106421" "23" "firestone" "stacks",
    item876 "22106421" "24" "RES_SHARE" "IN_RS_REQ"]

def requestedAlone : Record := almaRecord
  [holding852 "22106421" "firestone" "stacks", item876 "22106421" "24" "RES_SHARE" "IN_RS_REQ"]

theorem hasCounterpart_requestedAlone : HasCounterpart stacksLocation requestedAlone :=
  (hasCounterpart_iff stacksLocation requestedAlone (almaRecord_isAlma _)).2 (by decide)

/-- The item on the stacks heads the holding, and the code of the other one is nowhere. -/
theorem not_hasCounterpart_requested :
    requested.IsAlma ∧ ¬HasCounterpart stacksLocation requested := by
  refine ⟨almaRecord_isAlma _, fun h => ?_⟩
  have hfirst : SharedFirst requested := h.sharedFirst (almaRecord_isAlma _)
  obtain ⟨e, he, hcode, -⟩ := hfirst (holding852 "22106421" "firestone" "stacks") (by decide)
    (item876 "22106421" "24" "RES_SHARE" "IN_RS_REQ") (by decide) (by decide) (by decide)
    "22106421" (by decide)
  have hat : firstAt requested "22106421" = some (holding852 "22106421" "firestone" "stacks",
      item876 "22106421" "23" "firestone" "stacks") := by decide
  rw [hat, Option.mem_some_iff] at he
  subst he
  exact absurd hcode (by decide)

end Examples

end Bibdata
