import Bibdata.Proofs.Counterpart

/-!
# The codes of the holdings and `location_codes`

A holding has the code of its heading. `location_codes` has, for each `852` with a `$b`, the code
that its first item is shelved at; so it has the code of every holding that is headed by such an
`852` and by nothing elsewhere than this item (`locationCode_processHoldings`).
-/

namespace Bibdata

open Shelf

variable {labels : HoldingLocations} {r : Record} {f852 f876 : Field}

theorem firstItem_of_mem (hf : f852 ∈ fields852Alma r) :
    firstItem r f852 = (itemsBy852 r f852).head? := by
  obtain ⟨-, id, hid8, halma⟩ := mem_fields852Alma.1 hf
  have hid : holdingId r f852 = some id := by simp [holdingId, hid8, halma]
  rw [firstItem, hid8, Option.bind_some, itemsBy852, hid, List.head?_filter]

/-- For an Alma `852` with a `$b` the codes have that of its first item, or its own. -/
theorem mem_locationCodes (hr : r.IsAlma) (hf : f852 ∈ fields852Alma r)
    (hb : f852.hasSubfield 'b' = true) {code : String}
    (hcode : ((firstItem r f852).bind (shelvedAt f852) <|> almaPermanentLocationCode f852)
      = some code) : code ∈ locationCodes r := by
  obtain ⟨n, hn⟩ := hr
  obtain ⟨perm, hperm⟩ := Option.isSome_iff_exists.1 (permanent_isSome hf)
  refine List.mem_filterMap.2 ⟨f852, (mem_fields852Alma.1 hf).1, ?_⟩
  rw [if_pos hb, permanentCode, hn, ← hcode]
  simp only [hperm]
  rcases firstItem r f852 with _ | i
  · rfl
  · simp only [Option.bind_some, shelvedAt, hperm]
    rcases currentLocationCode i with _ | c
    · rfl
    · simp only [locationCode, Option.some.injEq]
      split_ifs <;> rfl

theorem heading_of_get {α : Type*} {build : Field → α} {h : Holdings α}
    (hs : Shows build h (run {} (filings labels r))) {k : Option String} {hd : Holding α}
    (hget : h.get k = some hd) : ∃ g : Heading, g.1 ∈ fields852Alma r
      ∧ (∀ f876 ∈ g.2, f876 ∈ itemsBy852 r g.1 ∧ (currentLocationCode f876).isSome)
      ∧ (g.2 = none → itemsBy852 r g.1 = []) ∧ hd.locationCode = g.locationCode := by
  rcases k with _ | key
  · rw [hs.unkeyed] at hget
    cases hget
  · have hlabel := hs.label key
    rw [hget, Option.map_some, eq_comm, Option.map_eq_some_iff] at hlabel
    obtain ⟨g, hg, hlabel⟩ := hlabel
    rcases heads_of_opened hg with hg | ⟨op, hop, hheads⟩
    · cases hg
    · obtain ⟨f852, hf, hop⟩ := List.mem_flatMap.1 hop
      refine ⟨g, ?_⟩
      unfold filingsOf at hop
      split_ifs at hop with hitems
      · obtain ⟨i, hi, hi'⟩ := List.mem_filterMap.1 hop
        obtain ⟨k, hk, rfl⟩ := Option.map_eq_some_iff.1 hi'
        obtain ⟨-, rfl⟩ := hheads
        refine ⟨hf, ?_, fun hnone => ?_, (Prod.mk.inj hlabel).1.symm⟩
        swap
        · cases hnone
        rintro _ ⟨⟩
        refine ⟨(perm_orderedItems r f852).mem_iff.1 hi, ?_⟩
        -- an item that is filed has a place
        rcases hcode : currentLocationCode i with _ | c
        · obtain ⟨perm, hperm⟩ := Option.isSome_iff_exists.1 (permanent_isSome hf)
          rw [place, hcode, hperm, if_neg (by simp)] at hk
          cases hk
        · rfl
      · cases hop
      · obtain ⟨k, hk, rfl⟩ := List.mem_map.1 hop
        obtain ⟨-, rfl⟩ := hheads
        refine ⟨hf, fun f876 hnone => ?_, fun _ => not_not.1 hitems,
          (Prod.mk.inj hlabel).1.symm⟩
        cases hnone

/-- The code of every holding is one of the record's codes, unless it comes from an `852` without
`$b` or from an item that is shelved elsewhere than the first one of its `852`. -/
theorem locationCode_processHoldings (labels : HoldingLocations) (r : Record) (hr : r.IsAlma) :
    ∃ h, processHoldings labels buildItem r = some h ∧ ∀ k hd, h.get k = some hd →
      ∃ code, hd.locationCode = some code ∧ (code ∈ locationCodes r
        ∨ ∃ f852 ∈ fields852Alma r,
            f852.hasSubfield 'b' = false ∧ (almaPermanentLocationCode f852 = some code
                ∨ ∃ f876 ∈ itemsBy852 r f852, shelvedAt f852 f876 = some code)
              ∨ ∃ f876 ∈ itemsBy852 r f852, shelvedAt f852 f876 = some code
                ∧ (firstItem r f852).bind (shelvedAt f852) ≠ some code) := by
  obtain ⟨h, hh, hs⟩ := processHoldings_shows labels buildItem hr
  refine ⟨h, hh, fun k hd hget => ?_⟩
  obtain ⟨⟨f852, i⟩, hf, hitem, hnone, hcode⟩ := heading_of_get hs hget
  obtain ⟨perm, hperm⟩ := Option.isSome_iff_exists.1 (permanent_isSome hf)
  rcases i with _ | f876
  · -- the `852` has no items
    refine ⟨perm, hcode.trans hperm, ?_⟩
    rcases hb : f852.hasSubfield 'b'
    · exact .inr ⟨f852, hf, .inl ⟨hb, .inl hperm⟩⟩
    · refine .inl (mem_locationCodes hr hf hb ?_)
      rw [firstItem_of_mem hf, hnone rfl, hperm]
      rfl
  · obtain ⟨hi, hsome⟩ := hitem f876 rfl
    obtain ⟨code, hshelved⟩ : ∃ code, shelvedAt f852 f876 = some code := by
      rw [← Option.isSome_iff_exists, shelvedAt]
      split_ifs
      · exact permanent_isSome hf
      · exact hsome
    refine ⟨code, hcode.trans hshelved, ?_⟩
    rcases hb : f852.hasSubfield 'b'
    · exact .inr ⟨f852, hf, .inl ⟨hb, .inr ⟨f876, hi, hshelved⟩⟩⟩
    · by_cases hfirst : (firstItem r f852).bind (shelvedAt f852) = some code
      · refine .inl (mem_locationCodes hr hf hb ?_)
        rw [hfirst]
        rfl
      · exact .inr ⟨f852, hf, .inr ⟨f876, hi, hshelved, hfirst⟩⟩

section Examples

/-- An `852` without `$b`, whose item is at a temporary place. -/
def withoutLibrary : Record := almaRecord
  [{ tag := "852", subfields := subfieldsOf [('c', "pa"), ('8', "22617214130006421")] },
    item876 "22617214130006421" "23" "eastasian" "pl"]

theorem locationCode_reserved : ∃ h, processHoldings stacksLocation buildItem reserved = some h
    ∧ ∀ k hd, h.get k = some hd → ∃ code, hd.locationCode = some code
      ∧ (code ∈ locationCodes reserved ∨ ∃ f852 ∈ fields852Alma reserved,
          f852.hasSubfield 'b' = false ∧ (almaPermanentLocationCode f852 = some code
              ∨ ∃ f876 ∈ itemsBy852 reserved f852, shelvedAt f852 f876 = some code)
            ∨ ∃ f876 ∈ itemsBy852 reserved f852, shelvedAt f852 f876 = some code
              ∧ (firstItem reserved f852).bind (shelvedAt f852) ≠ some code) :=
  locationCode_processHoldings stacksLocation reserved (almaRecord_isAlma _)

/-- The record has a holding, and no codes. -/
theorem not_locationCode_withoutLibrary : withoutLibrary.IsAlma
    ∧ ¬∃ h, processHoldings stacksLocation buildItem withoutLibrary = some h
      ∧ ∀ k hd, h.get k = some hd →
        ∃ code ∈ locationCodes withoutLibrary, hd.locationCode = some code := by
  refine ⟨almaRecord_isAlma _, ?_⟩
  rintro ⟨hash, hhash, hall⟩
  have hget : (processHoldings stacksLocation buildItem withoutLibrary).bind
      (fun h => (h.get (some "eastasian$pl")).map (·.locationCode))
        = some (some "eastasian$pl") := by decide
  rw [hhash, Option.bind_some, Option.map_eq_some_iff] at hget
  obtain ⟨hd, hget, -⟩ := hget
  obtain ⟨code, hcode, -⟩ := hall _ hd hget
  have hnil : locationCodes withoutLibrary = [] := by decide
  rw [hnil] at hcode
  cases hcode

end Examples

end Bibdata
