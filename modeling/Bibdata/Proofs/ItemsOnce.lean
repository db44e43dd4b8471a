import Bibdata.Proofs.ProcessHoldings

/-!
# Where the items of a record are in its holdings

An item is filed once for each Alma `852` with its id, and stays unless an `852` without items
comes later and takes its key. So each item is in the holdings once exactly when one such `852`
keeps it (`itemsOnce_iff`).
-/

namespace Bibdata

open Shelf

variable {labels : HoldingLocations} {r : Record} {f852 f876 : Field}

/-- The `876`s that belong to an Alma `852`. -/
def linkedItems (r : Record) : List Field :=
  (r.getFields "876").filter fun f876 =>
    ∃ f852 ∈ fields852Alma r, f852.firstSubfield '8' = f876.firstSubfield '0'

/-- Each item of an Alma `852` is in one holding, that of its place, and nothing else is. -/
def ItemsOnce (labels : HoldingLocations) (r : Record) : Prop :=
  ∀ (α : Type) (build : Field → α), ∃ h, processHoldings labels build r = some h
    ∧ (h.entries.flatMap fun e => e.2.items).Perm ((linkedItems r).map build)
    ∧ ∀ k hd, h.get k = some hd → ∀ x ∈ hd.items, ∃ f852 ∈ fields852Alma r,
        ∃ f876 ∈ itemsBy852 r f852, x = build f876 ∧ k = place r f852 f876

/-- One of the `852`s has no items, a known location, and the key as its id. -/
def Overwritten (labels : HoldingLocations) (r : Record) (fs : List Field) (key : Option String) :
    Prop :=
  ∃ f852 ∈ fs, itemsBy852 r f852 = []
    ∧ invalidLocation labels (almaPermanentLocationCode f852) = false ∧ holdingId r f852 = key

instance (fs : List Field) (key : Option String) : Decidable (Overwritten labels r fs key) :=
  inferInstanceAs (Decidable (∃ _ ∈ fs, _))

/-- How many of the `852`s have the item and keep it. -/
def timesKept (labels : HoldingLocations) (r : Record) : List Field → Field → ℕ
  | [], _ => 0
  | f852 :: fs, f876 =>
    (if f852.firstSubfield '8' = f876.firstSubfield '0'
        ∧ ¬ Overwritten labels r fs (place r f852 f876) then 1 else 0) + timesKept labels r fs f876

theorem perm_orderedItems (r : Record) (f852 : Field) :
    (orderedItems r f852).Perm (itemsBy852 r f852) := by
  unfold orderedItems selectPermanentLocation876 selectTemporaryLocation876
  refine List.perm_append_comm.trans ?_
  exact List.filter_append_perm (fun f876 => inTemporaryLocation f876 f852) _

theorem mem_itemsBy852 : f876 ∈ itemsBy852 r f852 ↔
    f876 ∈ r.getFields "876" ∧ f876.firstSubfield '0' = holdingId r f852 := by
  simp [itemsBy852]

theorem place_isSome (hf : f852 ∈ fields852Alma r) (hi : (currentLocationCode f876).isSome) :
    (place r f852 f876).isSome := by
  obtain ⟨id, -, hid, -⟩ := holdingId_of_mem hf
  unfold place
  split_ifs
  · rw [hid]
    rfl
  · exact hi

/-- The location of an Alma `852` is its `$b$c`, and its `$b` alone where `$c` has no text. -/
theorem almaPermanentLocationCode_eq (hf : f852 ∈ fields852Alma r) {b c : String}
    (hb : f852.firstSubfield 'b' = some b) (hc : f852.firstSubfield 'c' = some c) :
    almaPermanentLocationCode f852 = some (if c = "" then b else b ++ "$" ++ c) := by
  obtain ⟨-, id, hid, halma⟩ := mem_fields852Alma.1 hf
  simp only [almaPermanentLocationCode, hid, halma, hb, hc, if_true, Option.getD_some]
  split_ifs <;> rfl

/-- Where an item is put, for an `852` with a text in `$c`. -/
theorem place_eq (hf : f852 ∈ fields852Alma r) {b c y z : String}
    (hb : f852.firstSubfield 'b' = some b) (hc : f852.firstSubfield 'c' = some c) (hne : c ≠ "")
    (hy : f876.firstSubfield 'y' = some y) (hz : f876.firstSubfield 'z' = some z) :
    place r f852 f876
      = if y ++ "$" ++ z = b ++ "$" ++ c ∨ y ++ "$" ++ z = resShare then holdingId r f852
        else some (y ++ "$" ++ z) := by
  have hcurrent : currentLocationCode f876 = some (y ++ "$" ++ z) := by
    simp only [currentLocationCode, hy, hz]
  rw [place, hcurrent, almaPermanentLocationCode_eq hf hb hc, if_neg hne]
  simp only [Option.some_inj]

theorem reopens_iff {fs : List Field} {key : String} :
    ((fs.flatMap (filingsOf labels r)).any (Op.reopens key)) = true
      ↔ Overwritten labels r fs (some key) := by
  unfold Overwritten
  rw [List.any_flatMap, List.any_eq_true]
  refine exists_congr fun f852 => and_congr_right fun _ => ?_
  unfold filingsOf
  split_ifs with hitems hinv
  · simp only [List.any_eq_true, List.mem_filterMap, Option.map_eq_some_iff]
    constructor
    · rintro ⟨op, ⟨f876, -, k, -, rfl⟩, hop⟩
      cases hop
    · exact fun h => absurd h.1 hitems
  · simp [hinv]
  · rw [not_not] at hitems
    cases hid : holdingId r f852 <;> simp [hitems, hinv, Op.reopens]

/-- What an `852` files for its items stays, but for what a later `852` takes. -/
theorem kept_items (hf : f852 ∈ fields852Alma r) (fs : List Field) : ∀ {items : List Field},
    (∀ i ∈ items, (currentLocationCode i).isSome) →
    (((survivors (items.filterMap (fileOp r f852))).filter fun e =>
        !(fs.flatMap (filingsOf labels r)).any (Op.reopens e.1)).map Prod.snd)
      = items.filter fun i => ¬ Overwritten labels r fs (place r f852 i)
  | [], _ => rfl
  | i :: items, hplaced => by
    obtain ⟨key, hkey⟩ := Option.isSome_iff_exists.1
      (place_isSome hf (hplaced i (List.mem_cons_self ..)))
    have ih := kept_items hf fs fun j hj => hplaced j (List.mem_cons_of_mem _ hj)
    have hop : fileOp r f852 i = some (.file key (f852, some i) i) := by
      rw [fileOp, hkey, Option.map_some]
    have hno : (items.filterMap (fileOp r f852)).any (Op.reopens key) = false := by
      rw [List.any_eq_false]
      intro op hop'
      obtain ⟨j, -, hj⟩ := List.mem_filterMap.1 hop'
      obtain ⟨k, -, rfl⟩ := Option.map_eq_some_iff.1 hj
      simp [Op.reopens]
    rw [List.filterMap_cons, hop]
    simp only [survivors, hno, Bool.false_eq_true, if_false]
    rw [List.filter_cons, List.filter_cons, hkey]
    by_cases hover : Overwritten labels r fs (some key)
    · rw [if_neg (by simpa using reopens_iff.2 hover), if_neg (by simpa using hover), ih]
    · rw [if_pos (by simpa using fun h => hover (reopens_iff.1 h)),
        if_pos (by simpa using hover), List.map_cons, ih]

theorem count_filingsOf (hf : f852 ∈ fields852Alma r)
    (hplaced : ∀ i ∈ r.getFields "876", (currentLocationCode i).isSome) (fs : List Field)
    (f876 : Field) :
    (((survivors (filingsOf labels r f852)).filter fun e =>
        !(fs.flatMap (filingsOf labels r)).any (Op.reopens e.1)).map Prod.snd).count f876
      = (r.getFields "876").count f876 *
        if f852.firstSubfield '8' = f876.firstSubfield '0'
          ∧ ¬ Overwritten labels r fs (place r f852 f876) then 1 else 0 := by
  obtain ⟨id, hid8, hid, -⟩ := holdingId_of_mem hf
  by_cases hitems : itemsBy852 r f852 = []
  · have hnone : survivors (filingsOf labels r f852) = [] := by
      unfold filingsOf
      rw [if_neg (not_not.2 hitems)]
      split_ifs
      · rfl
      · rw [hid]
        rfl
    rw [hnone]
    split_ifs with hc
    · -- an `876` with this id would be an item
      have hmem : f876 ∉ r.getFields "876" := fun hmem => by
        have := mem_itemsBy852.2 ⟨hmem, hc.1 ▸ hid8.trans hid.symm⟩
        rw [hitems] at this
        cases this
      simp [List.count_eq_zero_of_not_mem hmem]
    · simp
  · have hfile : filingsOf labels r f852 = (orderedItems r f852).filterMap (fileOp r f852) :=
      if_pos hitems
    have hmem : ∀ i ∈ orderedItems r f852, i ∈ r.getFields "876" := fun i hi =>
      (mem_itemsBy852.1 ((perm_orderedItems r f852).mem_iff.1 hi)).1
    rw [hfile, kept_items hf fs fun i hi => hplaced i (hmem i hi),
      ((perm_orderedItems r f852).filter _).count_eq, itemsBy852, List.filter_filter]
    split_ifs with hc
    · rw [Nat.mul_one, List.count_filter]
      simpa [hid, ← hc.1, hid8] using hc.2
    · rw [Nat.mul_zero, List.count_eq_zero]
      intro h
      obtain ⟨-, h⟩ := List.mem_filter.1 h
      simp only [Bool.and_eq_true, decide_eq_true_eq] at h
      exact hc ⟨(hid8.trans hid.symm).trans h.2.symm, h.1⟩

/-- Each item is kept as often as there are `852`s that keep it. -/
theorem count_survivors (hplaced : ∀ i ∈ r.getFields "876", (currentLocationCode i).isSome)
    (f876 : Field) : ∀ {fs : List Field}, (∀ f ∈ fs, f ∈ fields852Alma r) →
    ((survivors (fs.flatMap (filingsOf labels r))).map Prod.snd).count f876
      = (r.getFields "876").count f876 * timesKept labels r fs f876
  | [], _ => by simp [survivors, timesKept]
  | f :: fs, hfs => by
    rw [List.flatMap_cons, survivors_append, List.map_append, List.count_append,
      count_filingsOf (hfs f (List.mem_cons_self ..)) hplaced,
      count_survivors hplaced f876 fun g hg => hfs g (List.mem_cons_of_mem _ hg), timesKept,
      Nat.mul_add]

theorem timesKept_of_not_linked : ∀ {fs : List Field},
    (∀ f ∈ fs, f.firstSubfield '8' ≠ f876.firstSubfield '0') → timesKept labels r fs f876 = 0
  | [], _ => rfl
  | f :: fs, h => by
    rw [timesKept, if_neg fun hc => h f (List.mem_cons_self ..) hc.1,
      timesKept_of_not_linked fun g hg => h g (List.mem_cons_of_mem _ hg)]

/-- What is kept is each item once where each is kept by one `852`. -/
theorem perm_linkedItems (hplaced : ∀ i ∈ r.getFields "876", (currentLocationCode i).isSome) :
    ((survivors (filings labels r)).map Prod.snd).Perm (linkedItems r)
      ↔ ∀ i ∈ linkedItems r, timesKept labels r (fields852Alma r) i = 1 := by
  have hcount : ∀ i, ((survivors (filings labels r)).map Prod.snd).count i
      = (r.getFields "876").count i * timesKept labels r (fields852Alma r) i :=
    fun i => count_survivors hplaced i fun _ hf => hf
  have hlinked : ∀ i ∈ linkedItems r, (linkedItems r).count i = (r.getFields "876").count i := by
    intro i hi
    exact List.count_filter (List.mem_filter.1 hi).2
  rw [List.perm_iff_count]
  constructor
  · intro h i hi
    have hpos : 0 < (linkedItems r).count i := List.count_pos_iff.2 hi
    have hi' := h i
    rw [hcount, ← hlinked i hi] at hi'
    exact Nat.eq_of_mul_eq_mul_left hpos (by rw [hi', Nat.mul_one])
  · intro h i
    rw [hcount]
    by_cases hi : i ∈ linkedItems r
    · rw [h i hi, Nat.mul_one, hlinked i hi]
    · rw [List.count_eq_zero_of_not_mem hi]
      by_cases hmem : i ∈ r.getFields "876"
      · rw [timesKept_of_not_linked, Nat.mul_zero]
        intro f hf he
        exact hi (List.mem_filter.2 ⟨hmem, by simpa using ⟨f, hf, he⟩⟩)
      · rw [List.count_eq_zero_of_not_mem hmem, Nat.zero_mul]

theorem Shows.perm_items {α : Type*} {build : Field → α} {h : Holdings α}
    {s : State String Heading Field} (hs : Shows build h s) :
    (h.entries.flatMap fun e => e.2.items).Perm ((s.kept.map Prod.snd).map build) := by
  have hlist : (h.listed Holding.items).map Prod.snd = h.entries.flatMap fun e => e.2.items := by
    unfold OrderedHash.listed
    rw [List.map_flatMap]
    simp [Function.comp_def]
  have := hs.items.map Prod.snd
  rw [hlist, List.map_map] at this
  rw [List.map_map]
  exact this

theorem kept_filings : (run {} (filings labels r)).kept = survivors (filings labels r) := by
  rw [kept_run]
  rfl

theorem place_of_mem_survivors {e : String × Field} (he : e ∈ survivors (filings labels r)) :
    ∃ f852 ∈ fields852Alma r, e.2 ∈ itemsBy852 r f852 ∧ place r f852 e.2 = some e.1 := by
  obtain ⟨g, hg⟩ := file_of_mem_survivors _ he
  obtain ⟨f852, hf, hop⟩ := List.mem_flatMap.1 hg
  refine ⟨f852, hf, ?_⟩
  unfold filingsOf at hop
  split_ifs at hop
  · obtain ⟨i, hi, hi'⟩ := List.mem_filterMap.1 hop
    obtain ⟨key, hkey, hfile⟩ := Option.map_eq_some_iff.1 hi'
    cases hfile
    exact ⟨(perm_orderedItems r f852).mem_iff.1 hi, hkey⟩
  · cases hop
  · obtain ⟨key, -, hfile⟩ := List.mem_map.1 hop
    cases hfile

/-- Each item is in the holdings once exactly when one Alma `852` keeps it. -/
theorem itemsOnce_iff (labels : HoldingLocations) (r : Record) (hr : r.IsAlma)
    (hplaced : ∀ i ∈ r.getFields "876", (currentLocationCode i).isSome) :
    ItemsOnce labels r ↔ ∀ i ∈ linkedItems r, timesKept labels r (fields852Alma r) i = 1 := by
  rw [← perm_linkedItems hplaced]
  constructor
  · intro h
    obtain ⟨hash, hhash, hperm, -⟩ := h Field id
    obtain ⟨hash', hhash', hs⟩ := processHoldings_shows labels id hr
    obtain rfl : hash = hash' := Option.some.inj (hhash.symm.trans hhash')
    have := hs.perm_items.symm.trans hperm
    simpa only [kept_filings, List.map_id] using this
  · intro h α build
    obtain ⟨hash, hhash, hs⟩ := processHoldings_shows labels build hr
    refine ⟨hash, hhash, ?_, fun k hd hget x hx => ?_⟩
    · refine hs.perm_items.trans ?_
      rw [kept_filings]
      exact h.map build
    · have hmem : (k, x) ∈ hash.listed Holding.items := OrderedHash.mem_listed.2 ⟨hd, hget, hx⟩
      obtain ⟨e, he, hex⟩ := List.mem_map.1 (hs.items.mem_iff.1 hmem)
      rw [kept_filings] at he
      obtain ⟨f852, hf, hi, hplace⟩ := place_of_mem_survivors he
      cases hex
      exact ⟨f852, hf, e.2, hi, rfl, hplace.symm⟩

section Examples

def subfieldsOf (xs : List (Char × String)) : List Subfield := xs.map fun x => ⟨x.1, x.2⟩

def almaRecord (fields : List Field) : Record where
  controlFields := [⟨"001", "991234506421"⟩]
  fields := fields

def holding852 (id b c : String) : Field :=
  { tag := "852", subfields := subfieldsOf [('b', b), ('c', c), ('8', id)] }

def item876 (id a y z : String) : Field :=
  { tag := "876", subfields := subfieldsOf [('0', id), ('a', a), ('y', y), ('z', z)] }

def stacksLocation : HoldingLocations where
  locationLabel code := if code = "firestone$stacks" then some "Stacks" else none
  libraryLabel code := if code = "firestone$stacks" then some "Firestone Library" else none

/-- One item on the stacks, one on reserve. -/
def reserved : Record := almaRecord
  [holding852 "22106421" "firestone" "stacks", item876 "22106421" "23" "firestone" "stacks",
    item876 "22106421" "24" "lewis" "res"]

/-- An `852` that is there twice, and its item. -/
def repeated : Record := almaRecord
  [holding852 "22106421" "firestone" "stacks", holding852 "22106421" "firestone" "stacks",
    item876 "22106421" "23" "firestone" "stacks"]

theorem almaRecord_isAlma (fields : List Field) : (almaRecord fields).IsAlma := by
  have hnumber : (almaRecord fields).controlNumber = some "991234506421" := by
    simp [Record.controlNumber, almaRecord]
  have halma : ControlNumber.ofString "991234506421" = .alma "991234506421" := by decide
  exact ⟨_, by rw [ControlNumber.ofRecord, hnumber]; exact halma⟩

theorem itemsOnce_reserved : ItemsOnce stacksLocation reserved :=
  (itemsOnce_iff stacksLocation reserved (almaRecord_isAlma _) (by decide)).2 (by decide)

/-- The item of the repeated `852` is in its holding twice. -/
theorem not_itemsOnce_repeated : repeated.IsAlma
    ∧ (∀ i ∈ repeated.getFields "876", (currentLocationCode i).isSome)
    ∧ ¬ItemsOnce stacksLocation repeated := by
  refine ⟨almaRecord_isAlma _, by decide, fun h => ?_⟩
  obtain ⟨hash, hhash, hperm, -⟩ := h Field id
  have hlen : (processHoldings stacksLocation id repeated).map (fun h =>
      (h.entries.flatMap fun e => e.2.items).length) = some 2 := by decide
  rw [hhash, Option.map_some, hperm.length_eq, List.length_map, Option.some.injEq] at hlen
  exact absurd hlen (by decide)

end Examples

end Bibdata
