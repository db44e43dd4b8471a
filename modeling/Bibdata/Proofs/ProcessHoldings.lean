import Bibdata.Filing

/-!
# `process_holdings` keeps the shelf

Each helper of `process_holdings` does to the hash what one filing does to the shelf
(`Shows.addItemToHolding`), so at the end the hash shows what is kept there and how the holdings
were headed (`processHoldings_shows`).
-/

namespace Bibdata

open Shelf

variable {α : Type*} {labels : HoldingLocations} {build : Field → α} {r : Record}
  {h : Holdings α} {s : State String Heading Field} {key : String} {g : Heading}

abbrev Holding.label (hd : Holding α) : Option String × Option String :=
  (hd.locationCode, hd.tempLocationCode)

abbrev Heading.label (g : Heading) : Option String × Option String :=
  (g.locationCode, g.tempLocationCode)

/-- The hash shows the shelf: the items kept, under their keys, and the codes of the headings. -/
structure Shows (build : Field → α) (h : Holdings α) (s : State String Heading Field) : Prop where
  items : (h.listed Holding.items).Perm (s.kept.map fun e => (some e.1, build e.2))
  label : ∀ k, (h.get (some k)).map Holding.label = (s.opened k).map Heading.label
  unkeyed : h.get none = none

theorem shows_empty : Shows build {} ({} : State String Heading Field) :=
  ⟨List.Perm.refl _, fun _ => rfl, rfl⟩

theorem filter_kept (key : String) (kept : List (String × Field)) :
    (kept.map fun e => (some e.1, build e.2)).filter (·.1 ≠ some key)
      = (kept.filter (·.1 ≠ key)).map fun e => (some e.1, build e.2) := by
  rw [List.filter_map]
  congr 2
  funext e
  simp

/-- A key gets a value, and the shelf what that value lists and is headed by. -/
theorem Shows.set (hs : Shows build h s) {hd : Holding α} {s' : State String Heading Field}
    (hitems : (hd.items.map (some key, ·) ++ (h.listed Holding.items).filter (·.1 ≠ some key)).Perm
      (s'.kept.map fun e => (some e.1, build e.2)))
    (hopened : ∀ k, (s'.opened k).map Heading.label
      = if k = key then some hd.label else (s.opened k).map Heading.label) :
    Shows build (h.set (some key) hd) s' where
  items := OrderedHash.listed_set.trans hitems
  label k := by
    rw [OrderedHash.get_set, hopened]
    simp only [Option.some.injEq]
    split_ifs with hk
    · rfl
    · exact hs.label k
  unkeyed := by
    rw [OrderedHash.get_set, if_neg (by simp)]
    exact hs.unkeyed

theorem Shows.opened_eq_none (hs : Shows build h s) (hget : h.get (some key) = none) :
    s.opened key = none := by
  have := hs.label key
  rw [hget, Option.map_none, eq_comm, Option.map_eq_none_iff] at this
  exact this

theorem Shows.reopen (hs : Shows build h s) {hd : Holding α} (hitems : hd.items = [])
    (hlabel : hd.label = g.label) : Shows build (h.set (some key) hd) (step s (.reopen key g)) := by
  refine hs.set ?_ fun k => ?_
  · rw [hitems, step, ← filter_kept]
    exact hs.items.filter _
  · simp only [step]
    split_ifs
    · rw [hlabel, Option.map_some]
    · rfl

theorem Shows.head (hs : Shows build h s) (hget : h.get (some key) = none) {hd : Holding α}
    (hitems : hd.items = []) (hlabel : hd.label = g.label) :
    Shows build (h.set (some key) hd)
      { s with opened := fun k => if k = key then some g else s.opened k } := by
  refine hs.set ?_ fun k => ?_
  · rw [hitems, OrderedHash.listed_of_get_none hget]
    exact hs.items
  · simp only []
    split_ifs
    · rw [hlabel, Option.map_some]
    · rfl

theorem Shows.append (hs : Shows build h s) {hd : Holding α} (hget : h.get (some key) = some hd)
    (x : Field) : Shows build (h.set (some key) { hd with items := hd.items ++ [build x] })
      { s with kept := s.kept ++ [(key, x)] } := by
  refine hs.set ?_ fun k => ?_
  · have hperm := (OrderedHash.listed_of_get hget).symm.trans hs.items
    simp only [List.map_append, List.map_cons, List.map_nil, List.append_assoc]
    -- the new item goes to the end
    refine List.Perm.trans (List.Perm.append_left _ List.perm_append_comm) ?_
    rw [← List.append_assoc]
    exact hperm.append_right _
  · simp only []
    split_ifs with hk
    · have := hs.label key
      rw [hget, Option.map_some] at this
      rw [hk, ← this]
    · rfl

/-- `add_item_to_holding` under a key files the item. -/
theorem Shows.addItemToHolding (hs : Shows build h s) {hd : Holding α}
    (hkey : present (some key) = true) (hitems : hd.items = []) (hlabel : hd.label = g.label)
    (f876 : Field) :
    Shows build (addItemToHolding labels build f876 (some key) h hd)
      (step s (.file key g f876)) := by
  unfold Bibdata.addItemToHolding
  rcases hget : h.get (some key) with _ | v
  · have hopen : (s.opened key <|> some g) = some g := by
      rw [hs.opened_eq_none hget]
      rfl
    have hs' : Shows build (h.set (some key) (removeEmptyCallNumberFields hd)) _ :=
      hs.head hget hitems hlabel
    have hget' : (h.set (some key) (removeEmptyCallNumberFields hd)).get (some key)
        = some (removeEmptyCallNumberFields hd) := by
      rw [OrderedHash.get_set, if_pos rfl]
    simp only [hkey, Bool.true_or, Option.isNone_none, Bool.and_self, if_true, holdingItems, hget',
      step, hopen]
    exact hs'.append hget' f876
  · have hopen : (s.opened key <|> some g) = s.opened key := by
      have := hs.label key
      rw [hget, Option.map_some, eq_comm, Option.map_eq_some_iff] at this
      obtain ⟨g', hg', -⟩ := this
      rw [hg']
      rfl
    have hfile : step s (.file key g f876) = { s with kept := s.kept ++ [(key, f876)] } := by
      simp only [step, hopen]
      congr 1
      funext k
      split_ifs with hk <;> simp [hk]
    simp only [Option.isNone_some, Bool.and_false, Bool.false_eq_true, if_false, holdingItems, hget,
      hfile]
    exact hs.append hget f876

/-- Without a key, and without a code, nothing is added. -/
theorem Shows.addItemToHolding_none (hs : Shows build h s) {hd : Holding α}
    (hcode : hd.locationCode = none) (f876 : Field) :
    Bibdata.addItemToHolding labels build f876 none h hd = h := by
  simp [Bibdata.addItemToHolding, present, invalidLocation, hcode, holdingItems, hs.unkeyed]

theorem Shows.process866867868Fields (id : Option String) :
    ∀ {fields : List Field} {h : Holdings α},
      Shows build h s → Shows build (process866867868Fields fields h id) s
  | [], _, hs => hs
  | f :: fields, h, hs => by
    unfold Bibdata.process866867868Fields
    rw [List.foldl_cons]
    refine Shows.process866867868Fields id ?_
    rcases hget : h.get id with _ | hd
    · exact hs
    · rcases id with _ | key
      · rw [hs.unkeyed] at hget
        cases hget
      · refine hs.set ((OrderedHash.listed_of_get hget).symm.trans hs.items) fun k => ?_
        split_ifs with hk
        · rw [hk, ← hs.label key, hget]
          rfl
        · rfl

theorem Shows.textualHoldings (hs : Shows build h s) (fields : List Field) (id : Option String) :
    Shows build
      (if (h.get id).isSome then Bibdata.process866867868Fields fields h id else h) s := by
  split_ifs
  · exact hs.process866867868Fields id
  · exact hs

/-! ### The steps for one `852` -/

variable {f852 f876 : Field}

theorem mem_fields852Alma : f852 ∈ fields852Alma r ↔ f852 ∈ r.getFields "852"
    ∧ ∃ id, f852.firstSubfield '8' = some id ∧ almaCodeStart22 id = true := by
  unfold fields852Alma
  rw [List.mem_filter]
  refine and_congr_right fun _ => ?_
  rcases f852.firstSubfield '8' with _ | id
  · simpa using (by decide : almaCodeStart22 "" = false)
  · simp

theorem holdingId_of_mem (hf : f852 ∈ fields852Alma r) :
    ∃ id, f852.firstSubfield '8' = some id ∧ holdingId r f852 = some id
      ∧ present (some id) = true := by
  obtain ⟨-, id, hid, halma⟩ := mem_fields852Alma.1 hf
  refine ⟨id, hid, ?_, present_of_almaCodeStart22 halma⟩
  simp [holdingId, hid, halma]

theorem permanent_isSome (hf : f852 ∈ fields852Alma r) :
    (almaPermanentLocationCode f852).isSome := by
  obtain ⟨-, id, hid, halma⟩ := mem_fields852Alma.1 hf
  simp only [almaPermanentLocationCode, hid, halma, if_true]
  split_ifs <;> rfl

theorem present_of_current {code : String} (h : currentLocationCode f876 = some code) :
    present (some code) = true := by
  unfold currentLocationCode at h
  split at h
  · obtain rfl := Option.some.inj h
    exact present_of_mem (c := '$') (by simp) (by decide)
  · cases h

def fileOp (r : Record) (f852 f876 : Field) : Option (Op String Heading Field) :=
  (place r f852 f876).map fun key => .file key (f852, some f876) f876

theorem Shows.foldl {add : Holdings α → Field → Holdings α} : ∀ {xs : List Field} {h : Holdings α}
    {s : State String Heading Field}, (∀ x ∈ xs, ∀ h s, Shows build h s →
      Shows build (add h x) (run s (fileOp r f852 x).toList)) → Shows build h s →
    Shows build (xs.foldl add h) (run s (xs.filterMap (fileOp r f852)))
  | [], _, _, _, hs => hs
  | x :: xs, h, s, hadd, hs => by
    rw [List.filterMap_eq_flatMap_toList, List.flatMap_cons, run_append,
      ← List.filterMap_eq_flatMap_toList, List.foldl_cons]
    exact Shows.foldl (fun y hy => hadd y (List.mem_cons_of_mem _ hy))
      (hadd x (List.mem_cons_self ..) h s hs)

theorem Shows.addPermanentItems (hs : Shows build h s) (hf : f852 ∈ fields852Alma r)
    (items : List Field) :
    Shows build (addPermanentItemsToHoldings labels build r items f852 h
        (buildHolding labels f852 none))
      (run s ((selectPermanentLocation876 items f852).filterMap (fileOp r f852))) := by
  refine Shows.foldl (fun f876 hmem h s hs => ?_) hs
  obtain ⟨id, -, hid, hpresent⟩ := holdingId_of_mem hf
  have hperm : currentLocationCode f876 = almaPermanentLocationCode f852 := by
    have := (List.mem_filter.1 hmem).2
    simpa [inTemporaryLocation] using this
  have hop : fileOp r f852 f876 = some (.file id (f852, some f876) f876) := by
    simp [fileOp, place, hperm, hid]
  rw [hop, hid]
  refine hs.addItemToHolding hpresent rfl ?_ f876
  simp [Holding.label, Heading.label, buildHolding, Heading.locationCode,
    Heading.tempLocationCode, shelvedAt, hperm, inTemporaryLocation]

theorem Shows.addTemporaryItems (hs : Shows build h s) (hf : f852 ∈ fields852Alma r)
    (items : List Field) :
    Shows build (addTemporaryItemsToHoldings labels build r items f852 h)
      (run s ((selectTemporaryLocation876 items f852).filterMap (fileOp r f852))) := by
  refine Shows.foldl (fun f876 hmem h s hs => ?_) hs
  obtain ⟨id, -, hid, hpresent⟩ := holdingId_of_mem hf
  have htemp : inTemporaryLocation f876 f852 = true := (List.mem_filter.1 hmem).2
  have hne : currentLocationCode f876 ≠ almaPermanentLocationCode f852 := by
    simpa [inTemporaryLocation] using htemp
  by_cases hres : currentLocationCode f876 = some resShare
  · have hop : fileOp r f852 f876 = some (.file id (f852, some f876) f876) := by
      simp [fileOp, place, hres, hid]
    simp only [hres, if_true]
    rw [hop, hid]
    refine hs.addItemToHolding hpresent rfl ?_ f876
    simp [Holding.label, Heading.label, buildHolding, Heading.locationCode,
      Heading.tempLocationCode, shelvedAt, hres, htemp]
  · simp only [if_neg hres]
    rcases hcode : currentLocationCode f876 with _ | code
    · -- an item without `$y` or `$z` is filed nowhere
      have hop : fileOp r f852 f876 = none := by
        rw [hcode] at hne
        simp [fileOp, place, hcode, hne]
      rw [hop, hs.addItemToHolding_none (by simp [buildHolding, hcode])]
      exact hs
    · have hop : fileOp r f852 f876 = some (.file code (f852, some f876) f876) := by
        rw [hcode] at hne hres
        simp [fileOp, place, hcode, hne, hres]
      rw [hop]
      refine hs.addItemToHolding (present_of_current hcode) rfl ?_ f876
      rw [hcode] at hres
      simp [Holding.label, Heading.label, buildHolding, Heading.locationCode,
        Heading.tempLocationCode, shelvedAt, hcode, hres, htemp]

/-- One `852` does to the hash what its filings do to the shelf. -/
theorem Shows.processField852 (hs : Shows build h s) (hf : f852 ∈ fields852Alma r) :
    Shows build (processField852 labels build r h f852) (run s (filingsOf labels r f852)) := by
  obtain ⟨id, -, hid, -⟩ := holdingId_of_mem hf
  have hmain : Shows build
      (if itemsBy852 r f852 ≠ [] then
        addTemporaryItemsToHoldings labels build r (itemsBy852 r f852) f852
          (addPermanentItemsToHoldings labels build r (itemsBy852 r f852) f852 h
            (buildHolding labels f852 none))
      else if holdingId r f852 = none
          ∨ invalidLocation labels (buildHolding (α := α) labels f852 none).locationCode then h
      else h.set (holdingId r f852) (removeEmptyCallNumberFields (buildHolding labels f852 none)))
      (run s (filingsOf labels r f852)) := by
    unfold filingsOf
    split_ifs with hitems hinv hno hno
    · rw [orderedItems, List.filterMap_append, run_append]
      exact (hs.addPermanentItems hf _).addTemporaryItems hf _
    · exact hs
    · rcases hinv with hinv | hinv
      · rw [hid] at hinv
        cases hinv
      · exact absurd hinv hno
    · exact absurd (.inr hno) hinv
    · rw [hid]
      exact hs.reopen rfl rfl
  exact hmain.textualHoldings _ _

/-- The holdings of an Alma record show what was filed. -/
theorem processHoldings_shows (labels : HoldingLocations) (build : Field → α) (hr : r.IsAlma) :
    ∃ h, processHoldings labels build r = some h ∧ Shows build h (run {} (filings labels r)) := by
  have hfold : ∀ {fs : List Field} {h : Holdings α} {s : State String Heading Field},
      (∀ f ∈ fs, f ∈ fields852Alma r) → Shows build h s →
      Shows build (fs.foldl (Bibdata.processField852 labels build r) h)
        (run s (fs.flatMap (filingsOf labels r))) := by
    intro fs
    induction fs with
    | nil => exact fun _ hs => hs
    | cons f fs ih =>
      intro h s hfs hs
      rw [List.flatMap_cons, run_append, List.foldl_cons]
      exact ih (fun g hg => hfs g (List.mem_cons_of_mem _ hg))
        (hs.processField852 (hfs f (List.mem_cons_self ..)))
  refine ⟨_, if_neg ?_, hfold (fun _ hf => hf) shows_empty⟩
  rintro ⟨-, hnone⟩
  have := hr.controlNumber
  rw [hnone] at this
  cases this

end Bibdata
