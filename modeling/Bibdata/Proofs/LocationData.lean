import Bibdata.LocationData

/-!
# What is left of the tables of locations

The rows are deleted first, so where something raises later none of them is left, and the tables
have what was created by then (`LeftAt`). They are as they were only if they had been empty and no
library has been created: without a library the first delivery location raises.
-/

namespace Bibdata

namespace LocationDataService

open Unrestored (bind_raises bind_returns each_raises step_raises value_eq_some)

variable {N : Type} {env : LocationPackages N} {files : LocationFiles} {db : LocationDb}

section Left

/-- The tables without their rows. -/
def emptied (db : LocationDb) : LocationDb :=
  { db with libraries := [], deliveryLocations := [], holdingLocations := [] }

/-- The sequence is restarted if the highest id can be told. -/
def restarted (env : LocationPackages N) (files : LocationFiles) (db : LocationDb) : LocationDb :=
  match (records env files.deliveryLocations).bind (highestId env) with
  | some highest => { db with nextDeliveryLocationId := highest }
  | none => db

def recordsOf (env : LocationPackages N) (file : Option String) : List (JsonValue N) :=
  (records env file).getD []

/-- These are the first records, and the next one, if there is one, is the one that fails. -/
structure StopsAt (fails : JsonValue N → Prop) (before records : List (JsonValue N)) : Prop where
  first : before <+: records
  next : ∀ record, before ++ [record] <+: records → fails record

/-- What was created for the first records of one of the files, after all those of the files
before it; of a holding location perhaps without its delivery locations. -/
inductive LeftAt (env : LocationPackages N) (files : LocationFiles) (db : LocationDb) :
    LocationRows → Prop
  | libraries {before : List (JsonValue N)} {left : LocationDb}
      (stops : StopsAt (fun library => (createLibrary env library left).1 = none) before
        (recordsOf env files.libraries))
      (created : Unrestored.each (createLibrary env) before (emptied db) = (some (), left)) :
      LeftAt env files db left.toLocationRows
  | deliveryLocations {filled left : LocationDb} {before : List (JsonValue N)}
      (libraries : populateLibraries env files (emptied db) = (some (), filled))
      (stops : StopsAt (fun deliveryLocation =>
        (records env files.deliveryLocations).bind (highestId env) = none
          ∨ (createDeliveryLocation env deliveryLocation left).1 = none) before
        (recordsOf env files.deliveryLocations))
      (created : Unrestored.each (createDeliveryLocation env) before (restarted env files filled)
        = (some (), left)) : LeftAt env files db left.toLocationRows
  | holdingLocations {filled delivered left : LocationDb} {before : List (JsonValue N)}
      (libraries : populateLibraries env files (emptied db) = (some (), filled))
      (deliveryLocations : populateDeliveryLocations env files filled = (some (), delivered))
      (stops : StopsAt (fun holdingLocation =>
        (createHoldingLocation env holdingLocation left).1 = none) before
        (recordsOf env files.holdingLocations))
      (created : Unrestored.each (populateHoldingLocation env) before delivered = (some (), left)) :
      LeftAt env files db left.toLocationRows
  | holdingLocation {filled delivered complete left : LocationDb} {before : List (JsonValue N)}
      {record : JsonValue N} {id : Option ℤ}
      (libraries : populateLibraries env files (emptied db) = (some (), filled))
      (deliveryLocations : populateDeliveryLocations env files filled = (some (), delivered))
      (first : before ++ [record] <+: recordsOf env files.holdingLocations)
      (created : Unrestored.each (populateHoldingLocation env) before delivered
        = (some (), complete))
      (last : createHoldingLocation env record complete = (some id, left))
      (stops : (setDeliveryLocationIds record id left).1 = none) :
      LeftAt env files db left.toLocationRows

theorem deleteExistingAndRepopulate_eq (env : LocationPackages N) (files : LocationFiles)
    (db : LocationDb) :
    deleteExistingAndRepopulate env files db = (populateLibraries env files >>= fun _ =>
      populateDeliveryLocations env files >>= fun _ => populateHoldingLocations env files)
        (emptied db) := rfl

theorem restarted_toLocationRows (env : LocationPackages N) (files : LocationFiles)
    (db : LocationDb) :
    (restarted env files db).toLocationRows = db.toLocationRows := by
  unfold restarted
  split
  · rfl
  · rfl

theorem stopsAt_of_none {fails : JsonValue N → Prop} {file : Option String}
    (h : records env file = none) : StopsAt fails [] (recordsOf env file) := by
  rw [recordsOf, h]
  exact ⟨List.nil_prefix, fun _ hnext => absurd (List.prefix_nil.1 hnext) (List.cons_ne_nil _ _)⟩

theorem StopsAt.start {fails : JsonValue N → Prop} (h : ∀ record, fails record)
    (records : List (JsonValue N)) : StopsAt fails [] records :=
  ⟨List.nil_prefix, fun record _ => h record⟩

theorem stopsAt_recordsOf {fails : JsonValue N → Prop} {file : Option String}
    {before after : List (JsonValue N)} {record : JsonValue N}
    (h : records env file = some (before ++ record :: after)) (hfails : fails record) :
    StopsAt fails before (recordsOf env file) := by
  rw [recordsOf, h, Option.getD_some]
  refine ⟨List.prefix_append before _, fun next hnext => ?_⟩
  obtain ⟨rfl, -⟩ := List.cons_prefix_cons.1 ((List.prefix_append_right_inj before).1 hnext)
  exact hfails

theorem leftAt_of_libraries (h : (populateLibraries env files (emptied db)).1 = none) :
    LeftAt env files db (populateLibraries env files (emptied db)).2.toLocationRows := by
  rcases bind_raises h with ⟨hnone, hleft⟩ | ⟨libraries, s, hvalue, hraises, hleft⟩
  · rw [populateLibraries, hleft]
    exact .libraries (stopsAt_of_none hnone) rfl
  · obtain ⟨hlibraries, rfl⟩ := value_eq_some hvalue
    obtain ⟨before, library, after, left, rfl, hbefore, hlast, hsame⟩ := each_raises hraises
    have hunchanged : (createLibrary env library left).2 = left := step_raises hlast
    rw [populateLibraries, hleft, hsame, hunchanged]
    exact .libraries (stopsAt_recordsOf hlibraries hlast) hbefore

theorem leftAt_of_deliveryLocations {filled : LocationDb}
    (hfilled : populateLibraries env files (emptied db) = (some (), filled))
    (h : (populateDeliveryLocations env files filled).1 = none) :
    LeftAt env files db (populateDeliveryLocations env files filled).2.toLocationRows := by
  have hnothing : (records env files.deliveryLocations).bind (highestId env) = none →
      LeftAt env files db filled.toLocationRows := by
    intro hnone
    rw [← restarted_toLocationRows env files filled]
    exact .deliveryLocations hfilled (.start (fun _ => .inl hnone) _) rfl
  rcases bind_raises h with ⟨hnone, hleft⟩ | ⟨deliveryLocations, s, hvalue, hraises, hleft⟩
  · have hmissing : records env files.deliveryLocations = none := hnone
    rw [populateDeliveryLocations, hleft]
    exact hnothing (by rw [hmissing, Option.bind_none])
  · obtain ⟨hrecords, rfl⟩ := value_eq_some hvalue
    rw [populateDeliveryLocations, hleft]
    rcases bind_raises hraises with ⟨hnone, hleft'⟩ | ⟨highest, s, hvalue', hraises', hleft'⟩
    · rw [hleft']
      exact hnothing (by rw [hrecords]; exact hnone)
    · obtain ⟨hhighest, rfl⟩ := value_eq_some hvalue'
      rw [hleft']
      have hrestarted : restarted env files filled
          = { filled with nextDeliveryLocationId := highest } := by
        rw [restarted, hrecords, Option.bind_some, hhighest]
      obtain ⟨before, record, after, left, rfl, hbefore, hlast, hsame⟩ := each_raises hraises'
      have hunchanged : (createDeliveryLocation env record left).2 = left := step_raises hlast
      refine hsame.trans hunchanged ▸
        .deliveryLocations hfilled (stopsAt_recordsOf hrecords (.inr hlast)) ?_
      rw [hrestarted]
      exact hbefore

theorem leftAt_of_holdingLocations {filled delivered : LocationDb}
    (hfilled : populateLibraries env files (emptied db) = (some (), filled))
    (hdelivered : populateDeliveryLocations env files filled = (some (), delivered))
    (h : (populateHoldingLocations env files delivered).1 = none) :
    LeftAt env files db (populateHoldingLocations env files delivered).2.toLocationRows := by
  rcases bind_raises h with ⟨hnone, hleft⟩ | ⟨holdingLocations, s, hvalue, hraises, hleft⟩
  · rw [populateHoldingLocations, hleft]
    exact .holdingLocations hfilled hdelivered (stopsAt_of_none hnone) rfl
  · obtain ⟨hrecords, rfl⟩ := value_eq_some hvalue
    obtain ⟨before, record, after, complete, rfl, hbefore, hlast, hsame⟩ := each_raises hraises
    rw [populateHoldingLocations, hleft, hsame]
    rcases bind_raises hlast with ⟨hcreate, hleft'⟩ | ⟨id, left, hcreate, hset, hleft'⟩
    · have hunchanged : (createHoldingLocation env record complete).2 = complete :=
        step_raises hcreate
      rw [populateHoldingLocation, hleft', hunchanged]
      exact .holdingLocations hfilled hdelivered (stopsAt_recordsOf hrecords hcreate) hbefore
    · have hunchanged : (setDeliveryLocationIds record id left).2 = left := step_raises hset
      rw [populateHoldingLocation, hleft', hunchanged]
      have hfirst : before ++ [record] <+: recordsOf env files.holdingLocations := by
        rw [recordsOf, hrecords]
        exact ⟨after, List.append_assoc before [record] after⟩
      exact .holdingLocation hfilled hdelivered hfirst hbefore hcreate hset

theorem leftAt_of_raises (h : (deleteExistingAndRepopulate env files db).1 = none) :
    LeftAt env files db (deleteExistingAndRepopulate env files db).2.toLocationRows := by
  rw [deleteExistingAndRepopulate_eq] at h ⊢
  rcases bind_raises h with ⟨hraises, hleft⟩ | ⟨u, filled, hfilled, hraises, hleft⟩
  · rw [hleft]
    exact leftAt_of_libraries hraises
  · rw [hleft]
    rcases bind_raises hraises with
      ⟨hraises', hleft'⟩ | ⟨u, delivered, hdelivered, hraises', hleft'⟩
    · rw [hleft']
      exact leftAt_of_deliveryLocations hfilled hraises'
    · rw [hleft']
      exact leftAt_of_holdingLocations hfilled hdelivered hraises'

end Left

section Rows

/-- What the libraries are before and while the other tables are filled. -/
def NewLibraries (n : ℤ) (db : LocationDb) : Prop :=
  n ≤ db.nextLibraryId ∧ ∀ row ∈ db.libraries, n ≤ row.id

theorem createLibrary_keeps (n : ℤ) (library : JsonValue N) :
    Unrestored.Keeps
      (fun db => NewLibraries n db ∧ db.deliveryLocations = [] ∧ db.holdingLocations = [])
      (createLibrary env library) := by
  refine Unrestored.Keeps.step fun db hdb => ?_
  obtain ⟨⟨hnext, hrows⟩, hempty⟩ := hdb
  refine .bind fun label => .bind fun code => .bind fun order => .ite (.bind fun order => ?_) ?_
  · refine .ite .none (.some ⟨⟨?_, fun row hrow => ?_⟩, hempty⟩)
    · dsimp only
      omega
    · rcases List.mem_append.1 hrow with hrow | hrow
      · exact hrows row hrow
      · rw [List.mem_singleton.1 hrow]
        exact hnext
  · exact .some ⟨⟨hnext, hrows⟩, hempty⟩

/-- A delivery location is created with a library that is there. -/
theorem createDeliveryLocation_eq_some {deliveryLocation : JsonValue N} {left : LocationDb}
    (h : createDeliveryLocation env deliveryLocation db = (some (), left)) :
    db.libraries ≠ [] := by
  unfold createDeliveryLocation Unrestored.step at h
  split at h
  · rename_i r s hr
    obtain ⟨entry, -, hr⟩ := Option.bind_eq_some_iff.1 hr
    obtain ⟨code, -, hr⟩ := Option.bind_eq_some_iff.1 hr
    obtain ⟨found, -, hr⟩ := Option.bind_eq_some_iff.1 hr
    obtain ⟨library, -, -⟩ := Option.bind_eq_some_iff.1 hr
    exact List.ne_nil_of_mem library.2
  · cases h

theorem createDeliveryLocation_keeps {P : List LibraryRow → ℤ → List HoldingLocationRow → Prop}
    (deliveryLocation : JsonValue N) :
    Unrestored.Keeps (fun db => P db.libraries db.nextLibraryId db.holdingLocations)
      (createDeliveryLocation env deliveryLocation) := by
  refine Unrestored.Keeps.step fun db hdb => ?_
  repeat refine .bind fun _ => ?_
  refine .ite (.bind fun id => .ite .none ?_) ?_
  · exact .some hdb
  · exact .some hdb

theorem createHoldingLocation_keeps {P : List LibraryRow → ℤ → List DeliveryLocationRow → Prop}
    (holdingLocation : JsonValue N) :
    Unrestored.Keeps (fun db => P db.libraries db.nextLibraryId db.deliveryLocations)
      (createHoldingLocation env holdingLocation) := by
  refine Unrestored.Keeps.step fun db hdb => ?_
  repeat refine .bind fun _ => ?_
  rename_i locationsLibraryId _ _
  rcases locationsLibraryId with _ | libraryId
  · exact .some hdb
  · exact .ite (.ite .none (.some hdb)) (.some hdb)

theorem setDeliveryLocationIds_keeps {P : List LibraryRow → ℤ → List DeliveryLocationRow → Prop}
    (holdingLocation : JsonValue N) (id : Option ℤ) :
    Unrestored.Keeps (fun db => P db.libraries db.nextLibraryId db.deliveryLocations)
      (setDeliveryLocationIds holdingLocation id) := by
  refine Unrestored.Keeps.step fun db hdb => ?_
  repeat refine .bind fun _ => ?_
  rcases id with _ | id
  · exact .some hdb
  · exact .some hdb

theorem populateHoldingLocation_keeps
    {P : List LibraryRow → ℤ → List DeliveryLocationRow → Prop} (holdingLocation : JsonValue N) :
    Unrestored.Keeps (fun db => P db.libraries db.nextLibraryId db.deliveryLocations)
      (populateHoldingLocation env holdingLocation) :=
  (createHoldingLocation_keeps holdingLocation).bind fun id =>
    setDeliveryLocationIds_keeps holdingLocation id

theorem populateDeliveryLocations_keeps
    {P : List LibraryRow → ℤ → List HoldingLocationRow → Prop} :
    Unrestored.Keeps (fun db => P db.libraries db.nextLibraryId db.holdingLocations)
      (populateDeliveryLocations env files) :=
  (Unrestored.Keeps.value _).bind fun _ => (Unrestored.Keeps.value _).bind fun _ =>
    Unrestored.Keeps.bind (fun _ hdb => hdb) fun _ => .each createDeliveryLocation_keeps _

theorem populateLibraries_keeps (n : ℤ) :
    Unrestored.Keeps
      (fun db => NewLibraries n db ∧ db.deliveryLocations = [] ∧ db.holdingLocations = [])
      (populateLibraries env files) :=
  (Unrestored.Keeps.value _).bind fun _ => .each (createLibrary_keeps n) _

theorem createDeliveryLocation_libraries {deliveryLocations : List (JsonValue N)}
    {left : LocationDb} (hempty : db.libraries = [])
    (h : Unrestored.each (createDeliveryLocation env) deliveryLocations db = (some (), left)) :
    deliveryLocations = [] ∧ left = db := by
  rcases deliveryLocations with _ | ⟨deliveryLocation, rest⟩
  · exact ⟨rfl, (Prod.mk.inj h).2.symm⟩
  · exfalso
    obtain ⟨u, s, hfirst, -⟩ := bind_returns h
    exact createDeliveryLocation_eq_some hfirst hempty

/-- There is a highest id only if there are delivery locations, and none is created without a
library. -/
theorem populateDeliveryLocations_libraries {filled delivered : LocationDb}
    (h : populateDeliveryLocations env files filled = (some (), delivered)) :
    filled.libraries ≠ [] := by
  intro hempty
  obtain ⟨deliveryLocations, s, hvalue, h⟩ := bind_returns h
  obtain ⟨-, rfl⟩ := value_eq_some hvalue
  obtain ⟨highest, s, hvalue, h⟩ := bind_returns h
  obtain ⟨hhighest, rfl⟩ := value_eq_some hvalue
  obtain ⟨u, s, hchange, h⟩ := bind_returns h
  cases hchange
  obtain ⟨rfl, -⟩ := createDeliveryLocation_libraries (by exact hempty) h
  cases hhighest

theorem emptied_spec (db : LocationDb) :
    NewLibraries db.nextLibraryId (emptied db) ∧ (emptied db).deliveryLocations = []
      ∧ (emptied db).holdingLocations = [] :=
  ⟨⟨Int.le_refl _, fun _ hrow => by cases hrow⟩, rfl, rfl⟩

theorem filled_spec {filled : LocationDb}
    (h : populateLibraries env files (emptied db) = (some (), filled)) :
    NewLibraries db.nextLibraryId filled ∧ filled.deliveryLocations = []
      ∧ filled.holdingLocations = [] :=
  (populateLibraries_keeps db.nextLibraryId).of_eq (emptied_spec db) h

theorem delivered_libraries {filled delivered : LocationDb}
    (h : populateDeliveryLocations env files filled = (some (), delivered)) :
    delivered.libraries = filled.libraries := by
  have hkeeps : Unrestored.Keeps (fun db => db.libraries = filled.libraries)
      (populateDeliveryLocations env files) :=
    populateDeliveryLocations_keeps (P := fun rows _ _ => rows = filled.libraries)
  exact hkeeps.of_eq rfl h

theorem created_libraries {before : List (JsonValue N)} {complete : LocationDb}
    (h : Unrestored.each (populateHoldingLocation env) before db = (some (), complete)) :
    complete.libraries = db.libraries := by
  have hkeeps : Unrestored.Keeps (fun left => left.libraries = db.libraries)
      (Unrestored.each (populateHoldingLocation env) before) :=
    .each (populateHoldingLocation_keeps (P := fun rows _ _ => rows = db.libraries)) before
  exact hkeeps.of_eq rfl h

end Rows

section Raises

variable {tables : LocationRows}

theorem eq_empty {tables : LocationRows} (hlibraries : tables.libraries = [])
    (hdelivery : tables.deliveryLocations = []) (hholding : tables.holdingLocations = []) :
    tables = {} := by
  cases tables
  subst hlibraries hdelivery hholding
  rfl

theorem libraries_spec_of_delivered {filled delivered : LocationDb}
    (hfilled : populateLibraries env files (emptied db) = (some (), filled))
    (hdelivered : populateDeliveryLocations env files filled = (some (), delivered))
    (hsame : tables.libraries = filled.libraries) :
    (∀ row ∈ tables.libraries, db.nextLibraryId ≤ row.id)
      ∧ (tables.libraries = [] → tables = {}) := by
  obtain ⟨⟨-, hnew⟩, -⟩ := filled_spec hfilled
  refine ⟨fun row hrow => hnew row (hsame ▸ hrow), fun hempty => ?_⟩
  exact absurd (hsame.symm.trans hempty) (populateDeliveryLocations_libraries hdelivered)

/-- The libraries are new, and nothing is created without one. -/
theorem LeftAt.libraries_spec (h : LeftAt env files db tables) :
    (∀ row ∈ tables.libraries, db.nextLibraryId ≤ row.id)
      ∧ (tables.libraries = [] → tables = {}) := by
  cases h with
  | libraries stops created =>
    obtain ⟨⟨-, hnew⟩, hdelivery, hholding⟩ :=
      (Unrestored.Keeps.each (createLibrary_keeps db.nextLibraryId) _).of_eq (emptied_spec db)
        created
    exact ⟨hnew, fun hempty => eq_empty hempty hdelivery hholding⟩
  | @deliveryLocations filled left before libraries stops created =>
    obtain ⟨⟨-, hnew⟩, hdelivery, hholding⟩ := filled_spec libraries
    have hfilled := restarted_toLocationRows env files filled
    have hlibraries : left.libraries = filled.libraries := by
      have hkeeps : Unrestored.Keeps (fun db => db.libraries = filled.libraries)
          (Unrestored.each (createDeliveryLocation env) before) :=
        .each (createDeliveryLocation_keeps (P := fun rows _ _ => rows = filled.libraries)) before
      exact hkeeps.of_eq (congrArg LocationRows.libraries hfilled) created
    refine ⟨fun row hrow => hnew row (hlibraries ▸ hrow), fun hempty => ?_⟩
    obtain ⟨-, rfl⟩ := createDeliveryLocation_libraries (by rw [hfilled, ← hlibraries, hempty])
      created
    rw [hfilled] at hempty ⊢
    exact eq_empty hempty hdelivery hholding
  | @holdingLocations filled delivered left before libraries deliveryLocations stops created =>
    have hsame : left.libraries = filled.libraries :=
      (created_libraries created).trans (delivered_libraries deliveryLocations)
    exact libraries_spec_of_delivered libraries deliveryLocations hsame
  | @holdingLocation filled delivered complete left before record id libraries deliveryLocations
      first created last stops =>
    have hkeeps : Unrestored.Keeps (fun db => db.libraries = complete.libraries)
        (createHoldingLocation env record) :=
      createHoldingLocation_keeps (P := fun rows _ _ => rows = complete.libraries) record
    have hlast : left.libraries = complete.libraries := hkeeps.of_eq rfl last
    have hsame : left.libraries = filled.libraries :=
      (hlast.trans (created_libraries created)).trans (delivered_libraries deliveryLocations)
    exact libraries_spec_of_delivered libraries deliveryLocations hsame

/-- The library that is created first has an id that none of the former ones had. -/
theorem LeftAt.eq_iff (h : LeftAt env files db tables)
    (hids : ∀ row ∈ db.libraries, row.id < db.nextLibraryId) :
    tables = db.toLocationRows ↔ db.toLocationRows = {} ∧ tables.libraries = [] := by
  obtain ⟨hnew, hempty⟩ := h.libraries_spec
  constructor
  · rintro rfl
    have hnone : db.libraries = [] := by
      rw [List.eq_nil_iff_forall_not_mem]
      intro row hrow
      have := hids row hrow
      have := hnew row hrow
      omega
    exact ⟨hempty hnone, hnone⟩
  · rintro ⟨hbefore, hnone⟩
    rw [hempty hnone, hbefore]

theorem deleteExistingAndRepopulate_raises (env : LocationPackages N) (files : LocationFiles)
    (db : LocationDb) (h : (deleteExistingAndRepopulate env files db).1 = none) :
    LeftAt env files db (deleteExistingAndRepopulate env files db).2.toLocationRows
      ∧ ((∀ row ∈ db.libraries, row.id < db.nextLibraryId) →
        ((deleteExistingAndRepopulate env files db).2.toLocationRows = db.toLocationRows
          ↔ db.toLocationRows = {}
            ∧ (deleteExistingAndRepopulate env files db).2.libraries = [])) :=
  ⟨leftAt_of_raises h, fun hids => (leftAt_of_raises h).eq_iff hids⟩

/-- The file of libraries is empty, and the other ones are missing. -/
def noLibraries : LocationFiles := ⟨some "[]", none, none⟩

/-- An empty array can be parsed, and there is nothing else to parse. -/
def emptyArrays : LocationPackages ℤ where
  parse text := if text = "[]" then some (.array []) else none
  highest _ _ := none
  restartAfter n := some (n + 1)
  castString
    | .string s => some s
    | _ => none
  castInteger
    | .number n => some (some n)
    | _ => some none
  castBoolean
    | .bool b => some b
    | _ => none
  findByCode rows code := match code with
    | .string s => some (rows.attach.find? fun row => row.val.code = some s)
    | _ => some none
  refusesLibrary _ := false
  refusesDeliveryLocation _ := false
  refusesHoldingLocation _ := false

def firestone : LocationDb where
  libraries := [⟨1, some "Firestone Library", some "firestone", some 1⟩]
  nextLibraryId := 2

theorem deleteExistingAndRepopulate_raises_firestone :
    LeftAt emptyArrays noLibraries firestone
        (deleteExistingAndRepopulate emptyArrays noLibraries firestone).2.toLocationRows
      ∧ ((deleteExistingAndRepopulate emptyArrays noLibraries firestone).2.toLocationRows
          = firestone.toLocationRows
        ↔ firestone.toLocationRows = {}
          ∧ (deleteExistingAndRepopulate emptyArrays noLibraries firestone).2.libraries = []) :=
  (deleteExistingAndRepopulate_raises emptyArrays noLibraries firestone (by decide)).imp_right
    fun hsame => hsame (by decide)

/-- The library has been deleted, and it is not created again. -/
theorem not_restored_firestone :
    (deleteExistingAndRepopulate emptyArrays noLibraries firestone).1 = none
      ∧ (deleteExistingAndRepopulate emptyArrays noLibraries firestone).2.toLocationRows
        ≠ firestone.toLocationRows :=
  ⟨by decide, by decide⟩

end Raises

end LocationDataService

end Bibdata
