import Bibdata.Library.Raising
import Bibdata.Locations
import Bibdata.Proofs.LocationData

/-!
# The copies of the locations agree

Each row of the database describes an entry of the file, and an entry that is accepted has a row
with its code. Where the file has every code once, and the labels of the libraries that it repeats
are those of the file of libraries, the database and the translation maps have for every code
either the labels that `HOLDING_LOCATIONS` has or, if the entry is not accepted, none.
-/

namespace Bibdata

namespace LocationDataService

open Unrestored (bind_returns value_eq_some each_returns)

variable {N : Type} {env : LocationPackages N} {files : LocationFiles} {db left : LocationDb}

section Created

def flagKeys : List String :=
  ["aeon_location", "recap_electronic_delivery_location", "open", "requestable",
    "always_requestable", "circulates"]

/-- The entry has a code, each flag is told, and its library is there. -/
structure Accepted (env : LocationPackages N) (db : LocationDb) (holding : JsonValue N) :
    Prop where
  code : ∃ code, holding.index "code" = some code ∧ present (env.castString code)
  flags : ∀ key ∈ flagKeys, ∃ flag, holding.index key = some flag ∧ (env.castBoolean flag).isSome
  library : ∃ library id, holding.index "library" = some library
    ∧ idOfLibrary env db library = some (some id)

/-- The row has the label, the code and the library of the entry. -/
structure Describes (env : LocationPackages N) (db : LocationDb) (holding : JsonValue N)
    (row : HoldingLocationRow) : Prop where
  label : (holding.index "label").map env.castString = some row.label
  code : (holding.index "code").map env.castString = some row.code
  present : present row.code
  library : ∃ library, holding.index "library" = some library
    ∧ idOfLibrary env db library = some (some row.locationsLibraryId)

theorem idOfLibrary_congr {db' : LocationDb} (h : db'.libraries = db.libraries) :
    idOfLibrary env db' = idOfLibrary env db := by
  have hid : libraryId env db' = libraryId env db := by
    funext code
    unfold libraryId
    rw [h]
  funext library
  unfold idOfLibrary
  rw [hid]

theorem createHoldingLocation_spec {holding : JsonValue N} {id : Option ℤ}
    (h : createHoldingLocation env holding db = (some id, left)) :
    (∃ row, left.holdingLocations = db.holdingLocations ++ [row]
        ∧ Accepted env db holding ∧ Describes env db holding row
        ∧ ∀ other ∈ db.holdingLocations, other.code ≠ row.code)
      ∨ left = db ∧ (Accepted env db holding → ∃ row ∈ db.holdingLocations,
          (holding.index "code").map env.castString = some row.code) := by
  unfold createHoldingLocation Unrestored.step at h
  split at h
  · rename_i r s hr
    obtain ⟨rfl, rfl⟩ : r = id ∧ s = left := by simpa using h
    obtain ⟨label, hlabel, hr⟩ := Option.bind_eq_some_iff.1 hr
    obtain ⟨code, hcode, hr⟩ := Option.bind_eq_some_iff.1 hr
    obtain ⟨aeon, haeon, hr⟩ := Option.bind_eq_some_iff.1 hr
    obtain ⟨recap, hrecap, hr⟩ := Option.bind_eq_some_iff.1 hr
    obtain ⟨isOpen, hopen, hr⟩ := Option.bind_eq_some_iff.1 hr
    obtain ⟨requestable, hrequestable, hr⟩ := Option.bind_eq_some_iff.1 hr
    obtain ⟨always, halways, hr⟩ := Option.bind_eq_some_iff.1 hr
    obtain ⟨circulates, hcirculates, hr⟩ := Option.bind_eq_some_iff.1 hr
    obtain ⟨storage, -, hr⟩ := Option.bind_eq_some_iff.1 hr
    obtain ⟨unit, -, hr⟩ := Option.bind_eq_some_iff.1 hr
    obtain ⟨library, hlibrary, hr⟩ := Option.bind_eq_some_iff.1 hr
    obtain ⟨locationsLibraryId, hid, hr⟩ := Option.bind_eq_some_iff.1 hr
    obtain ⟨holding', -, hr⟩ := Option.bind_eq_some_iff.1 hr
    obtain ⟨holdingLibraryId, -, hr⟩ := Option.bind_eq_some_iff.1 hr
    have hflags : (∀ key ∈ flagKeys, ∃ flag, holding.index key = some flag
          ∧ (env.castBoolean flag).isSome)
        ↔ [env.castBoolean aeon, env.castBoolean recap, env.castBoolean isOpen,
          env.castBoolean requestable, env.castBoolean always,
          env.castBoolean circulates].all Option.isSome := by
      simp [flagKeys, haeon, hrecap, hopen, hrequestable, halways, hcirculates]
    rcases locationsLibraryId with _ | libraryId
    · obtain ⟨rfl, rfl⟩ := Prod.mk.inj (Option.some.inj hr)
      refine .inr ⟨rfl, fun haccepted => ?_⟩
      obtain ⟨library', id, hlibrary', hid'⟩ := haccepted.library
      rw [hlibrary] at hlibrary'
      cases hlibrary'
      rw [hid] at hid'
      cases hid'
    · dsimp only at hr
      split_ifs at hr with hvalid hrefused
      · obtain ⟨-, rfl⟩ := Prod.mk.inj (Option.some.inj hr)
        simp only [Bool.and_eq_true] at hvalid
        obtain ⟨⟨hpresent, hfresh⟩, htold⟩ := hvalid
        refine .inl ⟨_, rfl, ?_, ?_, ?_⟩
        · exact ⟨⟨code, hcode, hpresent⟩, hflags.2 htold, library, libraryId, hlibrary, hid⟩
        · exact ⟨by rw [hlabel, Option.map_some], by rw [hcode, Option.map_some], hpresent, library,
            hlibrary, hid⟩
        · intro other hother
          simpa using List.all_eq_true.1 hfresh other hother
      · obtain ⟨rfl, rfl⟩ := Prod.mk.inj (Option.some.inj hr)
        refine .inr ⟨rfl, fun haccepted => ?_⟩
        obtain ⟨code', hcode', hpresent⟩ := haccepted.code
        rw [hcode] at hcode'
        cases hcode'
        by_contra hnone
        refine hvalid ?_
        simp only [Bool.and_eq_true]
        refine ⟨⟨hpresent, List.all_eq_true.2 fun row hrow => decide_eq_true fun hsame => ?_⟩,
          hflags.1 haccepted.flags⟩
        exact hnone ⟨row, hrow, by rw [hcode, Option.map_some, hsame]⟩
  · cases h

theorem Accepted.congr {db' : LocationDb} (h : db'.libraries = db.libraries)
    {holding : JsonValue N} (haccepted : Accepted env db holding) : Accepted env db' holding := by
  obtain ⟨library, id, hlibrary, hid⟩ := haccepted.library
  exact ⟨haccepted.code, haccepted.flags, library, id, hlibrary, by rw [idOfLibrary_congr h, hid]⟩

theorem Describes.congr {db' : LocationDb} (h : db'.libraries = db.libraries)
    {holding : JsonValue N} {row : HoldingLocationRow} (hrow : Describes env db holding row) :
    Describes env db' holding row := by
  obtain ⟨library, hlibrary, hid⟩ := hrow.library
  exact ⟨hrow.label, hrow.code, hrow.present, library, hlibrary, by rw [idOfLibrary_congr h, hid]⟩

theorem setDeliveryLocationIds_rows {holding : JsonValue N} {id : Option ℤ}
    (h : setDeliveryLocationIds holding id db = (some (), left)) :
    left.toLocationRows = db.toLocationRows := by
  have hkeeps : Unrestored.Keeps (fun left : LocationDb => left.toLocationRows = db.toLocationRows)
      (setDeliveryLocationIds holding id) := by
    refine Unrestored.Keeps.step fun left hleft => ?_
    repeat refine .bind fun _ => ?_
    rcases id with _ | id
    · exact .some hleft
    · exact .some hleft
  exact hkeeps.of_eq rfl h

/-- The new rows are those of accepted entries, with codes of their own, and each accepted entry
has a row. -/
structure Populated (env : LocationPackages N) (holdings : List (JsonValue N))
    (db left : LocationDb) : Prop where
  libraries : left.libraries = db.libraries
  rows : ∀ row ∈ left.holdingLocations, row ∈ db.holdingLocations
    ∨ ∃ holding ∈ holdings, Accepted env db holding ∧ Describes env db holding row
  kept : ∀ row ∈ db.holdingLocations, row ∈ left.holdingLocations
  codes : (db.holdingLocations.map (·.code)).Nodup → (left.holdingLocations.map (·.code)).Nodup
  created : ∀ holding ∈ holdings, Accepted env db holding →
    ∃ row ∈ left.holdingLocations, (holding.index "code").map env.castString = some row.code

theorem populateHoldingLocation_spec {holding : JsonValue N}
    (h : populateHoldingLocation env holding db = (some (), left)) :
    Populated env [holding] db left := by
  obtain ⟨id, created, hcreate, hset⟩ := bind_returns h
  have hrows := setDeliveryLocationIds_rows hset
  have hlibraries : created.libraries = db.libraries :=
    (createHoldingLocation_keeps (P := fun rows _ _ => rows = db.libraries) holding).of_eq rfl
      hcreate
  have hleft : left.libraries = db.libraries :=
    (congrArg LocationRows.libraries hrows).trans hlibraries
  have hholdings : left.holdingLocations = created.holdingLocations :=
    congrArg LocationRows.holdingLocations hrows
  rcases createHoldingLocation_spec hcreate with
    ⟨row, hnew, haccepted, hdescribes, hfresh⟩ | ⟨rfl, htaken⟩
  · refine ⟨hleft, fun other hother => ?_, fun other hother => ?_, fun hcodes => ?_,
      fun other hother _ => ?_⟩
    · rw [hholdings, hnew] at hother
      rcases List.mem_append.1 hother with hother | hother
      · exact .inl hother
      · rw [List.mem_singleton.1 hother]
        exact .inr ⟨holding, List.mem_singleton.2 rfl, haccepted, hdescribes⟩
    · rw [hholdings, hnew]
      exact List.mem_append_left _ hother
    · rw [hholdings, hnew, List.map_append, List.nodup_append]
      refine ⟨hcodes, List.nodup_singleton _, fun a ha b hb => ?_⟩
      obtain ⟨other, hother, rfl⟩ := List.mem_map.1 ha
      rw [List.mem_singleton.1 hb]
      exact hfresh other hother
    · rw [List.mem_singleton.1 hother, hholdings, hnew]
      exact ⟨row, List.mem_append_right _ (List.mem_singleton.2 rfl), hdescribes.code⟩
  · refine ⟨hleft, fun other hother => .inl (hholdings ▸ hother), fun other hother => ?_,
      fun hcodes => hholdings ▸ hcodes, fun other hother haccepted => ?_⟩
    · exact hholdings ▸ hother
    · rw [List.mem_singleton.1 hother] at haccepted ⊢
      rw [hholdings]
      exact htaken haccepted

theorem Populated.trans {holdings holdings' : List (JsonValue N)} {last : LocationDb}
    (h : Populated env holdings db left) (h' : Populated env holdings' left last) :
    Populated env (holdings ++ holdings') db last := by
  refine ⟨h'.libraries.trans h.libraries, fun row hrow => ?_, fun row hrow => ?_,
    fun hcodes => h'.codes (h.codes hcodes), fun holding hholding haccepted => ?_⟩
  · rcases h'.rows row hrow with hrow | ⟨holding, hholding, haccepted, hdescribes⟩
    · rcases h.rows row hrow with hrow | ⟨holding, hholding, hdescribes⟩
      · exact .inl hrow
      · exact .inr ⟨holding, List.mem_append_left _ hholding, hdescribes⟩
    · exact .inr ⟨holding, List.mem_append_right _ hholding, haccepted.congr h.libraries.symm,
        hdescribes.congr h.libraries.symm⟩
  · exact h'.kept row (h.kept row hrow)
  · rcases List.mem_append.1 hholding with hholding | hholding
    · obtain ⟨row, hrow, hcode⟩ := h.created holding hholding haccepted
      exact ⟨row, h'.kept row hrow, hcode⟩
    · exact h'.created holding hholding (haccepted.congr h.libraries)

theorem each_populateHoldingLocation {holdings : List (JsonValue N)}
    (h : Unrestored.each (populateHoldingLocation env) holdings db = (some (), left)) :
    Populated env holdings db left := by
  induction holdings generalizing db with
  | nil =>
    obtain ⟨-, rfl⟩ := Prod.mk.inj h
    exact ⟨rfl, fun _ hrow => .inl hrow, fun _ hrow => hrow, id,
      fun _ hholding => absurd hholding List.not_mem_nil⟩
  | cons holding holdings ih =>
    obtain ⟨u, created, hfirst, hrest⟩ := bind_returns h
    exact (populateHoldingLocation_spec hfirst).trans (ih hrest)

end Created

section Filled

/-- The libraries are those of entries of the file, with ids of their own. -/
structure OfFile (env : LocationPackages N) (libraries : List (JsonValue N)) (db : LocationDb) :
    Prop where
  ids : (db.libraries.map (·.id)).Nodup
  rows : ∀ row ∈ db.libraries, ∃ library ∈ libraries,
    (library.index "label").map env.castString = some row.label
      ∧ (library.index "code").map env.castString = some row.code

theorem createLibrary_ofFile {libraries : List (JsonValue N)} {library : JsonValue N}
    (hlibrary : library ∈ libraries) :
    Unrestored.Keeps (OfFile env libraries) (createLibrary env library) := by
  refine Unrestored.Keeps.step fun db hdb => ?_
  intro r hr
  obtain ⟨label, hlabel, hr⟩ := Option.bind_eq_some_iff.1 hr
  obtain ⟨code, hcode, hr⟩ := Option.bind_eq_some_iff.1 hr
  obtain ⟨order, -, hr⟩ := Option.bind_eq_some_iff.1 hr
  dsimp only at hr
  split_ifs at hr with hvalid
  · obtain ⟨order', -, hr⟩ := Option.bind_eq_some_iff.1 hr
    split_ifs at hr with hrefused
    cases hr
    refine ⟨?_, fun row hrow => ?_⟩
    · rw [List.map_append, List.nodup_append]
      refine ⟨hdb.ids, List.nodup_singleton _, fun a ha b hb hsame => hrefused ?_⟩
      obtain ⟨row, hrow, rfl⟩ := List.mem_map.1 ha
      rw [List.map_singleton, List.mem_singleton] at hb
      rw [Bool.or_eq_true, List.any_eq_true]
      exact .inr ⟨row, hrow, decide_eq_true (hsame.trans hb)⟩
    · rcases List.mem_append.1 hrow with hrow | hrow
      · exact hdb.rows row hrow
      · rw [List.mem_singleton.1 hrow]
        exact ⟨library, hlibrary, by rw [hlabel, Option.map_some], by rw [hcode, Option.map_some]⟩
  · cases hr
    exact hdb

theorem filled_ofFile {filled : LocationDb}
    (h : populateLibraries env files (emptied db) = (some (), filled)) :
    OfFile env (recordsOf env files.libraries) filled := by
  obtain ⟨libraries, s, hvalue, heach⟩ := bind_returns h
  obtain ⟨hrecords, rfl⟩ := value_eq_some hvalue
  have hstart : OfFile env libraries (emptied db) :=
    ⟨List.nodup_nil, fun _ hrow => absurd hrow List.not_mem_nil⟩
  rw [recordsOf, hrecords, Option.getD_some]
  exact (Unrestored.Keeps.each_of_mem fun _ hlibrary => createLibrary_ofFile hlibrary).of_eq hstart
    heach

theorem delivered_holdings {filled delivered : LocationDb}
    (h : populateDeliveryLocations env files filled = (some (), delivered)) :
    delivered.holdingLocations = filled.holdingLocations :=
  (populateDeliveryLocations_keeps (P := fun _ _ rows => rows = filled.holdingLocations)).of_eq rfl
    h

/-- After a call that comes to its end. -/
theorem repopulated_spec (h : deleteExistingAndRepopulate env files db = (some (), left)) :
    OfFile env (recordsOf env files.libraries) left
      ∧ ∃ delivered, delivered.holdingLocations = []
        ∧ Populated env (recordsOf env files.holdingLocations) delivered left := by
  rw [deleteExistingAndRepopulate_eq] at h
  obtain ⟨u, filled, hfilled, h⟩ := bind_returns h
  obtain ⟨u, delivered, hdelivered, h⟩ := bind_returns h
  obtain ⟨holdings, s, hvalue, heach⟩ := bind_returns h
  obtain ⟨hrecords, rfl⟩ := value_eq_some hvalue
  have hpopulated := each_populateHoldingLocation heach
  have hlibraries : left.libraries = filled.libraries :=
    hpopulated.libraries.trans (delivered_libraries hdelivered)
  have hfile := filled_ofFile hfilled
  refine ⟨⟨by rw [hlibraries]; exact hfile.ids, by rw [hlibraries]; exact hfile.rows⟩, delivered,
    ?_, ?_⟩
  · rw [delivered_holdings hdelivered, (filled_spec hfilled).2.2]
  · rw [recordsOf, hrecords, Option.getD_some]
    exact hpopulated

end Filled

section Labels

theorem idOfLibrary_eq_some {library : JsonValue N} {id : ℤ}
    (h : idOfLibrary env db library = some (some id)) :
    ∃ code row, library.index "code" = some code
      ∧ env.findByCode db.libraries code = some (some row) ∧ row.val.id = id := by
  unfold idOfLibrary libraryId at h
  split_ifs at h with htruthy
  · obtain ⟨code, hcode, h⟩ := Option.bind_eq_some_iff.1 h
    split_ifs at h with hcode'
    · obtain ⟨found, hfound, h⟩ := Option.map_eq_some_iff.1 h
      obtain ⟨row, rfl, rfl⟩ := Option.map_eq_some_iff.1 h
      exact ⟨code, row, hcode, hfound, rfl⟩
    · cases h
  · cases h

/-- The row of its library is there, and is found by its id. -/
theorem libraryOf_of_describes {libraries : List (JsonValue N)} {holding : JsonValue N}
    {row : HoldingLocationRow} (hfile : OfFile env libraries db)
    (hrow : Describes env db holding row) :
    ∃ library code, ∃ found : {found // found ∈ db.libraries}, holding.index "library" = some library
      ∧ library.index "code" = some code ∧ env.findByCode db.libraries code = some (some found)
      ∧ db.libraryOf row = some found.val := by
  obtain ⟨library, hlibrary, hid⟩ := hrow.library
  obtain ⟨code, found, hcode, hfound, hsame⟩ := idOfLibrary_eq_some hid
  refine ⟨library, code, found, hlibrary, hcode, hfound, ?_⟩
  rw [LocationDb.libraryOf, ← hsame]
  exact OrderedHash.find_of_nodup hfile.ids found.2

end Labels

end LocationDataService

namespace LocationMapsGeneratorService

open OrderedHash (setAll get_setAll lastSet lastSet_of_nodup lastSet_eq_none)

variable {db : LocationDb} {locations : List HoldingLocationRow}

theorem foldlM_addLocation {libraryOf : HoldingLocationRow → LibraryRow}
    (h : ∀ row ∈ locations, db.libraryOf row = some (libraryOf row)) (maps : LocationMaps) :
    locations.foldlM (addLocation db) maps = some
      { libDisplay := maps.libDisplay.setAll
          (locations.map fun row => (row.code, (libraryOf row).label))
        locationsDisplay := maps.locationsDisplay.setAll
          (locations.map fun row => (row.code, row.label)) } := by
  induction locations generalizing maps with
  | nil => rfl
  | cons row rest ih =>
    rw [List.foldlM_cons, addLocation, h row List.mem_cons_self]
    exact ih (fun other hother => h other (List.mem_cons_of_mem _ hother)) _

/-- The maps have what the database has, in whatever order its rows come. -/
theorem labels_generate (hall : locations.Perm db.holdingLocations)
    (hcodes : (db.holdingLocations.map (·.code)).Nodup)
    (h : ∀ row ∈ db.holdingLocations, (db.libraryOf row).isSome) :
    ∃ maps, generate db locations = some maps ∧ ∀ code, maps.labels code = db.labels code := by
  have hlibraries : ∀ row ∈ locations, db.libraryOf row = some ((db.libraryOf row).getD ⟨0, none,
      none, none⟩) := by
    intro row hrow
    obtain ⟨library, hlibrary⟩ := Option.isSome_iff_exists.1 (h row (hall.mem_iff.1 hrow))
    rw [hlibrary, Option.getD_some]
  have hnodup : (locations.map (·.code)).Nodup := (hall.map _).nodup_iff.2 hcodes
  refine ⟨_, foldlM_addLocation hlibraries {}, fun code => ?_⟩
  have hget : ∀ value : HoldingLocationRow → Option String,
      (setAll ({} : OrderedHash (Option String) (Option String))
        (locations.map fun row => (row.code, value row))).get (some code)
        = (db.findHoldingLocation code).map value := by
    intro value
    rw [get_setAll]
    cases hfind : db.findHoldingLocation code with
    | none =>
      have hnone : lastSet (locations.map fun row => (row.code, value row)) (some code) = none := by
        refine lastSet_eq_none.2 fun e he => ?_
        obtain ⟨row, hrow, rfl⟩ := List.mem_map.1 he
        simpa using List.find?_eq_none.1 hfind row (hall.mem_iff.1 hrow)
      rw [hnone]
      rfl
    | some row =>
      have hcode : row.code = some code := by simpa using List.find?_some hfind
      have hrow : row ∈ locations := hall.mem_iff.2 (List.mem_of_find?_eq_some hfind)
      rw [lastSet_of_nodup (v := value row), Option.some_or, Option.map_some]
      · rwa [List.map_map]
      · exact List.mem_map.2 ⟨row, hrow, by rw [hcode]⟩
  rw [LocationMaps.labels, hget, hget, LocationDb.labels]
  cases hfind : db.findHoldingLocation code with
  | none => rfl
  | some row =>
    rw [Option.map_some, Option.bind_some, Option.map_some, Option.map_some, Option.bind_some,
      hlibraries row (hall.mem_iff.2 (List.mem_of_find?_eq_some hfind)), Option.map_some,
      Option.getD_some]

end LocationMapsGeneratorService

namespace LocationDataService

open OrderedHash (lastSet_of_nodup)

variable {N : Type} {env : LocationPackages N} {files : LocationFiles} {db left : LocationDb}

section Copies

/-- What the database does with strings. -/
structure ReadsStrings (env : LocationPackages N) : Prop where
  castString : ∀ s, env.castString (.string s) = some s
  findByCode : ∀ rows code row,
    env.findByCode rows (.string code) = some (some row) → row.val.code = some code

/-- A holding location repeats the label that the file of libraries has for its library. -/
def LibrariesAgree (env : LocationPackages N) (libraries holdings : List (JsonValue N)) : Prop :=
  ∀ holding ∈ holdings, ∀ library, holding.get "library" = some library →
    ∃ code label, library.get "code" = some (.string code)
      ∧ library.get "label" = some (.string label)
      ∧ ∀ entry ∈ libraries, (entry.index "code").map env.castString = some (some code) →
        entry.index "label" = some (.string label)

theorem index_of_get {json value : JsonValue N} {key : String} (h : json.get key = some value) :
    json.index key = some value := by
  cases json with
  | object members =>
    change some (((JsonValue.object members).get key).getD .null) = some value
    rw [h, Option.getD_some]
  | _ => cases h

theorem asStr_eq_some {json : JsonValue N} {s : String} (h : json.asStr = some s) :
    json = .string s := by
  cases json with
  | string t => rw [Option.some.inj h]
  | _ => cases h

theorem libraryOfJson_of_get {library : JsonValue N} {label : String}
    (h : library.get "label" = some (.string label)) :
    Location.libraryOfJson library = some label := by
  cases library with
  | object members =>
    change ((JsonValue.object members).get "label").bind JsonValue.asStr = some label
    rw [h, Option.bind_some, JsonValue.asStr]
  | _ => cases h

/-- An entry with fields that both languages read. -/
theorem ofJson_eq_some {holding : JsonValue N} {location : Location}
    (h : Location.ofJson holding = some location) (hindex : (holding.index "code").isSome) :
    holding.get "label" = some (.string location.label)
      ∧ holding.get "code" = some (.string location.code)
      ∧ ∃ library, holding.get "library" = some library
        ∧ Location.libraryOfJson library = some location.library := by
  unfold Location.ofJson at h
  split at h
  · cases hindex
  · simp only [Option.bind_eq_bind, Option.bind_eq_some_iff] at h
    obtain ⟨labelJson, hlabel, label, hlabel', codeJson, hcode, code, hcode', library, hlibrary,
      libraryLabel, hlibrary', h⟩ := h
    cases h
    exact ⟨by rw [hlabel, asStr_eq_some hlabel'], by rw [hcode, asStr_eq_some hcode'], library,
      hlibrary, hlibrary'⟩

theorem records_eq {json : JsonValue N} {locations : List Location}
    (hjson : files.holdingLocations.bind env.parse = some json)
    (hlocations : Location.listOfJson json = some locations) :
    (recordsOf env files.holdingLocations).mapM Location.ofJson = some locations := by
  cases json with
  | array holdings =>
    rw [recordsOf, records, hjson]
    exact hlocations
  | _ => cases hlocations

/-- A row and the entry of the library that indexes. -/
theorem labels_of_describes {libraries : List (JsonValue N)} {holding : JsonValue N}
    {row : HoldingLocationRow} {location : Location} (hreads : ReadsStrings env)
    (hfile : OfFile env libraries db) (hagree : LibrariesAgree env libraries [holding])
    (hlocation : Location.ofJson holding = some location) (hrow : Describes env db holding row) :
    row.code = some location.code ∧ row.label = some location.label
      ∧ (db.libraryOf row).map (·.label) = some (some location.library) := by
  have hindex : (holding.index "code").isSome := by
    obtain ⟨code, hcode, -⟩ := Option.map_eq_some_iff.1 hrow.code
    rw [hcode, Option.isSome_some]
  obtain ⟨hlabel, hcode, library, hlibrary, hlibraryLabel⟩ := ofJson_eq_some hlocation hindex
  refine ⟨?_, ?_, ?_⟩
  · have h := hrow.code
    rw [index_of_get hcode, Option.map_some, hreads.castString] at h
    exact (Option.some.inj h).symm
  · have h := hrow.label
    rw [index_of_get hlabel, Option.map_some, hreads.castString] at h
    exact (Option.some.inj h).symm
  · obtain ⟨libraryJson, codeJson, found, hlibraryJson, hcodeJson, hfound, hof⟩ :=
      libraryOf_of_describes hfile hrow
    rw [index_of_get hlibrary] at hlibraryJson
    obtain rfl := Option.some.inj hlibraryJson
    obtain ⟨code, label, hget, hgetLabel, hsame⟩ :=
      hagree holding (List.mem_singleton.2 rfl) library hlibrary
    rw [index_of_get hget] at hcodeJson
    obtain rfl := Option.some.inj hcodeJson
    obtain ⟨entry, hentry, hentryLabel, hentryCode⟩ := hfile.rows found.val found.2
    rw [hreads.findByCode _ _ _ hfound] at hentryCode
    rw [hsame entry hentry hentryCode, Option.map_some, hreads.castString] at hentryLabel
    rw [libraryOfJson_of_get hgetLabel] at hlibraryLabel
    rw [hof, Option.map_some, ← Option.some.inj hentryLabel, Option.some.inj hlibraryLabel]

theorem locationLabel_ofTable {locations : List Location} {location : Location}
    (hcodes : (locations.map (·.code)).Nodup) (h : location ∈ locations) :
    (HoldingLocations.ofTable (Location.table locations)).labels location.code
      = some (some location.label, some location.library) := by
  have hget : (Location.table locations).get location.code = some location := by
    rw [Location.table, OrderedHash.ofList, OrderedHash.get_setAll,
      lastSet_of_nodup (v := location), Option.some_or]
    · rwa [List.map_map]
    · exact List.mem_map.2 ⟨location, h, rfl⟩
  simp only [HoldingLocations.labels, HoldingLocations.ofTable, hget, Option.map_some,
    Option.bind_some]

/-- Whatever was in the database before, and in whatever order it gives its rows. -/
theorem labels_of_repopulated (env : LocationPackages N) (files : LocationFiles)
    (db left : LocationDb) {json : JsonValue N} {locations : List Location}
    {all : List HoldingLocationRow} (hreads : ReadsStrings env)
    (hjson : files.holdingLocations.bind env.parse = some json)
    (hlocations : Location.listOfJson json = some locations)
    (hcodes : (locations.map (·.code)).Nodup)
    (hagree : LibrariesAgree env (recordsOf env files.libraries)
      (recordsOf env files.holdingLocations))
    (hrun : deleteExistingAndRepopulate env files db = (some (), left))
    (hall : all.Perm left.holdingLocations) :
    ∃ maps, LocationMapsGeneratorService.generate left all = some maps ∧ ∀ code,
      maps.labels code = left.labels code
        ∧ (∀ labels, left.labels code = some labels →
          (HoldingLocations.ofTable (Location.table locations)).labels code = some labels)
        ∧ ((left.labels code).isSome ↔ ∃ holding ∈ recordsOf env files.holdingLocations,
          holding.get "code" = some (.string code) ∧ Accepted env left holding) := by
  obtain ⟨hfile, delivered, hempty, hpopulated⟩ := repopulated_spec hrun
  have hentries := Raising.mem_of_mapM (records_eq hjson hlocations)
  have hrows : ∀ row ∈ left.holdingLocations, ∃ holding ∈ recordsOf env files.holdingLocations,
      Accepted env left holding ∧ Describes env left holding row := by
    intro row hrow
    rcases hpopulated.rows row hrow with hold | ⟨holding, hholding, haccepted, hdescribes⟩
    · rw [hempty] at hold
      cases hold
    · exact ⟨holding, hholding, haccepted.congr hpopulated.libraries,
        hdescribes.congr hpopulated.libraries⟩
  have hagree' : ∀ holding ∈ recordsOf env files.holdingLocations,
      LibrariesAgree env (recordsOf env files.libraries) [holding] := by
    intro holding hholding other hother
    rw [List.mem_singleton.1 hother]
    exact hagree holding hholding
  have hlibrary : ∀ row ∈ left.holdingLocations, (left.libraryOf row).isSome := by
    intro row hrow
    obtain ⟨holding, -, -, hdescribes⟩ := hrows row hrow
    obtain ⟨-, -, found, -, -, -, hof⟩ := libraryOf_of_describes hfile hdescribes
    rw [hof, Option.isSome_some]
  have hnodup : (left.holdingLocations.map (·.code)).Nodup :=
    hpopulated.codes (by rw [hempty]; exact List.nodup_nil)
  obtain ⟨maps, hmaps, hsame⟩ := LocationMapsGeneratorService.labels_generate hall hnodup hlibrary
  refine ⟨maps, hmaps, fun code => ⟨hsame code, fun labels hlabels => ?_, ?_, ?_⟩⟩
  · obtain ⟨row, hfind, hlabels⟩ := Option.bind_eq_some_iff.1 hlabels
    have hrow := List.mem_of_find?_eq_some hfind
    have hcode : row.code = some code := by simpa using List.find?_some hfind
    obtain ⟨holding, hholding, -, hdescribes⟩ := hrows row hrow
    obtain ⟨location, hlocation, hof⟩ := hentries holding hholding
    obtain ⟨hcode', hlabel, hlabel'⟩ :=
      labels_of_describes hreads hfile (hagree' holding hholding) hof hdescribes
    obtain ⟨library, hlib, rfl⟩ := Option.map_eq_some_iff.1 hlabels
    rw [hlib, Option.map_some] at hlabel'
    rw [hcode] at hcode'
    rw [Option.some.inj hcode', locationLabel_ofTable hcodes hlocation, hlabel,
      Option.some.inj hlabel']
  · intro hsome
    obtain ⟨labels, hlabels⟩ := Option.isSome_iff_exists.1 hsome
    obtain ⟨row, hfind, -⟩ := Option.bind_eq_some_iff.1 hlabels
    have hcode : row.code = some code := by simpa using List.find?_some hfind
    obtain ⟨holding, hholding, haccepted, hdescribes⟩ :=
      hrows row (List.mem_of_find?_eq_some hfind)
    obtain ⟨location, -, hof⟩ := hentries holding hholding
    obtain ⟨hcode', -, -⟩ :=
      labels_of_describes hreads hfile (hagree' holding hholding) hof hdescribes
    obtain ⟨codeJson, hindex, -⟩ := haccepted.code
    obtain ⟨-, hget, -⟩ := ofJson_eq_some hof (by rw [hindex, Option.isSome_some])
    rw [hcode] at hcode'
    exact ⟨holding, hholding, by rw [hget, Option.some.inj hcode'], haccepted⟩
  · rintro ⟨holding, hholding, hget, haccepted⟩
    obtain ⟨row, hrow, hcode⟩ :=
      hpopulated.created holding hholding (haccepted.congr hpopulated.libraries.symm)
    rw [index_of_get hget, Option.map_some, hreads.castString] at hcode
    have hfind : left.findHoldingLocation code = some row := by
      rw [LocationDb.findHoldingLocation, Option.some.inj hcode]
      exact OrderedHash.find_of_nodup (f := (·.code)) hnodup hrow
    obtain ⟨library, hlib⟩ := Option.isSome_iff_exists.1 (hlibrary row hrow)
    rw [LocationDb.labels, hfind, Option.bind_some, hlib, Option.map_some, Option.isSome_some]

def firestoneLibrary : JsonValue ℤ :=
  .object [("label", .string "Firestone Library"), ("code", .string "firestone"),
    ("order", .number 0)]

def firestoneDelivery : JsonValue ℤ :=
  .object [("id", .number 1), ("label", .string "Firestone"), ("address", .string "One Washington"),
    ("phone_number", .string "555"), ("contact_email", .string "f@example"),
    ("gfa_pickup", .string "PA"), ("library", firestoneLibrary)]

def firestoneHolding (code : String) («open» : JsonValue ℤ) : JsonValue ℤ :=
  .object [("label", .string "Stacks"), ("code", .string code), ("aeon_location", .bool false),
    ("recap_electronic_delivery_location", .bool false), ("open", «open»),
    ("requestable", .bool true), ("always_requestable", .bool false), ("circulates", .bool true),
    ("library", firestoneLibrary), ("delivery_locations", .array [.string "PA"])]

/-- Of the second holding location it is not told whether it is open. -/
def firestoneHoldings : List (JsonValue ℤ) :=
  [firestoneHolding "firestone$stacks" (.bool true), firestoneHolding "firestone$vault" .null]

def firestoneLocations : List Location :=
  [⟨"Stacks", "firestone$stacks", "Firestone Library"⟩,
    ⟨"Stacks", "firestone$vault", "Firestone Library"⟩]

def libraryText : String :=
  "\x7b\"label\": \"Firestone Library\", \"code\": \"firestone\", \"order\": 0\x7d"

def deliveryText : String :=
  "\x7b\"id\": 1, \"label\": \"Firestone\", \"address\": \"One Washington\", "
    ++ "\"phone_number\": \"555\", \"contact_email\": \"f@example\", \"gfa_pickup\": \"PA\", "
    ++ "\"library\": " ++ libraryText ++ "\x7d"

def holdingText (code isOpen : String) : String :=
  "\x7b\"label\": \"Stacks\", \"code\": \"" ++ code ++ "\", \"aeon_location\": false, "
    ++ "\"recap_electronic_delivery_location\": false, \"open\": " ++ isOpen
    ++ ", \"requestable\": true, \"always_requestable\": false, \"circulates\": true, "
    ++ "\"library\": " ++ libraryText ++ ", \"delivery_locations\": [\"PA\"]\x7d"

def librariesText : String := "[" ++ libraryText ++ "]"

def deliveriesText : String := "[" ++ deliveryText ++ "]"

def holdingsText : String :=
  "[" ++ holdingText "firestone$stacks" "true" ++ ", " ++ holdingText "firestone$vault" "null" ++ "]"

def firestoneFiles : LocationFiles := ⟨some librariesText, some deliveriesText, some holdingsText⟩

/-- Nothing but these three texts can be parsed. -/
def parsing (libraries deliveries holdings : String) : LocationPackages ℤ :=
  { emptyArrays with
    parse := fun text =>
      if text = libraries then some (.array [firestoneLibrary])
      else if text = deliveries then some (.array [firestoneDelivery])
      else if text = holdings then some (.array firestoneHoldings)
      else none
    highest := fun id ids => some (ids.getLastD id) }

theorem parse_libraries (libraries deliveries holdings : String) :
    (parsing libraries deliveries holdings).parse libraries = some (.array [firestoneLibrary]) :=
  if_pos rfl

theorem parse_holdings {libraries deliveries holdings : String} (h : holdings ≠ libraries)
    (h' : holdings ≠ deliveries) :
    (parsing libraries deliveries holdings).parse holdings = some (.array firestoneHoldings) :=
  (if_neg h).trans ((if_neg h').trans (if_pos rfl))

def firestonePackages : LocationPackages ℤ := parsing librariesText deliveriesText holdingsText

theorem parse_librariesText :
    firestonePackages.parse librariesText = some (.array [firestoneLibrary]) :=
  parse_libraries librariesText deliveriesText holdingsText

theorem parse_holdingsText :
    firestonePackages.parse holdingsText = some (.array firestoneHoldings) :=
  parse_holdings (by decide +kernel) (by decide +kernel)

theorem firestonePackages_readsStrings : ReadsStrings firestonePackages where
  castString _ := rfl
  findByCode rows code row h := by
    have hfind := List.find?_some (Option.some.inj h)
    simpa using hfind

def repopulatedFirestone : LocationDb :=
  (deleteExistingAndRepopulate firestonePackages firestoneFiles firestone).2

theorem repopulatedFirestone_eq :
    deleteExistingAndRepopulate firestonePackages firestoneFiles firestone
      = (some (), repopulatedFirestone) := by
  refine Prod.ext (by decide +kernel) ?_
  rw [repopulatedFirestone]

theorem locations_firestone :
    Location.listOfJson (.array firestoneHoldings) = some firestoneLocations := rfl

theorem firestone_librariesAgree :
    LibrariesAgree firestonePackages (recordsOf firestonePackages firestoneFiles.libraries)
      (recordsOf firestonePackages firestoneFiles.holdingLocations) := by
  have hlibraries : recordsOf firestonePackages firestoneFiles.libraries = [firestoneLibrary] := by
    change (Option.bind (firestonePackages.parse librariesText) JsonValue.each).getD [] = _
    rw [parse_librariesText]
    rfl
  have hholdings : recordsOf firestonePackages firestoneFiles.holdingLocations
      = firestoneHoldings := by
    change (Option.bind (firestonePackages.parse holdingsText) JsonValue.each).getD [] = _
    rw [parse_holdingsText]
    rfl
  rw [hlibraries, hholdings]
  intro holding hholding library hlibrary
  have hsame : library = firestoneLibrary := by
    rcases List.mem_cons.1 hholding with rfl | hholding
    · exact (Option.some.inj hlibrary).symm
    · rw [List.mem_singleton.1 hholding] at hlibrary
      exact (Option.some.inj hlibrary).symm
  rw [hsame]
  refine ⟨"firestone", "Firestone Library", rfl, rfl, fun entry hentry _ => ?_⟩
  rw [List.mem_singleton.1 hentry]
  rfl

theorem labels_repopulatedFirestone :
    ∃ maps, LocationMapsGeneratorService.generate repopulatedFirestone
        repopulatedFirestone.holdingLocations = some maps ∧ ∀ code,
      maps.labels code = repopulatedFirestone.labels code
        ∧ (∀ labels, repopulatedFirestone.labels code = some labels →
          (HoldingLocations.ofTable (Location.table firestoneLocations)).labels code = some labels)
        ∧ ((repopulatedFirestone.labels code).isSome
          ↔ ∃ holding ∈ recordsOf firestonePackages firestoneFiles.holdingLocations,
            holding.get "code" = some (.string code)
              ∧ Accepted firestonePackages repopulatedFirestone holding) :=
  labels_of_repopulated firestonePackages firestoneFiles firestone repopulatedFirestone
    firestonePackages_readsStrings parse_holdingsText locations_firestone (by decide)
    firestone_librariesAgree repopulatedFirestone_eq (List.Perm.refl _)

example : (repopulatedFirestone.labels "firestone$stacks",
      repopulatedFirestone.labels "firestone$vault")
    = (some (some "Stacks", some "Firestone Library"), none) := by decide +kernel

end Copies

end LocationDataService

end Bibdata
