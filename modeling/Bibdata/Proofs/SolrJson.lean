import Bibdata.EphemeraFolder
import Bibdata.Proofs.Theses

/-!
# Solr documents read back

All members read as they were written but three. The access reads back if its URL is not a key that
has a meaning of its own (`ElectronicAccess.fromJson_toJson`). The roles never do: they are written
as a text and read as an object. A format is written with its own name and read as the name of a
genre, and few are both (`SolrSource.readsBack_iff`).
-/

namespace Bibdata

open Json

variable (serde : SerdeJson) (toLowercase : String → String)

section Facets

theorem readNullable_accessFacet (facet : AccessFacet) :
    readNullable AccessFacet.fromJson facet.toJson = some (some facet) := by
  cases facet <;> rfl

theorem readNullable_libraryFacet (facet : LibraryFacet) :
    readNullable LibraryFacet.fromJson facet.toJson = some (some facet) := by
  cases facet <;> rfl

/-- `to_lowercase` on ASCII texts. -/
def LowersAscii : Prop :=
  ∀ s : String, (∀ c ∈ s.toList, c.toNat < 128) → toLowercase s = lowercaseLetters s

/-- The formats whose names are the names of genres. -/
def readableFormats : List FormatFacet := [.book, .report, .seniorThesis]

variable {toLowercase}

theorem FormatFacet.fromJson_toJson (h : LowersAscii toLowercase) (facet : FormatFacet) :
    FormatFacet.fromJson toLowercase facet.toJson =
      if facet ∈ readableFormats then some facet else none := by
  have hall : facet.toText.toList.all (·.toNat < 128) = true := by
    cases facet <;> decide +kernel
  have hascii : ∀ c ∈ facet.toText.toList, c.toNat < 128 := fun c hc =>
    of_decide_eq_true (List.all_eq_true.1 hall c hc)
  have hfromStr : fromStr toLowercase facet.toText = fromStr lowercaseLetters facet.toText := by
    unfold fromStr
    rw [h _ hascii]
  show fromStr toLowercase facet.toText = _
  rw [hfromStr]
  cases facet <;> decide +kernel

theorem readList_formats (h : LowersAscii toLowercase) (facets : List FormatFacet) :
    readList (FormatFacet.fromJson toLowercase) (SolrDocument.formats facets) =
      if ∀ facet ∈ facets, facet ∈ readableFormats then some facets else none := by
  rw [SolrDocument.formats, readList]
  induction facets with
  | nil => rfl
  | cons facet facets ih =>
    rw [List.map_cons, List.mapM_cons, FormatFacet.fromJson_toJson h, ih]
    simp only [List.forall_mem_cons]
    by_cases hfacet : facet ∈ readableFormats
    · by_cases hfacets : ∀ facet ∈ facets, facet ∈ readableFormats
      · rw [if_pos hfacet, if_pos hfacets, if_pos ⟨hfacet, hfacets⟩]
        rfl
      · rw [if_pos hfacet, if_neg hfacets, if_neg fun hboth => hfacets hboth.2]
        rfl
    · simp [hfacet]

end Facets

namespace ElectronicAccess

theorem readable_hash {access : ElectronicAccess} {hash : List (String × Json)}
    (h : access.hash = some hash) : (Json.obj hash).Readable 2 := by
  unfold ElectronicAccess.hash at h
  simp only at h
  split at h
  · cases h
    refine ⟨by decide, by simp, readableMembers_iff.2 fun m hm => ?_⟩
    obtain rfl := List.mem_singleton.1 hm
    exact readable_strings _
  · split_ifs at h with hurl
    cases h
    refine ⟨by decide, by simp [hurl], readable_strings _, ?_, trivial⟩
    exact ⟨by decide, by simp, trivial, trivial⟩

theorem ofMap_hash {access : ElectronicAccess} (hurl : ¬IsReserved access.url)
    {hash : List (String × Json)} (h : access.hash = some hash) : ofMap hash = some access := by
  obtain ⟨url, linkText, linkDescription, iiifManifestPaths⟩ := access
  have hfind (rest : List (String × Json)) (notes : Json) :
      ((url, notes) :: rest).find? (fun entry => ¬IsReserved entry.1) = some (url, notes) :=
    List.find?_cons_of_pos (decide_eq_true hurl)
  have hne : ("iiif_manifest_paths" == url) = false := by
    rw [beq_eq_false_iff_ne]
    exact fun h => hurl (.inl h.symm)
  unfold ElectronicAccess.hash at h
  cases iiifManifestPaths with
  | none =>
    cases h
    rw [ofMap, hfind]
    cases linkDescription <;> simp [strings, readString, iiifManifestUrl, List.lookup_cons, hne]
  | some iiifUrl =>
    simp only at h
    rw [if_neg fun h => hurl (.inl h)] at h
    cases h
    rw [ofMap, hfind]
    cases linkDescription <;> simp [strings, readString, iiifManifestUrl, List.lookup_cons, hne]

/-- An access whose URL has no other meaning is written, and reads back. -/
theorem fromJson_toJson {access : ElectronicAccess} (hurl : ¬IsReserved access.url) :
    ∃ s, access.toJson serde = some (.str s) ∧ fromJson serde (.str s) = some access := by
  obtain ⟨hash, hhash⟩ : ∃ hash, access.hash = some hash := by
    unfold ElectronicAccess.hash
    cases access.iiifManifestPaths with
    | none => exact ⟨_, rfl⟩
    | some iiifUrl => exact ⟨_, if_neg fun h => hurl (.inl h)⟩
  refine ⟨serde.toString (.obj hash), by rw [toJson, hhash]; rfl, ?_⟩
  rw [fromJson, serde.fromStr_toString _ ((readable_hash hhash).mono (by decide))]
  exact ofMap_hash hurl hhash

end ElectronicAccess

namespace SolrDocument

section Members

theorem nodup_fieldNames : fieldNames.Nodup := by decide +kernel

theorem nodup_keys (authorRoles electronicAccess : Option Json) (d : SolrDocument) :
    ((d.entries authorRoles electronicAccess).map Prod.fst).Nodup := nodup_fieldNames

theorem readNullable_string (s : String) : readNullable readString (.str s) = some (some s) := rfl

theorem readI16_i16 (n : Int16) : readI16 (i16 n) = some n := by
  have h₁ := n.le_toInt
  have h₂ := n.toInt_lt
  rw [i16, readI16, if_pos (by omega), Int16.ofInt_toInt]

theorem readNullable_i16 (n : Int16) : readNullable readI16 (i16 n) = some (some n) := by
  have h := readI16_i16 n
  rw [i16] at h ⊢
  rw [readNullable_int, h]
  rfl

theorem readNullable_i16s (ns : List Int16) :
    readNullable (readList readI16) (i16s ns) = some (some ns) := by
  have h : (ns.map i16).mapM readI16 = some ns := by
    induction ns with
    | nil => rfl
    | cons n ns ih => simp [readI16_i16, ih]
  rw [i16s, readNullable_arr, readList, h]
  rfl

theorem some_bind_eq {α β : Type} (a : α) (k : α → Option β) : (some a >>= k) = k a := rfl

/-- What is left of reading a document are the roles, the access and the format. -/
theorem fromJson_kept (authorRoles electronicAccess : Option Json) (d : SolrDocument) :
    fromJson serde toLowercase (.obj (kept (d.entries authorRoles electronicAccess))) =
      (readOptional (kept (d.entries authorRoles electronicAccess)) "author_roles_1display"
        AuthorRoles.fromJson).bind fun authorRoles1display =>
      (readOptional (kept (d.entries authorRoles electronicAccess)) "electronic_access_1display"
        (ElectronicAccess.fromJson serde)).bind fun electronicAccess1display =>
      (readOptional (kept (d.entries authorRoles electronicAccess)) "format"
        (readList (FormatFacet.fromJson toLowercase))).bind fun format =>
      some { d with authorRoles1display, electronicAccess1display, format } := by
  have h := nodup_keys authorRoles electronicAccess d
  rw [fromJson, fields_kept _ h]
  -- not with `Option.bind`, whose congruence rule carries every field into all later ones
  simp only [some_bind_eq, readString, readList_strings,
    readOptional_map h 0 rfl readNullable_strings,
    readOptional_map h 1 rfl readNullable_accessFacet,
    readOptional_map h 2 rfl readNullable_strings, readOptional_map h 3 rfl readNullable_strings,
    readOptional_map h 4 rfl readNullable_strings, readOptional_map h 6 rfl readNullable_strings,
    readOptional_nullable h 7 rfl readNullable_string, readRequired_kept h 8 rfl,
    readRequired_kept h 9 rfl, readOptional_map h 10 rfl readNullable_strings,
    readOptional_map h 11 rfl readNullable_i16s, readOptional_map h 12 rfl readNullable_strings,
    readOptional_map h 13 rfl readNullable_strings, readOptional_map h 14 rfl readNullable_strings,
    readOptional_map h 16 rfl readNullable_string, readOptional_map h 18 rfl readNullable_strings,
    readOptional_map h 19 rfl readNullable_string,
    readOptional_nullable h 20 rfl readNullable_strings,
    readOptional_nullable h 21 rfl readNullable_strings, readRequired_kept h 22 rfl,
    readRequired_kept h 23 rfl, readRequired_kept h 24 rfl,
    readOptional_nullable h 25 rfl readNullable_strings,
    readOptional_nullable h 26 rfl readNullable_strings,
    readOptional_map h 27 rfl readNullable_libraryFacet,
    readOptional_map h 28 rfl readNullable_string, readOptional_map h 29 rfl readNullable_string,
    readOptional_map h 30 rfl readNullable_strings, readOptional_map h 31 rfl readNullable_strings,
    readOptional_map h 32 rfl readNullable_string, readOptional_map h 33 rfl readNullable_strings,
    readOptional_map h 34 rfl readNullable_strings, readOptional_map h 35 rfl readNullable_strings,
    readOptional_map h 36 rfl readNullable_i16, readOptional_map h 37 rfl readNullable_i16,
    readOptional_map h 38 rfl readNullable_strings, readOptional_map h 39 rfl readNullable_strings,
    readOptional_map h 40 rfl readNullable_strings, readOptional_map h 41 rfl readNullable_strings,
    readOptional_map h 42 rfl readNullable_strings, readOptional_map h 43 rfl readNullable_string,
    readOptional_nullable h 44 rfl readNullable_string,
    readOptional_nullable h 45 rfl readNullable_string,
    readOptional_nullable h 46 rfl readNullable_string,
    readOptional_nullable h 47 rfl readNullable_strings]
  rfl

/-- What a member is written as can be read, and is a list or less. -/
def Flat (v : Option Json) : Prop := ∀ w ∈ v, w.Readable 1

theorem flat_map {α : Type} {write : α → Json} (h : ∀ x, (write x).Readable 1)
    (o : Option α) : Flat (o.map write) := by
  intro w hw
  obtain ⟨x, -, rfl⟩ := Option.map_eq_some_iff.1 hw
  exact h x

theorem flat_nullable {α : Type} {write : α → Json} (h : ∀ x, (write x).Readable 1)
    (o : Option α) : Flat (some (nullable write o)) := by
  intro w hw
  cases hw
  cases o with
  | none => trivial
  | some x => exact h x

theorem flat_some {v : Json} (h : v.Readable 1) : Flat (some v) := by
  intro w hw
  cases hw
  exact h

theorem readable_str (s : String) : (Json.str s).Readable 1 := trivial

theorem readable_accessFacet (facet : AccessFacet) : facet.toJson.Readable 1 := trivial

theorem readable_libraryFacet (facet : LibraryFacet) : facet.toJson.Readable 1 := trivial

theorem readable_int16 (n : Int16) : (Json.int n.toInt).Readable 0 := by
  have h₁ := n.le_toInt
  have h₂ := n.toInt_lt
  exact ⟨by omega, by omega⟩

theorem readable_i16 (n : Int16) : (i16 n).Readable 1 := readable_int16 n

theorem readable_i16s (ns : List Int16) : (i16s ns).Readable 1 := by
  refine ⟨le_refl 1, readableElements_iff.2 fun v hv => ?_⟩
  obtain ⟨n, -, rfl⟩ := List.mem_map.1 hv
  exact readable_int16 n

theorem readable_formats (facets : List FormatFacet) : (formats facets).Readable 1 := by
  refine ⟨le_refl 1, readableElements_iff.2 fun v hv => ?_⟩
  obtain ⟨facet, -, rfl⟩ := List.mem_map.1 hv
  trivial

theorem readable_kept {authorRoles electronicAccess : Option Json} (d : SolrDocument)
    (hroles : Flat authorRoles) (haccess : Flat electronicAccess) :
    (Json.obj (kept (d.entries authorRoles electronicAccess))).Readable 2 := by
  refine Json.readable_kept (nodup_keys _ _ d) ?_
  have haccess' : Flat (some (electronicAccess.getD .null)) := by
    cases electronicAccess with
    | none => exact flat_some trivial
    | some v => exact haccess
  show ∀ entry ∈ d.entries authorRoles electronicAccess, Flat entry.2
  simp only [entries, List.forall_mem_cons, List.not_mem_nil, false_implies, implies_true,
    and_true, hroles, haccess', flat_map readable_strings,
    flat_map readable_str, flat_map readable_i16, flat_map readable_i16s,
    flat_nullable readable_strings, flat_nullable readable_str,
    flat_map readable_accessFacet, flat_map readable_libraryFacet,
    flat_nullable readable_formats, flat_some (readable_str _),
    flat_some (readable_strings _)]

end Members

/-- Written and read again, it is the same. -/
def ReadsBack (d : SolrDocument) : Prop :=
  ∃ s, d.toText serde = some s ∧ fromText serde toLowercase s = some d

/-- The URL of the access is no key with a meaning of its own. -/
def HasOrdinaryUrl (d : SolrDocument) : Prop :=
  ∀ access ∈ d.electronicAccess1display, ¬ElectronicAccess.IsReserved access.url

/-- The roles as they are written. -/
def rolesJson (d : SolrDocument) : Option Json := d.authorRoles1display.map (·.toJson serde)

theorem flat_rolesJson (d : SolrDocument) : Flat (d.rolesJson serde) :=
  flat_map (fun roles : AuthorRoles => readable_str (roles.toText serde)) _

theorem exists_toJson {d : SolrDocument} (hurl : d.HasOrdinaryUrl) :
    ∃ electronicAccess,
      d.toJson serde = some (.obj (kept (d.entries (d.rolesJson serde) electronicAccess)))
      ∧ Flat electronicAccess
      ∧ readNullable (ElectronicAccess.fromJson serde) (electronicAccess.getD .null) =
        some d.electronicAccess1display := by
  unfold toJson
  cases haccess : d.electronicAccess1display with
  | none => exact ⟨none, rfl, by simp [Flat], rfl⟩
  | some access =>
    obtain ⟨s, hs, hread⟩ := ElectronicAccess.fromJson_toJson serde (hurl access haccess)
    refine ⟨some (.str s), ?_, flat_some trivial, ?_⟩
    · simp only [hs]
      rfl
    · rw [Option.getD_some, readNullable_str, hread]
      rfl

theorem readable_toJson {d : SolrDocument} (hurl : d.HasOrdinaryUrl) :
    ∃ v, d.toJson serde = some v ∧ v.Readable 2 := by
  obtain ⟨electronicAccess, hjson, haccess, -⟩ := exists_toJson serde hurl
  exact ⟨_, hjson, readable_kept d (d.flat_rolesJson serde) haccess⟩

theorem readOptional_roles (electronicAccess : Option Json) (d : SolrDocument) :
    readOptional (kept (d.entries (d.rolesJson serde) electronicAccess)) "author_roles_1display"
      AuthorRoles.fromJson = if d.authorRoles1display = none then some none else none := by
  have h := nodup_keys (d.rolesJson serde) electronicAccess d
  have hlookup : (kept (d.entries (d.rolesJson serde) electronicAccess)).lookup
      "author_roles_1display" = d.rolesJson serde := lookup_kept h (n := 5) rfl
  rw [readOptional, hlookup, rolesJson]
  cases d.authorRoles1display <;> rfl

theorem readOptional_access {electronicAccess : Option Json} {d : SolrDocument}
    (hread : readNullable (ElectronicAccess.fromJson serde) (electronicAccess.getD .null) =
      some d.electronicAccess1display) :
    readOptional (kept (d.entries (d.rolesJson serde) electronicAccess))
      "electronic_access_1display" (ElectronicAccess.fromJson serde) =
        some d.electronicAccess1display := by
  have h := nodup_keys (d.rolesJson serde) electronicAccess d
  have hlookup : (kept (d.entries (d.rolesJson serde) electronicAccess)).lookup
      "electronic_access_1display" = some (electronicAccess.getD .null) :=
    lookup_kept h (n := 15) rfl
  rw [readOptional, hlookup]
  exact hread

variable {toLowercase}

/-- The formats that all have names of genres. -/
def HasReadableFormats (d : SolrDocument) : Prop :=
  ∀ facets ∈ d.format, ∀ facet ∈ facets, facet ∈ readableFormats

open scoped Classical in
theorem readOptional_format (hlower : LowersAscii toLowercase) (electronicAccess : Option Json)
    (d : SolrDocument) :
    readOptional (kept (d.entries (d.rolesJson serde) electronicAccess)) "format"
      (readList (FormatFacet.fromJson toLowercase)) =
        if d.HasReadableFormats then some d.format else none := by
  have h := nodup_keys (d.rolesJson serde) electronicAccess d
  have hlookup : (kept (d.entries (d.rolesJson serde) electronicAccess)).lookup "format" =
      some (nullable formats d.format) := lookup_kept h (n := 17) rfl
  rw [readOptional, hlookup, HasReadableFormats]
  cases d.format with
  | none => simp [nullable]
  | some facets =>
    have hread := readList_formats hlower facets
    rw [formats] at hread
    simp only [nullable, formats, readNullable_arr, hread, Option.mem_some_iff, forall_eq']
    split_ifs <;> rfl

theorem readsBack_iff_readable (hlower : LowersAscii toLowercase) (d : SolrDocument)
    (hurl : d.HasOrdinaryUrl) :
    d.ReadsBack serde toLowercase ↔ d.authorRoles1display = none ∧ d.HasReadableFormats := by
  classical
  obtain ⟨electronicAccess, hjson, haccess, hread⟩ := exists_toJson serde hurl
  have hreadable := readable_kept d (d.flat_rolesJson serde) haccess
  have htext : d.ReadsBack serde toLowercase ↔ fromJson serde toLowercase
      (.obj (kept (d.entries (d.rolesJson serde) electronicAccess))) = some d := by
    simp [ReadsBack, toText, fromText, hjson, serde.fromStr_toString _ (hreadable.mono (by decide))]
  rw [htext, fromJson_kept, readOptional_roles, readOptional_access serde hread,
    readOptional_format serde hlower]
  by_cases hroles : d.authorRoles1display = none
  · by_cases hformats : d.HasReadableFormats
    · rw [if_pos hroles, if_pos hformats, ← hroles]
      exact iff_of_true rfl ⟨rfl, hformats⟩
    · simp [hroles, hformats]
  · simp [hroles]

theorem folderUrl_not_isReserved (id : String) :
    ¬ElectronicAccess.IsReserved ("https://catalog.princeton.edu/catalog/" ++ id ++ "#view") := by
  have hhead : ("https://catalog.princeton.edu/catalog/" ++ id ++ "#view").toList.head? =
      some 'h' := by
    rw [String.toList_append, String.toList_append]
    rfl
  rintro (h | h)
  · rw [h] at hhead
    cases hhead
  · rw [h] at hhead
    cases hhead

theorem hasOrdinaryUrl_ofEphemeraFolder (folder : EphemeraFolder) :
    (ofEphemeraFolder serde folder).HasOrdinaryUrl := by
  intro access haccess
  cases haccess
  exact folderUrl_not_isReserved _

theorem ofEphemeraFolder_not_readsBack (hlower : LowersAscii toLowercase)
    (folder : EphemeraFolder) :
    ¬(ofEphemeraFolder serde folder).ReadsBack serde toLowercase := by
  rw [readsBack_iff_readable serde hlower _ (hasOrdinaryUrl_ofEphemeraFolder serde folder)]
  exact fun h => Option.some_ne_none _ h.1

theorem ofDataspace_readsBack (env : ThesisPackages) (hlower : LowersAscii env.toLowercase)
    (doc : DataspaceDocument) (hurl : (ofDataspace env doc).HasOrdinaryUrl) :
    (ofDataspace env doc).ReadsBack env.serde env.toLowercase := by
  rw [readsBack_iff_readable env.serde hlower _ hurl]
  refine ⟨rfl, fun facets hfacets facet hfacet => ?_⟩
  cases hfacets
  obtain rfl := List.mem_singleton.1 hfacet
  decide

end SolrDocument

/-- What Solr documents are built from. -/
inductive SolrSource
  | thesis (doc : DataspaceDocument)
  | folder (folder : EphemeraFolder)

def SolrSource.document (env : ThesisPackages) : SolrSource → SolrDocument
  | thesis doc => .ofDataspace env doc
  | folder f => .ofEphemeraFolder env.serde f

/-- The documents of theses read back, and those of folders never do. -/
theorem SolrSource.readsBack_iff (env : ThesisPackages) (hlower : LowersAscii env.toLowercase)
    (source : SolrSource) (hurl : (source.document env).HasOrdinaryUrl) :
    (source.document env).ReadsBack env.serde env.toLowercase ↔ ∃ doc, source = .thesis doc := by
  cases source with
  | thesis doc =>
    rw [SolrSource.document] at hurl ⊢
    exact iff_of_true (SolrDocument.ofDataspace_readsBack env hlower doc hurl) ⟨doc, rfl⟩
  | folder f =>
    rw [SolrSource.document]
    refine iff_of_false (SolrDocument.ofEphemeraFolder_not_readsBack env.serde hlower f) ?_
    rintro ⟨doc, h⟩
    cases h

theorem SolrSource.readsBack_undatedThesis :
    ((SolrSource.thesis undatedThesis).document plainPackages).ReadsBack plainPackages.serde
      plainPackages.toLowercase := by
  refine (SolrSource.readsBack_iff plainPackages (fun _ _ => rfl) (.thesis undatedThesis)
    fun access haccess => ?_).2 ⟨undatedThesis, rfl⟩
  cases haccess
  show ¬ElectronicAccess.IsReserved "http://arks.princeton.edu/ark:/88435/dsp01b2773v788"
  decide

theorem lowersAscii_lowercaseLetters : LowersAscii lowercaseLetters := fun _ _ => rfl

theorem not_readsBack_favoriteBook :
    ¬(SolrDocument.ofEphemeraFolder SerdeJson.compact
      { id := "abc123", title := ["Our favorite book"] }).ReadsBack SerdeJson.compact
        lowercaseLetters :=
  SolrDocument.ofEphemeraFolder_not_readsBack _ lowersAscii_lowercaseLetters _

end Bibdata
