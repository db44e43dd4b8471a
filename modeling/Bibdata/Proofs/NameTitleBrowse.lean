import Bibdata.Proofs.PrepNameTitle
import Bibdata.Proofs.TrimmedHeadings

/-!
# The headings of the name and title browse

Every heading comes from an entry with a name and a title: a beginning of the subfields of a field,
cut at the first $t, or the main entry (`nameTitleBrowseS_eq`). It begins with the name and goes on
with the title exactly where the two show (`wellShaped_iff`). A field with its title before its
name has no name to show.
-/

namespace Bibdata

variable (isWord : Char → Bool)

section Texts

theorem toList_combineConsecutiveWhitespace (s : String) :
    (combineConsecutiveWhitespace s).toList = Words.spaced isSpace ' ' s.toList := by
  rw [combineConsecutiveWhitespace, splitWhitespace, String.toList_intercalate, List.map_map]
  simp [Words.spaced, Words.words, Function.comp_def]

/-- The name or the title of a heading, with single blanks. -/
def combined (s : String) : List Char := (combineConsecutiveWhitespace s).toList

theorem tight_combined {s : String} (h : combined s ≠ []) : Tight (combined s) := by
  rw [combined, toList_combineConsecutiveWhitespace] at h ⊢
  refine ⟨Words.not_blank_head h, Words.not_blank_last h, fun c hc hspace => ?_⟩
  rcases Words.mem_spaced hc with hnot | hblank
  · rw [hspace] at hnot
    cases hnot
  · exact hblank

theorem combined_join (name title : String) :
    combined (name ++ " " ++ title) = Words.join ' ' (combined name) (combined title) := by
  have hlist : (name ++ " " ++ title).toList = name.toList ++ ' ' :: title.toList := by simp
  simp only [combined, toList_combineConsecutiveWhitespace, hlist]
  exact Words.spaced_append isSpace_blank _ _

theorem toList_normalized (s : String) :
    (normalized isWord s).toList = afterTrailing isWord (trimTrailing (combined s)) :=
  toList_trimPunctuation isWord _

end Texts

section Entries

/-- What a heading is made of. -/
inductive BrowseEntry where
  | seriesName (name : String)
  | heading (name title : String)
  | mainTitle (author title : String)
  deriving DecidableEq

namespace BrowseEntry

def text : BrowseEntry → String
  | seriesName name => normalized isWord name
  | heading name title => normalized isWord (name ++ " " ++ title)
  | mainTitle author title => author ++ " " ++ title

/-- A name that is not empty, or one that a title follows. -/
def WellShaped : BrowseEntry → Prop
  | seriesName name => normalized isWord name ≠ ""
  | heading name title =>
    BeginsAndContinues (combined name) (combined title)
      (normalized isWord (name ++ " " ++ title)).toList
  | mainTitle author title =>
    BeginsAndContinues author.toList title.toList (author ++ " " ++ title).toList

/-- The same, asked of the name and the title. -/
def BothShow : BrowseEntry → Prop
  | seriesName name => NameShows (combined name)
  | heading name title => NameAndTitleShow isWord (combined name) (combined title)
  | mainTitle author title => author ≠ "" ∧ title ≠ ""

variable {isWord}

theorem wellShaped_iff (hword : isWord ' ' = false) (entry : BrowseEntry) :
    entry.WellShaped isWord ↔ entry.BothShow isWord := by
  cases entry with
  | seriesName name =>
    rw [WellShaped, BothShow, ne_eq, ← String.toList_eq_nil_iff, toList_normalized]
    exact afterTrailing_ne_nil_iff tight_combined hword
  | heading name title =>
    rw [WellShaped, BothShow, toList_normalized, combined_join]
    exact beginsAndContinues_iff tight_combined tight_combined hword
  | mainTitle author title =>
    rw [WellShaped, BothShow, ne_eq, ne_eq, ← String.toList_eq_nil_iff,
      ← String.toList_eq_nil_iff]
    constructor
    · rintro ⟨n, t, hn, hne, htne, ht, -⟩
      refine ⟨?_, ?_⟩
      · intro hnil
        rw [hnil] at hn
        rcases hn with rfl | rfl
        · exact hne rfl
        · exact hne rfl
      · intro hnil
        rw [hnil] at ht
        exact htne (List.prefix_nil.1 ht)
    · rintro ⟨hauthor, htitle⟩
      exact ⟨_, _, .inl rfl, hauthor, htitle, List.prefix_refl _, by simp⟩

theorem WellShaped.text_ne {entry : BrowseEntry} (h : entry.WellShaped isWord) :
    entry.text isWord ≠ "" := by
  have hlong : ∀ {name title heading}, BeginsAndContinues name title heading → heading ≠ [] := by
    rintro name title heading ⟨n, t, -, hne, -, -, rfl⟩ hnil
    simp at hnil
  cases entry with
  | seriesName name => exact h
  | heading name title => exact mt String.toList_eq_nil_iff.2 (hlong h)
  | mainTitle author title => exact mt String.toList_eq_nil_iff.2 (hlong h)

end BrowseEntry

def NameTitle.browseEntries (entry : NameTitle) (includeName : Bool) : List BrowseEntry :=
  (if includeName then [.seriesName entry.name] else [])
    ++ entry.titleLevels.inits.tail.map fun l => .heading entry.name (" ".intercalate l)

theorem map_browseEntries (entry : NameTitle) (includeName : Bool) :
    (entry.browseEntries includeName).map (BrowseEntry.text isWord)
      = entry.headings isWord includeName := by
  rw [NameTitle.browseEntries, NameTitle.headings, titleHeadings_eq, List.map_append, List.map_map]
  cases includeName <;> rfl

variable (r : Record)

def addedBrowseEntries (tags : List String) (secondIndicator : Option String)
    (includeName : Bool) : List BrowseEntry :=
  ((addedEntryFields r tags secondIndicator).filterMap fun field =>
    (NameTitle.ofField field).map fun entry => entry.browseEntries includeName).flatten

theorem map_addedBrowseEntries (tags : List String) (secondIndicator : Option String)
    (includeName : Bool) :
    (addedBrowseEntries r tags secondIndicator includeName).map (BrowseEntry.text isWord)
      = addedEntries isWord r tags secondIndicator includeName := by
  rw [addedBrowseEntries, addedEntries, List.map_flatten, List.map_filterMap]
  simp only [Option.map_map, Function.comp_def, map_browseEntries]

/-- The name and the title of a linked work, unless nothing is left of them. -/
def linkedBrowseEntry (field : Field) : Option BrowseEntry :=
  if !field.hasSubfield 'a' || !field.hasSubfield 't' then none
  else
    let kept := filterByCode ['a', 't'] field.subfields
    let entry := BrowseEntry.heading
      (" ".intercalate (subfieldContents (subfieldsBefore 't' kept)))
      (" ".intercalate (subfieldContents (subfieldsAfter 't' kept)))
    if entry.text isWord = "" then none else some entry

theorem combined_intercalate_append (xs ys : List String) :
    combined (" ".intercalate (xs ++ ys))
      = Words.join ' ' (combined (" ".intercalate xs)) (combined (" ".intercalate ys)) := by
  have hempty : combined (" ".intercalate []) = [] := by decide
  rcases eq_or_ne xs [] with rfl | hxs
  · rw [List.nil_append, hempty, Words.nil_join]
  rcases eq_or_ne ys [] with rfl | hys
  · rw [List.append_nil, hempty, Words.join_nil]
  rw [String.intercalate_append_of_ne_nil hxs hys, combined_join]

theorem normalized_split (code : Char) (subfields : List Subfield) :
    normalized isWord (" ".intercalate (subfieldContents subfields))
      = normalized isWord (" ".intercalate (subfieldContents (subfieldsBefore code subfields))
        ++ " " ++ " ".intercalate (subfieldContents (subfieldsAfter code subfields))) := by
  have hsplit : subfieldContents subfields
      = subfieldContents (subfieldsBefore code subfields)
        ++ subfieldContents (subfieldsAfter code subfields) := by
    rw [subfieldContents, subfieldContents, subfieldContents, ← List.map_append,
      subfieldsBefore_append_after]
  rw [← String.toList_inj, toList_normalized, toList_normalized, combined_join, hsplit,
    combined_intercalate_append]

theorem map_linkedBrowseEntry (field : Field) :
    (linkedBrowseEntry isWord field).map (BrowseEntry.text isWord) = linkedTitle isWord field := by
  rw [linkedBrowseEntry, linkedTitle]
  split_ifs with hboth
  · rfl
  · have hsplit := normalized_split isWord 't' (filterByCode ['a', 't'] field.subfields)
    simp only [maybeNotEmpty, BrowseEntry.text, ← hsplit]
    split_ifs
    · rfl
    · rw [Option.map_some, BrowseEntry.text, ← hsplit]

def linkedBrowseEntries : List BrowseEntry :=
  (r.fields.filter fun field => latinOrNonLatinTag field ∈ linkedTitleTags).filterMap
    (linkedBrowseEntry isWord)

theorem map_linkedBrowseEntries :
    (linkedBrowseEntries isWord r).map (BrowseEntry.text isWord) = linkedTitles isWord r := by
  rw [linkedBrowseEntries, linkedTitles, List.map_filterMap]
  simp only [map_linkedBrowseEntry]

def authorBrowseEntriesFor (scripts : ScriptsToIndex) : List BrowseEntry :=
  match firstAuthor isWord r scripts with
  | none => []
  | some author =>
    if firstUniform240 r scripts ≠ [] then
      (NameTitle.mk (author ++ ".") (firstUniform240 r scripts)).browseEntries false
    else ((mainTitle isWord r scripts).map fun title => .mainTitle (author ++ ".") title).toList

theorem map_authorBrowseEntriesFor (scripts : ScriptsToIndex) :
    (authorBrowseEntriesFor isWord r scripts).map (BrowseEntry.text isWord)
      = authorAndTitleFor isWord r scripts := by
  rw [authorBrowseEntriesFor, authorAndTitleFor]
  rcases firstAuthor isWord r scripts with _ | author
  · rfl
  · simp only
    split_ifs with huniform
    · rw [map_browseEntries]
    · rcases mainTitle isWord r scripts with _ | title
      · rfl
      · rfl

def browseEntries : List BrowseEntry :=
  [addedBrowseEntries r seriesTags none true, linkedBrowseEntries isWord r,
    addedBrowseEntries r relatedTags (some " ") false,
    addedBrowseEntries r relatedTags (some "2") false,
    [ScriptsToIndex.latinOnly, .nonLatinOnly].flatMap (authorBrowseEntriesFor isWord r)].flatten

/-- Every heading is that of an entry, and the other way round. -/
theorem nameTitleBrowseS_eq :
    nameTitleBrowseS isWord r
      = ((browseEntries isWord r).map (BrowseEntry.text isWord)).eraseDups := by
  rw [browseEntries, nameTitleBrowseS, List.map_flatten]
  simp only [List.map_cons, List.map_nil, map_addedBrowseEntries, map_linkedBrowseEntries,
    List.map_flatMap, map_authorBrowseEntriesFor]
  rfl

end Entries

section Invariant

variable (r : Record)

/-- No heading is empty or there twice, and from whatever entry one comes, it is a name of a series
entry or a name with a title. -/
structure BrowsesNamesAndTitles : Prop where
  notEmpty : "" ∉ nameTitleBrowseS isWord r
  once : (nameTitleBrowseS isWord r).Nodup
  shaped : ∀ heading ∈ nameTitleBrowseS isWord r, ∀ entry ∈ browseEntries isWord r,
    entry.text isWord = heading → entry.WellShaped isWord

theorem nodup_eraseDups {α : Type} [BEq α] [LawfulBEq α] (l : List α) : l.eraseDups.Nodup := by
  induction hlength : l.length using Nat.strong_induction_on generalizing l with
  | _ n ih =>
    rcases l with _ | ⟨x, xs⟩
    · exact List.nodup_nil
    · have hshort := List.length_filter_le (fun y => !y == x) xs
      rw [List.eraseDups_cons, List.nodup_cons]
      refine ⟨?_, ih _ ?_ _ rfl⟩
      · simp [List.mem_eraseDups]
      · rw [List.length_cons] at hlength
        omega

variable {isWord}

/-- The headings are as they should be exactly where every entry shows its name and its title. -/
theorem browsesNamesAndTitles_iff (hword : isWord ' ' = false) (r : Record) :
    BrowsesNamesAndTitles isWord r ↔ ∀ entry ∈ browseEntries isWord r, entry.BothShow isWord := by
  have hmem : ∀ heading, heading ∈ nameTitleBrowseS isWord r
      ↔ ∃ entry ∈ browseEntries isWord r, entry.text isWord = heading := by
    intro heading
    rw [nameTitleBrowseS_eq, List.mem_eraseDups, List.mem_map]
  constructor
  · intro h entry hentry
    have hheading := (hmem (entry.text isWord)).2 ⟨entry, hentry, rfl⟩
    exact (BrowseEntry.wellShaped_iff hword entry).1 (h.shaped _ hheading entry hentry rfl)
  · intro h
    have hshaped : ∀ entry ∈ browseEntries isWord r, entry.WellShaped isWord :=
      fun entry hentry => (BrowseEntry.wellShaped_iff hword entry).2 (h entry hentry)
    refine ⟨fun hempty => ?_, ?_, fun heading _ entry hentry _ => hshaped entry hentry⟩
    · obtain ⟨entry, hentry, htext⟩ := (hmem "").1 hempty
      exact (hshaped entry hentry).text_ne htext
    · rw [nameTitleBrowseS_eq]
      exact nodup_eraseDups _

instance (name title : List Char) : Decidable (NameAndTitleShow isWord name title) :=
  decidable_of_iff (name ≠ [] ∧ title ≠ [] ∧ trimTrailing title ≠ []
      ∧ ¬((trimTrailing title).rdropWhile (· = '.') = [] ∧ 3 ≤ (name.rtakeWhile isWord).length)
      ∧ (bracketFree (openBracket name ++ ' ' :: closeBracket (trimmedTitle isWord title)) →
        name ≠ ['['] ∧ trimmedTitle isWord title ≠ [']']))
    ⟨fun ⟨hname, htitle, hmark, hdots, hbrackets⟩ => ⟨hname, htitle, hmark, hdots, hbrackets⟩,
      fun h => ⟨h.hasName, h.hasTitle, h.mark, h.dots, h.brackets⟩⟩

instance (name : List Char) : Decidable (NameShows name) :=
  decidable_of_iff ((closeBracket (openBracket (trimTrailing name))).any (!isSpace ·) = true)
    (by simp [NameShows])

instance : (entry : BrowseEntry) → Decidable (entry.BothShow isWord)
  | .seriesName name => inferInstanceAs (Decidable (NameShows (combined name)))
  | .heading name title =>
    inferInstanceAs (Decidable (NameAndTitleShow isWord (combined name) (combined title)))
  | .mainTitle author title => inferInstanceAs (Decidable (author ≠ "" ∧ title ≠ ""))

/-- A series with the levels of its title, and a main entry. -/
def tales : Record :=
  ⟨[], [⟨"100", [⟨'a', "Poe, Edgar,"⟩], " "⟩, ⟨"245", [⟨'a', "Tales /"⟩], " "⟩,
    ⟨"800", [⟨'a', "Poe, Edgar."⟩, ⟨'t', "Works."⟩, ⟨'n', "1"⟩], " "⟩], ""⟩

theorem browsesNamesAndTitles_tales :
    nameTitleBrowseS Char.isAlpha tales
        = ["Poe, Edgar", "Poe, Edgar. Works", "Poe, Edgar. Works. 1", "Poe, Edgar. Tales"]
      ∧ BrowsesNamesAndTitles Char.isAlpha tales := by
  have hentries : browseEntries Char.isAlpha tales
      = [.seriesName "Poe, Edgar.", .heading "Poe, Edgar." "Works.",
        .heading "Poe, Edgar." "Works. 1", .mainTitle "Poe, Edgar." "Tales"] := by
    decide +kernel
  have hshow : ∀ entry ∈ browseEntries Char.isAlpha tales, entry.BothShow Char.isAlpha := by
    rw [hentries]
    simp only [List.forall_mem_cons]
    exact ⟨by decide +kernel, by decide +kernel, by decide +kernel, by decide +kernel, by simp⟩
  exact ⟨by decide +kernel, (browsesNamesAndTitles_iff (by decide) tales).2 hshow⟩

/-- A series entry with its title first has no name. -/
theorem not_browsesNamesAndTitles_titleFirst :
    ¬BrowsesNamesAndTitles Char.isAlpha
      ⟨[], [⟨"800", [⟨'t', "Wild"⟩, ⟨'a', "Doe, Jane"⟩], " "⟩], ""⟩ := by
  intro h
  have hheadings : nameTitleBrowseS Char.isAlpha
      ⟨[], [⟨"800", [⟨'t', "Wild"⟩, ⟨'a', "Doe, Jane"⟩], " "⟩], ""⟩
        = ["", "Wild", "Wild Doe, Jane"] := by decide +kernel
  exact h.notEmpty (by simp [hheadings])

end Invariant

end Bibdata
