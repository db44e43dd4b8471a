import Bibdata.Subject

/-!
# The headings of the two languages

Rust puts a separator before the subfields to split on and nothing before the others; Ruby puts one
of a separator and a space before every subfield but the first. They agree when the first subfield
that is kept is not one to split on and all others are (`headingsAgree_iff`).
-/

namespace Bibdata

open Delimited

variable (isWord : Char → Bool)

def headingText (s : Subfield) : List Char := (trimPunctuation isWord s.content).toList

def splitOn (codes : List Char) (s : Subfield) : Bool := s.code ∈ codes

section Written

theorem toList_hierarchicalHeading (f : Field) (included : List Char) (p : Subfield → Bool) :
    (hierarchicalHeading isWord f included p).toList
      = (f.subfields.filter (·.code ∈ included)).flatMap
          (before separator p (headingText isWord)) := by
  unfold hierarchicalHeading
  generalize f.subfields.filter (·.code ∈ included) = subs
  have hfold : ∀ acc : String, (subs.foldl (fun accumulator subfield =>
      (if p subfield then accumulator.push separator else accumulator)
        ++ trimPunctuation isWord subfield.content) acc).toList
      = acc.toList ++ subs.flatMap (before separator p (headingText isWord)) := by
    induction subs with
    | nil => simp
    | cons s subs ih =>
      intro acc
      rw [List.foldl_cons, ih, List.flatMap_cons]
      cases hp : p s <;> simp [before, headingText, hp]
  simpa using hfold ""

theorem toList_compileString (H : HierarchicalHeading) (first : Subfield)
    (rest : List Subfield) :
    (H.compileString isWord first rest).toList
      = headingText isWord first ++ rest.flatMap
          (between separator ' ' (splitOn H.splitOnSubfield) (headingText isWord)) := by
  unfold HierarchicalHeading.compileString
  have hfold : ∀ acc : String, (rest.foldl (fun heading subfield =>
      heading.push (H.delimiterFor subfield) ++ trimPunctuation isWord subfield.content)
        acc).toList
      = acc.toList ++ rest.flatMap
          (between separator ' ' (splitOn H.splitOnSubfield) (headingText isWord)) := by
    induction rest with
    | nil => simp
    | cons s rest ih =>
      intro acc
      rw [List.foldl_cons, ih, List.flatMap_cons]
      simp [between, headingText, splitOn, HierarchicalHeading.delimiterFor]
  exact hfold _

/-- The first of these subfields is not one to split on, and all the others are. -/
def Separated (codes : List Char) (subs : List Subfield) : Prop :=
  (∀ s ∈ subs.head?, s.code ∉ codes) ∧ ∀ s ∈ subs.tail, s.code ∈ codes

theorem separated_cons {codes : List Char} {s : Subfield} {subs : List Subfield} :
    Separated codes (s :: subs)
      ↔ splitOn codes s = false ∧ ∀ s' ∈ subs, splitOn codes s' = true := by
  simp [Separated, splitOn]

theorem separator_ne_space : ' ' ≠ separator := by decide

theorem toS_eq_some_iff {f : Field} {included codes : List Char} {heading : String} :
    HierarchicalHeading.toS isWord ⟨f, included, codes⟩ = some heading
      ↔ ∃ first rest, f.subfields.filter (·.code ∈ included) = first :: rest
        ∧ HierarchicalHeading.compileString isWord ⟨f, included, codes⟩ first rest = heading := by
  unfold HierarchicalHeading.toS HierarchicalHeading.subfields
  cases f.subfields.filter (·.code ∈ included) <;> simp

theorem exists_kept {f : Field} {included : List Char}
    (h : ∃ s ∈ f.subfields, s.code ∈ included) :
    ∃ first rest, f.subfields.filter (·.code ∈ included) = first :: rest := by
  obtain ⟨s, hs, hcode⟩ := h
  have hmem : s ∈ f.subfields.filter (·.code ∈ included) := by simp [hs, hcode]
  exact List.exists_cons_of_ne_nil (List.ne_nil_of_mem hmem)

theorem heading_eq_toS_iff {f : Field} {included codes : List Char}
    (h : ∃ s ∈ f.subfields, s.code ∈ included) :
    some (hierarchicalHeading isWord f included (splitOn codes))
        = HierarchicalHeading.toS isWord ⟨f, included, codes⟩
      ↔ Separated codes (f.subfields.filter (·.code ∈ included)) := by
  obtain ⟨first, rest, hsubs⟩ := exists_kept h
  rw [(toS_eq_some_iff isWord).2 ⟨first, rest, hsubs, rfl⟩, hsubs, separated_cons,
    Option.some_inj, ← String.toList_inj, toList_hierarchicalHeading, toList_compileString, hsubs]
  exact before_eq_between_iff _ _ separator_ne_space first rest

end Written

section Accumulated

def joined (subheadings : List String) : String :=
  String.intercalate (String.singleton separator) subheadings

theorem toList_joined_parts (s : String) :
    (joined (split separator s)).toList
      = [separator].intercalate (parts separator s.toList) := by
  rw [joined, String.toList_intercalate, split, List.map_map, String.toList_singleton]
  simp

theorem joinToLast_joined {ps : List String} (h : ps ≠ []) (p : String) :
    joinToLast (some (joined ps)) p = joined (ps ++ [p]) := by
  rw [joined, joined, String.intercalate_append_of_ne_nil h (by simp),
    String.intercalate_singleton, joinToLast, String.push_eq_append]

theorem accumulateSubheading_concat (ps : List String) (p : String) :
    accumulateSubheading (ps ++ [p])
      = accumulateSubheading ps ++ [joinToLast (accumulateSubheading ps).getLast? p] := by
  rw [accumulateSubheading, List.foldl_append]
  rfl

theorem accumulateSubheading_eq (ps : List String) :
    accumulateSubheading ps
      = (List.range ps.length).map fun k => joined (ps.take (k + 1)) := by
  induction ps using List.reverseRecOn with
  | nil => rfl
  | append_singleton ps p ih =>
    have hlast : joinToLast (accumulateSubheading ps).getLast? p = joined (ps ++ [p]) := by
      cases ps using List.reverseRecOn with
      | nil => exact String.intercalate_singleton.symm
      | append_singleton qs q =>
        rw [ih, List.length_append, List.length_singleton, List.range_succ, List.map_append,
          List.map_singleton, List.getLast?_concat, ← joinToLast_joined (by simp),
          List.take_of_length_le (by simp)]
    rw [accumulateSubheading_concat, hlast, ih, List.length_append, List.length_singleton,
      List.range_succ, List.map_append, List.map_singleton, List.take_of_length_le (by simp)]
    congr 1
    refine List.map_congr_left fun k hk => ?_
    have hk := List.mem_range.1 hk
    rw [List.take_append_of_le_length (by omega)]

theorem getLast?_accumulateSubheading {ps : List String} {v : String} :
    (accumulateSubheading ps).getLast? = some v ↔ ps ≠ [] ∧ v = joined ps := by
  cases ps using List.reverseRecOn with
  | nil => simp [accumulateSubheading]
  | append_singleton ps p =>
    rw [accumulateSubheading_eq, List.length_append, List.length_singleton, List.range_succ,
      List.map_append, List.map_singleton, List.getLast?_concat,
      List.take_of_length_le (by simp), Option.some_inj]
    exact ⟨fun h => ⟨by simp, h.symm⟩, fun h => h.2.symm⟩

end Accumulated

section Siku

/-- The last of these subfields leaves some text, which does not end in a separator. -/
def EndsInText (subs : List Subfield) : Prop :=
  ∃ s ∈ subs.getLast?, ∃ c ∈ (headingText isWord s).getLast?, c ≠ separator

theorem endsInText_iff {codes : List Char} {subs : List Subfield} (h : Separated codes subs) :
    EndsInText isWord subs
      ↔ ∃ c, (subs.flatMap (before separator (splitOn codes) (headingText isWord))).getLast?
          = some c ∧ c ≠ separator := by
  cases subs using List.reverseRecOn with
  | nil => simp [EndsInText]
  | append_singleton ys z =>
    rw [EndsInText, List.getLast?_concat, List.flatMap_append, List.flatMap_singleton, before]
    by_cases htext : headingText isWord z = []
    · have hends : ∀ c, (ys.flatMap (before separator (splitOn codes) (headingText isWord))
          ++ if splitOn codes z then [separator] else []).getLast? = some c → c = separator := by
        intro c hc
        cases ys with
        | nil =>
          have hz : splitOn codes z = false := (separated_cons.1 h).1
          simp [hz] at hc
        | cons y ys =>
          have hz : splitOn codes z = true := (separated_cons.1 h).2 z (by simp)
          rw [hz, if_pos rfl, List.getLast?_concat] at hc
          exact (Option.some.inj hc).symm
      rw [htext, List.append_nil]
      constructor
      · simp [htext]
      · rintro ⟨c, hc, hne⟩
        exact absurd (hends c hc) hne
    · have hlast : ∀ xs : List Char, (xs ++ headingText isWord z).getLast?
          = (headingText isWord z).getLast? := by
        intro xs
        obtain ⟨c, hc⟩ := Option.ne_none_iff_exists'.1 (mt List.getLast?_eq_none_iff.1 htext)
        rw [List.getLast?_append, hc]
        rfl
      rw [← List.append_assoc, hlast]
      simp

/-- The last entry is the heading that Rust writes if the headings agree, and then Ruby's `split`
must leave out nothing. -/
theorem getLast?_accumulate_iff {f : Field} {included codes : List Char} {heading : String}
    (h : HierarchicalHeading.toS isWord ⟨f, included, codes⟩ = some heading) :
    (accumulateSubheading (split separator heading)).getLast?
        = some (hierarchicalHeading isWord f included (splitOn codes))
      ↔ Separated codes (f.subfields.filter (·.code ∈ included))
        ∧ EndsInText isWord (f.subfields.filter (·.code ∈ included)) := by
  obtain ⟨first, rest, hsubs, rfl⟩ := (toS_eq_some_iff isWord).1 h
  have hempty : ∀ s, split separator s ≠ [] ↔ parts separator s.toList ≠ [] := by
    intro s
    simp [split]
  rw [getLast?_accumulateSubheading, hempty, ← String.toList_inj, toList_joined_parts,
    toList_hierarchicalHeading, toList_compileString]
  constructor
  · rintro ⟨hne, heq⟩
    obtain ⟨n, hn⟩ := eq_intercalate_parts hne
    obtain ⟨c, hc, hsep⟩ := getLast?_intercalate_parts hne
    rw [← heq, hsubs] at hn
    obtain ⟨-, hmarks⟩ := (before_append_eq_between_iff _ _ separator_ne_space _ _ _).1 hn.symm
    have hseparated : Separated codes (f.subfields.filter (·.code ∈ included)) := by
      rw [hsubs]
      exact separated_cons.2 hmarks
    refine ⟨hseparated, (endsInText_iff isWord hseparated).2 ⟨c, ?_, hsep⟩⟩
    rw [heq, hc]
  · rintro ⟨hseparated, hends⟩
    obtain ⟨c, hc, hsep⟩ := (endsInText_iff isWord hseparated).1 hends
    have hsame := (before_eq_between_iff _ (headingText isWord) separator_ne_space first rest).2
      (separated_cons.1 (hsubs ▸ hseparated))
    rw [hsubs, hsame] at hc ⊢
    obtain ⟨hne, heq⟩ := intercalate_parts_eq_self hc hsep
    exact ⟨hne, heq.symm⟩

variable (extractor : MarcExtractor)

/-- What a Siku subject must meet for its display value to end its entries of the facet: it is a
line of the facet's spec, some `$2` of it is exactly one of the two codes, and the headings agree
and end in text. -/
structure FacetAgrees (f : Field) : Prop where
  covered : f.tag = "650" ∨ extractor.specsCovering f ≠ []
  sikuHeading : sikuHeading f = true
  separated : Separated splitOnSubfield (f.subfields.filter (·.code ∈ sikuIncluded))
  endsInText : EndsInText isWord (f.subfields.filter (·.code ∈ sikuIncluded))

theorem ind2_of_isSikuSubject {f : Field} (h : isSikuSubject f = true) : f.ind2 = "7" := by
  have hvocab : SubjectVocabulary.ofField f = .siku := by
    simpa using (Bool.and_eq_true_iff.1 h).2
  by_contra hind
  unfold SubjectVocabulary.ofField at hvocab
  rw [if_neg hind] at hvocab
  split_ifs at hvocab

theorem kept_ne_nil {f : Field} {included : List Char}
    (h : EndsInText isWord (f.subfields.filter (·.code ∈ included))) :
    ∃ s ∈ f.subfields, s.code ∈ included := by
  obtain ⟨s, hs, -⟩ := h
  have hmem := List.mem_filter.1 (List.mem_of_getLast? hs)
  exact ⟨s, hmem.1, by simpa using hmem.2⟩

theorem accumulatedHeadings_eq {f : Field}
    (hspec : extractor.specsCovering f = [sikuIncluded]) :
    accumulatedHeadings isWord extractor sikuHeading f
      = if sikuHeading f && extractor.collects f sikuIncluded then
          (HierarchicalHeading.toS isWord ⟨f, sikuIncluded, splitOnSubfield⟩).toList.flatMap
            fun heading => accumulateSubheading (split separator heading)
        else [] := by
  unfold accumulatedHeadings headings
  rw [hspec, List.filterMap_cons]
  split_ifs with h
  · cases HierarchicalHeading.toS isWord ⟨f, sikuIncluded, splitOnSubfield⟩ <;> simp
  · rfl

theorem getLast?_accumulatedHeadings_iff {f : Field}
    (hspec : extractor.specsCovering f = [] ∨ extractor.specsCovering f = [sikuIncluded])
    (h650 : f.tag = "650" → f.ind2 = "7" → extractor.specsCovering f = [sikuIncluded])
    (hf : isSikuSubject f = true) :
    (accumulatedHeadings isWord extractor sikuHeading f).getLast?
        = some (hierarchicalHeading isWord f sikuIncluded (splitOn splitOnSubfield))
      ↔ FacetAgrees isWord extractor f := by
  rcases hspec with hspec | hspec
  · have hnone : accumulatedHeadings isWord extractor sikuHeading f = [] := by
      simp [accumulatedHeadings, headings, hspec]
    rw [hnone]
    constructor
    · intro h
      cases h
    · intro h
      rcases h.covered with h | h
      · rw [h650 h (ind2_of_isSikuSubject hf)] at hspec
        cases hspec
      · exact absurd hspec h
  · rw [accumulatedHeadings_eq isWord extractor hspec]
    split_ifs with hboth
    · obtain ⟨hsiku, hcollects⟩ := Bool.and_eq_true_iff.1 hboth
      obtain ⟨first, rest, hsubs⟩ := exists_kept ((extractor.collects_iff f _).1 hcollects)
      have htoS : HierarchicalHeading.toS isWord ⟨f, sikuIncluded, splitOnSubfield⟩ = _ :=
        (toS_eq_some_iff isWord).2 ⟨first, rest, hsubs, rfl⟩
      rw [htoS, Option.toList_some, List.flatMap_singleton, getLast?_accumulate_iff isWord htoS]
      constructor
      · rintro ⟨hseparated, hends⟩
        exact ⟨.inr (by simp [hspec]), hsiku, hseparated, hends⟩
      · intro h
        exact ⟨h.separated, h.endsInText⟩
    · constructor
      · intro h
        cases h
      · intro h
        have hcollects := (extractor.collects_iff f _).2 (kept_ne_nil isWord h.endsInText)
        exact absurd (Bool.and_eq_true_iff.2 ⟨h.sikuHeading, hcollects⟩) hboth

theorem headingsAgree_iff
    (hspec : ∀ f, extractor.specsCovering f = [] ∨ extractor.specsCovering f = [sikuIncluded])
    (h650 : ∀ f : Field, f.tag = "650" → f.ind2 = "7" →
      extractor.specsCovering f = [sikuIncluded]) :
    (∀ (f : Field) (included codes : List Char), (∃ s ∈ f.subfields, s.code ∈ included) →
      (some (hierarchicalHeading isWord f included (splitOn codes))
          = HierarchicalHeading.toS isWord ⟨f, included, codes⟩
        ↔ Separated codes (f.subfields.filter (·.code ∈ included))))
    ∧ ∀ r : Record,
      (∀ f ∈ r.fields, ∀ v, sikuSubjectDisplay isWord f = some v →
        (accumulatedHeadings isWord extractor sikuHeading f).getLast? = some v)
      ↔ ∀ f ∈ r.fields, isSikuSubject f = true → FacetAgrees isWord extractor f := by
  refine ⟨fun f included codes h => heading_eq_toS_iff isWord h, fun r => ?_⟩
  refine forall_congr' fun f => forall_congr' fun hf => ?_
  unfold sikuSubjectDisplay
  constructor
  · intro h hsiku
    rw [if_pos hsiku] at h
    exact (getLast?_accumulatedHeadings_iff isWord extractor (hspec f) (h650 f) hsiku).1 (h _ rfl)
  · intro h v hv
    split_ifs at hv with hsiku
    rw [← Option.some.inj hv]
    exact (getLast?_accumulatedHeadings_iff isWord extractor (hspec f) (h650 f) hsiku).2 (h hsiku)

theorem any_code_iff (f : Field) (spec : List Char) :
    f.subfields.any (·.code ∈ spec) = true ↔ ∃ s ∈ f.subfields, s.code ∈ spec := by simp

/-- The lines of `650|*7|abcvxyz`, with the linked `880`s. -/
def sikuExtractor : MarcExtractor where
  specsCovering f :=
    if latinOrNonLatinTagIncludedIn ["650"] f ∧ f.ind2 = "7" then [sikuIncluded] else []
  collects f spec := f.subfields.any (·.code ∈ spec)
  collects_iff := any_code_iff

def topic (subfields : List Subfield) : Field := { tag := "650", subfields, ind2 := "7" }

def masters : Field := topic [⟨'a', "Zi bu"⟩, ⟨'x', "Zhu jia lei."⟩, ⟨'2', "sk"⟩]

def twoNames : Field := topic [⟨'a', "Zi bu"⟩, ⟨'b', "Zhu jia lei."⟩, ⟨'2', "sk"⟩]

theorem headingsAgree_masters :
    some (hierarchicalHeading Char.isAlpha masters sikuIncluded (splitOn splitOnSubfield))
        = HierarchicalHeading.toS Char.isAlpha ⟨masters, sikuIncluded, splitOnSubfield⟩
      ∧ ∀ f ∈ [masters], ∀ v, sikuSubjectDisplay Char.isAlpha f = some v →
        (accumulatedHeadings Char.isAlpha sikuExtractor sikuHeading f).getLast? = some v := by
  have h := headingsAgree_iff Char.isAlpha sikuExtractor (fun f => by
      unfold sikuExtractor
      dsimp only
      split_ifs <;> simp) (fun f htag hind => by simp [sikuExtractor, latinOrNonLatinTagIncludedIn,
      htag, hind])
  have hsep : Separated splitOnSubfield (masters.subfields.filter (·.code ∈ sikuIncluded)) := by
    unfold Separated
    decide
  refine ⟨(h.1 masters sikuIncluded splitOnSubfield (by decide)).2 hsep, ?_⟩
  refine (h.2 { fields := [masters] }).2 fun f hf _ => ?_
  rw [List.mem_singleton.1 hf]
  exact ⟨.inl rfl, by decide, hsep, ⟨⟨'x', "Zhu jia lei."⟩, rfl, 'i', by decide +kernel, by decide⟩⟩

theorem not_headingsAgree_twoNames :
    (∃ s ∈ twoNames.subfields, s.code ∈ sikuIncluded)
      ∧ some (hierarchicalHeading Char.isAlpha twoNames sikuIncluded (splitOn splitOnSubfield))
        ≠ HierarchicalHeading.toS Char.isAlpha ⟨twoNames, sikuIncluded, splitOnSubfield⟩
      ∧ sikuSubjectDisplay Char.isAlpha twoNames = some "Zi buZhu jia lei"
      ∧ (accumulatedHeadings Char.isAlpha sikuExtractor sikuHeading twoNames).getLast?
        = some "Zi bu Zhu jia lei" := by
  decide +kernel

end Siku

end Bibdata
