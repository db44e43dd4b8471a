import Bibdata.NonLatin
import Mathlib.Data.String.Basic

/-!
# Which linked fields are listed as unmatched

The pair of an 880 field is found by counting: number `NN` linked to tag `T` takes the `NN`th field
of that tag (`pairedWith_of_linkedTo`), whatever the $6 of that field says. A field is listed when
it has no pair of its own (`mem_listedFields`), so the list is right where the count and the links
agree.
-/

namespace Bibdata

section Bytes

def byteLength (cs : List Char) : ℕ := (cs.map Char.utf8Size).sum

theorem byteLength_append (cs ds : List Char) :
    byteLength (cs ++ ds) = byteLength cs + byteLength ds := by
  rw [byteLength, List.map_append, List.sum_append, ← byteLength, ← byteLength]

theorem byteLength_toList (s : String) : byteLength s.toList = s.utf8ByteSize := by
  have hlen : ∀ cs : List Char, byteLength cs = String.utf8Len cs := by
    intro cs
    induction cs with
    | nil => rfl
    | cons c cs ih =>
      rw [String.utf8Len_cons, ← ih, Nat.add_comm]
      rfl
  rw [hlen, String.utf8Len_toList]

theorem firstBytes_append (cs rest : List Char) :
    firstBytes (byteLength cs) (cs ++ rest) = some cs := by
  induction cs with
  | nil =>
    show firstBytes 0 rest = some []
    cases rest <;> rfl
  | cons c cs ih =>
    have hpos := c.utf8Size_pos
    have hlength : byteLength (c :: cs) = (c.utf8Size - 1 + byteLength cs) + 1 := by
      simp only [byteLength, List.map_cons, List.sum_cons]
      omega
    rw [hlength, List.cons_append, firstBytes, if_pos (by omega),
      show c.utf8Size - 1 + byteLength cs + 1 - c.utf8Size = byteLength cs by omega, ih]
    rfl

theorem firstBytes_eq_some {n : ℕ} {cs ds : List Char} (h : firstBytes n cs = some ds) :
    ds <+: cs ∧ byteLength ds = n := by
  induction cs generalizing n ds with
  | nil =>
    cases n with
    | zero => cases h; exact ⟨List.nil_prefix, rfl⟩
    | succ n => cases h
  | cons c cs ih =>
    cases n with
    | zero => cases h; exact ⟨List.nil_prefix, rfl⟩
    | succ n =>
      rw [firstBytes] at h
      split_ifs at h with hsize
      obtain ⟨es, hes, rfl⟩ := Option.map_eq_some_iff.1 h
      obtain ⟨hbegins, hlength⟩ := ih hes
      refine ⟨List.cons_prefix_cons.2 ⟨rfl, hbegins⟩, ?_⟩
      simp only [byteLength, List.map_cons, List.sum_cons] at hlength ⊢
      omega

/-- The bytes of a part of a string are its own. -/
theorem byteRange_append {a b : ℕ} {before part : List Char} (rest : List Char)
    (ha : byteLength before = a) (hb : byteLength part = b - a) :
    byteRange a b (before ++ part ++ rest) = some part := by
  rw [byteRange, ← ha, List.append_assoc, firstBytes_append, Option.bind_some, List.drop_left, ha,
    ← hb, firstBytes_append]

theorem toNat_of_isDigit {c : Char} (h : c.isDigit) : 48 ≤ c.toNat ∧ c.toNat ≤ 57 := by
  simp only [Char.isDigit, Bool.and_eq_true, decide_eq_true_eq] at h
  exact h

theorem utf8Size_of_isDigit {c : Char} (h : c.isDigit) : c.utf8Size = 1 := by
  have hnat := toNat_of_isDigit h
  unfold Char.utf8Size
  rw [if_pos]
  show c.toNat ≤ 0x7f
  omega

theorem withoutPlus_of_isDigit {c : Char} (h : c.isDigit) (cs : List Char) :
    withoutPlus (c :: cs) = c :: cs := by
  unfold withoutPlus
  split
  · rename_i heq
    cases heq
    cases h
  · rfl

theorem parseUsize_digits {d₁ d₂ : Char} (h₁ : d₁.isDigit) (h₂ : d₂.isDigit) :
    parseUsize [d₁, d₂] = some (digitsValue [d₁, d₂]) := by
  have hbound : digitsValue [d₁, d₂] < 2 ^ 64 := by
    have hnat₁ := toNat_of_isDigit h₁
    have hnat₂ := toNat_of_isDigit h₂
    simp only [digitsValue, Nat.ofDigitChars_cons, Nat.ofDigitChars_nil]
    omega
  simp only [parseUsize, withoutPlus_of_isDigit h₁]
  rw [if_pos ⟨List.cons_ne_nil _ _, by simp [h₁, h₂], hbound⟩]

end Bytes

section Listed

def listedFields (r : Record) : List Field := r.fields.filter (isUnmatched r)

theorem unmatchedParallelStrings_eq (r : Record) :
    unmatchedParallelStrings r =
      (listedFields r).map fun field => joinSubfieldsByCode field ['a', 'b', 'c'] := by
  rw [unmatchedParallelStrings, extractFieldValuesBy_some, listedFields]

theorem any_parallelFieldPairs {r : Record} {field : Field} (hmem : field ∈ r.fields)
    (htag : field.tag = "880") :
    (parallelFieldPairs r).any (·.nonLatin = field) = (pairedWith r field).isSome := by
  rw [Bool.eq_iff_iff, List.any_eq_true, Option.isSome_iff_exists]
  constructor
  · rintro ⟨pair, hpair, hfield⟩
    obtain ⟨nonLatin, -, hpaired⟩ := List.mem_filterMap.1 hpair
    obtain ⟨latin, hlatin, rfl⟩ := Option.map_eq_some_iff.1 hpaired
    rw [← of_decide_eq_true hfield]
    exact ⟨latin, hlatin⟩
  · rintro ⟨latin, hlatin⟩
    have hget : field ∈ r.getFields "880" := List.mem_filter.2 ⟨hmem, decide_eq_true htag⟩
    refine ⟨⟨field, latin⟩, List.mem_filterMap.2 ⟨field, hget, ?_⟩, decide_eq_true rfl⟩
    rw [hlatin, Option.map_some]

/-- Two equal fields share their pair, so only a field's own matters. -/
theorem mem_listedFields {r : Record} {field : Field} (hmem : field ∈ r.fields)
    (htag : field.tag = "880") : field ∈ listedFields r ↔ pairedWith r field = none := by
  rw [listedFields, List.mem_filter, isUnmatched, any_parallelFieldPairs hmem htag]
  simp [hmem, htag]

end Listed

section Links

/-- The $6 starts with this tag and this number. -/
def LinkedTo (field : Field) (tag : String) (d₁ d₂ : Char) : Prop :=
  ∃ linkage, field.firstSubfield '6' = some linkage
    ∧ tag.toList ++ ['-', d₁, d₂] <+: linkage.toList

instance (field : Field) (tag : String) (d₁ d₂ : Char) :
    Decidable (LinkedTo field tag d₁ d₂) :=
  decidable_of_iff
    ((field.firstSubfield '6').any fun linkage =>
      (tag.toList ++ ['-', d₁, d₂]).isPrefixOf linkage.toList)
    (by simp [LinkedTo, Option.any_eq_true, List.isPrefixOf_iff_prefix])

def IsLinkedBack (r : Record) (tag : String) (d₁ d₂ : Char) : Prop :=
  ∃ field ∈ r.getFields tag, LinkedTo field "880" d₁ d₂

instance (r : Record) (tag : String) (d₁ d₂ : Char) : Decidable (IsLinkedBack r tag d₁ d₂) :=
  inferInstanceAs (Decidable (∃ field ∈ r.getFields tag, LinkedTo field "880" d₁ d₂))

variable {r : Record} {field : Field} {tag : String} {d₁ d₂ : Char}

theorem pairedWith_of_linkedTo (htag : byteLength tag.toList = 3) (h₁ : d₁.isDigit)
    (h₂ : d₂.isDigit) (hlinked : LinkedTo field tag d₁ d₂) :
    pairedWith r field =
      match digitsValue [d₁, d₂] with
      | 0 => none
      | index + 1 => (r.getFields tag)[index]? := by
  obtain ⟨linkage, hlinkage, rest, hrest⟩ := hlinked
  have htagRange : byteRange 0 3 linkage.toList = some tag.toList := by
    rw [← hrest, List.append_assoc, ← List.nil_append tag.toList]
    exact byteRange_append _ rfl htag
  have hdigits : byteLength [d₁, d₂] = 2 := by
    simp [byteLength, utf8Size_of_isDigit h₁, utf8Size_of_isDigit h₂]
  have hoccurrence : byteRange 4 6 linkage.toList = some [d₁, d₂] := by
    rw [← hrest, show tag.toList ++ ['-', d₁, d₂] = (tag.toList ++ ['-']) ++ [d₁, d₂] by simp]
    refine byteRange_append rest ?_ hdigits
    simp only [byteLength, List.map_append, List.sum_append] at htag ⊢
    rw [htag]
    rfl
  cases hvalue : digitsValue [d₁, d₂] <;>
    simp only [pairedWith, hlinkage, htagRange, hoccurrence, parseUsize_digits h₁ h₂,
      Option.bind_some, String.ofList_toList, hvalue]

theorem pairedWith_eq_none (htag : byteLength tag.toList = 3) (h₁ : d₁.isDigit)
    (h₂ : d₂.isDigit) (hlinked : LinkedTo field tag d₁ d₂) :
    pairedWith r field = none ↔
      ¬(1 ≤ digitsValue [d₁, d₂] ∧ digitsValue [d₁, d₂] ≤ (r.getFields tag).length) := by
  rw [pairedWith_of_linkedTo htag h₁ h₂ hlinked]
  cases digitsValue [d₁, d₂] with
  | zero => simp
  | succ index =>
    show (r.getFields tag)[index]? = none ↔ _
    rw [List.getElem?_eq_none_iff]
    omega

/-- Listed exactly when nothing is linked back. -/
def ListedRight (r : Record) (field : Field) (tag : String) (d₁ d₂ : Char) : Prop :=
  field ∈ listedFields r ↔ ¬IsLinkedBack r tag d₁ d₂

theorem listedRight_iff (hmem : field ∈ r.fields) (h880 : field.tag = "880")
    (htag : byteLength tag.toList = 3) (h₁ : d₁.isDigit) (h₂ : d₂.isDigit)
    (hlinked : LinkedTo field tag d₁ d₂) :
    ListedRight r field tag d₁ d₂ ↔
      ((1 ≤ digitsValue [d₁, d₂] ∧ digitsValue [d₁, d₂] ≤ (r.getFields tag).length)
        ↔ IsLinkedBack r tag d₁ d₂) := by
  rw [ListedRight, mem_listedFields hmem h880, pairedWith_eq_none htag h₁ h₂ hlinked]
  exact not_iff_not

theorem listedRight_firstLinked :
    ListedRight ⟨[], [⟨"245", [⟨'6', "880-01"⟩], ""⟩, ⟨"880", [⟨'6', "245-01"⟩], ""⟩], ""⟩
      ⟨"880", [⟨'6', "245-01"⟩], ""⟩ "245" '0' '1' :=
  (listedRight_iff (by decide) rfl (by decide) rfl rfl (by decide)).2 (by decide)

/-- The title is the only one of its tag, and has number 2 as the second field that is linked. -/
def secondLinked : Record :=
  ⟨[], [⟨"100", [⟨'6', "880-01"⟩, ⟨'a', "Murakami"⟩], ""⟩,
    ⟨"245", [⟨'6', "880-02"⟩, ⟨'a', "1Q84"⟩], ""⟩,
    ⟨"880", [⟨'6', "100-01"⟩, ⟨'a', "村上"⟩], ""⟩,
    ⟨"880", [⟨'6', "245-02"⟩, ⟨'a', "いちきゅうはちよん"⟩], ""⟩], ""⟩

/-- The title in Japanese. -/
def titleLinked : Field := ⟨"880", [⟨'6', "245-02"⟩, ⟨'a', "いちきゅうはちよん"⟩], ""⟩

theorem not_listedRight_secondLinked :
    titleLinked ∈ secondLinked.fields ∧ titleLinked.tag = "880"
      ∧ LinkedTo titleLinked "245" '0' '2'
      ∧ ¬ListedRight secondLinked titleLinked "245" '0' '2' := by
  refine ⟨by decide, rfl, by decide, fun hlisted => ?_⟩
  have hback : IsLinkedBack secondLinked "245" '0' '2' := by decide
  exact hlisted.1 (by decide +kernel) hback

end Links

end Bibdata
