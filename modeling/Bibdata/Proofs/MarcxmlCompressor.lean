import Bibdata.MarcxmlCompressor
import Bibdata.Proofs.MarcGem

/-!
# The XML of a partner's record, read back

What the indexer stores for a partner's record is read back as the very XML of the record without
the fields that are not used, and so is what `compress` makes; nothing but the Base64 of some gzip
is ever read (`decompress_marcxml`).
-/

namespace Bibdata

namespace MarcxmlCompressor

variable {gzip : Gzip} {decoded xml : List UInt8} {s : String}

section Encoded

theorem isSpace_digit {n : ℕ} (h : n < 64) : isSpace (Base64.digit n) = false := by
  have hspace : (Base64.alphabet.all fun c => !isSpace c) = true := by decide +kernel
  have hlt : n < Base64.alphabet.length := Base64.length_alphabet ▸ h
  rw [List.all_eq_true] at hspace
  rw [Base64.digit_eq_getElem hlt]
  simpa using hspace _ (List.getElem_mem hlt)

theorem not_blank_strictEncode64 (h : decoded ≠ []) : blank (strictEncode64 decoded) = false := by
  unfold blank strictEncode64
  rw [String.toList_ofList]
  obtain ⟨a, rest, rfl⟩ := List.exists_cons_of_ne_nil h
  have ha := a.toNat_lt
  have hspace : isSpace (Base64.digit (a.toNat / 4)) = false := isSpace_digit (by omega)
  unfold Base64.encode
  split <;> simp_all

theorem strictDecode64_eq_some_iff :
    strictDecode64 s = some decoded ↔ s = strictEncode64 decoded := by
  unfold strictDecode64 strictEncode64
  rw [Base64.strictDecode_eq_some_iff]
  constructor
  · intro h
    rw [← h, String.ofList_toList]
  · rintro rfl
    exact String.toList_ofList

end Encoded

/-- Only the Base64 of a gzip is read, and it is read as what is in there. -/
theorem decompress_eq_ok_iff (hempty : gzip.gzipReader [] = none) :
    decompress gzip (some s) = .ok (some xml)
      ↔ ∃ decoded, s = strictEncode64 decoded ∧ gzip.gzipReader decoded = some xml := by
  unfold decompress
  constructor
  · intro h
    dsimp only at h
    split_ifs at h with hblank
    · cases h
    · cases hdecoded : strictDecode64 s with
      | none =>
        rw [hdecoded] at h
        cases h
      | some decoded =>
        refine ⟨decoded, strictDecode64_eq_some_iff.1 hdecoded, ?_⟩
        rw [hdecoded] at h
        cases hread : gzip.gzipReader decoded with
        | none => simp [hread] at h
        | some xml' => simpa [hread] using h
  · rintro ⟨decoded, rfl, hread⟩
    have hne : decoded ≠ [] := by
      rintro rfl
      rw [hempty] at hread
      cases hread
    have hdecoded := strictDecode64_eq_some_iff.2 (rfl : strictEncode64 decoded = _)
    simp [not_blank_strictEncode64 hne, hdecoded, hread]

theorem decompress_marcxmlCompressed (hempty : gzip.gzipReader [] = none)
    (hencoder : ∀ xml, gzip.gzipReader (gzip.gzEncoder xml) = some xml)
    (toXmlString : MarctkRecord → String) (record : MarctkRecord) :
    decompress gzip (some (marcxmlCompressed gzip toXmlString record))
      = .ok (some (bytes (toXmlString record))) :=
  (decompress_eq_ok_iff hempty).2 ⟨_, rfl, hencoder _⟩

/-- The id of a record is not among the fields that are left out. -/
theorem isScsb_without (unused : List String) (r : MarctkRecord) :
    isScsb (r.without unused).toRecord = isScsb r.toRecord := rfl

theorem decompress_marcxml (hempty : gzip.gzipReader [] = none)
    (hwriter : ∀ now xml, gzip.gzipReader (gzip.gzipWriter now xml) = some xml)
    (hencoder : ∀ xml, gzip.gzipReader (gzip.gzEncoder xml) = some xml) :
    (∀ limits toXmlString ruby, (marcxml gzip limits toXmlString ruby).map (decompress gzip)
        = (MarcGem.marctkFromRubyMarcRecord limits [] ruby).map fun whole =>
          .ok (if isScsb whole.toRecord then
              some (bytes (toXmlString (whole.without MarcGem.unusedFields)))
            else none))
      ∧ (∀ now xmlString, decompress gzip (compress gzip now xmlString)
        = .ok (if present xmlString then xmlString.map bytes else none))
      ∧ ∀ s xml, decompress gzip (some s) = .ok (some xml)
        ↔ ∃ decoded, s = strictEncode64 decoded ∧ gzip.gzipReader decoded = some xml := by
  refine ⟨fun limits toXmlString ruby => ?_, fun now xmlString => ?_,
    fun s xml => decompress_eq_ok_iff hempty⟩
  · rw [marcxml, MarcGem.marctkFromRubyMarcRecord_without, Option.map_map, Option.map_map]
    refine congrFun (congrArg Option.map (funext fun whole => ?_)) _
    rw [Function.comp_apply, Function.comp_apply, isScsb_without]
    split_ifs
    · exact decompress_marcxmlCompressed hempty hencoder toXmlString _
    · rfl
  · unfold compress
    split_ifs with hpresent
    · cases xmlString with
      | none => cases hpresent
      | some xml => exact (decompress_eq_ok_iff hempty).2 ⟨_, rfl, hwriter _ _⟩
    · rfl

/-- The XML of a record whose texts have nothing to escape. -/
def plainXml (record : MarctkRecord) : String :=
  "<record><leader>" ++ record.leader ++ "</leader>"
    ++ String.join (record.controlFields.map fun field =>
      "<controlfield tag=\"" ++ field.tag ++ "\">" ++ field.content ++ "</controlfield>")
    ++ String.join (record.fields.map fun field =>
      "<datafield tag=\"" ++ field.tag ++ "\" ind1=\"" ++ field.ind1 ++ "\" ind2=\"" ++ field.ind2
        ++ "\">" ++ String.join (field.subfields.map fun s =>
          "<subfield code=\"" ++ String.singleton s.code ++ "\">" ++ s.content ++ "</subfield>")
        ++ "</datafield>")
    ++ "</record>"

/-- A record with a local field. -/
def partnerRecord : MarcGem.RubyRecord where
  leader := some "00000nam a2200000 a 4500"
  fields := some [
    .control (some "001") (some "SCSB-8157262"),
    .data (some "245") (some "1") (some "0") (some [⟨some "a", some "Emma"⟩]),
    .data (some "952") (some " ") (some " ") (some [⟨some "h", some "JFE 07-5007"⟩])]

/-- Its XML, without the local field. -/
def partnerXml : String :=
  "<record><leader>00000nam a2200000 a 4500</leader>"
    ++ "<controlfield tag=\"001\">SCSB-8157262</controlfield>"
    ++ "<datafield tag=\"245\" ind1=\"1\" ind2=\"0\"><subfield code=\"a\">Emma</subfield>"
    ++ "</datafield></record>"

/-- What gzip makes of this, without a time. -/
def gzippedRecord : List UInt8 :=
  [31, 139, 8, 0, 0, 0, 0, 0, 0, 255, 77, 142, 75, 10, 2, 49, 16, 68, 175, 18, 122, 47, 249, 48,
    81, 23, 157, 94, 40, 158, 96, 78, 208, 38, 81, 6, 242, 129, 76, 188, 191, 227, 56, 202, 212,
    234, 81, 60, 138, 194, 22, 125, 109, 129, 48, 69, 14, 177, 145, 250, 164, 112, 22, 108, 204,
    202, 130, 197, 96, 149, 66, 185, 9, 232, 107, 233, 173, 166, 199, 20, 83, 16, 157, 159, 14,
    148, 210, 64, 227, 117, 188, 28, 206, 218, 158, 204, 209, 160, 220, 75, 132, 129, 59, 239,
    124, 51, 88, 16, 83, 9, 218, 129, 94, 193, 44, 27, 64, 56, 191, 238, 95, 203, 215, 16, 29, 48,
    208, 45, 103, 70, 249, 235, 9, 229, 127, 105, 225, 237, 249, 27, 200, 162, 94, 237, 194, 0, 0,
    0]

def gzipOfRecord : Gzip where
  gzipWriter _ xml := if xml = bytes partnerXml then gzippedRecord else 0 :: xml
  gzipReader
    | 0 :: xml => some xml
    | decoded => if decoded = gzippedRecord then some (bytes partnerXml) else none
  gzEncoder xml := if xml = bytes partnerXml then gzippedRecord else 0 :: xml

def partnerMarcxml : String :=
  "H4sIAAAAAAAA/02OSwoCMRBErxJ6L/kwURedXiieYE7QJlEG8oFMvL/jOMrU6lE8isIWfW2BMEUO"
    ++ "sZH6pHAWbMzKgsVglUK5Cehr6a2mxxRTEJ2fDpTSQON1vBzO2p7M0aDcS4SBO+98M1gQUwnagV7B"
    ++ "LBtAOL/uX8vXEB0w0C1nRvnrCeV/aeHt+RvIol7twgAAAA=="

theorem decompress_partnerRecord :
    marcxml gzipOfRecord MarcGem.sizes plainXml partnerRecord = some (some partnerMarcxml)
      ∧ decompress gzipOfRecord (some partnerMarcxml) = .ok (some (bytes partnerXml)) := by
  have hread : ∀ xml, gzipOfRecord.gzipReader (gzipOfRecord.gzEncoder xml) = some xml := by
    intro xml
    by_cases h : xml = bytes partnerXml <;> simp [gzipOfRecord, h, gzippedRecord]
  obtain ⟨hmarcxml, hwhole⟩ : marcxml gzipOfRecord MarcGem.sizes plainXml partnerRecord
        = some (some partnerMarcxml)
      ∧ (MarcGem.marctkFromRubyMarcRecord MarcGem.sizes [] partnerRecord).map
        (fun whole => (isScsb whole.toRecord, plainXml (whole.without MarcGem.unusedFields)))
          = some (true, partnerXml) := by
    decide +kernel
  refine ⟨hmarcxml, ?_⟩
  have hdecompress := (decompress_marcxml rfl (fun _ => hread) hread).1 MarcGem.sizes plainXml
    partnerRecord
  rw [hmarcxml, Option.map_some] at hdecompress
  obtain ⟨whole, hcopied, hpair⟩ := Option.map_eq_some_iff.1 hwhole
  obtain ⟨hscsb, hxml⟩ := Prod.mk.inj hpair
  rw [hcopied, Option.map_some, hscsb, if_pos rfl, hxml] at hdecompress
  exact Option.some.inj hdecompress

end MarcxmlCompressor

end Bibdata
