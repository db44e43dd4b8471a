import Bibdata.Library.Base64
import Bibdata.MarcGem

/-!
# The XML of a partner's record, as Solr stores it

The records of the partners are kept as XML, compressed, in Base64. What is kept is the copy that
Rust works on, so it does not have the fields that are not used there. The indexer writes it in one
language and the services read it in another. What the two gzip libraries write, and what is read
of it, is a parameter here.
-/

namespace Bibdata

namespace MarcxmlCompressor

/-- `Zlib::GzipWriter`, which writes the time too, `Zlib::GzipReader`, and `flate2`'s `GzEncoder`;
the reader raises where it is given something else. -/
structure Gzip where
  gzipWriter : ℕ → List UInt8 → List UInt8
  gzipReader : List UInt8 → Option (List UInt8)
  gzEncoder : List UInt8 → List UInt8

variable (gzip : Gzip)

inductive Raised
  | argumentError
  | gzipFileError
  deriving DecidableEq

def bytes (s : String) : List UInt8 := s.toUTF8.data.toList

def strictEncode64 (decoded : List UInt8) : String := String.ofList (Base64.encode decoded)

def strictDecode64 (encoded : String) : Option (List UInt8) := Base64.strictDecode encoded.toList

def compress (now : ℕ) (xmlString : Option String) : Option String :=
  if present xmlString then
    xmlString.map fun xml => strictEncode64 (gzip.gzipWriter now (bytes xml))
  else none

def decompress (compressedString : Option String) : Except Raised (Option (List UInt8)) :=
  match compressedString with
  | none => .ok none
  | some compressed =>
    if blank compressed then .ok none
    else
      match strictDecode64 compressed with
      | none => .error .argumentError
      | some decoded =>
        match gzip.gzipReader decoded with
        | none => .error .gzipFileError
        | some xml => .ok (some xml)

def marcxmlCompressed (toXmlString : MarctkRecord → String) (record : MarctkRecord) : String :=
  strictEncode64 (gzip.gzEncoder (bytes (toXmlString record)))

/-- The field `marcxml` of the document of a Ruby record; `none` where the copy raises. -/
def marcxml (limits : MarcGem.Limits) (toXmlString : MarctkRecord → String)
    (ruby : MarcGem.RubyRecord) : Option (Option String) :=
  (MarcGem.marctkFromRubyMarcRecord limits MarcGem.unusedFields ruby).map fun record =>
    if isScsb record.toRecord then some (marcxmlCompressed gzip toXmlString record) else none

end MarcxmlCompressor

end Bibdata
