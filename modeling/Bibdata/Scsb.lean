import Bibdata.Dump
import Bibdata.Library.DeferredAdds
import Mathlib.Data.List.MinMax
import Mathlib.Data.List.Sort

/-!
# Replaying the SCSB dumps

`scsb:full` takes the latest full dump of the partners and the incrementals generated since, and
goes through them: each record file is a job, and the ids to delete are deleted at once.
`content` is what `index_file` adds to Solr for a file, in order.
-/

namespace Bibdata

section Dumps

variable (db : Db)

def Db.partnerRecap : List Dump := db.dumps.filter (·.dumpType = .partnerRecap)

/-- `Dump.partner_recap_full.latest_generated`. -/
def latestGenerated : Option Dump :=
  (db.dumps.filter fun d => d.dumpType = .partnerRecapFull ∧ d.event.success = true
    ∧ d.generatedDate.isSome = true).argmax (·.generatedDate.getD 0)

/-- `subsequent_partner_incrementals` of a dump that was generated then. -/
def subsequentPartnerIncrementals (generatedDate : Time) : List Dump :=
  db.partnerRecap.filter fun d => ∃ t ∈ d.generatedDate, generatedDate ≤ t

def scsbFull : Option (List Dump) :=
  (latestGenerated db).bind fun d =>
    d.generatedDate.map fun t => d :: subsequentPartnerIncrementals db t

def recordFiles (d : Dump) : List DumpFile := (db.filesOf d).filter (·.recapRecordType)

/-- What `process_scsb_dumps` does for a dump. -/
def processScsbDump (d : Dump) : List (DeferredAdds.Op String DumpFile) :=
  (recordFiles db d).map .add ++ if d.deleteIds = [] then [] else [.delete d.deleteIds]

def processScsbDumps (dumps : List Dump) : List (DeferredAdds.Op String DumpFile) :=
  dumps.flatMap (processScsbDump db)

end Dumps

section Solr

variable {D : Type*} (content : DumpFile → List (String × D)) (db : Db)

abbrev Solr (D : Type*) := String → Option D

def Solr.add (solr : Solr D) (e : String × D) : Solr D :=
  fun x => if x = e.1 then some e.2 else solr x

def indexFile (solr : Solr D) (f : DumpFile) : Solr D := (content f).foldl Solr.add solr

/-- The document that a file leaves under an id. -/
def docs (f : DumpFile) (x : String) : Option D :=
  ((content f).reverse.find? (·.1 = x)).map (·.2)

/-- A dump's record files first, and then its ids to delete. -/
def applyDump (solr : Solr D) (d : Dump) : Solr D :=
  DeferredAdds.remove d.deleteIds ((recordFiles db d).foldl (indexFile content) solr)

def applyDumps (dumps : List Dump) (solr : Solr D) : Solr D :=
  dumps.foldl (applyDump content db) solr

/-- In the order of `generated_date`, and of creation where that is the same. -/
def GeneratedBefore (a b : Dump) : Prop :=
  a.generatedDate.getD 0 < b.generatedDate.getD 0
    ∨ a.generatedDate.getD 0 = b.generatedDate.getD 0 ∧ a.id ≤ b.id

instance : DecidableRel GeneratedBefore := fun _ _ => inferInstanceAs (Decidable (_ ∨ _))

def chronological (full : Dump) (incs : List Dump) : List Dump :=
  full :: incs.insertionSort GeneratedBefore

end Solr

end Bibdata
