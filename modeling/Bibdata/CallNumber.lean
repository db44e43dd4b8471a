import Bibdata.Marc

/-!
# Call numbers

The call numbers of a record, as they are shown and as they are browsed. Those of a partner are
where its locations are, and ours where there is an id of a holding.
-/

namespace Bibdata

def scsbCallNumberFields (r : Record) : List Field :=
  (r.getFields "852").filter fun field => (field.firstSubfield 'b').any (startsWith · "scsb")

def almaCallNumberFields (r : Record) : List Field :=
  (r.getFields "852").filter fun field => (field.firstSubfield '8').any almaCodeStart22

/-- What the two labelers have in common: the parts that are there, in this order. -/
def fieldLabel (codes : List Char) (field : Field) : Option String :=
  let parts := ((codes.filterMap field.firstSubfield).map trim).filter (· ≠ "")
  if " ".intercalate parts = "" then none else some (" ".intercalate parts)

def displayFieldLabeler (field : Field) : Option String := fieldLabel ['k', 'h', 'i'] field

def browseFieldLabeler (field : Field) : Option String := fieldLabel ['h', 'i', 'k'] field

def callNumberLabels (fieldLabeler : Field → Option String) (r : Record) : List String :=
  (if isScsb r then scsbCallNumberFields r else almaCallNumberFields r).filterMap fieldLabeler

def callNumberLabelsForDisplay (r : Record) : List String := callNumberLabels displayFieldLabeler r

def callNumberLabelsForBrowse (r : Record) : List String := callNumberLabels browseFieldLabeler r

end Bibdata
