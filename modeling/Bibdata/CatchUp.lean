import Bibdata.IndexManager

/-!
# Taking `next_dump` again and again

A catch-up takes `next_dump`, indexes it, records it as `last_dump_completed` and goes on until
there is none. The rows of a query come in an order that the database is free to choose, each
time anew; it decides which of several dumps that start together is first.
-/

namespace Bibdata

/-- `next_incremental` from `last` can return `r` and leave `last_dump_completed` there. -/
def NextIncremental (db : Db) (last : Dump) (r : Option Dump × Dump) : Prop :=
  ∃ rows fuel, ∃ h : rows.Perm db.dumps, nextIncremental (db.scan rows h) fuel last = some r

/-- `next_dump` can return `r.1` and leave `last_dump_completed` at `r.2`. -/
def NextDump (db : Db) (last : Option Dump) (r : Option Dump × Option Dump) : Prop :=
  ∃ rows fuel, ∃ h : rows.Perm db.dumps, nextDump (db.scan rows h) fuel last = some r

/-- From a fresh manager the dumps `ds` can be selected, in this order, the last one recorded as
`last_dump_completed`. -/
inductive Selected (db : Db) : Option Dump → List Dump → Prop
  | start : Selected db none []
  | take {last last' : Option Dump} {ds : List Dump} {d : Dump} (hs : Selected db last ds)
      (hn : NextDump db last (some d, last')) : Selected db (some d) (ds ++ [d])

structure CatchesUp (db : Db) : Prop where
  returns : ∀ last ds, Selected db last ds → ∀ rows, ∀ h : rows.Perm db.dumps,
    ∃ fuel, (nextDump (db.scan rows h) fuel last).isSome
  ordered : ∀ last ds, Selected db last ds →
    (ds.dropWhile (·.isFullDump)).Pairwise fun a b => a.start ≤ b.start
  once : ∀ last ds, Selected db last ds → ds.Nodup
  ends : ∃ n, ∀ last ds, Selected db last ds → ds.length ≤ n
  complete : ∀ last last' ds, Selected db last ds → NextDump db last (none, last') →
    ∀ i, ds.find? (·.isChangedRecords) = some i → ∀ d ∈ db.changedRecords,
      db.filesOf d ≠ [] → i.start ≤ d.start → ds.count d = 1

/-- The latest full dump, or one of several that start together. -/
def LatestFull (db : Db) (f : Dump) : Prop :=
  f ∈ db.fullDump ∧ ∀ g ∈ db.fullDump, g.start ≤ f.start

/-- A catch-up comes to the dumps that start at `t`: after the latest full dump it begins with
the last incremental before it, and with no such incremental at the full dump's own start. -/
def Reached (db : Db) (t : Time) : Prop :=
  ∀ f, LatestFull db f → f.start ≤ t ∨
    ((∃ p ∈ db.changedRecords, p.start < f.start.toS)
      ∧ ∀ p ∈ db.changedRecords, p.start < f.start.toS → p.start ≤ t)

/-- No two `changed_records` dumps that a catch-up comes to start together. -/
def NoTies (db : Db) : Prop :=
  ∀ a ∈ db.changedRecords, ∀ b ∈ db.changedRecords, a.start = b.start → Reached db a.start → a = b

end Bibdata
