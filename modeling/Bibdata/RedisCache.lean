import Bibdata.FiggyReport

/-!
# The cache of Figgy's report

Every night what is open in Figgy's report is written to Redis as one text. A process that indexes
reads that text when it first looks something up, and keeps what it read for as long as it lives.
How a cache is written as a text is a parameter here; `none` stands for a panic.
-/

namespace Bibdata

namespace RedisCache

variable {N : Type}

/-- `serde_json` for a map of MMS ids. -/
structure CacheJson (N : Type) where
  toString : FiggyMmsIdCache N → String
  fromStr : String → Option (FiggyMmsIdCache N)

/-- What Figgy answers. -/
inductive Response
  | couldNotConnect
  | status (code : ℕ) (body : String)
  deriving DecidableEq

variable (json : CacheJson N)

def fetchReport : Response → Option (FiggyMmsIdCache N)
  | .couldNotConnect => none
  | .status code body => if code = 403 ∨ code = 401 then none else json.fromStr body

section Field

/-- The member of an object is set; in what order they stand does not matter. -/
def insertMember (key : String) (value : JsonValue N) (members : List (String × JsonValue N)) :
    List (String × JsonValue N) :=
  members.filter (·.1 ≠ key) ++ [(key, value)]

def withRecord (displayFormat : Record → String) (record : Record) (item : JsonValue N) :
    Option (JsonValue N) :=
  match item with
  | .object members => record.controlNumber.map fun sourceId =>
    .object (insertMember "source_id" (.string sourceId)
      (insertMember "display_format" (.string (displayFormat record)) members))
  | _ => none

/-- The items of the field `figgy_1display`. -/
def figgyItems (displayFormat : Record → String) (record : Record) (cache : FiggyMmsIdCache N) :
    Option (Option (FiggyItems N)) :=
  match ControlNumber.ofRecord record with
  | .alma mmsId =>
    match cache.get mmsId with
    | some items => (items.mapM (withRecord displayFormat record)).map some
    | none => some none
  | _ => some none

end Field

section System

/-- A `LazyLock`. -/
inductive LazyLock (N : Type)
  | uninitialized
  | initialized (cache : FiggyMmsIdCache N)
  | poisoned

/-- Redis, what each run of `cache_figgy_data` is about to write, and what each process has. -/
structure State (N : Type) where
  redis : Option String := none
  caching : ℕ → Option (FiggyMmsIdCache N) := fun _ => none
  processes : ℕ → LazyLock N := fun _ => .uninitialized

inductive Event
  | fetch (run : ℕ) (response : Response)
  | write (run : ℕ)
  | read (process : ℕ) (connected : Bool)
  | restart (process : ℕ)

/-- The first time that a process looks something up. -/
def read (redis : Option String) (connected : Bool) : LazyLock N :=
  if connected then
    match redis.bind json.fromStr with
    | some cache => .initialized cache
    | none => .poisoned
  else .poisoned

def step (s : State N) : Event → Option (State N)
  | .fetch run response =>
    some { s with
      caching := Function.update s.caching run ((fetchReport json response).map onlyOpen) }
  | .write run =>
    (s.caching run).map fun cache =>
      { s with
        redis := some (json.toString cache)
        caching := Function.update s.caching run none }
  | .read process connected =>
    match s.processes process with
    | .uninitialized =>
      some { s with
        processes := Function.update s.processes process (read json s.redis connected) }
    | _ => some s
  | .restart process =>
    some { s with processes := Function.update s.processes process .uninitialized }

/-- The reports that Figgy gave in a run. -/
def reports (es : List Event) : List (FiggyMmsIdCache N) :=
  es.filterMap fun
    | .fetch _ response => fetchReport json response
    | _ => none

end System

end RedisCache

end Bibdata
