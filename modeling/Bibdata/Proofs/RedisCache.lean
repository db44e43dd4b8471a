import Bibdata.Library.Json
import Bibdata.Library.Transition
import Bibdata.Proofs.FiggyReport
import Bibdata.RedisCache

/-!
# What is shown of Figgy

Whatever runs write to Redis and whenever processes read, what a process shows is what is open in
one of the reports that Figgy gave, and it never panics over an item (`shows_of_run`).
-/

namespace Bibdata

namespace RedisCache

open Transition

variable {N : Type} {json : CacheJson N}

section Items

variable {item sent : JsonValue N} {displayFormat : Record → String} {record : Record}

/-- The item with the two members that the record adds to it. -/
structure WithRecord (displayFormat : Record → String) (record : Record) (sourceId : String)
    (item sent : JsonValue N) : Prop where
  displayFormat : sent.get "display_format" = some (.string (displayFormat record))
  sourceId : sent.get "source_id" = some (.string sourceId)
  others : ∀ key, key ≠ "display_format" → key ≠ "source_id" → sent.get key = item.get key

theorem get_object {key : String} {members : List (String × JsonValue N)} :
    (JsonValue.object members).get key = (members.find? (·.1 = key)).map Prod.snd := rfl

theorem get_insertMember {key key' : String} {value : JsonValue N}
    {members : List (String × JsonValue N)} :
    (JsonValue.object (insertMember key value members)).get key'
      = if key' = key then some value else (JsonValue.object members).get key' := by
  rw [get_object, get_object, ← List.head?_filter, ← List.head?_filter]
  unfold insertMember
  rw [List.filter_append, List.filter_filter]
  split_ifs with hkey
  · have hnone : members.filter (fun m => decide (m.1 = key') && decide (m.1 ≠ key)) = [] := by
      rw [List.filter_eq_nil_iff]
      rintro m - hm
      rw [Bool.and_eq_true, decide_eq_true_eq, decide_eq_true_eq] at hm
      exact hm.2 (hm.1.trans hkey)
    rw [hnone]
    simp [hkey]
  · have hlast : [(key, value)].filter (fun m => decide (m.1 = key')) = [] := by
      simp [Ne.symm hkey]
    rw [hlast, List.append_nil]
    congr 2
    refine List.filter_congr fun m _ => ?_
    by_cases hm : m.1 = key' <;> simp [hm, hkey]

theorem isObject_of_isOpen (h : isOpen item = true) : ∃ members, item = .object members := by
  cases item with
  | object members => exact ⟨members, rfl⟩
  | _ => simp [isOpen, Visibility.ofJson, JsonValue.get] at h

/-- An item that is open is an object, and so can be shown. -/
theorem withRecord_of_isOpen (displayFormat : Record → String) {sourceId : String}
    (hid : record.controlNumber = some sourceId) (h : isOpen item = true) :
    ∃ sent, withRecord displayFormat record item = some sent
      ∧ WithRecord displayFormat record sourceId item sent := by
  obtain ⟨members, rfl⟩ := isObject_of_isOpen h
  unfold withRecord
  simp only [hid, Option.map_some]
  refine ⟨_, rfl, ?_, ?_, fun key hformat hsource => ?_⟩
  · rw [get_insertMember, get_insertMember, if_neg (by decide), if_pos rfl]
  · rw [get_insertMember, if_pos rfl]
  · rw [get_insertMember, get_insertMember, if_neg hsource, if_neg hformat]

theorem mapM_withRecord (displayFormat : Record → String) {sourceId : String}
    (hid : record.controlNumber = some sourceId) :
    ∀ {items : FiggyItems N}, (∀ item ∈ items, isOpen item = true) →
      ∃ sent, items.mapM (withRecord displayFormat record) = some sent
        ∧ List.Forall₂ (WithRecord displayFormat record sourceId) items sent
  | [], _ => ⟨[], rfl, .nil⟩
  | item :: items, h => by
    obtain ⟨first, hfirst, hwith⟩ :=
      withRecord_of_isOpen displayFormat hid (h item List.mem_cons_self)
    obtain ⟨rest, hrest, hall⟩ :=
      mapM_withRecord displayFormat hid fun item hi => h item (List.mem_cons_of_mem _ hi)
    refine ⟨first :: rest, ?_, .cons hwith hall⟩
    rw [List.mapM_cons, hfirst, hrest]
    rfl

end Items

section Runs

variable {es : List Event} {s s' : State N} {known : List (FiggyMmsIdCache N)}

/-- What is open in the report can be written and read back. A report that was read is not nested
too deep for it; but a number with a fraction may come back as another one. -/
def ReadsBack (json : CacheJson N) (report : FiggyMmsIdCache N) : Prop :=
  ∃ kept, json.fromStr (json.toString (onlyOpen report)) = some kept
    ∧ kept.Reordered (onlyOpen report)

/-- Everything comes from one of the reports that are known. -/
structure Inv (json : CacheJson N) (known : List (FiggyMmsIdCache N)) (s : State N) : Prop where
  caching : ∀ run cache, s.caching run = some cache → ∃ report ∈ known, cache = onlyOpen report
  redis : ∀ text, s.redis = some text → ∃ report ∈ known, text = json.toString (onlyOpen report)
  processes : ∀ p cache, s.processes p = .initialized cache →
    ∃ report ∈ known, cache.Reordered (onlyOpen report)

theorem read_eq (hjson : ∀ report ∈ known, ReadsBack json report) (hs : Inv json known s)
    {text : String} (h : s.redis = some text) : ∃ report ∈ known, ∃ cache,
      read json s.redis true = .initialized cache ∧ cache.Reordered (onlyOpen report) := by
  obtain ⟨report, hreport, rfl⟩ := hs.redis text h
  obtain ⟨kept, hkept, hperm⟩ := hjson report hreport
  refine ⟨report, hreport, kept, ?_, hperm⟩
  unfold read
  rw [h]
  simp [hkept]

theorem inv_read (hjson : ∀ report ∈ known, ReadsBack json report) (hs : Inv json known s)
    {connected : Bool} {cache : FiggyMmsIdCache N}
    (h : read json s.redis connected = .initialized cache) :
    ∃ report ∈ known, cache.Reordered (onlyOpen report) := by
  cases connected with
  | false => cases h
  | true =>
    cases hredis : s.redis with
    | none =>
      rw [hredis] at h
      cases h
    | some text =>
      obtain ⟨report, hreport, kept, hkept, hperm⟩ := read_eq hjson hs hredis
      rw [hkept] at h
      exact ⟨report, hreport, LazyLock.initialized.inj h ▸ hperm⟩

theorem update_cases {α : Type} {f : ℕ → α} {k k' : ℕ} {v w : α}
    (h : Function.update f k v k' = w) : v = w ∨ f k' = w := by
  rw [Function.update_apply] at h
  split_ifs at h
  · exact .inl h
  · exact .inr h

theorem inv_step (hjson : ∀ report ∈ known, ReadsBack json report) (hs : Inv json known s)
    {e : Event} (hreports : ∀ report ∈ reports json [e], report ∈ known)
    (h : step json s e = some s') : Inv json known s' := by
  cases e with
  | fetch run response =>
    cases h
    refine ⟨fun run' cache hcache => ?_, hs.redis, hs.processes⟩
    rcases update_cases hcache with hcache | hcache
    · obtain ⟨report, hreport, rfl⟩ := Option.map_eq_some_iff.1 hcache
      exact ⟨report, hreports report (by simp [reports, hreport]), rfl⟩
    · exact hs.caching run' cache hcache
  | write run =>
    obtain ⟨cache, hcache, rfl⟩ := Option.map_eq_some_iff.1 h
    refine ⟨fun run' cache' hcache' => ?_, fun text htext => ?_, hs.processes⟩
    · rcases update_cases hcache' with hcache' | hcache'
      · cases hcache'
      · exact hs.caching run' cache' hcache'
    · obtain ⟨report, hreport, rfl⟩ := hs.caching run cache hcache
      exact ⟨report, hreport, (Option.some.inj htext).symm⟩
  | read process connected =>
    simp only [step] at h
    split at h
    · cases h
      refine ⟨hs.caching, hs.redis, fun p cache hp => ?_⟩
      rcases update_cases hp with hp | hp
      · exact inv_read hjson hs hp
      · exact hs.processes p cache hp
    · cases h
      exact hs
  | restart process =>
    cases h
    refine ⟨hs.caching, hs.redis, fun p cache hp => ?_⟩
    rcases update_cases hp with hp | hp
    · cases hp
    · exact hs.processes p cache hp

theorem inv_run (hjson : ∀ report ∈ known, ReadsBack json report)
    (h : Run (step json) (fun _ _ => True) s es s') (hs : Inv json known s)
    (hreports : ∀ report ∈ reports json es, report ∈ known) : Inv json known s' := by
  induction h with
  | nil => exact hs
  | @cons s s₁ s' e es _ hstep _ ih =>
    have happend : reports json (e :: es) = reports json [e] ++ reports json es := by
      unfold reports
      rw [← List.filterMap_append, List.singleton_append]
    rw [happend] at hreports
    exact ih (inv_step hjson hs (fun r hr => hreports r (List.mem_append_left _ hr)) hstep)
      fun r hr => hreports r (List.mem_append_right _ hr)

/-- What the field shows of a report for a record: all that is open under its MMS id, or nothing. -/
def Shows (displayFormat : Record → String) (record : Record) (report : FiggyMmsIdCache N)
    (shown : Option (FiggyItems N)) : Prop :=
  match ControlNumber.ofRecord record with
  | .alma mmsId =>
    match shown with
    | some sent => sent ≠ [] ∧ List.Forall₂ (WithRecord displayFormat record mmsId)
        (openItems ((report.get mmsId).getD [])) sent
    | none => openItems ((report.get mmsId).getD []) = []
  | _ => shown = none

theorem controlNumber_of_alma {record : Record} {mmsId : String}
    (h : ControlNumber.ofRecord record = .alma mmsId) : record.controlNumber = some mmsId := by
  unfold ControlNumber.ofRecord at h
  split at h
  · rename_i s hs
    unfold ControlNumber.ofString at h
    split_ifs at h
    cases h
    exact hs
  · cases h

theorem shows_of_reordered {displayFormat : Record → String} {record : Record}
    {report cache : FiggyMmsIdCache N} (h : cache.Reordered (onlyOpen report)) :
    ∃ shown, figgyItems displayFormat record cache = some shown
      ∧ Shows displayFormat record report shown := by
  unfold figgyItems Shows
  cases hid : ControlNumber.ofRecord record with
  | alma mmsId =>
    have hget : cache.get mmsId = (report.get mmsId).bind fun items =>
        if openItems items = [] then none else some (openItems items) := by
      rw [OrderedHash.reordered_iff.1 h, get_onlyOpen]
    simp only [hget]
    cases hreport : report.get mmsId with
    | none => exact ⟨none, rfl, rfl⟩
    | some items =>
      simp only [Option.bind_some, Option.getD_some]
      split_ifs with hopen
      · exact ⟨none, rfl, hopen⟩
      · have hall : ∀ item ∈ openItems items, isOpen item = true :=
          fun item hi => (List.mem_filter.1 hi).2
        obtain ⟨sent, hsent, hall⟩ :=
          mapM_withRecord displayFormat (controlNumber_of_alma hid) hall
        refine ⟨some sent, by simp [hsent], ?_, hall⟩
        rintro rfl
        exact hopen (List.forall₂_nil_right_iff.1 hall)
  | _ => exact ⟨none, rfl, rfl⟩

/-- Each process shows what is open in one of Figgy's reports, and of all of its items, as long as
it lives; and once something is written, a process that reads it has it. -/
theorem shows_of_run (h : Run (step json) (fun _ _ => True) {} es s)
    (hjson : ∀ report ∈ reports json es, ReadsBack json report) :
    (∀ process cache, s.processes process = .initialized cache →
        ∃ report ∈ reports json es, ∀ displayFormat record,
          ∃ shown, figgyItems displayFormat record cache = some shown
            ∧ Shows displayFormat record report shown)
      ∧ ∀ text, s.redis = some text → ∃ cache, read json s.redis true = .initialized cache := by
  have hinv : Inv json (reports json es) s :=
    inv_run hjson h ⟨fun _ _ => nofun, fun _ => nofun, fun _ _ => nofun⟩ fun _ => id
  refine ⟨fun process cache hcache => ?_, fun text htext => ?_⟩
  · obtain ⟨report, hreport, hperm⟩ := hinv.processes process cache hcache
    exact ⟨report, hreport, fun displayFormat record => shows_of_reordered hperm⟩
  · obtain ⟨-, -, cache, hcache, -⟩ := read_eq hjson hinv htext
    exact ⟨cache, hcache⟩

end Runs

section Compact

mutual

def toJson : JsonValue ℤ → Json
  | .null => .null
  | .bool b => .bool b
  | .number n => .int n
  | .string s => .str s
  | .array elements => .arr (toJsonElements elements)
  | .object members => .obj (toJsonMembers members)

def toJsonElements : List (JsonValue ℤ) → List Json
  | [] => []
  | v :: vs => toJson v :: toJsonElements vs

def toJsonMembers : List (String × JsonValue ℤ) → List (String × Json)
  | [] => []
  | (k, v) :: ms => (k, toJson v) :: toJsonMembers ms

end

mutual

def ofJson : Json → JsonValue ℤ
  | .null => .null
  | .bool b => .bool b
  | .int n => .number n
  | .str s => .string s
  | .arr elements => .array (ofJsonElements elements)
  | .obj members => .object (ofJsonMembers members)

def ofJsonElements : List Json → List (JsonValue ℤ)
  | [] => []
  | v :: vs => ofJson v :: ofJsonElements vs

def ofJsonMembers : List (String × Json) → List (String × JsonValue ℤ)
  | [] => []
  | (k, v) :: ms => (k, ofJson v) :: ofJsonMembers ms

end

mutual

theorem ofJson_toJson : ∀ v : JsonValue ℤ, ofJson (toJson v) = v
  | .null | .bool _ | .number _ | .string _ => rfl
  | .array elements => by rw [toJson, ofJson, ofJsonElements_toJsonElements]
  | .object members => by rw [toJson, ofJson, ofJsonMembers_toJsonMembers]

theorem ofJsonElements_toJsonElements : ∀ vs, ofJsonElements (toJsonElements vs) = vs
  | [] => rfl
  | v :: vs => by rw [toJsonElements, ofJsonElements, ofJson_toJson, ofJsonElements_toJsonElements]

theorem ofJsonMembers_toJsonMembers : ∀ ms, ofJsonMembers (toJsonMembers ms) = ms
  | [] => rfl
  | (k, v) :: ms => by rw [toJsonMembers, ofJsonMembers, ofJson_toJson, ofJsonMembers_toJsonMembers]

end

def ofEntry : String × Json → Option (String × FiggyItems ℤ)
  | (mmsId, .arr elements) => some (mmsId, ofJsonElements elements)
  | _ => none

/-- The text of a report without white space, whose numbers are integers. -/
def compact : CacheJson ℤ where
  toString cache :=
    (Json.obj (cache.entries.map fun entry => (entry.1, .arr (toJsonElements entry.2)))).toText
  fromStr text :=
    match Json.parse text with
    | some (.obj members) => (members.mapM ofEntry).map OrderedHash.ofList
    | _ => none

theorem mapM_ofEntry : ∀ entries : List (String × FiggyItems ℤ),
    (entries.map fun entry => (entry.1, Json.arr (toJsonElements entry.2))).mapM ofEntry
      = some entries
  | [] => rfl
  | (mmsId, items) :: entries => by
    rw [List.map_cons, List.mapM_cons, mapM_ofEntry entries]
    simp [ofEntry, ofJsonElements_toJsonElements]

theorem readsBack_compact (report : FiggyMmsIdCache ℤ) : ReadsBack compact report := by
  refine ⟨OrderedHash.ofList (onlyOpen report).entries, ?_, ?_⟩
  · simp only [compact, Json.parse_toText, mapM_ofEntry, Option.map_some]
  · refine OrderedHash.reordered_iff.2 fun mmsId => ?_
    unfold OrderedHash.ofList
    rw [OrderedHash.get_setAll, OrderedHash.lastSet_entries]
    exact Option.or_none

end Compact

section Example

def itemLabelled (label : String) : Json := .obj [("visibility", .obj [("label", .str label)])]

def reportText (labels : List String) : String :=
  (Json.obj [("991235506421", .arr (labels.map itemLabelled))]).toText

/-- A process reads the first report; it does not see the second. -/
def twoReports : List Event :=
  [.fetch 1 (.status 200 (reportText ["open", "private"])), .write 1, .read 7 true,
   .fetch 2 (.status 200 (reportText ["private", "open", "open"])), .write 2, .read 7 true,
   .fetch 3 (.status 403 "")]

def letters : Record where
  controlFields := [⟨"001", "991235506421"⟩]

def initializedWith (s : State ℤ) (process : ℕ) : Option (FiggyMmsIdCache ℤ) :=
  match s.processes process with
  | .initialized cache => some cache
  | _ => none

theorem shows_twoReports : ∃ s cache shown,
    Run (step compact) (fun _ _ => True) {} twoReports s
      ∧ s.processes 7 = .initialized cache
      ∧ figgyItems (fun _ => "Book") letters cache = some (some shown) ∧ shown.length = 1
      ∧ ∃ report ∈ reports compact twoReports,
        Shows (fun _ => "Book") letters report (some shown) := by
  obtain ⟨s, hs, cache, hcache, items, hitems, shown, hshown, hlength⟩ :
      ∃ s ∈ exec (guarded (step compact) fun _ _ => True) {} twoReports,
        ∃ cache ∈ initializedWith s 7, ∃ items ∈ figgyItems (fun _ => "Book") letters cache,
          ∃ shown ∈ items, shown.length = 1 := by
    decide +kernel
  have hrun := run_of_exec hs
  have hinitialized : s.processes 7 = .initialized cache := by
    unfold initializedWith at hcache
    split at hcache
    · rename_i cache' heq
      rw [heq, Option.some.inj hcache]
    · cases hcache
  obtain ⟨hall, -⟩ := shows_of_run hrun fun report _ => readsBack_compact report
  obtain ⟨report, hreport, hshows⟩ := hall 7 cache hinitialized
  obtain ⟨items', hitems', hshows⟩ := hshows (fun _ => "Book") letters
  obtain rfl : items' = some shown := by
    rw [Option.mem_def.1 hshown] at hitems
    exact Option.some.inj (hitems'.symm.trans hitems)
  exact ⟨s, cache, shown, hrun, hinitialized, hitems', hlength, report, hreport, hshows⟩

end Example

end RedisCache

end Bibdata
