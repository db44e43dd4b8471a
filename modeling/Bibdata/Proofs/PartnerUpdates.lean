import Bibdata.PartnerUpdates
import Bibdata.Library.Transition

/-!
# Which incrementals a full replay leaves out

The `generated_date` of an incremental is the least date of its files, whatever comes after
(`Dated`). So the replay after a full dump leaves out the incrementals without files and those
with a file dated before the full dump (`replaysSubsequent_iff`).
-/

namespace Bibdata

open Transition

variable {parse : String → Option Time} {dir : String} {db db' : Db} {down : Downloads}

/-! ### The least of the dates -/

theorem forall_mem_of_mapM {α β : Type*} {f : α → Option β} {P : β → Prop} :
    ∀ {xs : List α} {ys : List β}, xs.mapM f = some ys →
      (ys = [] ↔ xs = []) ∧ ((∀ y ∈ ys, P y) ↔ ∀ x ∈ xs, ∃ y ∈ f x, P y)
  | [], ys, h => by
    obtain rfl : [] = ys := by simpa using h
    simp
  | x :: xs, ys, h => by
    simp only [List.mapM_cons, Option.bind_eq_bind, Option.bind_eq_some_iff, Option.pure_def,
      Option.some.injEq] at h
    obtain ⟨y, hy, ys', hys, rfl⟩ := h
    simp [hy, (forall_mem_of_mapM (P := P) hys).2]

theorem mapM_isSome {α β : Type*} {f : α → Option β} :
    ∀ {xs : List α}, (∀ x ∈ xs, (f x).isSome) → ∃ ys, xs.mapM f = some ys
  | [], _ => ⟨[], rfl⟩
  | x :: xs, h => by
    obtain ⟨y, hy⟩ := Option.isSome_iff_exists.1 (h x List.mem_cons_self)
    obtain ⟨ys, hys⟩ := mapM_isSome fun x' hx' => h x' (List.mem_cons_of_mem _ hx')
    exact ⟨y :: ys, by simp [List.mapM_cons, hy, hys]⟩

/-- What `generated_date` is set to is not before `g` exactly where there are files and none is
dated before `g`. -/
theorem le_min?_mapM {α : Type*} {f : α → Option Time} {xs : List α} {g : Time} :
    (∃ t ∈ (xs.mapM f).bind List.min?, g ≤ t) ↔ xs ≠ [] ∧ ∀ x ∈ xs, ∃ t ∈ f x, g ≤ t := by
  constructor
  · rintro ⟨t, ht, hg⟩
    obtain ⟨ys, hys, hmin⟩ := Option.bind_eq_some_iff.1 ht
    obtain ⟨hnil, hall⟩ := forall_mem_of_mapM (P := (g ≤ ·)) hys
    obtain ⟨hmem, hle⟩ := List.min?_eq_some_iff.1 hmin
    exact ⟨fun h => List.ne_nil_of_mem hmem (hnil.2 h),
      hall.1 fun y hy => hg.trans (hle y hy)⟩
  · rintro ⟨hne, h⟩
    obtain ⟨ys, hys⟩ := mapM_isSome fun x hx => by
      obtain ⟨t, ht, -⟩ := h x hx
      exact Option.isSome_iff_exists.2 ⟨t, ht⟩
    obtain ⟨hnil, hall⟩ := forall_mem_of_mapM (P := (g ≤ ·)) hys
    obtain ⟨t, ht⟩ := Option.ne_none_iff_exists'.1 fun h => hne (hnil.1 (List.min?_eq_none_iff.1 h))
    exact ⟨t, by rw [hys]; exact ht, hall.2 h t (List.min?_mem ht)⟩

/-! ### What an import leaves in its row -/

/-- The `generated_date` of a dump is the least of the dates of its files. -/
def DatedBy (parse : String → Option Time) (db : Db) (d : Dump) : Prop :=
  d.generatedDate = ((db.filesOf d).mapM (fileDate parse)).bind List.min?

def Dated (parse : String → Option Time) (db : Db) : Prop :=
  ∀ d ∈ db.partnerRecap, DatedBy parse db d

/-- Only the first row changes where it is the one with the id. -/
theorem dumps_update {d : Dump} {rest : List Dump} (hdumps : db.dumps = d :: rest)
    {t : Dump → Dump} {h : ∀ e, (t e).id = e.id} :
    (db.update d.id t h).dumps = t d :: rest := by
  have hnodup := db.nodup_id
  rw [hdumps, List.map_cons, List.nodup_cons] at hnodup
  have hrest : ∀ e ∈ rest, (if e.id = d.id then t e else e) = e := by
    intro e he
    rw [if_neg]
    intro hid
    exact hnodup.1 (hid ▸ List.mem_map_of_mem he)
  simp only [Db.update, hdumps, List.map_cons, if_true, List.cons.injEq, true_and]
  rw [List.map_congr_left hrest, List.map_id']

theorem filesOf_processPartnerUpdates {id : ℕ} {updates : List (String × ℕ)} {e : Dump}
    (he : e.id ≠ id) : (processPartnerUpdates db dir id updates).filesOf e = db.filesOf e := by
  rw [processPartnerUpdates, Db.filesOf_attach, List.append_right_eq_self, List.filter_eq_nil_iff]
  intro f hf
  obtain ⟨⟨path, i⟩, -, rfl⟩ := List.mem_map.1 hf
  simpa using he.symm

theorem filesOf_processIncrementalFiles {e : Dump} :
    (processIncrementalFiles parse db dir down).filesOf e
      = (processPartnerUpdates db dir down.dumpId down.updates).filesOf e := by
  unfold processIncrementalFiles
  simp only [generatedDate]
  split
  · rename_i dated h
    obtain ⟨dates, -, rfl⟩ := Option.map_eq_some_iff.1 h
    rfl
  · rfl

/-- The row of the dump, whether `generated_date` raises or not. -/
theorem dumps_processIncrementalFiles {d : Dump} {rest : List Dump}
    (hdumps : db.dumps = d :: rest) (hid : d.id = down.dumpId) (hdate : d.generatedDate = none) :
    ∃ d', (processIncrementalFiles parse db dir down).dumps = d' :: rest
      ∧ DatedBy parse (processIncrementalFiles parse db dir down) d' := by
  have hdumps' : (processPartnerUpdates db dir down.dumpId down.updates).dumps = d :: rest := hdumps
  have hfiles : (processIncrementalFiles parse db dir down).filesOf d
      = (processPartnerUpdates db dir down.dumpId down.updates).dumpFiles.filter
          (·.dumpId = some down.dumpId) := by
    rw [filesOf_processIncrementalFiles, Db.filesOf, hid]
  unfold DatedBy
  cases hm : ((processPartnerUpdates db dir down.dumpId down.updates).dumpFiles.filter
      (·.dumpId = some down.dumpId)).mapM (fileDate parse) with
  | none =>
    refine ⟨d, ?_, ?_⟩
    · simp only [processIncrementalFiles, generatedDate, hm, Option.map_none, hdumps']
    · rw [hfiles, hm, hdate]
      rfl
  | some dates =>
    refine ⟨{ d with generatedDate := dates.min?,
                     deleteIds := down.deletes.map ("SCSB-" ++ ·) }, ?_, ?_⟩
    · simp only [processIncrementalFiles, generatedDate, hm, Option.map_some]
      rw [← hid] at *
      exact dumps_update (dumps_update hdumps')
    · change dates.min?
        = (((processIncrementalFiles parse db dir down).filesOf d).mapM (fileDate parse)).bind _
      rw [hfiles, hm]
      rfl

/-- One import: a new dump that its files date, and the other dumps as they were. -/
theorem partnerUpdate_spec (h : partnerUpdate parse db dir down = some db') :
    ∃ d, db'.dumps = d :: db.dumps ∧ DatedBy parse db' d
      ∧ ∀ e ∈ db.dumps, db'.filesOf e = db.filesOf e := by
  unfold partnerUpdate at h
  split_ifs at h with hfresh
  obtain rfl := Option.some.inj h
  have hcreate : (db.create down.dump hfresh).dumps = down.dump :: db.dumps := rfl
  obtain ⟨d, hdumps, hdated⟩ := dumps_processIncrementalFiles hcreate rfl rfl
  refine ⟨d, hdumps, hdated, fun e he => ?_⟩
  have hne : e.id ≠ down.dumpId := fun (heq : e.id = down.dump.id) =>
    hfresh (heq ▸ List.mem_map_of_mem he)
  rw [filesOf_processIncrementalFiles, filesOf_processPartnerUpdates hne]
  rfl

/-- The history of the incrementals, from tables without any. -/
def ImportedFrom (parse : String → Option Time) (dir : String) (db₀ : Db) (downs : List Downloads)
    (db : Db) : Prop :=
  db₀.partnerRecap = [] ∧ Run (fun db down => partnerUpdate parse db dir down) (fun _ _ => True)
    db₀ downs db

theorem dated_partnerUpdate (hinv : Dated parse db)
    (h : partnerUpdate parse db dir down = some db') : Dated parse db' := by
  intro d hd
  obtain ⟨d', hdumps, hdated, hkeep⟩ := partnerUpdate_spec h
  obtain ⟨hd, htype⟩ := List.mem_filter.1 hd
  rw [hdumps, List.mem_cons] at hd
  rcases hd with rfl | hd
  · exact hdated
  · unfold DatedBy
    rw [hkeep d hd]
    exact hinv d (List.mem_filter.2 ⟨hd, htype⟩)

theorem ImportedFrom.dated {db₀ : Db} {downs : List Downloads}
    (h : ImportedFrom parse dir db₀ downs db) : Dated parse db := by
  have hnone : Dated parse db₀ := fun d hd => absurd (h.1 ▸ hd) List.not_mem_nil
  exact h.2.invariant (fun _ _ _ hinv _ hstep => dated_partnerUpdate hinv hstep) hnone

/-! ### The incrementals after a full dump -/

/-- The replay has each incremental created after `g` that carries files or deletes. -/
def ReplaysSubsequent (db : Db) (g : Time) (replay : List Dump) : Prop :=
  ∀ d ∈ db.partnerRecap, g < d.createdAt → db.filesOf d ≠ [] ∨ d.deleteIds ≠ [] → d ∈ replay

/-- Each of them has files, and each of its files is dated `g` or later in its name. -/
def FilesSince (parse : String → Option Time) (db : Db) (g : Time) : Prop :=
  ∀ d ∈ db.partnerRecap, g < d.createdAt → db.filesOf d ≠ [] ∨ d.deleteIds ≠ [] →
    db.filesOf d ≠ [] ∧ ∀ f ∈ db.filesOf d, ∃ t ∈ fileDate parse f, g ≤ t

theorem mem_scsbFull {full : Dump} {replay : List Dump} {g : Time}
    (hfull : scsbFull db = some (full :: replay)) (hg : full.generatedDate = some g) {d : Dump} :
    d ∈ replay ↔ d ∈ db.partnerRecap ∧ ∃ t ∈ d.generatedDate, g ≤ t := by
  simp only [scsbFull, Option.bind_eq_some_iff, Option.map_eq_some_iff, List.cons.injEq] at hfull
  obtain ⟨_, -, t, ht, rfl, rfl⟩ := hfull
  obtain rfl : t = g := Option.some.inj (ht.symm.trans hg)
  simp [subsequentPartnerIncrementals]

/-- The replay after a full dump is complete exactly where its incrementals have files, none of
them dated before the full dump. -/
theorem replaysSubsequent_iff {db₀ db : Db} {downs : List Downloads} {full : Dump}
    {replay : List Dump} {g : Time} (h : ImportedFrom parse dir db₀ downs db)
    (hfull : scsbFull db = some (full :: replay)) (hg : full.generatedDate = some g) :
    ReplaysSubsequent db g replay ↔ FilesSince parse db g := by
  unfold ReplaysSubsequent FilesSince
  refine forall₂_congr fun d hd => imp_congr_right fun _ => imp_congr_right fun _ => ?_
  rw [mem_scsbFull hfull hg, h.dated d hd, le_min?_mapM]
  exact and_iff_right hd

/-- A full dump, before any incremental. -/
def onlyFull : Db where
  dumps :=
    [{ id := 1, dumpType := .partnerRecapFull, event := { id := 1, start := 0 },
       generatedDate := some 0 }]
  dumpFiles := [⟨1, some 1, some .recapRecordsFull, "/data/scsbfull_nypl_19700101_000000_1.xml.gz"⟩]

def nextDay : Downloads where
  dumpId := 2
  eventId := 2
  createdAt := 90000000000
  updates := [("NYPL_19700102_010000", 1)]
  deletes := ["1"]

def onlyDeletes : Downloads := { nextDay with updates := [] }

def parseNextDay : String → Option Time
  | "19700102" => some 86400000000
  | _ => none

theorem importedFrom_onlyFull {down : Downloads} (h : down.dump.id ∉ onlyFull.dumps.map (·.id)) :
    ImportedFrom parseNextDay "/data" onlyFull [down]
      (processIncrementalFiles parseNextDay (onlyFull.create down.dump h) "/data" down) :=
  ⟨by decide, .cons trivial (dif_pos h) (.nil _)⟩

theorem replaysSubsequent_nextDay : ∃ db full replay g,
    scsbFull db = some (full :: replay) ∧ full.generatedDate = some g
      ∧ replay ≠ [] ∧ ReplaysSubsequent db g replay := by
  have himported := importedFrom_onlyFull (by decide : nextDay.dump.id ∉ onlyFull.dumps.map (·.id))
  set db := processIncrementalFiles parseNextDay (onlyFull.create nextDay.dump (by decide)) "/data"
    nextDay
  have hfull : scsbFull db
      = some (onlyFull.dumps[0] :: subsequentPartnerIncrementals db 0) := by decide +kernel
  refine ⟨db, _, _, 0, hfull, rfl, by decide +kernel, ?_⟩
  refine (replaysSubsequent_iff himported hfull rfl).2 ?_
  unfold FilesSince
  decide +kernel

theorem not_replaysSubsequent_onlyDeletes : ∃ db,
    ImportedFrom parseNextDay "/data" onlyFull [onlyDeletes] db
      ∧ scsbFull db = some [onlyFull.dumps[0]] ∧ onlyFull.dumps[0].generatedDate = some 0
      ∧ ¬ReplaysSubsequent db 0 [] := by
  refine ⟨_, importedFrom_onlyFull (by decide), by decide +kernel, rfl, ?_⟩
  unfold ReplaysSubsequent
  decide +kernel

end Bibdata
