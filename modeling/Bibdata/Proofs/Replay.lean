import Bibdata.Scsb

/-!
# The replay of the SCSB dumps, over all schedules

The deletes go out as the loop comes to them, and the adds whenever their jobs run. So the replay
ends as the dumps in their order would have it exactly when, for each id that some file adds, all
files add one document and its last add comes after its last delete, in the order of the list and
in that of the dumps (`replaysInOrder_iff`).
-/

namespace Bibdata

open DeferredAdds

variable {D : Type*} {content : DumpFile → List (String × D)} {db : Db} {x : String}

/-- Every schedule of the jobs leaves what the dumps leave one after the other. -/
def ReplaysInOrder (content : DumpFile → List (String × D)) (db : Db) (full : Dump)
    (incs : List Dump) : Prop :=
  ∀ solr solr', Reaches (docs content) (processScsbDumps db (full :: incs)) solr solr' →
    solr' = applyDumps content db (chronological full incs) solr

/-- Some dump adds the id, and neither this one nor a later one deletes it. -/
def LastAdded (content : DumpFile → List (String × D)) (db : Db) (x : String) : List Dump → Prop
  | [] => False
  | d :: ds => LastAdded content db x ds
      ∨ (∃ f ∈ recordFiles db d, (docs content f x).isSome) ∧ ∀ e ∈ d :: ds, x ∉ e.deleteIds

/-- For each id that is added: all files add one document, and it is added last, as the dumps are
listed and as they were generated. -/
def Unambiguous (content : DumpFile → List (String × D)) (db : Db) (full : Dump)
    (incs : List Dump) : Prop :=
  ∀ x, ∀ f ∈ (full :: incs).flatMap (recordFiles db), ∀ v, docs content f x = some v →
    (∀ g ∈ (full :: incs).flatMap (recordFiles db), ∀ w, docs content g x = some w → w = v)
      ∧ LastAdded content db x (full :: incs) ∧ LastAdded content db x (chronological full incs)

/-! ### One dump after the other -/

theorem find?_reverse_snoc {α : Type*} (p : α → Bool) (xs : List α) (a : α) :
    (xs ++ [a]).reverse.find? p = if p a then some a else xs.reverse.find? p := by
  rw [List.reverse_append, List.reverse_singleton, List.singleton_append, List.find?_cons]
  cases p a <;> rfl

theorem indexFile_eq_put (solr : Solr D) (f : DumpFile) :
    indexFile content solr f = put (docs content) f solr := by
  unfold indexFile put docs
  generalize content f = es
  induction es using List.reverseRecOn with
  | nil => rfl
  | append_singleton es e ih =>
    funext x
    rw [List.foldl_append, ih, find?_reverse_snoc]
    simp only [List.foldl_cons, List.foldl_nil, Solr.add, decide_eq_true_eq]
    by_cases hx : x = e.1
    · simp [hx]
    · have hx' : ¬ e.1 = x := fun he => hx he.symm
      simp [hx, hx']

theorem remove_nil (solr : Solr D) : remove [] solr = solr := by
  funext x
  simp [remove]

theorem applyDump_eq (solr : Solr D) (d : Dump) :
    applyDump content db solr d = applyOps (docs content) (processScsbDump db d) solr := by
  have hfiles : ∀ (fs : List DumpFile) (solr : Solr D),
      fs.foldl (indexFile content) solr = applyOps (docs content) (fs.map .add) solr := by
    intro fs
    induction fs with
    | nil => exact fun _ => rfl
    | cons f fs ih =>
      intro solr
      rw [List.foldl_cons, indexFile_eq_put, ih]
      rfl
  unfold applyDump processScsbDump applyOps
  rw [List.foldl_append, hfiles]
  split_ifs with h
  · rw [h, remove_nil]
    rfl
  · rfl

theorem applyDumps_eq (dumps : List Dump) (solr : Solr D) :
    applyDumps content db dumps solr
      = applyOps (docs content) (processScsbDumps db dumps) solr := by
  unfold applyDumps processScsbDumps applyOps
  rw [List.foldl_flatMap]
  congr 1
  funext solr d
  exact applyDump_eq solr d

/-! ### The adds and deletes of the dumps -/

theorem add_mem_processScsbDump {d : Dump} {f : DumpFile} :
    .add f ∈ processScsbDump db d ↔ f ∈ recordFiles db d := by
  unfold processScsbDump
  split_ifs <;> simp

theorem processScsbDumps_cons {d : Dump} {dumps : List Dump} :
    processScsbDumps db (d :: dumps) = processScsbDump db d ++ processScsbDumps db dumps := rfl

theorem add_mem_processScsbDumps {dumps : List Dump} {f : DumpFile} :
    .add f ∈ processScsbDumps db dumps ↔ f ∈ dumps.flatMap (recordFiles db) := by
  simp only [processScsbDumps, List.mem_flatMap, add_mem_processScsbDump]

theorem deletes_processScsbDump {d : Dump} :
    (∀ op ∈ processScsbDump db d, ¬ op.deletes x) ↔ x ∉ d.deleteIds := by
  unfold processScsbDump
  split_ifs with h
  · simp [h]
  · simp only [List.mem_append, List.mem_map, List.mem_singleton]
    refine ⟨fun hno => hno (.delete d.deleteIds) (.inr rfl), ?_⟩
    rintro hx op (⟨f, -, rfl⟩ | rfl)
    · exact deletes_add
    · exact hx

theorem addedLast_processScsbDump {d : Dump} :
    AddedLast (docs content) x (processScsbDump db d)
      ↔ (∃ f ∈ recordFiles db d, (docs content f x).isSome) ∧ x ∉ d.deleteIds := by
  have hfiles : ∀ fs : List DumpFile, AddedLast (docs content) x (fs.map .add)
      ↔ ∃ f ∈ fs, (docs content f x).isSome := by
    intro fs
    induction fs with
    | nil => simp [AddedLast]
    | cons f fs ih =>
      have hno : ∀ op ∈ fs.map Op.add, ¬ op.deletes x := by
        intro op hop
        obtain ⟨g, -, rfl⟩ := List.mem_map.1 hop
        exact deletes_add
      simp only [List.map_cons, AddedLast, ih, adds_add, List.mem_cons, exists_eq_or_imp]
      constructor
      · rintro (h | ⟨h, -⟩)
        · exact .inr h
        · exact .inl h
      · rintro (h | h)
        · exact .inr ⟨h, hno⟩
        · exact .inl h
  unfold processScsbDump
  rw [addedLast_append, hfiles]
  split_ifs with h
  · simp [AddedLast, h]
  · simp [AddedLast]

theorem addedLast_processScsbDumps : ∀ {dumps : List Dump},
    AddedLast (docs content) x (processScsbDumps db dumps) ↔ LastAdded content db x dumps
  | [] => Iff.rfl
  | d :: ds => by
    have hno : (∀ op ∈ processScsbDumps db ds, ¬ op.deletes x) ↔ ∀ e ∈ ds, x ∉ e.deleteIds := by
      simp only [processScsbDumps, List.forall_mem_flatMap, deletes_processScsbDump]
    rw [processScsbDumps_cons, addedLast_append, addedLast_processScsbDump,
      addedLast_processScsbDumps, hno, LastAdded, List.forall_mem_cons, and_assoc]

theorem chronological_perm (full : Dump) (incs : List Dump) :
    (chronological full incs).Perm (full :: incs) :=
  (List.perm_insertionSort _ _).cons _

/-! ### All schedules -/

theorem ReplaysInOrder.unambiguous {full : Dump} {incs : List Dump}
    (h : ReplaysInOrder content db full incs) : Unambiguous content db full incs := by
  intro x f hf v hv
  -- the job of any file can be the last
  let empty : Solr D := fun _ => none
  have hlast : ∀ g ∈ (full :: incs).flatMap (recordFiles db), ∀ w, docs content g x = some w →
      applyDumps content db (chronological full incs) empty x = some w := by
    intro g hg w hw
    obtain ⟨solr, hr⟩ : ∃ solr, Reaches (docs content) _ empty (put (docs content) g solr) :=
      reaches_put (add_mem_processScsbDumps.2 hg) empty
    rw [← h _ _ hr]
    simp [put, hw]
  have hv' := hlast f hf v hv
  refine ⟨fun g hg w hw => Option.some.inj ((hlast g hg w hw).symm.trans hv'), ?_, ?_⟩
  · rw [← addedLast_processScsbDumps]
    have hsome : (applyOps (docs content) (processScsbDumps db (full :: incs)) empty x).isSome := by
      rw [h _ _ (reaches_applyOps _ _), hv']
      rfl
    exact addedLast_of_isSome ⟨.add f, add_mem_processScsbDumps.2 hf, by simp [hv]⟩ hsome
  · rw [← addedLast_processScsbDumps]
    have hf' : f ∈ (chronological full incs).flatMap (recordFiles db) :=
      (((chronological_perm full incs).flatMap_right _).mem_iff).2 hf
    have hsome : (applyOps (docs content) (processScsbDumps db (chronological full incs)) empty
        x).isSome := by
      rw [← applyDumps_eq, hv']
      rfl
    exact addedLast_of_isSome ⟨.add f, add_mem_processScsbDumps.2 hf', by simp [hv]⟩ hsome

theorem Unambiguous.replaysInOrder {full : Dump} {incs : List Dump}
    (h : Unambiguous content db full incs) : ReplaysInOrder content db full incs := by
  intro solr solr' hr
  funext x
  have hperm := (chronological_perm full incs).flatMap_right (processScsbDump db)
  have hchron : Reaches (docs content) (processScsbDumps db (chronological full incs)) solr
      (applyDumps content db (chronological full incs) solr) := by
    rw [applyDumps_eq]
    exact reaches_applyOps _ _
  by_cases hadd : ∃ op ∈ processScsbDumps db (full :: incs), op.adds (docs content) x
  · obtain ⟨_ | _, hop, hx⟩ := hadd
    · rename_i f
      obtain ⟨v, hv⟩ := Option.isSome_iff_exists.1 hx
      obtain ⟨hagree, hlist, hgen⟩ := h x f (add_mem_processScsbDumps.1 hop) v hv
      have hagree' : ∀ g w, .add g ∈ processScsbDumps db (full :: incs) →
          docs content g x = some w → w = v :=
        fun g w hg => hagree g (add_mem_processScsbDumps.1 hg) w
      rw [store_of_addedLast hagree' (addedLast_processScsbDumps.2 hlist) hr,
        store_of_addedLast (fun g w hg => hagree' g w (hperm.mem_iff.1 hg))
          (addedLast_processScsbDumps.2 hgen) hchron]
    · exact hx.elim
  · push Not at hadd
    rw [store_of_not_added hadd hr,
      store_of_not_added (fun op hop => hadd op (hperm.mem_iff.1 hop)) hchron]
    simp only [remains]
    congr 1
    exact propext (exists_congr fun op => and_congr_left' hperm.mem_iff.symm)

/-- The replay ends as the dumps in their order would have it exactly where no id is ambiguous. -/
theorem replaysInOrder_iff (content : DumpFile → List (String × D)) (db : Db) (full : Dump)
    (incs : List Dump) :
    ReplaysInOrder content db full incs ↔ Unambiguous content db full incs :=
  ⟨ReplaysInOrder.unambiguous, Unambiguous.replaysInOrder⟩

def withdrawn : Db where
  dumps :=
    [{ id := 1, dumpType := .partnerRecapFull, event := { id := 1, start := 0 },
       generatedDate := some 0 },
      { id := 2, dumpType := .partnerRecap, event := { id := 2, start := 1 },
        generatedDate := some 1, deleteIds := ["SCSB-1"] }]
  dumpFiles := [⟨1, some 1, some .recapRecordsFull, "scsbfull_nypl_19700101_000000_1.xml.gz"⟩]

/-- The record is deleted before its job runs, and then added. -/
theorem not_replaysInOrder_withdrawn :
    scsbFull withdrawn = some [withdrawn.dumps[0], withdrawn.dumps[1]]
      ∧ ¬ReplaysInOrder (fun _ => [("SCSB-1", ())]) withdrawn withdrawn.dumps[0]
        [withdrawn.dumps[1]] := by
  refine ⟨by decide, fun hin => ?_⟩
  have hrec : withdrawn.dumpFiles[0]
      ∈ (withdrawn.dumps[0] :: [withdrawn.dumps[1]]).flatMap (recordFiles withdrawn) := by decide
  obtain ⟨-, hlast, -⟩ := hin.unambiguous "SCSB-1" _ hrec () (by decide)
  simp only [LastAdded] at hlast
  revert hlast
  decide

end Bibdata
