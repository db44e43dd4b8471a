import Bibdata.SolrDeleter

/-!
# When no batch fails silently

A batch is settled if a request for it was answered with 200, or its ids were reported, or an
exception was raised. What is left is a retry that times out (`settled_deleteBatch_iff`). Requests
and reports have exactly the ids of the batch, in order (`idsRequested_buildRequestBody`,
`idsReported_errorMessage`).
-/

namespace Bibdata.SolrDeleter

section Ids

/-- The id that follows a mark, where the mark is `<id>`. -/
def idOf (piece : List Char) : Option String :=
  if "id>".toList.isPrefixOf piece then some (String.ofList (piece.drop 3)) else none

/-- The ids in the XML of a request. -/
def idsRequested (body : String) : List String :=
  (body.toList.splitOn '<').filterMap idOf

/-- The ids that a message names: what comes after `IDs: `, up to the full stop. -/
def idsReported (message : String) : List String :=
  let names := message.toList.drop "Error deleting Solr documents. IDs: ".toList.length
  ((names.takeWhile (· ≠ '.')).splitOn ',').map fun piece =>
    String.ofList (if piece.head? = some ' ' then piece.tail else piece)

variable {ids batch : List String}

theorem intercalate_cons (c : Char) (piece : List Char) (pieces : List (List Char)) :
    [c].intercalate (piece :: pieces) = piece ++ pieces.flatMap (c :: ·) := by
  induction pieces generalizing piece with
  | nil => simp
  | cons next pieces ih =>
    rw [List.intercalate_cons_cons, ih, List.flatMap_cons]
    simp

/-- What stands between the marks of a request. -/
def pieces (ids : List String) : List (List Char) :=
  "delete>".toList :: ids.flatMap (fun id => ["id>".toList ++ id.toList, "/id>".toList])
    ++ ["/delete>".toList]

theorem toList_buildRequestBody :
    (buildRequestBody ids).toList = ['<'].intercalate ([] :: pieces ids) := by
  rw [intercalate_cons, List.nil_append, buildRequestBody, String.toList_join, pieces]
  simp [List.flatMap_map, List.flatMap_assoc]

theorem idOf_id (id : String) : idOf ("id>".toList ++ id.toList) = some id := by
  rw [idOf, if_pos (List.isPrefixOf_iff_prefix.2 (List.prefix_append _ _))]
  exact congrArg some String.ofList_toList

theorem not_mem_pieces (h : ∀ id ∈ ids, '<' ∉ id.toList) : ∀ piece ∈ pieces ids, '<' ∉ piece := by
  intro piece hpiece
  simp only [pieces, List.cons_append, List.mem_cons, List.mem_append, List.mem_flatMap,
    List.not_mem_nil, or_false] at hpiece
  rcases hpiece with rfl | ⟨id, hid, rfl | rfl⟩ | rfl
  · decide
  · rw [List.mem_append, not_or]
    exact ⟨by decide, h id hid⟩
  · decide
  · decide

theorem filterMap_pieces : (pieces ids).filterMap idOf = ids := by
  have hdelete : idOf "delete>".toList = none := by decide
  have hend : idOf "/id>".toList = none := by decide
  have hlast : idOf "/delete>".toList = none := by decide
  rw [pieces, List.cons_append, List.filterMap_cons_none hdelete, List.filterMap_append,
    List.filterMap_cons_none hlast, List.filterMap_nil, List.append_nil]
  induction ids with
  | nil => rfl
  | cons id ids ih =>
    rw [List.flatMap_cons, List.filterMap_append, ih, List.filterMap_cons_some (idOf_id id),
      List.filterMap_cons_none hend]
    rfl

/-- A request has the ids of its batch, in order, and no others. -/
theorem idsRequested_buildRequestBody (h : ∀ id ∈ ids, '<' ∉ id.toList) :
    idsRequested (buildRequestBody ids) = ids := by
  have hmarks : ∀ piece ∈ [] :: pieces ids, '<' ∉ piece :=
    List.forall_mem_cons.2 ⟨List.not_mem_nil, not_mem_pieces h⟩
  rw [idsRequested, toList_buildRequestBody, List.splitOn_intercalate _ hmarks (by simp)]
  exact filterMap_pieces

/-- The ids of a message, as they stand between commas. -/
theorem toList_intercalate_comma (id : String) (batch : List String) :
    (", ".intercalate (id :: batch)).toList
      = [','].intercalate (id.toList :: batch.map fun id => ' ' :: id.toList) := by
  induction batch generalizing id with
  | nil => simp
  | cons next batch ih =>
    rw [String.intercalate_cons_cons, String.toList_append, ih, List.map_cons,
      List.intercalate_cons_cons]
    cases batch <;> simp

theorem toList_errorMessage (batch : List String) (status : ℕ) (body : String) :
    ∃ rest, (errorMessage batch status body).toList
      = "Error deleting Solr documents. IDs: ".toList
        ++ ((", ".intercalate batch).toList ++ '.' :: rest) := by
  have hstop : ". Status: ".toList = '.' :: " Status: ".toList := rfl
  refine ⟨" Status: ".toList ++ (toString status).toList ++ ". Body: ".toList ++ body.toList, ?_⟩
  unfold errorMessage
  generalize "Error deleting Solr documents. IDs: " = start
  generalize ". Status: " = stop at hstop
  generalize ". Body: " = next
  simp only [String.toList_append, hstop, List.append_assoc, List.cons_append]

/-- A report names the ids of its batch, in order, and no others. -/
theorem idsReported_errorMessage {status : ℕ} {body : String} (hne : batch ≠ [])
    (h : ∀ id ∈ batch, ',' ∉ id.toList ∧ '.' ∉ id.toList ∧ id.toList.head? ≠ some ' ') :
    idsReported (errorMessage batch status body) = batch := by
  obtain ⟨id, batch, rfl⟩ := List.exists_cons_of_ne_nil hne
  obtain ⟨⟨hcomma, hstop, hblank⟩, hrest⟩ := List.forall_mem_cons.1 h
  obtain ⟨rest, hmessage⟩ := toList_errorMessage (id :: batch) status body
  rw [toList_intercalate_comma] at hmessage
  have hnoStop : ∀ c ∈ [','].intercalate (id.toList :: batch.map fun id => ' ' :: id.toList),
      decide (c ≠ '.') = true := by
    intro c hc
    rw [intercalate_cons, List.mem_append, List.mem_flatMap] at hc
    rw [decide_eq_true_eq]
    rintro rfl
    rcases hc with hc | ⟨piece, hpiece, hc⟩
    · exact hstop hc
    · obtain ⟨next, hnext, rfl⟩ := List.mem_map.1 hpiece
      simp only [List.mem_cons, Char.reduceEq, false_or] at hc
      exact (hrest next hnext).2.1 hc
  have hnoComma : ∀ piece ∈ id.toList :: batch.map (fun id => ' ' :: id.toList), ',' ∉ piece := by
    refine List.forall_mem_cons.2 ⟨hcomma, List.forall_mem_map.2 fun next hnext hc => ?_⟩
    simp only [List.mem_cons, Char.reduceEq, false_or] at hc
    exact (hrest next hnext).1 hc
  have hnames : (batch.map fun id => ' ' :: id.toList).map
      (fun piece => String.ofList (if piece.head? = some ' ' then piece.tail else piece))
        = batch := by
    rw [List.map_map]
    conv_rhs => rw [← List.map_id batch]
    exact List.map_congr_left fun next _ => String.ofList_toList
  unfold idsReported
  rw [hmessage]
  dsimp only
  rw [List.drop_left, List.takeWhile_append_of_pos hnoStop,
    List.takeWhile_cons_of_neg (by simp), List.append_nil,
    List.splitOn_intercalate _ hnoComma (by simp), List.map_cons, hnames, if_neg hblank,
    String.ofList_toList]

end Ids

def Answered (run : BatchRun) : Prop :=
  ∃ body, (buildRequestBody run.batch, Answer.response 200 body) ∈ run.requests

def Reported (run : BatchRun) : Prop :=
  ∃ status body, errorMessage run.batch status body ∈ run.notified

def Settled (run : BatchRun) : Prop := Answered run ∨ Reported run ∨ run.raised = true

/-- Each batch is settled, or an exception was raised before its turn. -/
def NoneSilent (batches : List (List String)) (runs : List BatchRun) : Prop :=
  ∀ (k : ℕ) (batch : List String), batches[k]? = some batch →
    (∃ run : BatchRun, runs[k]? = some run ∧ run.batch = batch ∧ Settled run)
      ∨ runs[k]? = none ∧ ∃ run ∈ runs, run.raised = true

/-- The first answer is not a 200, nor an exception, and the retry times out. -/
def RetryTimesOut (server : Attempt → Answer) : Prop :=
  (∀ body, server .first ≠ .response 200 body) ∧ server .first ≠ .otherError
    ∧ server .retry = .timeoutError

/-- The error of one of the two requests is neither a status nor a timeout. -/
def Raises (server : Attempt → Answer) : Prop :=
  server .first = .otherError
    ∨ (∀ body, server .first ≠ .response 200 body) ∧ server .retry = .otherError

section Batch

variable {server : Attempt → Answer} {batch : List String}

theorem batch_deleteBatch : (deleteBatch server batch).batch = batch := by
  unfold deleteBatch deleteAgain
  dsimp only
  split
  · rfl
  · split_ifs
    · rfl
    · split
      · rfl
      · split_ifs
        · rfl
        · split <;> rfl

theorem deleteBatch_of_ok {body : String} (h : server .first = .response 200 body) :
    deleteBatch server batch
      = { batch, requests := [(buildRequestBody batch, .response 200 body)] } := by
  simp [deleteBatch, h, requestDeletion, validResponse]

theorem deleteBatch_of_raise (h : server .first = .otherError) :
    (deleteBatch server batch).raised = true := by
  simp [deleteBatch, h, requestDeletion]

theorem deleteBatch_of_failed (h : ∀ body, server .first ≠ .response 200 body)
    (hraise : server .first ≠ .otherError) :
    deleteBatch server batch
      = deleteAgain { batch, requests := [(buildRequestBody batch, server .first)] }
          (server .retry) := by
  unfold deleteBatch
  cases hs : server .first with
  | otherError => exact absurd hs hraise
  | timeoutError => rfl
  | response status body =>
    have hstatus : status ≠ 200 := by
      rintro rfl
      exact h body hs
    simp [requestDeletion, validResponse, hstatus]

theorem raised_deleteBatch_iff : (deleteBatch server batch).raised = true ↔ Raises server := by
  by_cases hok : ∃ body, server .first = .response 200 body
  · obtain ⟨body, hbody⟩ := hok
    rw [deleteBatch_of_ok hbody]
    simp [Raises, hbody]
  · push Not at hok
    by_cases hraise : server .first = .otherError
    · exact iff_of_true (deleteBatch_of_raise hraise) (.inl hraise)
    · rw [deleteBatch_of_failed hok hraise, Raises]
      cases hretry : server .retry with
      | otherError => simp [deleteAgain, requestDeletion, hok]
      | timeoutError => simp [deleteAgain, requestDeletion, validResponse, hraise]
      | response status body =>
        have hnot : (deleteAgain { batch, requests := [(buildRequestBody batch, server .first)] }
            (.response status body)).raised = false := by
          unfold deleteAgain
          simp only [requestDeletion]
          split_ifs <;> rfl
        simp [hnot, hraise]

/-- A retry that answers at all is either right or reported. -/
theorem settled_deleteBatch_iff :
    Settled (deleteBatch server batch) ↔ ¬ RetryTimesOut server := by
  by_cases hok : ∃ body, server .first = .response 200 body
  · obtain ⟨body, hbody⟩ := hok
    rw [deleteBatch_of_ok hbody]
    exact iff_of_true (.inl ⟨body, List.mem_cons_self⟩) fun h => h.1 body hbody
  · push Not at hok
    by_cases hraise : server .first = .otherError
    · exact iff_of_true (.inr (.inr (deleteBatch_of_raise hraise))) fun h => h.2.1 hraise
    · rw [deleteBatch_of_failed hok hraise, RetryTimesOut]
      cases hretry : server .retry with
      | otherError => simp [deleteAgain, requestDeletion, Settled]
      | timeoutError =>
        simp [deleteAgain, requestDeletion, validResponse, Settled, Answered, Reported, hok,
          hraise, eq_comm]
      | response status body =>
        refine iff_of_true ?_ (by simp)
        by_cases hstatus : status = 200
        · refine .inl ⟨body, ?_⟩
          simp [deleteAgain, requestDeletion, validResponse, hstatus]
        · refine .inr (.inl ⟨status, body, ?_⟩)
          simp [deleteAgain, requestDeletion, validResponse, hstatus]

end Batch

section Batches

variable {server : ℕ → Attempt → Answer}

/-- No batch that has its turn is one whose retry times out. -/
def NoTimeouts (server : ℕ → Attempt → Answer) (k n : ℕ) : Prop :=
  ∀ i < n, (∀ j < i, ¬ Raises (server (k + j))) → ¬ RetryTimesOut (server (k + i))

theorem noTimeouts_succ {k n : ℕ} :
    NoTimeouts server k (n + 1)
      ↔ ¬ RetryTimesOut (server k) ∧ (¬ Raises (server k) → NoTimeouts server (k + 1) n) := by
  have hshift : ∀ i, k + 1 + i = k + (i + 1) := by omega
  unfold NoTimeouts
  constructor
  · intro h
    refine ⟨h 0 (by omega) (by simp), fun hraises i hi hbefore => ?_⟩
    rw [hshift]
    refine h (i + 1) (by omega) fun j hj => ?_
    cases j with
    | zero => exact hraises
    | succ j =>
      rw [← hshift]
      exact hbefore j (by omega)
  · rintro ⟨hfirst, hrest⟩ i hi hbefore
    cases i with
    | zero => exact hfirst
    | succ i =>
      rw [← hshift]
      refine hrest (hbefore 0 (by omega)) i (by omega) fun j hj => ?_
      rw [hshift]
      exact hbefore (j + 1) (by omega)

theorem noneSilent_of_raised {batch : List String} {batches : List (List String)}
    {run : BatchRun} (hbatch : run.batch = batch) (hraised : run.raised = true) :
    NoneSilent (batch :: batches) [run] := by
  intro k b hk
  cases k with
  | zero => exact .inl ⟨run, rfl, hbatch.trans (Option.some.inj hk), .inr (.inr hraised)⟩
  | succ k => exact .inr ⟨rfl, run, List.mem_cons_self, hraised⟩

theorem noneSilent_cons {batch : List String} {batches : List (List String)} {run : BatchRun}
    {runs : List BatchRun} (hbatch : run.batch = batch) (hraised : run.raised = false) :
    NoneSilent (batch :: batches) (run :: runs) ↔ Settled run ∧ NoneSilent batches runs := by
  constructor
  · intro h
    constructor
    · rcases h 0 batch rfl with ⟨run', hrun', -, hsettled⟩ | ⟨hnone, -⟩
      · rwa [Option.some.inj hrun']
      · cases hnone
    · intro k b hk
      rcases h (k + 1) b hk with hsettled | ⟨hnone, run', hmem, hraised'⟩
      · exact .inl hsettled
      · refine .inr ⟨hnone, run', ?_, hraised'⟩
        rcases List.mem_cons.1 hmem with rfl | hmem
        · rw [hraised] at hraised'
          cases hraised'
        · exact hmem
  · rintro ⟨hsettled, hrest⟩ k b hk
    cases k with
    | zero => exact .inl ⟨run, rfl, hbatch.trans (Option.some.inj hk), hsettled⟩
    | succ k =>
      rcases hrest k b hk with hsettled' | ⟨hnone, run', hmem, hraised'⟩
      · exact .inl hsettled'
      · exact .inr ⟨hnone, run', List.mem_cons_of_mem run hmem, hraised'⟩

theorem noneSilent_iff : ∀ (batches : List (List String)) (k : ℕ),
    NoneSilent batches (deleteBatches server k batches) ↔ NoTimeouts server k batches.length
  | [], k => by simp [NoneSilent, NoTimeouts]
  | batch :: batches, k => by
    rw [deleteBatches, List.length_cons, noTimeouts_succ]
    split_ifs with hraised
    · refine iff_of_true (noneSilent_of_raised batch_deleteBatch hraised) ⟨?_, fun h => ?_⟩
      · exact settled_deleteBatch_iff.1 (.inr (.inr hraised))
      · exact absurd (raised_deleteBatch_iff.1 hraised) h
    · rw [noneSilent_cons batch_deleteBatch (Bool.eq_false_iff.2 hraised),
        settled_deleteBatch_iff, noneSilent_iff batches (k + 1)]
      have hnot := mt raised_deleteBatch_iff.2 hraised
      exact and_congr_right fun _ => ⟨fun h _ => h, fun h => h hnot⟩

theorem batch_of_run : ∀ {batches : List (List String)} {k i : ℕ} {run : BatchRun},
    (deleteBatches server k batches)[i]? = some run → batches[i]? = some run.batch
  | batch :: batches, k, i, run, h => by
    unfold deleteBatches at h
    dsimp only at h
    split_ifs at h
    · cases i with
      | zero =>
        rw [← Option.some.inj h, batch_deleteBatch]
        rfl
      | succ i => cases h
    · cases i with
      | zero =>
        rw [← Option.some.inj h, batch_deleteBatch]
        rfl
      | succ i =>
        rw [List.getElem?_cons_succ] at h ⊢
        exact batch_of_run h

/-- The ids are in the batches in order, each once, and no batch fails silently just when none has
a failed request followed by a retry that times out. -/
theorem delete_noneSilent_iff (server : ℕ → Attempt → Answer) (ids : List String)
    (batchSize : ℕ) :
    match delete server ids batchSize with
    | none => batchSize = 0
    | some runs =>
      let batches := Slices.slices batchSize [] ids
      batches.flatten = ids
        ∧ (∀ batch ∈ batches, batch ≠ [] ∧ batch.length ≤ batchSize)
        ∧ (∀ (k : ℕ) (run : BatchRun), runs[k]? = some run → batches[k]? = some run.batch)
        ∧ (NoneSilent batches runs ↔ NoTimeouts server 0 batches.length) := by
  unfold delete
  split_ifs with hzero
  · exact hzero
  · refine ⟨Slices.flatten_slices _ _ _, fun batch hb => ?_, fun k run => batch_of_run,
      noneSilent_iff _ _⟩
    refine Slices.slice_bounds ?_ hb
    rw [List.length_nil]
    omega

theorem not_noneSilent_timeouts :
    let server := fun _ : ℕ => fun _ : Attempt => Answer.timeoutError
    ∃ runs, delete server ["10744406"] 100 = some runs
      ∧ runs = [{ batch := ["10744406"],
                  requests := [("<delete><id>10744406</id></delete>", .timeoutError),
                    ("<delete><id>10744406</id></delete>", .timeoutError)] }]
      ∧ ¬ NoneSilent (Slices.slices 100 [] ["10744406"]) runs := by
  intro server
  refine ⟨_, rfl, by decide +kernel, fun h => ?_⟩
  refine (noneSilent_iff _ 0).1 h 0 (by decide) (by simp) ?_
  simp [RetryTimesOut, server]

end Batches

end Bibdata.SolrDeleter
