import Bibdata.DataspaceCollection
import Mathlib.Algebra.Order.BigOperators.Group.List
import Mathlib.Algebra.Order.Ring.Nat
import Mathlib.Data.List.Range

/-!
# All pages of all collections

Both functions are the loop that fetches pages with retries (`getDocumentsInCollection_eq`,
`legacyGetDocumentsInCollection_eq`). The pages that are asked for by number are all there are. An
offset that wraps around is inside the collection again: its pages are fetched once more, if the
recursion ends at all (`clientLaws_iff`).
-/

namespace Bibdata

open FallibleFold

variable {ι ε Doc : Type}

section Loop

/-- A run as its function returns it: there are no documents in the result itself. -/
def returned (run : Option (Except ε Unit × List Doc)) : Option (Except ε (List Doc) × List Doc) :=
  run.map fun (result, documents) => (result.map fun _ => [], documents)

def searched (answer : ℕ → ℕ → Except ε (SearchResponse Doc)) (page attempt : ℕ) :
    Except ε (List Doc × Bool) :=
  (answer page attempt).map fun response =>
    (response.objects, decide (response.page.number + 1 < response.page.totalPages))

theorem getDocumentsInCollection_eq (answer : ℕ → ℕ → Except ε (SearchResponse Doc)) (fuel : ℕ) :
    ∀ documents page attempt,
      getDocumentsInCollection answer fuel documents page attempt =
        returned (RetriedPages.loop thesesRetryAttempts (searched answer) fuel documents page
          attempt) := by
  induction fuel with
  | zero =>
    intro documents page attempt
    rfl
  | succ fuel ih =>
    intro documents page attempt
    rw [getDocumentsInCollection, RetriedPages.loop, searched]
    cases answer page attempt with
    | ok response =>
      simp only [Except.map, decide_eq_true_eq]
      split_ifs
      · rw [ih]
        rcases RetriedPages.loop thesesRetryAttempts (searched answer) fuel
          (documents ++ response.objects) (page + 1) 0 with _ | ⟨e | _, later⟩ <;> rfl
      · rfl
    | error e =>
      simp only [Except.map]
      split_ifs
      · rw [ih]
        -- A retry has added its page and all later ones; after it nothing is left to add.
        rcases RetriedPages.loop thesesRetryAttempts (searched answer) fuel documents page
          (attempt + 1) with _ | ⟨e | _, later⟩
        · rfl
        · rfl
        · simp [returned, Except.map]
      · rfl

/-- The offset of a page, as `u32`. -/
def offsetOf (restLimit : UInt32) (k : ℕ) : UInt32 := UInt32.ofNat (k * restLimit.toNat)

theorem offsetOf_succ (restLimit : UInt32) (k : ℕ) :
    offsetOf restLimit (k + 1) = offsetOf restLimit k + restLimit := by
  rw [offsetOf, offsetOf, Nat.succ_mul, UInt32.ofNat_add, UInt32.ofNat_toNat]

theorem toNat_offsetOf (restLimit : UInt32) (k : ℕ) :
    (offsetOf restLimit k).toNat = k * restLimit.toNat % 2 ^ 32 := UInt32.toNat_ofNat'

def fetched (restLimit : UInt32) (answer : ℕ → UInt32 → ℕ → Except ε (List Doc)) (k attempt : ℕ) :
    Except ε (List Doc × Bool) :=
  (answer k (offsetOf restLimit k) attempt).map fun docs => (docs, !docs.isEmpty)

theorem legacyGetDocumentsInCollection_eq (restLimit : UInt32)
    (answer : ℕ → UInt32 → ℕ → Except ε (List Doc)) (fuel : ℕ) :
    ∀ documents k attempt,
      legacyGetDocumentsInCollection restLimit answer fuel documents k (offsetOf restLimit k)
          attempt =
        returned (RetriedPages.loop thesesRetryAttempts (fetched restLimit answer) fuel documents k
          attempt) := by
  induction fuel with
  | zero =>
    intro documents k attempt
    rfl
  | succ fuel ih =>
    intro documents k attempt
    rw [legacyGetDocumentsInCollection, RetriedPages.loop, fetched]
    cases answer k (offsetOf restLimit k) attempt with
    | ok docs =>
      simp only [Except.map]
      split_ifs with hempty
      · rw [← offsetOf_succ, ih]
        rcases RetriedPages.loop thesesRetryAttempts (fetched restLimit answer) fuel
          (documents ++ docs) (k + 1) 0 with _ | ⟨e | _, later⟩ <;> rfl
      · have hnil : docs = [] := by simpa using hempty
        rw [hnil, List.append_nil]
        rfl
    | error e =>
      simp only [Except.map]
      split_ifs
      · rw [ih]
        rcases RetriedPages.loop thesesRetryAttempts (fetched restLimit answer) fuel documents k
          (attempt + 1) with _ | ⟨e | _, later⟩ <;> rfl
      · rfl

end Loop

section Servers

/-- How many pages a collection has. -/
def pagesOf (documents : List Doc) (pageSize : UInt32) : ℕ :=
  (documents.length + pageSize.toNat - 1) / pageSize.toNat

/-- A server that answers a page number with that page, its number and the number of pages, if it
answers. -/
structure PageServer (ι ε Doc : Type) where
  documents : ι → List Doc
  pageSize : UInt32
  answer : ι → ℕ → ℕ → Except ε (SearchResponse Doc)
  pageSize_pos : 0 < pageSize.toNat
  objects_eq : ∀ id page attempt response, answer id page attempt = .ok response →
    response.objects = ((documents id).drop (page * pageSize.toNat)).take pageSize.toNat
  number_eq : ∀ id page attempt response, answer id page attempt = .ok response →
    response.page.number.toInt = page
  totalPages_eq : ∀ id page attempt response, answer id page attempt = .ok response →
    response.page.totalPages.toInt = pagesOf (documents id) pageSize

/-- A server that answers an offset with the documents from there on, none past the end. -/
structure OffsetServer (ι ε Doc : Type) where
  documents : ι → List Doc
  restLimit : UInt32
  answer : ι → ℕ → UInt32 → ℕ → Except ε (List Doc)
  restLimit_pos : 0 < restLimit.toNat
  few : ∀ id, (documents id).length < 2 ^ 32
  answer_eq : ∀ id visit offset attempt docs, answer id visit offset attempt = .ok docs →
    docs = ((documents id).drop offset.toNat).take restLimit.toNat

/-- What a client owes whose requests fail too often, or do not. -/
structure ClientLaw (run : ℕ → Option (Except ε (List Doc))) (failsTooOften : Prop)
    (documents : List Doc) : Prop where
  complete : ¬failsTooOften → Ends run (.ok documents)
  failed : failsTooOften → ∃ n, ∀ fuel ≥ n, ∃ e, run fuel = some (.error e)

/-- A page of the collection fails more often than it is retried. -/
def PageServer.FailsTooOften (S : PageServer ι ε Doc) (id : ι) : Prop :=
  ∃ page, (page = 0 ∨ page < pagesOf (S.documents id) S.pageSize)
    ∧ ∀ attempt ≤ thesesRetryAttempts, ∃ e, S.answer id page attempt = .error e

namespace OffsetServer

variable (S : OffsetServer ι ε Doc)

/-- The page of a visit, at the offset it has then. -/
def page (id : ι) (k : ℕ) : List Doc :=
  ((S.documents id).drop (offsetOf S.restLimit k).toNat).take S.restLimit.toNat

/-- A page that is asked for fails more often than it is retried. -/
def FailsTooOften (id : ι) : Prop :=
  ∃ k, (∀ j < k, S.page id j ≠ []) ∧ ∀ attempt ≤ thesesRetryAttempts,
    ∃ e, S.answer id k (offsetOf S.restLimit k) attempt = .error e

/-- The offset past the last page is a `u32`. -/
def Fits (id : ι) : Prop :=
  pagesOf (S.documents id) S.restLimit * S.restLimit.toNat < 2 ^ 32

/-- Some offset is past the end. -/
def Reaches (id : ι) : Prop := ∃ k, S.page id k = []

/-- Up to the first collection that fails too often, all reach an end. -/
def EndsBeforeFailure : List ι → Prop
  | [] => True
  | id :: ids => S.FailsTooOften id ∨ S.Reaches id ∧ EndsBeforeFailure ids

end OffsetServer

end Servers

section Visits

variable (fetch : ι → ℕ → ℕ → Except ε (List Doc × Bool))

def visitOf (fuel : ℕ) (accumulator : List Doc) (id : ι) : Option (Except ε (List Doc)) :=
  visited (returned (RetriedPages.loop thesesRetryAttempts (fetch id) fuel accumulator 0 0))

variable {fetch} {part : ι → List Doc} {id : ι}

theorem visitOf_finishes (h : ∃ n, ∀ fuel ≥ n, ∀ items : List Doc,
      RetriedPages.loop thesesRetryAttempts (fetch id) fuel items 0 0 =
        some (.ok (), items ++ part id)) :
    Finishes (visitOf fetch) part id := by
  obtain ⟨n, hn⟩ := h
  refine ⟨n, fun fuel hfuel acc => ?_⟩
  rw [visitOf, hn fuel hfuel]
  rfl

theorem visitOf_fails (h : ∃ e n, ∀ fuel ≥ n, ∀ items : List Doc, ∃ items',
      RetriedPages.loop thesesRetryAttempts (fetch id) fuel items 0 0 =
        some (.error e, items')) :
    Fails (visitOf fetch) id := by
  obtain ⟨e, n, hn⟩ := h
  refine ⟨n, fun fuel hfuel acc => ⟨e, ?_⟩⟩
  obtain ⟨items', hitems'⟩ := hn fuel hfuel acc
  rw [visitOf, hitems']
  rfl

theorem visitOf_neverFinishes (h : ∀ fuel (items : List Doc),
      RetriedPages.loop thesesRetryAttempts (fetch id) fuel items 0 0 = none) :
    NeverFinishes (visitOf fetch) id := by
  intro fuel acc
  rw [visitOf, h]
  rfl

theorem getDocumentList_eq (answer : ι → ℕ → ℕ → Except ε (SearchResponse Doc)) (rayon : Rayon ι)
    (fuel : ℕ) (ids : List ι) :
    getDocumentList answer rayon fuel (.ok ids) =
      tryReduce (visitOf (fun id => searched (answer id)) fuel) (rayon.divide ids) := by
  simp only [getDocumentList, getDocumentsInCollection_eq]
  rfl

theorem legacyGetDocumentList_eq (restLimit : UInt32)
    (answer : ι → ℕ → UInt32 → ℕ → Except ε (List Doc)) (rayon : Rayon ι) (fuel : ℕ)
    (ids : List ι) :
    legacyGetDocumentList restLimit answer rayon fuel (.ok ids) =
      tryReduce (visitOf (fun id => fetched restLimit (answer id)) fuel) (rayon.divide ids) := by
  have h (id : ι) (documents : List Doc) :=
    legacyGetDocumentsInCollection_eq restLimit (answer id) fuel documents 0 0
  simp only [legacyGetDocumentList]
  have hzero : offsetOf restLimit 0 = 0 := by simp [offsetOf]
  rw [hzero] at h
  simp only [h]
  rfl

end Visits

section Slices

theorem flatMap_slices (documents : List Doc) (size n : ℕ) :
    (List.range n).flatMap (fun k => (documents.drop (k * size)).take size) =
      documents.take (n * size) := by
  induction n with
  | zero => simp
  | succ n ih => rw [List.range_succ, List.flatMap_append, ih, Nat.succ_mul, List.take_add]; simp

theorem lt_pagesOf {documents : List Doc} {size : UInt32} (hpos : 0 < size.toNat) {k : ℕ} :
    k < pagesOf documents size ↔ k * size.toNat < documents.length := by
  rw [pagesOf, Nat.lt_iff_add_one_le, Nat.le_div_iff_mul_le hpos, Nat.succ_mul]
  omega

theorem length_le_pagesOf (documents : List Doc) {size : UInt32} (hpos : 0 < size.toNat) :
    documents.length ≤ pagesOf documents size * size.toNat := by
  have h : ¬pagesOf documents size * size.toNat < documents.length :=
    (lt_pagesOf hpos).not.1 (Nat.lt_irrefl _)
  omega

end Slices

section Numbers

variable (S : PageServer ι ε Doc) {id : ι}

/-- The documents of a page, and whether there is another. -/
theorem PageServer.searched_eq {k : ℕ} (hk : k = 0 ∨ k < pagesOf (S.documents id) S.pageSize)
    {attempt : ℕ} {x : List Doc × Bool} (h : searched (S.answer id) k attempt = .ok x) :
    x = (((S.documents id).drop (k * S.pageSize.toNat)).take S.pageSize.toNat,
      decide (k + 1 < pagesOf (S.documents id) S.pageSize)) := by
  cases hanswer : S.answer id k attempt with
  | error e =>
    rw [searched, hanswer] at h
    cases h
  | ok response =>
    rw [searched, hanswer] at h
    obtain rfl := Except.ok.inj h
    have hnumber := S.number_eq id k attempt response hanswer
    have htotal := S.totalPages_eq id k attempt response hanswer
    have hbound := response.page.totalPages.toInt_lt
    -- The next number is an `i32`, as it is at most the total.
    have hnext : (response.page.number + 1).toInt = k + 1 := by
      rw [Int32.toInt_add, hnumber]
      rcases hk with rfl | hk
      · rfl
      · rw [Int32.toInt_one, Int.bmod_eq_of_le] <;> omega
    have hlt : response.page.number + 1 < response.page.totalPages ↔
        k + 1 < pagesOf (S.documents id) S.pageSize := by
      rw [Int32.lt_iff_toInt_lt, hnext, htotal]
      omega
    simp only [S.objects_eq id k attempt response hanswer, decide_eq_decide.2 hlt]

theorem searched_fails {answer : ℕ → ℕ → Except ε (SearchResponse Doc)} {k : ℕ} :
    RetriedPages.Fails thesesRetryAttempts (searched answer) k ↔
      ∀ attempt ≤ thesesRetryAttempts, ∃ e, answer k attempt = .error e := by
  refine forall₂_congr fun attempt _ => exists_congr fun e => ?_
  rw [searched]
  cases answer k attempt <;> simp [Except.map]

theorem PageServer.finishes (h : ¬S.FailsTooOften id) :
    Finishes (visitOf fun id => searched (S.answer id)) S.documents id := by
  have hpages := length_le_pagesOf (S.documents id) S.pageSize_pos
  obtain ⟨last, hlast⟩ : ∃ last, last = pagesOf (S.documents id) S.pageSize - 1 := ⟨_, rfl⟩
  have hasked (k : ℕ) (hk : k ≤ last) : k = 0 ∨ k < pagesOf (S.documents id) S.pageSize := by
    omega
  have hnofails : ∀ k ≤ last,
      ¬RetriedPages.Fails thesesRetryAttempts (searched (S.answer id)) k :=
    fun k hk hfails => h ⟨k, hasked k hk, searched_fails.1 hfails⟩
  refine visitOf_finishes ?_
  obtain ⟨n, hn⟩ := RetriedPages.ends_ok
    (fun k hk attempt x hx => S.searched_eq (hasked k hk) hx)
    (fun k hk => decide_eq_true (by omega)) (decide_eq_false (by omega)) hnofails
  refine ⟨n, fun fuel hfuel items => ?_⟩
  have hle : (S.documents id).length ≤ (last + 1) * S.pageSize.toNat := by
    refine hpages.trans (Nat.mul_le_mul_right _ ?_)
    omega
  rw [hn fuel hfuel, flatMap_slices, List.take_of_length_le hle]

theorem PageServer.fails (h : S.FailsTooOften id) :
    Fails (visitOf fun id => searched (S.answer id)) id := by
  obtain ⟨last, hlast, hfails⟩ := h
  have hasked (k : ℕ) (hk : k ≤ last) : k = 0 ∨ k < pagesOf (S.documents id) S.pageSize := by
    omega
  exact visitOf_fails (RetriedPages.ends_error
    (fun k hk attempt x hx => S.searched_eq (hasked k hk) hx)
    (fun k hk => decide_eq_true (by omega)) (searched_fails.2 hfails))

theorem mem_segment (rayon : Rayon ι) {ids : List ι} :
    id ∈ ids ↔ ∃ xs ∈ (rayon.divide ids).segments, id ∈ xs := by
  rw [← List.mem_flatten]
  exact (iff_of_eq (congrArg (id ∈ ·) (rayon.divide_items ids))).symm

theorem PageServer.clientLaw (rayon : Rayon ι) (ids : List ι) :
    ClientLaw (fun fuel => getDocumentList S.answer rayon fuel (.ok ids))
      (∃ id ∈ ids, S.FailsTooOften id) (ids.flatMap S.documents) := by
  simp only [getDocumentList_eq]
  refine ⟨fun hno => ?_, fun ⟨id, hid, hfails⟩ => ?_⟩
  · have hfinishes : ∀ id ∈ (rayon.divide ids).items,
        Finishes (visitOf fun id => searched (S.answer id)) S.documents id := by
      intro id hid
      rw [rayon.divide_items] at hid
      exact S.finishes fun h => hno ⟨id, hid, h⟩
    have hends := tryReduce_ok _ hfinishes
    rwa [rayon.divide_items] at hends
  · have hended : ∀ xs ∈ (rayon.divide ids).segments,
        Ended (visitOf fun id => searched (S.answer id)) S.documents xs := by
      intro xs _
      refine ended_of_forall fun x _ => ?_
      by_cases hx : S.FailsTooOften x
      · exact .inl (S.fails hx)
      · exact .inr (S.finishes hx)
    exact tryReduce_error _ hended (by rwa [rayon.divide_items]) (S.fails hfails)

end Numbers

namespace OffsetServer

variable (S : OffsetServer ι ε Doc) {id : ι}

theorem fetched_eq {k attempt : ℕ} {x : List Doc × Bool}
    (h : fetched S.restLimit (S.answer id) k attempt = .ok x) :
    x = (S.page id k, !(S.page id k).isEmpty) := by
  cases hanswer : S.answer id k (offsetOf S.restLimit k) attempt with
  | error e =>
    rw [fetched, hanswer] at h
    cases h
  | ok docs =>
    rw [fetched, hanswer] at h
    obtain rfl := Except.ok.inj h
    obtain rfl := S.answer_eq id k _ attempt docs hanswer
    rfl

theorem fetched_fails {k : ℕ} :
    RetriedPages.Fails thesesRetryAttempts (fetched S.restLimit (S.answer id)) k ↔
      ∀ attempt ≤ thesesRetryAttempts,
        ∃ e, S.answer id k (offsetOf S.restLimit k) attempt = .error e := by
  refine forall₂_congr fun attempt _ => exists_congr fun e => ?_
  rw [fetched]
  cases S.answer id k (offsetOf S.restLimit k) attempt <;> simp [Except.map]

theorem more_iff {k : ℕ} : (!(S.page id k).isEmpty) = true ↔ S.page id k ≠ [] := by
  cases S.page id k <;> simp

open scoped Classical in
/-- All documents that are fetched until a page is empty. -/
noncomputable def fetchedDocuments (id : ι) : List Doc :=
  if h : S.Reaches id then (List.range (Nat.find h + 1)).flatMap (S.page id) else []

theorem finishes (hno : ¬S.FailsTooOften id) (hreaches : S.Reaches id) :
    Finishes (visitOf fun id => fetched S.restLimit (S.answer id)) S.fetchedDocuments id := by
  classical
  have hbefore (k : ℕ) (hk : k < Nat.find hreaches) : S.page id k ≠ [] :=
    Nat.find_min hreaches hk
  have hlast : S.page id (Nat.find hreaches) = [] := Nat.find_spec hreaches
  have hnofails : ∀ k ≤ Nat.find hreaches,
      ¬RetriedPages.Fails thesesRetryAttempts (fetched S.restLimit (S.answer id)) k :=
    fun k hk hfails => hno ⟨k, fun j hj => hbefore j (by omega), S.fetched_fails.1 hfails⟩
  refine visitOf_finishes ?_
  obtain ⟨n, hn⟩ := RetriedPages.ends_ok (fun k _ attempt x hx => S.fetched_eq hx)
    (fun k hk => S.more_iff.2 (hbefore k hk)) (by rw [hlast]; rfl) hnofails
  refine ⟨n, fun fuel hfuel items => ?_⟩
  rw [hn fuel hfuel, fetchedDocuments, dif_pos hreaches]

theorem fails (h : S.FailsTooOften id) :
    Fails (visitOf fun id => fetched S.restLimit (S.answer id)) id := by
  obtain ⟨last, hbefore, hfails⟩ := h
  exact visitOf_fails (RetriedPages.ends_error (fun k _ attempt x hx => S.fetched_eq hx)
    (fun k hk => S.more_iff.2 (hbefore k hk)) (S.fetched_fails.2 hfails))

theorem neverFinishes (hno : ¬S.FailsTooOften id) (hreaches : ¬S.Reaches id) :
    NeverFinishes (visitOf fun id => fetched S.restLimit (S.answer id)) id := by
  have hpages (k : ℕ) : S.page id k ≠ [] := fun h => hreaches ⟨k, h⟩
  have hnofails (k : ℕ) :
      ¬RetriedPages.Fails thesesRetryAttempts (fetched S.restLimit (S.answer id)) k :=
    fun hfails => hno ⟨k, fun j _ => hpages j, S.fetched_fails.1 hfails⟩
  refine visitOf_neverFinishes fun fuel items => ?_
  refine RetriedPages.loop_eq_none (fun k attempt x hx => S.fetched_eq hx)
    (fun k => S.more_iff.2 (hpages k)) hnofails fuel items 0 0 ?_
  have hfirst := hnofails 0
  simp only [RetriedPages.Fails, not_forall] at hfirst
  obtain ⟨later, hle, hno⟩ := hfirst
  refine ⟨later, by omega, hle, ?_⟩
  cases hfetch : fetched S.restLimit (S.answer id) 0 later with
  | ok x => exact ⟨x, rfl⟩
  | error e => exact absurd ⟨e, hfetch⟩ hno

/-- An offset before the end of the last page has not wrapped around. -/
theorem page_eq {k : ℕ} (h : k * S.restLimit.toNat < 2 ^ 32) :
    S.page id k = ((S.documents id).drop (k * S.restLimit.toNat)).take S.restLimit.toNat := by
  rw [page, toNat_offsetOf, Nat.mod_eq_of_lt h]

theorem page_ne_nil {k : ℕ} :
    S.page id k ≠ [] ↔ (offsetOf S.restLimit k).toNat < (S.documents id).length := by
  have hpos := S.restLimit_pos
  rw [page, ← List.length_pos_iff, List.length_take, List.length_drop]
  omega

theorem page_ne_nil_of_lt {k : ℕ} (h : k < pagesOf (S.documents id) S.restLimit) :
    S.page id k ≠ [] := by
  have hlt := (lt_pagesOf S.restLimit_pos).1 h
  have hfew := S.few id
  rw [page_ne_nil, toNat_offsetOf]
  omega

theorem flatMap_page {n : ℕ} (h : ∀ k < n, k * S.restLimit.toNat < 2 ^ 32) :
    (List.range n).flatMap (S.page id) = (S.documents id).take (n * S.restLimit.toNat) := by
  rw [← flatMap_slices]
  exact List.flatMap_congr fun k hk => S.page_eq (h k (List.mem_range.1 hk))

theorem reaches_of_fits (h : S.Fits id) :
    S.page id (pagesOf (S.documents id) S.restLimit) = [] := by
  have hle := length_le_pagesOf (S.documents id) S.restLimit_pos
  rw [S.page_eq h, List.drop_of_length_le hle, List.take_nil]

theorem fetchedDocuments_of_fits (h : S.Fits id) : S.fetchedDocuments id = S.documents id := by
  classical
  have hreaches : S.Reaches id := ⟨_, S.reaches_of_fits h⟩
  have hfind : Nat.find hreaches = pagesOf (S.documents id) S.restLimit := by
    refine (Nat.find_eq_iff hreaches).2 ⟨S.reaches_of_fits h, fun k hk => ?_⟩
    exact S.page_ne_nil_of_lt hk
  have hle := length_le_pagesOf (S.documents id) S.restLimit_pos
  have hoffsets : ∀ k < pagesOf (S.documents id) S.restLimit + 1,
      k * S.restLimit.toNat < 2 ^ 32 := fun k hk =>
    lt_of_le_of_lt (Nat.mul_le_mul_right _ (by omega)) h
  rw [fetchedDocuments, dif_pos hreaches, hfind, S.flatMap_page hoffsets, Nat.succ_mul,
    List.take_of_length_le (by omega)]

theorem length_flatMap_range (f : ℕ → List Doc) {m n : ℕ} (h : m ≤ n) :
    ((List.range m).flatMap f).length ≤ ((List.range n).flatMap f).length := by
  induction n, h using Nat.le_induction with
  | base => exact le_refl _
  | succ n _ ih =>
    rw [List.range_succ, List.flatMap_append, List.length_append]
    omega

/-- The page after the last one is a page from the start again. -/
theorem length_fetchedDocuments (hreaches : S.Reaches id) (h : ¬S.Fits id) :
    (S.documents id).length < (S.fetchedDocuments id).length := by
  classical
  obtain ⟨n, hn⟩ : ∃ n, n = pagesOf (S.documents id) S.restLimit := ⟨_, rfl⟩
  have hfew := S.few id
  have hsize := S.restLimit.toNat_lt
  have hpages : n * S.restLimit.toNat < (S.documents id).length + S.restLimit.toNat := by
    have hlt : n * S.restLimit.toNat ≤ (S.documents id).length + S.restLimit.toNat - 1 := by
      rw [hn, pagesOf]
      exact Nat.div_mul_le_self ..
    have hpos := S.restLimit_pos
    omega
  have hwraps : 2 ^ 32 ≤ n * S.restLimit.toNat := by
    rw [hn]
    exact not_lt.1 h
  have hpage : S.page id n ≠ [] := by
    rw [page_ne_nil, toNat_offsetOf]
    omega
  have hfind : n < Nat.find hreaches := by
    refine (Nat.lt_find_iff hreaches n).2 fun k hk => ?_
    rcases Nat.lt_or_eq_of_le hk with hk | rfl
    · exact S.page_ne_nil_of_lt (hn ▸ hk)
    · exact hpage
  have hoffsets : ∀ k < n, k * S.restLimit.toNat < 2 ^ 32 := fun k hk => by
    have hlt := (lt_pagesOf S.restLimit_pos).1 (hn ▸ hk)
    omega
  have hall : ((List.range n).flatMap (S.page id)).length = (S.documents id).length := by
    rw [S.flatMap_page hoffsets, List.take_of_length_le]
    rw [hn]
    exact length_le_pagesOf _ S.restLimit_pos
  have hmore := length_flatMap_range (S.page id) (show n + 1 ≤ Nat.find hreaches + 1 by omega)
  rw [List.range_succ, List.flatMap_append, List.length_append, hall] at hmore
  have hpos := List.length_pos_iff.2 hpage
  rw [fetchedDocuments, dif_pos hreaches]
  simp only [List.flatMap_cons, List.flatMap_nil, List.append_nil] at hmore
  omega

theorem sorts (id : ι) :
    Finishes (visitOf fun id => fetched S.restLimit (S.answer id)) S.fetchedDocuments id
      ∨ Fails (visitOf fun id => fetched S.restLimit (S.answer id)) id
      ∨ NeverFinishes (visitOf fun id => fetched S.restLimit (S.answer id)) id := by
  by_cases hfails : S.FailsTooOften id
  · exact .inr (.inl (S.fails hfails))
  · by_cases hreaches : S.Reaches id
    · exact .inl (S.finishes hfails hreaches)
    · exact .inr (.inr (S.neverFinishes hfails hreaches))

theorem endsBeforeFailure_iff {ids : List ι} :
    S.EndsBeforeFailure ids ↔
      Ended (visitOf fun id => fetched S.restLimit (S.answer id)) S.fetchedDocuments ids := by
  induction ids with
  | nil => exact Iff.rfl
  | cons id ids ih =>
    rw [EndsBeforeFailure, Ended, ← ih]
    by_cases hfails : S.FailsTooOften id
    · exact iff_of_true (.inl hfails) (.inl (S.fails hfails))
    · by_cases hreaches : S.Reaches id
      · have hfinishes := S.finishes hfails hreaches
        have hno : ¬Fails (visitOf fun id => fetched S.restLimit (S.answer id)) id :=
          fun h => h.not_finishes hfinishes
        simp [hfails, hreaches, hfinishes, hno]
      · have hnever := S.neverFinishes hfails hreaches
        have hno : ¬Finishes (visitOf fun id => fetched S.restLimit (S.answer id))
          S.fetchedDocuments id := hnever.not_finishes
        simp [hfails, hreaches, hno, hnever.not_fails]

theorem EndsBeforeFailure.reaches {ids : List ι} (h : S.EndsBeforeFailure ids)
    (hno : ∀ id ∈ ids, ¬S.FailsTooOften id) : ∀ id ∈ ids, S.Reaches id := by
  induction ids with
  | nil => simp
  | cons id ids ih =>
    rw [List.forall_mem_cons] at hno ⊢
    rcases h with hfails | ⟨hreaches, h⟩
    · exact absurd hfails hno.1
    · exact ⟨hreaches, ih h hno.2⟩

variable (rayon : Rayon ι) (ids : List ι)

/-- Of the lists that are put together one is longer than it should be, and none is shorter. -/
theorem flatMap_fetchedDocuments_ne (hreaches : ∀ id ∈ ids, S.Reaches id) (hid : id ∈ ids)
    (hfits : ¬S.Fits id) : ids.flatMap S.fetchedDocuments ≠ ids.flatMap S.documents := by
  have hle : ∀ id ∈ ids, (S.documents id).length ≤ (S.fetchedDocuments id).length := by
    intro id hid
    by_cases h : S.Fits id
    · rw [S.fetchedDocuments_of_fits h]
    · exact le_of_lt (S.length_fetchedDocuments (hreaches id hid) h)
  have hlt := List.sum_lt_sum _ _ hle
    ⟨id, hid, S.length_fetchedDocuments (hreaches id hid) hfits⟩
  intro heq
  have hlength := congrArg List.length heq
  rw [List.length_flatMap, List.length_flatMap] at hlength
  omega

theorem ends_iff (hno : ¬∃ id ∈ ids, S.FailsTooOften id) :
    Ends (fun fuel => legacyGetDocumentList S.restLimit S.answer rayon fuel (.ok ids))
      (.ok (ids.flatMap S.documents)) ↔ ∀ id ∈ ids, S.Fits id := by
  simp only [legacyGetDocumentList_eq]
  have hnofails : ∀ id ∈ ids, ¬S.FailsTooOften id := fun id hid h => hno ⟨id, hid, h⟩
  have hends (hreaches : ∀ id ∈ ids, S.Reaches id) : Ends (fun fuel => tryReduce
      (visitOf (fun id => fetched S.restLimit (S.answer id)) fuel) (rayon.divide ids))
      (.ok (ids.flatMap S.fetchedDocuments)) := by
    have h := tryReduce_ok (rayon.divide ids) fun id hid =>
      S.finishes (hnofails id (rayon.divide_items ids ▸ hid))
        (hreaches id (rayon.divide_items ids ▸ hid))
    rwa [rayon.divide_items] at h
  refine ⟨fun h id hid => ?_, fun hfits => ?_⟩
  · by_contra hfits
    by_cases hreaches : ∀ id ∈ ids, S.Reaches id
    · exact S.flatMap_fetchedDocuments_ne ids hreaches hid hfits
        (Except.ok.inj ((hends hreaches).unique h))
    · -- A collection that goes on for ever.
      simp only [not_forall] at hreaches
      obtain ⟨around, haround, hreaches⟩ := hreaches
      obtain ⟨xs, hxs, hmem⟩ := (mem_segment rayon).1 haround
      have hended : ¬S.EndsBeforeFailure xs := fun h => hreaches
        (h.reaches S (fun x hx => hnofails x ((mem_segment rayon).2 ⟨xs, hxs, hx⟩)) around hmem)
      rw [endsBeforeFailure_iff] at hended
      obtain ⟨n, hn⟩ := tryReduce_none _ (fun x _ => S.sorts x) hxs hended
      obtain ⟨m, hm⟩ := h
      have hsome := hm (max n m) (le_max_right ..)
      simp only [hn (max n m) (le_max_left ..)] at hsome
      cases hsome
  · have h := hends fun id hid => ⟨_, S.reaches_of_fits (hfits id hid)⟩
    rwa [List.flatMap_congr fun id hid => S.fetchedDocuments_of_fits (hfits id hid)] at h

theorem errs_iff (hfails : ∃ id ∈ ids, S.FailsTooOften id) :
    (∃ n, ∀ fuel ≥ n, ∃ e,
      legacyGetDocumentList S.restLimit S.answer rayon fuel (.ok ids) = some (.error e)) ↔
      ∀ xs ∈ (rayon.divide ids).segments, S.EndsBeforeFailure xs := by
  simp only [legacyGetDocumentList_eq]
  obtain ⟨id, hid, hfails⟩ := hfails
  refine ⟨fun h xs hxs => ?_, fun hended => ?_⟩
  · by_contra hended
    rw [endsBeforeFailure_iff] at hended
    obtain ⟨n, hn⟩ := tryReduce_none _ (fun x _ => S.sorts x) hxs hended
    obtain ⟨m, hm⟩ := h
    obtain ⟨e, he⟩ := hm (max n m) (le_max_right ..)
    rw [hn (max n m) (le_max_left ..)] at he
    cases he
  · exact tryReduce_error _ (fun xs hxs => S.endsBeforeFailure_iff.1 (hended xs hxs))
      (by rwa [rayon.divide_items]) (S.fails hfails)

end OffsetServer

/-- The new client keeps the law; the older one where no offset wraps around, and where a failure
comes before any collection whose offsets go around for ever. -/
theorem clientLaws_iff (S : PageServer ι ε Doc) (L : OffsetServer ι ε Doc) (rayon : Rayon ι)
    (ids : List ι) :
    (ClientLaw (fun fuel => getDocumentList S.answer rayon fuel (.ok ids))
        (∃ id ∈ ids, S.FailsTooOften id) (ids.flatMap S.documents)
      ∧ ClientLaw (fun fuel => legacyGetDocumentList L.restLimit L.answer rayon fuel (.ok ids))
        (∃ id ∈ ids, L.FailsTooOften id) (ids.flatMap L.documents)) ↔
    ((¬∃ id ∈ ids, L.FailsTooOften id) → ∀ id ∈ ids, L.Fits id)
      ∧ ((∃ id ∈ ids, L.FailsTooOften id) →
        ∀ xs ∈ (rayon.divide ids).segments, L.EndsBeforeFailure xs) := by
  refine ⟨fun ⟨_, hlegacy⟩ => ⟨fun hno => ?_, fun hfails => ?_⟩, fun ⟨hfits, hended⟩ => ?_⟩
  · exact (L.ends_iff rayon ids hno).1 (hlegacy.complete hno)
  · exact (L.errs_iff rayon ids hfails).1 (hlegacy.failed hfails)
  · refine ⟨S.clientLaw rayon ids, fun hno => ?_, fun hfails => ?_⟩
    · exact (L.ends_iff rayon ids hno).2 (hfits hno)
    · exact (L.errs_iff rayon ids hfails).2 (hended hfails)

def sequentially : Rayon ι where
  divide := .segment
  divide_items _ := List.append_nil _

/-- The first request fails. -/
def twoPages (page attempt : ℕ) : Except Unit (SearchResponse ℕ) :=
  match page, attempt with
  | 0, _ + 1 => .ok ⟨[1, 2], ⟨0, 2⟩⟩
  | 1, _ => .ok ⟨[3], ⟨1, 2⟩⟩
  | _, _ => .error ()

theorem twoPages_ok {page attempt : ℕ} {response : SearchResponse ℕ}
    (h : twoPages page attempt = .ok response) :
    response = ⟨([1, 2, 3].drop (page * 2)).take 2, ⟨Int32.ofNat page, 2⟩⟩
      ∧ (Int32.ofNat page).toInt = page := by
  unfold twoPages at h
  split at h
  · exact ⟨(Except.ok.inj h).symm, rfl⟩
  · exact ⟨(Except.ok.inj h).symm, rfl⟩
  · cases h

def retriedServer : PageServer Unit Unit ℕ where
  documents _ := [1, 2, 3]
  pageSize := 2
  answer _ := twoPages
  pageSize_pos := Nat.zero_lt_succ 1
  objects_eq _ _ _ _ h := congrArg SearchResponse.objects (twoPages_ok h).1
  number_eq _ _ _ _ h :=
    (congrArg (fun response => response.page.number.toInt) (twoPages_ok h).1).trans
      (twoPages_ok h).2
  totalPages_eq _ _ _ _ h :=
    congrArg (fun response => response.page.totalPages.toInt) (twoPages_ok h).1

/-- Every first request of a page fails. -/
def halfDeaf (offset : UInt32) : ℕ → Except Unit (List ℕ)
  | 0 => .error ()
  | _ + 1 => .ok (([1, 2, 3].drop offset.toNat).take 2)

theorem halfDeaf_ok {offset : UInt32} {docs : List ℕ} :
    ∀ {attempt : ℕ}, halfDeaf offset attempt = .ok docs →
      docs = ([1, 2, 3].drop offset.toNat).take 2
  | _ + 1, h => (Except.ok.inj h).symm

def retriedOffsets : OffsetServer Unit Unit ℕ where
  documents _ := [1, 2, 3]
  restLimit := 2
  answer _ _ := halfDeaf
  restLimit_pos := Nat.zero_lt_succ 1
  few _ := by decide
  answer_eq _ _ _ _ _ := halfDeaf_ok

theorem clientLaws_retried :
    ClientLaw
        (fun fuel => getDocumentList retriedServer.answer sequentially fuel (.ok [(), ()]))
        (∃ id ∈ [(), ()], retriedServer.FailsTooOften id) [1, 2, 3, 1, 2, 3]
      ∧ ClientLaw
        (fun fuel => legacyGetDocumentList 2 retriedOffsets.answer sequentially fuel
          (.ok [(), ()]))
        (∃ id ∈ [(), ()], retriedOffsets.FailsTooOften id) [1, 2, 3, 1, 2, 3] := by
  refine (clientLaws_iff retriedServer retriedOffsets sequentially [(), ()]).2
    ⟨fun _ _ _ => ?_, fun ⟨_, _, k, _, hk⟩ => ?_⟩
  · show pagesOf [1, 2, 3] 2 * (2 : UInt32).toNat < 2 ^ 32
    decide
  · obtain ⟨e, he⟩ := hk 1 (by show 1 ≤ 3; omega)
    cases he

theorem length_crowded : (List.replicate (2 ^ 32 - 1) ()).length < 2 ^ 32 :=
  lt_of_eq_of_lt List.length_replicate (by decide)

/-- The most documents there may be, by the hundred: the offset after the last page is 4. -/
def crowded : OffsetServer Unit Unit Unit where
  documents _ := List.replicate (2 ^ 32 - 1) ()
  restLimit := 100
  answer _ _ offset _ := .ok (((List.replicate (2 ^ 32 - 1) ()).drop offset.toNat).take 100)
  restLimit_pos := Nat.zero_lt_succ 99
  few _ := length_crowded
  answer_eq _ _ _ _ _ h := (Except.ok.inj h).symm

theorem not_clientLaw_crowded :
    ¬ClientLaw
      (fun fuel => legacyGetDocumentList crowded.restLimit crowded.answer sequentially fuel
        (.ok [()]))
      (∃ id ∈ [()], crowded.FailsTooOften id) ([()].flatMap crowded.documents) := by
  intro h
  have hno : ¬∃ id ∈ [()], crowded.FailsTooOften id := by
    rintro ⟨id, -, k, -, hk⟩
    obtain ⟨e, he⟩ := hk 0 (Nat.zero_le _)
    cases he
  have hfits := (crowded.ends_iff sequentially [()] hno).1 (h.complete hno) () List.mem_cons_self
  have hlength : (crowded.documents ()).length = 2 ^ 32 - 1 := List.length_replicate
  rw [OffsetServer.Fits, pagesOf, hlength] at hfits
  exact absurd hfits (by decide)

end Bibdata
