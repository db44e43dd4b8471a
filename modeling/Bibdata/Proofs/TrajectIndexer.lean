import Bibdata.Proofs.WriterRequests
import Bibdata.TrajectIndexer

/-!
# What a run of `traject` does to Solr

Whatever order the threads work in and whatever Solr answers, each update of a run is one that the
file says (`Sound.updates`), and once the run is done it has made the one that the file says last
of each id that was not given up (`Inv.settled_of_done`).
-/

namespace Bibdata

namespace Traject

variable {ρ δ : Type*} {config : Configuration ρ δ} {records : List ρ} {s s' : State ρ δ}
  {us : List (String × Option δ)}

section File

theorem documents_cons_of_isDeleted {r : ρ} (h : isDeleted config r = true) :
    documents config (r :: records) = documents config records := by
  simp [documents, h]

theorem documents_cons_of_document {r : ρ} {doc : δ} (h : isDeleted config r = false)
    (hmap : config.map r = .document doc) :
    documents config (r :: records) = doc :: documents config records := by
  simp [documents, h, hmap]

theorem documents_cons_of_no_document {r : ρ}
    (hmap : ∀ doc, config.map r ≠ .document doc) :
    documents config (r :: records) = documents config records := by
  unfold documents
  rw [List.filterMap_cons_none]
  split_ifs
  · rfl
  · split
    · rename_i doc hdoc
      exact absurd hdoc (hmap doc)
    · rfl

theorem mem_deletions_cons_of_isDeleted {r : ρ} {id : String} (h : isDeleted config r = true) :
    id ∈ deletions config (r :: records)
      ↔ config.id r = some id ∨ id ∈ deletions config records := by
  simp [deletions, h]

theorem deletions_cons_of_not_isDeleted {r : ρ} (h : isDeleted config r = false) :
    deletions config (r :: records) = deletions config records := by
  simp [deletions, h]

theorem mem_deletedIds_setAside {r : ρ} {id : String} :
    id ∈ (setAside config s r).deletedIds ↔ id ∈ s.deletedIds ∨ config.id r = some id := by
  simp only [setAside, List.mem_append, List.mem_filter, Option.mem_toList, decide_eq_true_eq]
  by_cases h : id ∈ s.deletedIds <;> simp [h]

end File

theorem mem_of_masked {α : Type*} : ∀ {mask : List Bool} {xs : List α} {x : α},
    x ∈ Masks.masked mask xs → x ∈ xs
  | [], xs, x, h => by simp at h
  | keep :: mask, [], x, h => by simp at h
  | keep :: mask, y :: xs, x, h => by
    unfold Masks.masked at h
    split_ifs at h
    · rcases List.mem_cons.1 h with rfl | h
      · exact List.mem_cons_self
      · exact List.mem_cons_of_mem y (mem_of_masked h)
    · exact List.mem_cons_of_mem y (mem_of_masked h)

/-- Where a run stands in the file. -/
structure Inv (config : Configuration ρ δ) (records : List ρ) (s : State ρ δ) : Prop where
  writer : SolrJsonWriter.Inv config.settings config.generates s.writer
  kept : ∀ d ∈ s.writer.handed, config.generates d = true → SolrJsonWriter.Kept s.writer d
  handed : documents config records = s.writer.handed ++ documents config s.unread
  aside : ∀ id, id ∈ deletions config records
    ↔ id ∈ s.deletedIds ∨ id ∈ deletions config s.unread
  closing : s.writer.closing = true → s.unread = []
  mapping : s.phase = .mapping → s.deleted = []
  deleting : ∀ batches again, s.phase = .deleting batches again →
    s.unread = [] ∧ s.writer.returned = true ∧ s.writer.raised = false
      ∧ (∀ id ∈ s.deletedIds, id ∈ s.deleted ∨ id ∈ s.unanswered ∨ id ∈ batches.flatten)
      ∧ ∀ id ∈ batches.flatten, id ∈ s.deletedIds

/-- The updates of a step are what the file says, and what counts as served or deleted after it
was so before, or is among them. -/
structure Sound (config : Configuration ρ δ) (records : List ρ) (s s' : State ρ δ)
    (us : List (String × Option δ)) : Prop where
  updates : ∀ u ∈ us, (∃ doc ∈ documents config records, u = addDocument config doc
      ∧ s'.deleted = []) ∨ ∃ id ∈ deletions config records, u = deleteId id
  served : ∀ doc ∈ s'.writer.served, doc ∈ s.writer.served ∨ addDocument config doc ∈ us
  deleted : ∀ id ∈ s'.deleted, id ∈ s.deleted ∨ deleteId id ∈ us
  still : ∀ doc ∈ s.writer.served, doc ∈ s'.writer.served
  gone : ∀ id ∈ s.deleted, id ∈ s'.deleted

theorem inv_init : Inv config records ({ unread := records } : State ρ δ) where
  writer := SolrJsonWriter.inv_init
  kept := by simp
  handed := rfl
  aside id := by simp
  closing h := by cases h
  mapping _ := rfl
  deleting := by simp

theorem Sound.of_same (hw : s'.writer = s.writer) (hd : s'.deleted = s.deleted) :
    Sound config records s s' [] where
  updates := by simp
  served doc h := .inl (hw ▸ h)
  deleted id h := .inl (hd ▸ h)
  still doc h := hw ▸ h
  gone id h := hd ▸ h

section Write

variable {e : SolrJsonWriter.Event δ} {applied : List Bool}

theorem write_spec (h : write config s e applied = some (s', us)) :
    ∃ writer, SolrJsonWriter.step config.settings config.generates s.writer e = some writer
      ∧ (s', us) = written config s writer applied := by
  obtain ⟨writer, hstep, heq⟩ := Option.map_eq_some_iff.1 h
  exact ⟨writer, hstep, heq.symm⟩

theorem addDocument_mem_addUpdates {req : List δ × SolrJsonWriter.Answer} {doc : δ}
    (hdoc : doc ∈ req.1) (hok : req.2 = .status 200) :
    addDocument config doc ∈ addUpdates config applied req := by
  rw [addUpdates, if_pos hok]
  exact List.mem_map_of_mem hdoc

theorem of_mem_addUpdates {req : List δ × SolrJsonWriter.Answer} {u : String × Option δ}
    (h : u ∈ addUpdates config applied req) : ∃ doc ∈ req.1, u = addDocument config doc := by
  obtain ⟨doc, hdoc, rfl⟩ := List.mem_map.1 h
  refine ⟨doc, ?_, rfl⟩
  split_ifs at hdoc
  · exact hdoc
  · exact mem_of_masked hdoc

/-- A step of the writer while the records are mapped; `e.doc` is one that comes from before the
unread records. -/
theorem inv_write (hwriter : SolrJsonWriter.Inv config.settings config.generates s.writer)
    (hkept : ∀ d ∈ s.writer.handed, config.generates d = true → SolrJsonWriter.Kept s.writer d)
    (hhanded : documents config records
      = s.writer.handed ++ e.doc.toList ++ documents config s.unread)
    (haside : ∀ id, id ∈ deletions config records
      ↔ id ∈ s.deletedIds ∨ id ∈ deletions config s.unread)
    (hclosing : s.writer.closing = true ∨ e = .close → s.unread = [])
    (hphase : s.phase = .mapping) (hdeleted : s.deleted = [])
    (h : write config s e applied = some (s', us)) :
    Inv config records s' ∧ Sound config records s s' us := by
  obtain ⟨writer, hstep, heq⟩ := write_spec h
  obtain ⟨hhanded', new, hnew, hdocs⟩ := SolrJsonWriter.step_requests hwriter hstep
  have hserved := SolrJsonWriter.served_of_requests hnew
  simp only [written, Prod.mk.injEq] at heq
  obtain ⟨rfl, rfl⟩ := heq
  rw [hnew, List.drop_left]
  refine ⟨⟨?_, ?_, ?_, haside, ?_, fun _ => hdeleted, ?_⟩, ⟨?_, ?_, fun id hid => .inl hid, ?_,
    fun id hid => hid⟩⟩
  · exact SolrJsonWriter.inv_step hwriter hstep
  · exact SolrJsonWriter.kept_step hstep hkept
  · show _ = writer.handed ++ _
    rw [hhanded', hhanded]
  · exact fun hc => hclosing (SolrJsonWriter.closing_step hstep hc)
  · intro batches again hd
    simp only [hphase] at hd
    split_ifs at hd
  · intro u hu
    obtain ⟨req, hreq, hu⟩ := List.mem_flatMap.1 hu
    obtain ⟨doc, hdoc, rfl⟩ := of_mem_addUpdates hu
    refine .inl ⟨doc, ?_, rfl, hdeleted⟩
    rw [hhanded, List.append_assoc]
    exact List.mem_append_left _ (hdocs req hreq hdoc)
  · intro doc hdoc
    rw [show (_ : State ρ δ).writer.served = writer.served from rfl, hserved] at hdoc
    rcases List.mem_append.1 hdoc with hdoc | hdoc
    · exact .inl hdoc
    · obtain ⟨req, hreq, hdoc⟩ := List.mem_flatMap.1 hdoc
      obtain ⟨hreq, hok⟩ := List.mem_filter.1 hreq
      exact .inr (List.mem_flatMap.2
        ⟨req, hreq, addDocument_mem_addUpdates hdoc (of_decide_eq_true hok)⟩)
  · intro doc hdoc
    show doc ∈ writer.served
    rw [hserved]
    exact List.mem_append_left _ hdoc

end Write

section Steps

theorem inv_read (h : Inv config records s) (hphase : s.phase = .mapping)
    (hread : read config s = some (s', us)) :
    Inv config records s' ∧ Sound config records s s' us := by
  unfold read at hread
  split at hread
  · cases hread
  · rename_i r unread hunread
    have hnot : ¬ s.writer.closing = true := by
      intro hc
      rw [h.closing hc] at hunread
      cases hunread
    have hhanded := h.handed
    have haside := h.aside
    rw [hunread] at hhanded haside
    dsimp only at hread
    split_ifs at hread with hdel
    · cases hread
      rw [documents_cons_of_isDeleted hdel] at hhanded
      refine ⟨⟨h.writer, h.kept, hhanded, fun id => ?_, fun hc => absurd hc hnot, h.mapping,
        fun _ _ hd => ?_⟩, .of_same rfl rfl⟩
      · rw [haside, mem_deletions_cons_of_isDeleted hdel, mem_deletedIds_setAside, or_assoc]
        rfl
      · exact absurd (hphase.symm.trans hd) (by simp)
    · have hdel : isDeleted config r = false := Bool.eq_false_iff.2 hdel
      rw [deletions_cons_of_not_isDeleted hdel] at haside
      split at hread
      · rename_i doc hmap
        rw [documents_cons_of_document hdel hmap] at hhanded
        obtain ⟨hinv, hsound⟩ :
            Inv config records s' ∧ Sound config records { s with unread } s' us :=
          inv_write h.writer h.kept (by simpa [SolrJsonWriter.Event.doc] using hhanded) haside
            (fun hc => absurd (hc.resolve_right (by simp)) hnot) hphase (h.mapping hphase) hread
        exact ⟨hinv, hsound.updates, hsound.served, hsound.deleted, hsound.still, hsound.gone⟩
      · rename_i hmap
        cases hread
        rw [documents_cons_of_no_document (by simp [hmap])] at hhanded
        exact ⟨⟨h.writer, h.kept, hhanded, haside, fun hc => absurd hc hnot, h.mapping,
          fun _ _ hd => absurd (hphase.symm.trans hd) (by simp)⟩, .of_same rfl rfl⟩
      · rename_i hmap
        cases hread
        rw [documents_cons_of_no_document (by simp [hmap])] at hhanded
        exact ⟨⟨h.writer, h.kept, hhanded, haside, fun hc => absurd hc hnot, by simp, by simp⟩,
          .of_same rfl rfl⟩

theorem inv_afterProcessing (h : Inv config records s) (hunread : s.unread = [])
    (hreturned : s.writer.returned = true)
    (hraised : s.phase = .mapping → s.writer.raised = false) :
    Inv config records (afterProcessing s) := by
  unfold afterProcessing
  split_ifs with hphase
  · refine ⟨h.writer, h.kept, h.handed, h.aside, h.closing, by simp, ?_⟩
    rintro batches again hd
    cases hd
    rw [Slices.flatten_slices, List.nil_append]
    exact ⟨hunread, hreturned, hraised hphase, fun id hid => .inr (.inr hid), fun id hid => hid⟩
  · exact h

theorem Sound.afterProcessing (h : Sound config records s s' us) :
    Sound config records s (afterProcessing s') us := by
  unfold Traject.afterProcessing
  split_ifs
  · exact ⟨h.updates, h.served, h.deleted, h.still, h.gone⟩
  · exact h

theorem inv_finish {commit : SolrJsonWriter.Answer} (h : Inv config records s)
    (hphase : s.phase = .mapping) (hstep : write config s (.finish commit) [] = some (s', us)) :
    Inv config records (afterProcessing s') ∧ Sound config records s (afterProcessing s') us := by
  obtain ⟨writer, hwriter, heq⟩ := write_spec hstep
  have hfinish := hwriter
  simp only [SolrJsonWriter.step] at hfinish
  split_ifs at hfinish with hcond
  simp only [Bool.and_eq_true] at hcond
  have hunread := h.closing hcond.1.1
  obtain ⟨hinv, hsound⟩ := inv_write h.writer h.kept
    (by simpa [SolrJsonWriter.Event.doc] using h.handed) h.aside (fun _ => hunread) hphase
    (h.mapping hphase) hstep
  simp only [written, Prod.mk.injEq] at heq
  refine ⟨inv_afterProcessing hinv ?_ ?_ fun hp => ?_, hsound.afterProcessing⟩
  · rw [heq.1]
    exact hunread
  · rw [heq.1, ← Option.some.inj hfinish]
    exact SolrJsonWriter.returned_finish
  · rw [heq.1] at hp ⊢
    dsimp only at hp ⊢
    split_ifs at hp with hr
    exact Bool.eq_false_iff.2 hr

theorem deleteId_mem_masked {applied : List Bool} {batch : List String} {u : String × Option δ}
    (h : u ∈ (Masks.masked applied batch).map deleteId) : ∃ id ∈ batch, u = deleteId id := by
  obtain ⟨id, hid, rfl⟩ := List.mem_map.1 h
  exact ⟨id, mem_of_masked hid, rfl⟩

theorem inv_deleteBatch {batch : List String} {batches : List (List String)} {again : Bool}
    {answer : SolrDeleter.Answer} {applied : List Bool} (h : Inv config records s)
    (hphase : s.phase = .deleting (batch :: batches) again) :
    Inv config records (deleteBatch s batch batches again answer applied).1
      ∧ Sound config records s (deleteBatch s batch batches again answer applied).1
        (deleteBatch s batch batches again answer applied).2 := by
  obtain ⟨hunread, hreturned, hraised, hids, hbatches⟩ := h.deleting _ _ hphase
  rw [List.flatten_cons] at hbatches
  have hbatch : ∀ id ∈ batch, id ∈ deletions config records := fun id hid =>
    (h.aside id).2 (.inl (hbatches id (List.mem_append_left _ hid)))
  have hrest : ∀ id ∈ batches.flatten, id ∈ s.deletedIds := fun id hid =>
    hbatches id (List.mem_append_right _ hid)
  have hpart : ∀ u ∈ (Masks.masked applied batch).map (deleteId (δ := δ)),
      ∃ id ∈ deletions config records, u = deleteId id := by
    intro u hu
    obtain ⟨id, hid, rfl⟩ := deleteId_mem_masked hu
    exact ⟨id, hbatch id hid, rfl⟩
  unfold deleteBatch
  split
  · exact ⟨⟨h.writer, h.kept, h.handed, h.aside, h.closing, by simp, by simp⟩,
      ⟨fun u hu => .inr (hpart u hu), fun _ => .inl, fun _ => .inl, fun _ => id, fun _ => id⟩⟩
  · split_ifs with hvalid hagain
    · refine ⟨⟨h.writer, h.kept, h.handed, h.aside, h.closing, by simp, ?_⟩, ⟨?_, fun _ => .inl,
        ?_, fun _ => id, fun id hid => List.mem_append_left _ hid⟩⟩
      · rintro _ _ ⟨⟩
        refine ⟨hunread, hreturned, hraised, fun id hid => ?_, hrest⟩
        have := hids id hid
        simp only [List.flatten_cons, List.mem_append] at this ⊢
        tauto
      · intro u hu
        obtain ⟨id, hid, rfl⟩ := List.mem_map.1 hu
        exact .inr ⟨id, hbatch id hid, rfl⟩
      · intro id hid
        exact (List.mem_append.1 hid).imp_right List.mem_map_of_mem
    · refine ⟨⟨h.writer, h.kept, h.handed, h.aside, h.closing, by simp, ?_⟩,
        ⟨fun u hu => .inr (hpart u hu), fun _ => .inl, fun _ => .inl, fun _ => id, fun _ => id⟩⟩
      rintro _ _ ⟨⟩
      refine ⟨hunread, hreturned, hraised, fun id hid => ?_, hrest⟩
      have := hids id hid
      simp only [List.flatten_cons, List.mem_append] at this ⊢
      tauto
    · refine ⟨⟨h.writer, h.kept, h.handed, h.aside, h.closing, by simp, ?_⟩,
        ⟨fun u hu => .inr (hpart u hu), fun _ => .inl, fun _ => .inl, fun _ => id, fun _ => id⟩⟩
      rintro _ _ ⟨⟩
      exact ⟨hunread, hreturned, hraised, hids, hbatches⟩

theorem inv_step {e : Event} (h : Inv config records s)
    (hstep : step config s e = some (s', us)) :
    Inv config records s' ∧ Sound config records s s' us := by
  cases e with
  | read =>
    simp only [step] at hstep
    split_ifs at hstep with hphase
    exact inv_read h hphase hstep
  | work task answer applied =>
    simp only [step] at hstep
    split_ifs at hstep with hphase
    exact inv_write h.writer h.kept (by simpa [SolrJsonWriter.Event.doc] using h.handed) h.aside
      (fun hc => h.closing (hc.resolve_right (by simp))) hphase (h.mapping hphase) hstep
  | close =>
    simp only [step] at hstep
    split_ifs at hstep with hcond
    exact inv_write h.writer h.kept (by simpa [SolrJsonWriter.Event.doc] using h.handed) h.aside
      (fun _ => List.isEmpty_iff.1 hcond.2) hcond.1 (h.mapping hcond.1) hstep
  | finish commit =>
    simp only [step] at hstep
    split_ifs at hstep with hphase
    obtain ⟨⟨s₁, us₁⟩, hwrite, heq⟩ := Option.map_eq_some_iff.1 hstep
    cases heq
    exact inv_finish h hphase hwrite
  | delete answer applied =>
    simp only [step] at hstep
    split at hstep
    · rename_i batch batches again hphase
      obtain ⟨hinv, hsound⟩ :
          Inv config records (deleteBatch s batch batches again answer applied).1
            ∧ Sound config records s _ _ := inv_deleteBatch h hphase
      rw [Option.some.inj hstep] at hinv hsound
      exact ⟨hinv, hsound⟩
    · cases hstep

end Steps

section Done

theorem Inv.settled_of_done (h : Inv config records s) (hdone : Done s) {id : String}
    (hmention : Mentions config records id) (hgiven : id ∉ givenUp config s) :
    Settled config s records id := by
  obtain ⟨hunread, hreturned, hraised, hids, -⟩ := h.deleting _ _ hdone
  unfold givenUp at hgiven
  rw [List.mem_append, not_or] at hgiven
  obtain ⟨hskipped, hunanswered⟩ := hgiven
  unfold Settled
  split_ifs with hdel
  · have hid := (h.aside id).1 hdel
    rw [hunread] at hid
    rcases hids id (hid.resolve_right (by simp [deletions])) with hid | hid | hid
    · exact hid
    · exact absurd hid hunanswered
    · cases hid
  · obtain ⟨doc, hdoc, rfl⟩ := List.mem_map.1 (hmention.resolve_left hdel)
    rw [h.handed, hunread] at hdoc
    have hdoc : doc ∈ s.writer.handed := by simpa [documents] using hdoc
    have hgen : config.generates doc = true := by
      by_contra hno
      refine hskipped (List.mem_map_of_mem (List.mem_append_right _ ?_))
      exact List.mem_filter.2 ⟨hdoc, by simpa using hno⟩
    rcases h.writer.kept_of_returned hreturned hraised (h.kept doc hdoc hgen) with hs | hs
    · exact ⟨doc, hs, rfl⟩
    · exact absurd (List.mem_map_of_mem (List.mem_append_left _ hs)) hskipped

end Done

end Traject

end Bibdata
