import Bibdata.Proofs.SolrJsonWriter

/-!
# The requests of the writer

What a step of the writer adds to its requests, and where each record is that makes JSON: also
where others make none, it is served or counted as skipped once the writer has returned
(`Inv.kept_of_returned`).
-/

namespace Bibdata

namespace SolrJsonWriter

variable {δ : Type*} {settings : Settings} {generates : δ → Bool} {s s' : State δ}

def Event.doc : Event δ → Option δ
  | .put doc => some doc
  | _ => none

def servedBy (requests : List (List δ × Answer)) : List δ :=
  (requests.filter (·.2 = .status 200)).flatMap (·.1)

/-- Where a record is that has been handed to the writer. -/
def Kept (s : State δ) (d : δ) : Prop :=
  Failed s ∨ d ∈ s.queue ∨ d ∈ s.tasks.flatMap Task.docs ∨ d ∈ s.served ∨ d ∈ s.skipped

section Requests

theorem Works.requests_eq {answer : Answer} {task task' : Task δ}
    (h : Works settings generates s answer task s' task') :
    ∃ new, s'.requests = s.requests ++ new ∧ ∀ req ∈ new, req.1 ⊆ task.docs := by
  have hpost : ∀ docs : List δ, docs ⊆ task.docs →
      ∃ new, (post s docs answer).requests = s.requests ++ new
        ∧ ∀ req ∈ new, req.1 ⊆ task.docs :=
    fun docs hdocs => ⟨[(docs, answer)], rfl, by simpa using hdocs⟩
  have hnone : ∃ new, s.requests = s.requests ++ new ∧ ∀ req ∈ new, req.1 ⊆ task.docs :=
    ⟨[], by simp, by simp⟩
  cases h with
  | sent => exact hpost _ (List.Subset.refl _)
  | refused => exact hpost _ (List.Subset.refl _)
  | sentAlone => exact hpost _ (by simp [Task.docs])
  | skipped => exact hpost _ (by simp [Task.docs])
  | failed =>
    rw [requests_fail]
    exact hpost _ (by simp [Task.docs])
  | tooMany =>
    rw [requests_fail]
    exact hnone
  | _ => exact hnone

@[simp] theorem requests_put {doc : δ} : (put settings s doc).requests = s.requests := by
  unfold put
  dsimp only
  split_ifs <;> rfl

@[simp] theorem requests_close : (close s).requests = s.requests := by
  unfold close
  split_ifs <;> rfl

@[simp] theorem requests_finish {commit : Answer} :
    (finish settings s commit).requests = s.requests := by
  unfold finish
  split_ifs <;> rfl

theorem handed_put {doc : δ} : (put settings s doc).handed = s.handed ++ [doc] := by
  unfold put
  dsimp only
  split_ifs <;> rfl

/-- What a step does to the requests, and to the records that were handed in. -/
theorem step_requests {e : Event δ} (h : Inv settings generates s)
    (hstep : step settings generates s e = some s') :
    s'.handed = s.handed ++ e.doc.toList
      ∧ ∃ new, s'.requests = s.requests ++ new ∧ ∀ req ∈ new, req.1 ⊆ s.handed := by
  have hsame : ∀ requests : List (List δ × Answer), requests = s.requests →
      ∃ new, requests = s.requests ++ new ∧ ∀ req ∈ new, req.1 ⊆ s.handed :=
    fun requests heq => ⟨[], by rw [heq, List.append_nil], by simp⟩
  cases e with
  | put doc =>
    simp only [step] at hstep
    split_ifs at hstep
    rw [← Option.some.inj hstep]
    exact ⟨handed_put, hsame _ requests_put⟩
  | work i answer =>
    obtain ⟨task, hi, hw⟩ := Option.bind_eq_some_iff.1 hstep
    split_ifs at hw with hdone
    rw [← Option.some.inj hw]
    have hworks : Works settings generates s answer task _ _ :=
      works_work (Bool.eq_false_iff.2 hdone)
    refine ⟨hworks.sameRecords.handed.trans (List.append_nil _).symm, ?_⟩
    obtain ⟨new, hnew, hdocs⟩ := hworks.requests_eq
    refine ⟨new, hnew, fun req hreq d hd => h.held d (List.mem_append_right _ ?_)⟩
    exact List.mem_flatMap.2 ⟨task, List.mem_of_getElem? hi, hdocs req hreq hd⟩
  | close =>
    simp only [step] at hstep
    split_ifs at hstep
    rw [← Option.some.inj hstep]
    refine ⟨?_, hsame _ requests_close⟩
    unfold close
    split_ifs <;> simp [raiseCollected, submit, Event.doc]
  | finish commit =>
    simp only [step] at hstep
    split_ifs at hstep
    rw [← Option.some.inj hstep]
    refine ⟨?_, hsame _ requests_finish⟩
    unfold finish
    split_ifs <;> simp [raiseCollected, Event.doc]

theorem closing_step {e : Event δ} (hstep : step settings generates s e = some s')
    (hclosing : s'.closing = true) : s.closing = true ∨ e = .close := by
  cases e with
  | put doc =>
    simp only [step] at hstep
    split_ifs at hstep
    rw [← Option.some.inj hstep] at hclosing
    unfold put at hclosing
    dsimp only at hclosing
    split_ifs at hclosing <;> exact .inl hclosing
  | work i answer =>
    obtain ⟨task, hi, hw⟩ := Option.bind_eq_some_iff.1 hstep
    split_ifs at hw with hdone
    rw [← Option.some.inj hw] at hclosing
    have hworks : Works settings generates s answer task _ _ :=
      works_work (Bool.eq_false_iff.2 hdone)
    exact .inl (hworks.sameRecords.closing.symm.trans hclosing)
  | close => exact .inr rfl
  | finish commit =>
    simp only [step] at hstep
    split_ifs at hstep with hcond
    simp only [Bool.and_eq_true] at hcond
    exact .inl hcond.1.1

theorem returned_finish {commit : Answer} : (finish settings s commit).returned = true := by
  unfold finish
  split_ifs <;> rfl

theorem served_of_requests {new : List (List δ × Answer)}
    (h : s'.requests = s.requests ++ new) : s'.served = s.served ++ servedBy new := by
  simp [State.served, servedBy, h]

end Requests

section Kept

theorem kept_of_works {answer : Answer} {task task' : Task δ} {d : δ}
    (h : Works settings generates s answer task s' task') (hd : d ∈ task.docs)
    (hgen : generates d = true) :
    Failed s' ∨ d ∈ task'.docs ∨ d ∈ s'.served ∨ d ∈ s'.skipped := by
  cases h with
  | sent _ hok =>
    subst hok
    rw [served_post_ok]
    exact .inr (.inr (.inl (List.mem_append_right _ hd)))
  | refused => exact .inr (.inl hd)
  | notGenerated => exact .inr (.inl hd)
  | sentAlone _ hok =>
    subst hok
    rw [served_post_ok]
    rcases List.mem_cons.1 hd with rfl | hd
    · exact .inr (.inr (.inl (List.mem_append_right _ List.mem_cons_self)))
    · exact .inr (.inl hd)
  | skipped =>
    rcases List.mem_cons.1 hd with rfl | hd
    · exact .inr (.inr (.inr (List.mem_append_right _ List.mem_cons_self)))
    · exact .inr (.inl hd)
  | failed => exact .inl failed_fail
  | lost hlost =>
    rcases List.mem_cons.1 hd with rfl | hd
    · rw [hlost] at hgen
      cases hgen
    · exact .inr (.inl hd)
  | tooMany => exact .inl failed_fail
  | within => exact .inr (.inl hd)

theorem mem_served_of_works {answer : Answer} {task task' : Task δ} {d : δ}
    (h : Works settings generates s answer task s' task') (hd : d ∈ s.served) : d ∈ s'.served := by
  obtain ⟨new, hnew, -⟩ := h.requests_eq
  rw [served_of_requests hnew]
  exact List.mem_append_left _ hd

theorem mem_skipped_of_works {answer : Answer} {task task' : Task δ} {d : δ}
    (h : Works settings generates s answer task s' task') (hd : d ∈ s.skipped) :
    d ∈ s'.skipped := by
  cases h with
  | skipped => exact List.mem_append_left _ hd
  | failed => rwa [skipped_fail]
  | tooMany => rwa [skipped_fail]
  | _ => exact hd

theorem kept_work {answer : Answer} {task : Task δ} {i : ℕ} {d : δ}
    (hi : s.tasks[i]? = some task) (hdone : task.isDone = false) (hgen : generates d = true)
    (hkept : Kept s d) :
    Kept { (work settings generates s answer task).1 with
      tasks := (work settings generates s answer task).1.tasks.set i
        (work settings generates s answer task).2 } d := by
  have hworks : Works settings generates s answer task _ _ := works_work hdone
  obtain ⟨before, after, hsplit, hset⟩ : ∃ before after, s.tasks = before ++ task :: after
      ∧ s.tasks.set i (work settings generates s answer task).2
        = before ++ (work settings generates s answer task).2 :: after := set_split hi
  have htasks : (work settings generates s answer task).1.tasks.set i
      (work settings generates s answer task).2
        = before ++ (work settings generates s answer task).2 :: after := by
    rw [hworks.sameRecords.tasks, hset]
  unfold Kept
  simp only [htasks, hworks.sameRecords.queue]
  rcases hkept with hf | hq | ht | hserved | hskipped
  · exact .inl (hworks.failed_of_failed hf)
  · exact .inr (.inl hq)
  · rw [hsplit, List.flatMap_append, List.flatMap_cons, List.mem_append, List.mem_append] at ht
    rw [List.flatMap_append, List.flatMap_cons, List.mem_append, List.mem_append]
    rcases ht with ht | ht | ht
    · exact .inr (.inr (.inl (.inl ht)))
    · rcases kept_of_works hworks ht hgen with hf | hd | hd | hd
      · exact .inl hf
      · exact .inr (.inr (.inl (.inr (.inl hd))))
      · exact .inr (.inr (.inr (.inl hd)))
      · exact .inr (.inr (.inr (.inr hd)))
    · exact .inr (.inr (.inl (.inr (.inr ht))))
  · have hserved' := mem_served_of_works hworks hserved
    exact .inr (.inr (.inr (.inl hserved')))
  · exact .inr (.inr (.inr (.inr (mem_skipped_of_works hworks hskipped))))

theorem kept_submit {d : δ} (h : Kept s d) : Kept (submit s) d := by
  unfold Kept at h ⊢
  simp only [submit, List.flatMap_append, List.flatMap_singleton, Task.docs, List.mem_append,
    List.not_mem_nil, false_or]
  rcases h with hf | hq | ht | hserved | hskipped
  · exact .inl hf
  · exact .inr (.inl (.inr hq))
  · exact .inr (.inl (.inl ht))
  · exact .inr (.inr (.inl hserved))
  · exact .inr (.inr (.inr hskipped))

theorem kept_put {d doc : δ} (h : Kept s d ∨ d = doc) : Kept (put settings s doc) d := by
  have hqueued : Kept { s with handed := s.handed ++ [doc], queue := s.queue ++ [doc] } d := by
    rcases h with (hf | hq | ht | hserved | hskipped) | rfl
    · exact .inl hf
    · exact .inr (.inl (List.mem_append_left _ hq))
    · exact .inr (.inr (.inl ht))
    · exact .inr (.inr (.inr (.inl hserved)))
    · exact .inr (.inr (.inr (.inr hskipped)))
    · exact .inr (.inl (List.mem_append_right _ List.mem_cons_self))
  unfold put
  dsimp only
  split_ifs
  · exact .inl (.inl rfl)
  · exact kept_submit hqueued
  · exact hqueued

theorem kept_step {e : Event δ} (hstep : step settings generates s e = some s')
    (hkept : ∀ d ∈ s.handed, generates d = true → Kept s d) :
    ∀ d ∈ s'.handed, generates d = true → Kept s' d := by
  intro d hd hgen
  cases e with
  | put doc =>
    simp only [step] at hstep
    split_ifs at hstep
    rw [← Option.some.inj hstep] at hd ⊢
    rw [handed_put] at hd
    rcases List.mem_append.1 hd with hd | hd
    · exact kept_put (.inl (hkept d hd hgen))
    · exact kept_put (.inr (List.mem_singleton.1 hd))
  | work i answer =>
    obtain ⟨task, hi, hw⟩ := Option.bind_eq_some_iff.1 hstep
    split_ifs at hw with hdone
    rw [← Option.some.inj hw] at hd ⊢
    have hworks : Works settings generates s answer task _ _ :=
      works_work (Bool.eq_false_iff.2 hdone)
    refine kept_work hi (Bool.eq_false_iff.2 hdone) hgen (hkept d ?_ hgen)
    rwa [← hworks.sameRecords.handed]
  | close =>
    simp only [step] at hstep
    split_ifs at hstep
    rw [← Option.some.inj hstep] at hd ⊢
    unfold close at hd ⊢
    split_ifs at hd ⊢
    · exact .inl (.inl rfl)
    · exact hkept d hd hgen
    · exact kept_submit (hkept d hd hgen)
  | finish commit =>
    simp only [step] at hstep
    split_ifs at hstep
    rw [← Option.some.inj hstep] at hd ⊢
    unfold finish at hd ⊢
    split_ifs at hd ⊢
    · exact .inl (.inl rfl)
    · exact .inl (.inl rfl)
    · exact hkept d hd hgen

/-- Once the writer has returned without raising, a record that makes JSON was served or skipped. -/
theorem Inv.kept_of_returned {d : δ} (h : Inv settings generates s) (hreturned : s.returned = true)
    (hraised : s.raised = false) (hkept : Kept s d) : d ∈ s.served ∨ d ∈ s.skipped := by
  obtain ⟨hclosing, hidle, hcollected⟩ := h.done hreturned
  rcases hkept with hf | hq | ht | hd
  · rcases hf with hr | hc
    · rw [hraised] at hr
      cases hr
    · rcases hcollected with hr | hzero
      · rw [hraised] at hr
        cases hr
      · omega
  · rw [h.closed hclosing] at hq
    cases hq
  · rw [docs_of_isIdle hidle] at ht
    cases ht
  · exact hd

end Kept

end SolrJsonWriter

end Bibdata
