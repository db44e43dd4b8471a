import Bibdata.SolrJsonWriter
import Mathlib.Data.List.Perm.Basic
import Mathlib.Data.List.Perm.Subperm

/-!
# What becomes of the records handed to the writer

Unless an exception is raised or waits to be, a record that generates JSON is in the queue, in a
task, in a request answered with 200 or among those counted as skipped, in one of them and once
(`Inv.accounted`).
-/

namespace Bibdata

namespace SolrJsonWriter

open Transition

variable {δ : Type*} {settings : Settings} {generates : δ → Bool} {s s' : State δ}

/-- An exception was raised to the caller, or will be by the next `put` or `close`. -/
def Failed (s : State δ) : Prop := s.raised = true ∨ 0 < s.collected

section Fields

/-- What has been done of the records. -/
structure SameRecords (s s' : State δ) : Prop where
  handed : s'.handed = s.handed
  queue : s'.queue = s.queue
  tasks : s'.tasks = s.tasks
  closing : s'.closing = s.closing
  returned : s'.returned = s.returned

theorem failed_fail : Failed (fail settings s) := by
  unfold fail
  split_ifs
  · exact .inl rfl
  · exact .inr (by simp)

theorem sameRecords_fail : SameRecords s (fail settings s) := by
  unfold fail
  split_ifs <;> exact ⟨rfl, rfl, rfl, rfl, rfl⟩

@[simp] theorem requests_fail : (fail settings s).requests = s.requests := by
  unfold fail
  split_ifs <;> rfl

@[simp] theorem skipped_fail : (fail settings s).skipped = s.skipped := by
  unfold fail
  split_ifs <;> rfl

theorem served_post_ok {docs : List δ} :
    (post s docs (.status 200)).served = s.served ++ docs := by
  simp [State.served, post]

theorem served_post_other {docs : List δ} {answer : Answer} (h : answer ≠ .status 200) :
    (post s docs answer).served = s.served := by
  simp [State.served, post, h]

end Fields

section Work

/-- What a thread can do next with a task, given the answer to its request. -/
inductive Works (settings : Settings) (generates : δ → Bool) (s : State δ) (answer : Answer) :
    Task δ → State δ → Task δ → Prop
  | sent {docs} (hgen : docs.all generates = true) (h : answer = .status 200) :
    Works settings generates s answer (.batch docs) (post s docs answer) (.singles [])
  | refused {docs} (hgen : docs.all generates = true) (h : answer ≠ .status 200) :
    Works settings generates s answer (.batch docs) (post s docs answer) (.singles docs)
  | notGenerated {docs} (hgen : docs.all generates = false) :
    Works settings generates s answer (.batch docs) s (.singles docs)
  | sentAlone {doc rest} (hgen : generates doc = true) (h : answer = .status 200) :
    Works settings generates s answer (.singles (doc :: rest)) (post s [doc] answer)
      (.singles rest)
  | skipped {doc rest} (hgen : generates doc = true) (h : answer ≠ .status 200) :
    Works settings generates s answer (.singles (doc :: rest))
      { post s [doc] answer with skipped := s.skipped ++ [doc] } (.check rest)
  | failed {doc rest} (hgen : generates doc = true) (h : answer ≠ .status 200) :
    Works settings generates s answer (.singles (doc :: rest))
      (fail settings (post s [doc] answer)) (.singles [])
  | lost {doc rest} (hgen : generates doc = false) :
    Works settings generates s answer (.singles (doc :: rest)) s (.singles rest)
  | tooMany {rest} (h : exceeded settings s = true) :
    Works settings generates s answer (.check rest) (fail settings s) (.singles [])
  | within {rest} (h : exceeded settings s = false) :
    Works settings generates s answer (.check rest) s (.singles rest)

theorem works_work {answer : Answer} {task : Task δ} (h : task.isDone = false) :
    Works settings generates s answer task (work settings generates s answer task).1
      (work settings generates s answer task).2 := by
  cases task with
  | batch docs =>
    show Works _ _ _ _ _ (sendBatch generates s docs answer).1 (sendBatch generates s docs answer).2
    unfold sendBatch
    cases hgen : docs.all generates with
    | false => exact .notGenerated hgen
    | true =>
      by_cases hok : answer = .status 200
      · simpa only [if_pos hok, if_true] using .sent hgen hok
      · simpa only [if_neg hok, if_true] using .refused hgen hok
  | singles docs =>
    cases docs with
    | nil => cases h
    | cons doc rest =>
      show Works _ _ _ _ _ (sendSingle settings generates s doc rest answer).1
        (sendSingle settings generates s doc rest answer).2
      unfold sendSingle
      cases hgen : generates doc with
      | false => exact .lost hgen
      | true =>
        cases answer with
        | status status =>
          by_cases hok : status = 200
          · simpa [hok] using .sentAlone hgen rfl
          · simpa [hok] using .skipped hgen (by simp [hok])
        | networkError => exact .skipped hgen (by simp)
        | otherError => exact .failed hgen (by simp)
  | check rest =>
    show Works _ _ _ _ _ (work settings generates s answer (.check rest)).1
      (work settings generates s answer (.check rest)).2
    unfold work
    cases hmany : exceeded settings s with
    | false => exact .within hmany
    | true => exact .tooMany hmany

theorem Works.sameRecords {answer : Answer} {task task' : Task δ}
    (h : Works settings generates s answer task s' task') : SameRecords s s' := by
  cases h with
  | @failed doc rest hgen hok =>
    have hfail : SameRecords (post s [doc] answer) (fail settings (post s [doc] answer)) :=
      sameRecords_fail
    exact ⟨hfail.handed, hfail.queue, hfail.tasks, hfail.closing, hfail.returned⟩
  | tooMany h => exact sameRecords_fail
  | _ => exact ⟨rfl, rfl, rfl, rfl, rfl⟩

theorem Works.docs_subset {answer : Answer} {task task' : Task δ}
    (h : Works settings generates s answer task s' task') : task'.docs ⊆ task.docs := by
  cases h <;> simp [Task.docs]

theorem Works.failed_of_failed {answer : Answer} {task task' : Task δ}
    (h : Works settings generates s answer task s' task') (hf : Failed s) : Failed s' := by
  cases h with
  | failed => exact failed_fail
  | tooMany => exact failed_fail
  | _ => exact hf

theorem Works.accounted {answer : Answer} {task task' : Task δ}
    (h : Works settings generates s answer task s' task')
    (hgen : ∀ d ∈ task.docs, generates d = true) :
    Failed s'
      ∨ (task.docs ++ s.served ++ s.skipped).Perm (task'.docs ++ s'.served ++ s'.skipped) := by
  cases h with
  | sent _ hok =>
    subst hok
    refine .inr ?_
    rw [served_post_ok]
    simpa [Task.docs, post] using List.perm_append_comm.append_right s.skipped
  | refused _ hok =>
    refine .inr ?_
    rw [served_post_other hok]
    exact List.Perm.refl _
  | notGenerated => exact .inr (List.Perm.refl _)
  | sentAlone _ hok =>
    subst hok
    refine .inr ?_
    rw [served_post_ok]
    classical
    rw [List.perm_iff_count]
    intro d
    simp only [Task.docs, post, List.count_append, List.count_cons, List.count_nil]
    omega
  | skipped _ hok =>
    refine .inr ?_
    classical
    rw [List.perm_iff_count]
    intro d
    show _ = List.count d (_ ++ (post s [_] answer).served ++ (s.skipped ++ [_]))
    rw [served_post_other hok]
    simp only [Task.docs, List.count_append, List.count_cons, List.count_nil]
    omega
  | failed => exact .inl failed_fail
  | lost hlost =>
    have := hgen _ List.mem_cons_self
    rw [hlost] at this
    cases this
  | tooMany => exact .inl failed_fail
  | within => exact .inr (List.Perm.refl _)

theorem Works.bound {answer : Answer} {task task' : Task δ} {m : ℕ}
    (h : Works settings generates s answer task s' task') (hm : settings.limit = some m) :
    Failed s' ∨ (∃ rest, task' = .check rest) ∨ s'.skipped.length ≤ m
      ∨ (s'.skipped = s.skipped ∧ ∀ rest, task ≠ .check rest) := by
  cases h with
  | skipped => exact .inr (.inl ⟨_, rfl⟩)
  | failed => exact .inl failed_fail
  | tooMany => exact .inl failed_fail
  | within hmany =>
    refine .inr (.inr (.inl ?_))
    rw [exceeded, hm, Option.any_some] at hmany
    have hle : ¬ m < s.skipped.length := of_decide_eq_false hmany
    omega
  | _ => exact .inr (.inr (.inr ⟨rfl, by simp⟩))

end Work

section Steps

theorem set_split {t t' : Task δ} {tasks : List (Task δ)} {i : ℕ} (h : tasks[i]? = some t) :
    ∃ pre post, tasks = pre ++ t :: post ∧ tasks.set i t' = pre ++ t' :: post := by
  obtain ⟨hi, rfl⟩ := List.getElem?_eq_some_iff.1 h
  refine ⟨tasks.take i, tasks.drop (i + 1), ?_, List.set_eq_take_append_cons_drop.trans ?_⟩
  · simp
  · simp [hi]

structure Inv (settings : Settings) (generates : δ → Bool) (s : State δ) : Prop where
  closed : s.closing = true → s.queue = []
  done : s.returned = true →
    s.closing = true ∧ isIdle s = true ∧ (s.raised = true ∨ s.collected = 0)
  requested : ∀ d ∈ s.requests.flatMap (·.1), generates d = true
  counted : ∀ d ∈ s.skipped, generates d = true
  held : ∀ d ∈ s.queue ++ s.tasks.flatMap Task.docs, d ∈ s.handed
  accounted : (∀ d ∈ s.handed, generates d = true) → Failed s
    ∨ s.handed.Perm (s.queue ++ s.tasks.flatMap Task.docs ++ s.served ++ s.skipped)
  bound : ∀ m, settings.limit = some m →
    Failed s ∨ (∃ rest, Task.check rest ∈ s.tasks) ∨ s.skipped.length ≤ m

theorem inv_init : Inv settings generates ({} : State δ) where
  closed _ := rfl
  done h := by cases h
  requested := by simp
  counted := by simp
  held := by simp
  accounted _ := .inr (List.Perm.refl _)
  bound m _ := .inr (.inr (Nat.zero_le m))

theorem inv_raiseCollected (h : Inv settings generates s) {handed : List δ}
    (hsub : s.handed ⊆ handed) :
    Inv settings generates (raiseCollected { s with handed }) where
  closed := h.closed
  done hr := ⟨(h.done hr).1, (h.done hr).2.1, .inl rfl⟩
  requested := h.requested
  counted := h.counted
  held d hd := hsub (h.held d hd)
  accounted _ := .inl (.inl rfl)
  bound _ _ := .inl (.inl rfl)

theorem inv_submit (h : Inv settings generates s) (hreturned : s.returned = false) :
    Inv settings generates (submit s) where
  closed _ := rfl
  done hr := by
    rw [show (submit s).returned = s.returned from rfl, hreturned] at hr
    cases hr
  requested := h.requested
  counted := h.counted
  held d hd := by
    refine h.held d ?_
    simp only [submit, List.nil_append, List.flatMap_append, List.flatMap_singleton, Task.docs,
      List.mem_append] at hd ⊢
    tauto
  accounted hgen := by
    rcases h.accounted hgen with hf | hperm
    · exact .inl hf
    · refine .inr (hperm.trans ?_)
      classical
      rw [List.perm_iff_count]
      intro d
      show _ = List.count d
        ([] ++ (s.tasks ++ [Task.batch s.queue]).flatMap Task.docs ++ s.served ++ s.skipped)
      simp only [List.flatMap_append, List.flatMap_singleton, Task.docs, List.count_append,
        List.count_nil]
      omega
  bound m hm := by
    rcases h.bound m hm with hf | ⟨rest, hrest⟩ | hle
    · exact .inl hf
    · exact .inr (.inl ⟨rest, List.mem_append_left _ hrest⟩)
    · exact .inr (.inr hle)

theorem inv_handed (h : Inv settings generates s) (hclosing : s.closing = false) (doc : δ) :
    Inv settings generates { s with handed := s.handed ++ [doc], queue := s.queue ++ [doc] } where
  closed hc := by
    rw [show s.closing = true from hc] at hclosing
    cases hclosing
  done := h.done
  requested := h.requested
  counted := h.counted
  held d hd := by
    have hheld := h.held d
    simp only [List.mem_append, List.mem_singleton] at hd hheld ⊢
    tauto
  accounted hgen := by
    rcases h.accounted fun d hd => hgen d (List.mem_append_left _ hd) with hf | hperm
    · exact .inl hf
    · refine .inr ?_
      classical
      rw [List.perm_iff_count] at hperm ⊢
      intro d
      have hcount := hperm d
      show List.count d (s.handed ++ [doc])
        = List.count d (s.queue ++ [doc] ++ s.tasks.flatMap Task.docs ++ s.served ++ s.skipped)
      simp only [List.count_append] at hcount ⊢
      omega
  bound := h.bound

theorem Inv.not_returned (h : Inv settings generates s) (hclosing : s.closing = false) :
    s.returned = false := by
  by_contra hreturned
  rw [(h.done (by simpa using hreturned)).1] at hclosing
  cases hclosing

theorem inv_put (h : Inv settings generates s) (hclosing : s.closing = false) (doc : δ) :
    Inv settings generates (put settings s doc) := by
  unfold put
  dsimp only
  split_ifs with hcollected hfull
  · exact inv_raiseCollected h (List.subset_append_left _ _)
  · exact inv_submit (inv_handed h hclosing doc) (h.not_returned hclosing)
  · exact inv_handed h hclosing doc

theorem inv_close (h : Inv settings generates s) (hclosing : s.closing = false) :
    Inv settings generates (close s) := by
  have hreturned := h.not_returned hclosing
  have hclose : ∀ s' : State δ, Inv settings generates s' → s'.queue = [] →
      s'.returned = false → Inv settings generates { s' with closing := true } := by
    intro s' h' hqueue hreturned'
    refine ⟨fun _ => hqueue, fun hr => ?_, h'.requested, h'.counted, h'.held, h'.accounted,
      h'.bound⟩
    rw [show s'.returned = true from hr] at hreturned'
    cases hreturned'
  unfold close
  split_ifs with hcollected hempty
  · exact inv_raiseCollected h (List.Subset.refl _)
  · exact hclose s h (List.isEmpty_iff.1 hempty) hreturned
  · exact hclose (submit s) (inv_submit h hreturned) rfl hreturned

theorem inv_finish {commit : Answer} (h : Inv settings generates s) (hclosing : s.closing = true)
    (hidle : isIdle s = true) : Inv settings generates (finish settings s commit) := by
  unfold finish
  split_ifs with hcollected hcommit
  · exact ⟨h.closed, fun _ => ⟨hclosing, hidle, .inl rfl⟩, h.requested, h.counted, h.held,
      fun _ => .inl (.inl rfl), fun _ _ => .inl (.inl rfl)⟩
  · exact ⟨h.closed, fun _ => ⟨hclosing, hidle, .inl rfl⟩, h.requested, h.counted, h.held,
      fun _ => .inl (.inl rfl), fun _ _ => .inl (.inl rfl)⟩
  · refine ⟨h.closed, fun _ => ⟨hclosing, hidle, .inr ?_⟩, h.requested, h.counted, h.held,
      h.accounted, h.bound⟩
    show s.collected = 0
    omega

theorem Works.requested {answer : Answer} {task task' : Task δ}
    (h : Works settings generates s answer task s' task')
    (hs : ∀ d ∈ s.requests.flatMap (·.1), generates d = true) :
    ∀ d ∈ s'.requests.flatMap (·.1), generates d = true := by
  have hpost : ∀ docs : List δ, (∀ d ∈ docs, generates d = true) →
      ∀ d ∈ (post s docs answer).requests.flatMap (·.1), generates d = true := by
    intro docs hdocs d hd
    simp only [post, List.flatMap_append, List.flatMap_singleton, List.mem_append] at hd
    rcases hd with hd | hd
    · exact hs d hd
    · exact hdocs d hd
  cases h with
  | sent hgen => exact hpost _ (List.all_eq_true.1 hgen)
  | refused hgen => exact hpost _ (List.all_eq_true.1 hgen)
  | sentAlone hgen => exact hpost _ (by simpa using hgen)
  | skipped hgen => exact hpost _ (by simpa using hgen)
  | failed hgen =>
    rw [requests_fail]
    exact hpost _ (by simpa using hgen)
  | tooMany => rwa [requests_fail]
  | _ => exact hs

theorem Works.counted {answer : Answer} {task task' : Task δ}
    (h : Works settings generates s answer task s' task')
    (hs : ∀ d ∈ s.skipped, generates d = true) : ∀ d ∈ s'.skipped, generates d = true := by
  cases h with
  | skipped hgen =>
    intro d hd
    rcases List.mem_append.1 hd with hd | hd
    · exact hs d hd
    · rwa [List.mem_singleton.1 hd]
  | failed => rwa [skipped_fail]
  | tooMany => rwa [skipped_fail]
  | _ => exact hs

section Worked

variable {answer : Answer} {task task' : Task δ} {i : ℕ} {before after : List (Task δ)}
  (h : Inv settings generates s) (hw : Works settings generates s answer task s' task')
  (hsplit : s.tasks = before ++ task :: after)
  (hset : s'.tasks.set i task' = before ++ task' :: after)
include h hw hsplit hset

theorem held_work : ∀ d ∈ s'.queue ++ (s'.tasks.set i task').flatMap Task.docs, d ∈ s'.handed := by
  intro d hd
  rw [hw.sameRecords.handed]
  have hheld := h.held d
  have hdocs : d ∈ task'.docs → d ∈ task.docs := fun hd => hw.docs_subset hd
  simp only [hw.sameRecords.queue, hset, hsplit, List.flatMap_append, List.flatMap_cons,
    List.mem_append] at hd hheld
  tauto

theorem accounted_work (hgen : ∀ d ∈ s'.handed, generates d = true) :
    Failed s' ∨ s'.handed.Perm
      (s'.queue ++ (s'.tasks.set i task').flatMap Task.docs ++ s'.served ++ s'.skipped) := by
  have hgen : ∀ d ∈ s.handed, generates d = true := fun d hd => hgen d (hw.sameRecords.handed ▸ hd)
  have hmem : ∀ d ∈ task.docs, d ∈ s.handed := by
    intro d hd
    refine h.held d (List.mem_append_right _ (List.mem_flatMap.2 ⟨task, ?_, hd⟩))
    simp [hsplit]
  rcases h.accounted hgen with hf | hperm
  · exact .inl (hw.failed_of_failed hf)
  · rcases hw.accounted fun d hd => hgen d (hmem d hd) with hf | htask
    · exact .inl hf
    · refine .inr ?_
      classical
      rw [List.perm_iff_count] at hperm htask ⊢
      intro d
      have hcount := hperm d
      have hcount' := htask d
      simp only [hw.sameRecords.handed, hw.sameRecords.queue, hset, hsplit, List.flatMap_append,
        List.flatMap_cons, List.count_append] at hcount hcount' ⊢
      omega

theorem bound_work {m : ℕ} (hm : settings.limit = some m) :
    Failed s' ∨ (∃ rest, Task.check rest ∈ s'.tasks.set i task') ∨ s'.skipped.length ≤ m := by
  rw [hset]
  rcases hw.bound hm with hf | ⟨rest, rfl⟩ | hle | ⟨hsame, hnot⟩
  · exact .inl hf
  · exact .inr (.inl ⟨rest, by simp⟩)
  · exact .inr (.inr hle)
  · rcases h.bound m hm with hf | ⟨rest, hrest⟩ | hle
    · exact .inl (hw.failed_of_failed hf)
    · refine .inr (.inl ⟨rest, ?_⟩)
      rw [hsplit] at hrest
      rcases List.mem_append.1 hrest with hrest | hrest
      · exact List.mem_append_left _ hrest
      · rcases List.mem_cons.1 hrest with heq | hrest
        · exact absurd heq.symm (hnot rest)
        · exact List.mem_append_right _ (List.mem_cons_of_mem _ hrest)
    · exact .inr (.inr (hsame ▸ hle))

end Worked

theorem inv_work {answer : Answer} {task task' : Task δ} {i : ℕ}
    (h : Inv settings generates s) (hi : s.tasks[i]? = some task) (hdone : task.isDone = false)
    (hw : Works settings generates s answer task s' task') :
    Inv settings generates { s' with tasks := s'.tasks.set i task' } := by
  obtain ⟨-, hqueue, htasks, hclosing, hreturned⟩ := hw.sameRecords
  obtain ⟨before, after, hsplit, hset⟩ : ∃ before after, s.tasks = before ++ task :: after
    ∧ s.tasks.set i task' = before ++ task' :: after := set_split hi
  rw [← htasks] at hset
  constructor
  case closed =>
    intro hc
    show s'.queue = []
    rw [hqueue]
    exact h.closed (hclosing ▸ hc)
  case done =>
    intro hr
    have hidle := (h.done (hreturned ▸ hr)).2.1
    have := List.all_eq_true.1 hidle task (by simp [hsplit])
    rw [hdone] at this
    cases this
  case requested => exact hw.requested h.requested
  case counted => exact hw.counted h.counted
  case held => exact held_work h hw hsplit hset
  case accounted => exact accounted_work h hw hsplit hset
  case bound => exact fun m hm => bound_work h hw hsplit hset hm

theorem inv_step {e : Event δ} (h : Inv settings generates s)
    (hstep : step settings generates s e = some s') : Inv settings generates s' := by
  cases e with
  | put doc =>
    simp only [step] at hstep
    split_ifs at hstep with hcond
    simp only [Bool.or_eq_true, not_or, Bool.not_eq_true] at hcond
    rw [← Option.some.inj hstep]
    exact inv_put h hcond.1 doc
  | work i answer =>
    obtain ⟨task, hi, hw⟩ := Option.bind_eq_some_iff.1 hstep
    split_ifs at hw with hdone
    rw [← Option.some.inj hw]
    exact inv_work h hi (Bool.eq_false_iff.2 hdone) (works_work (Bool.eq_false_iff.2 hdone))
  | close =>
    simp only [step] at hstep
    split_ifs at hstep with hcond
    simp only [Bool.or_eq_true, not_or, Bool.not_eq_true] at hcond
    rw [← Option.some.inj hstep]
    exact inv_close h hcond.1
  | finish commit =>
    simp only [step] at hstep
    split_ifs at hstep with hcond
    simp only [Bool.and_eq_true] at hcond
    rw [← Option.some.inj hstep]
    exact inv_finish h hcond.1.1 hcond.1.2

theorem inv_run {es : List (Event δ)}
    (h : Run (step settings generates) (fun _ _ => True) {} es s) : Inv settings generates s :=
  h.invariant (fun _ _ _ hs _ hstep => inv_step hs hstep) inv_init

end Steps

section Delivered

/-- An exception was raised, or each record was in a request answered with 200 or counted as
skipped, once, and those that were not served are no more than allowed. -/
def Delivered (settings : Settings) (s : State δ) : Prop :=
  s.raised = true ∨ s.handed.Perm (s.served ++ s.skipped)
    ∧ ∀ m, settings.limit = some m → s.handed.length ≤ s.served.length + m

theorem docs_of_isIdle (h : isIdle s = true) : s.tasks.flatMap Task.docs = [] := by
  rw [List.flatMap_eq_nil_iff]
  intro task htask
  have hdone := List.all_eq_true.1 h task htask
  cases task with
  | check rest => cases hdone
  | _ => exact List.isEmpty_iff.1 hdone

theorem check_of_isIdle (h : isIdle s = true) {rest : List δ} : Task.check rest ∉ s.tasks := by
  intro hmem
  have hdone := List.all_eq_true.1 h _ hmem
  cases hdone

theorem mem_requests_of_mem_served {d : δ} (h : d ∈ s.served) :
    d ∈ s.requests.flatMap (·.1) := by
  obtain ⟨req, hreq, hd⟩ := List.mem_flatMap.1 h
  exact List.mem_flatMap.2 ⟨req, List.mem_of_mem_filter hreq, hd⟩

theorem delivered_iff {es : List (Event δ)}
    (h : Run (step settings generates) (fun _ _ => True) {} es s) (hreturned : s.returned = true) :
    Delivered settings s ↔ s.raised = true ∨ ∀ d ∈ s.handed, generates d = true := by
  have hinv := inv_run h
  obtain ⟨hclosing, hidle, hcollected⟩ := hinv.done hreturned
  cases hraised : s.raised with
  | true => simp [Delivered, hraised]
  | false =>
    have hnot : ¬ Failed s := by
      rintro (hr | hc)
      · rw [hraised] at hr
        cases hr
      · rcases hcollected with hr | hzero
        · rw [hraised] at hr
          cases hr
        · omega
    constructor
    · rintro (hr | ⟨hperm, -⟩)
      · exact .inl (hraised ▸ hr)
      · refine .inr fun d hd => ?_
        rcases List.mem_append.1 (hperm.subset hd) with hserved | hskipped
        · exact hinv.requested d (mem_requests_of_mem_served hserved)
        · exact hinv.counted d hskipped
    · rintro (hr | hgen)
      · cases hr
      · have hperm := (hinv.accounted hgen).resolve_left hnot
        rw [hinv.closed hclosing, docs_of_isIdle hidle, List.nil_append, List.nil_append] at hperm
        refine .inr ⟨hperm, fun m hm => ?_⟩
        have hlength := hperm.length_eq
        rw [List.length_append] at hlength
        rcases (hinv.bound m hm).resolve_left hnot with ⟨rest, hrest⟩ | hle
        · exact absurd hrest (check_of_isIdle hidle)
        · omega

/-- One record is refused twice by the server and the other is not, in a batch of two. -/
def refusedOnce : List (Event String) :=
  [.put "a", .put "b", .work 0 (.status 500), .work 0 .networkError, .work 0 (.status 200),
    .work 0 (.status 200), .close, .finish (.status 200)]

theorem delivered_refusedOnce :
    ∃ s : State String,
      Run (step { maxSkipped := 1, batchSize := 2 } fun _ => true) (fun _ _ => True) {}
        refusedOnce s
      ∧ Delivered { maxSkipped := 1, batchSize := 2 } s := by
  obtain ⟨s, hs, hreturned⟩ : ∃ s ∈ exec
      (guarded (step { maxSkipped := 1, batchSize := 2 } fun _ : String => true) fun _ _ => True)
      {} refusedOnce, s.returned = true := by decide +kernel
  have hrun := run_of_exec hs
  exact ⟨s, hrun, (delivered_iff hrun hreturned).2 (.inr fun _ _ => rfl)⟩

/-- The record generates no JSON, in its batch and alone. -/
theorem not_delivered_notGenerated :
    ∃ s : State String,
      Run (step {} fun _ => false) (fun _ _ => True) {}
        [.put "99", .close, .work 0 (.status 200), .work 0 (.status 200), .finish (.status 200)] s
      ∧ s.returned = true ∧ s.raised = false ∧ s.requests = [] ∧ s.skippedRecordCount = 0
      ∧ ¬ Delivered {} s := by
  obtain ⟨s, hs, hend, hhanded, hserved⟩ : ∃ s ∈ exec
      (guarded (step {} fun _ : String => false) fun _ _ => True) {}
      [.put "99", .close, .work 0 (.status 200), .work 0 (.status 200), .finish (.status 200)],
      (s.returned = true ∧ s.raised = false ∧ s.requests = [] ∧ s.skippedRecordCount = 0)
        ∧ s.handed = ["99"] ∧ s.served ++ s.skipped = [] := by decide +kernel
  refine ⟨s, run_of_exec hs, hend.1, hend.2.1, hend.2.2.1, hend.2.2.2, ?_⟩
  rintro (hraised | ⟨hperm, -⟩)
  · rw [hend.2.1] at hraised
    cases hraised
  · rw [hhanded, hserved] at hperm
    have := hperm.length_eq
    simp at this

end Delivered

end SolrJsonWriter

end Bibdata
