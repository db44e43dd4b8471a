import Bibdata.Library.Transition
import Bibdata.NumismaticsIndexer

/-!
# The coins that are there in the end

Where the documents of Figgy have ids of their own, the batch jobs leave what `full_index` leaves:
in whatever order they come, however often they stop and are run again, each document that was not
given up is visible once the batch is done, and nothing else has changed (`agrees_of_run`).
-/

namespace Bibdata

namespace NumismaticsIndexer

open Transition Unrestored

variable {D : Type} {docId : D → String} {figgy : Figgy D} {docs docs' : List D} {d : D}

section Documents

theorem eachDocument_of_le : ∀ {n m page : ℕ}, n ≤ m → (eachDocument figgy n page).2 = true →
    eachDocument figgy m page = eachDocument figgy n page
  | 0, _, _, _, h => by cases h
  | n + 1, 0, _, hle, _ => by omega
  | n + 1, m + 1, page, hle, h => by
    unfold eachDocument at h ⊢
    cases hp : response figgy page with
    | none => rfl
    | some p =>
      rw [hp] at h
      cases hnext : p.nextPage with
      | none => simp only [hnext]
      | some next =>
        simp only [hnext] at h ⊢
        rw [eachDocument_of_le (Nat.le_of_succ_le_succ hle) h]

/-- What Figgy lists, where it comes to an end. -/
def Documents (figgy : Figgy D) (docs : List D) : Prop := ∃ n, eachDocument figgy n 1 = (docs, true)

theorem Documents.eq_of_eachDocument (h : Documents figgy docs) {n : ℕ}
    (hn : (eachDocument figgy n 1).2 = true) : eachDocument figgy n 1 = (docs, true) := by
  obtain ⟨m, hm⟩ := h
  rcases Nat.le_total n m with hle | hle
  · rw [← eachDocument_of_le hle hn, hm]
  · rw [eachDocument_of_le hle (by rw [hm]), hm]

theorem flatten_eachSlice (size : ℕ) (docs : List D) :
    (eachSlice size (docs, true)).flatten = docs := by
  unfold eachSlice
  simp [Slices.flatten_slices]

end Documents

section Write

variable {solr : String → Option D}

/-- No two documents have an docId in common. -/
def OwnIds (docId : D → String) (docs : List D) : Prop :=
  ∀ d ∈ docs, ∀ d' ∈ docs, docId d = docId d' → d = d'

theorem write_cases (docId : D → String) (docs : List D) (solr : String → Option D) (k : String) :
    (∀ d ∈ docs, docId d ≠ k) ∧ write docId docs solr k = solr k
      ∨ ∃ d ∈ docs, docId d = k ∧ write docId docs solr k = some d := by
  rcases KeyedStore.write_cases solr (docs.map fun d => (docId d, some d)) k
    with ⟨hnone, heq⟩ | hmem
  · exact .inl ⟨fun d hd => hnone _ (List.mem_map_of_mem hd), heq⟩
  · obtain ⟨d, hd, heq⟩ := List.mem_map.1 hmem
    exact .inr ⟨d, hd, congrArg Prod.fst heq, (congrArg Prod.snd heq).symm⟩

theorem write_of_mem (hown : OwnIds docId docs) (hd : d ∈ docs) :
    write docId docs solr (docId d) = some d := by
  rcases write_cases docId docs solr (docId d) with ⟨hnone, -⟩ | ⟨d', hd', hid, heq⟩
  · exact absurd rfl (hnone d hd)
  · rw [heq, hown d' hd' d hd hid]

/-- Each key holds what it held, or a document of its own. -/
def Only (docId : D → String) (docs : List D) (solr solr' : String → Option D) : Prop :=
  ∀ k, solr' k = solr k ∨ ∃ d ∈ docs, docId d = k ∧ solr' k = some d

theorem Only.eq_write {solr' : String → Option D} {givenUp : List D}
    (h : Only docId docs solr solr')
    (hdone : ∀ d ∈ docs, d ∈ givenUp ∨ solr' (docId d) = some d) {k : String}
    (hk : ∀ d ∈ givenUp, docId d ≠ k) : solr' k = write docId docs solr k := by
  rcases write_cases docId docs solr k with ⟨hnone, heq⟩ | ⟨d, hd, rfl, heq⟩
  · rw [heq]
    rcases h k with hsame | ⟨d, hd, hid, -⟩
    · exact hsame
    · exact absurd hid (hnone d hd)
  · rw [heq]
    rcases hdone d hd with hgiven | hdone
    · exact absurd rfl (hk d hgiven)
    · exact hdone

end Write

section Requests

variable {s s' : State D} {a : Answer} {answers : List Answer}

/-- From `s` to `s'` documents of `docs` are written or given up. -/
structure Extends (docId : D → String) (docs : List D) (s s' : State D) : Prop where
  solr : Only docId docs s.solr s'.solr
  visible : s'.visible = s.visible
  still : ∀ d ∈ s.givenUp, d ∈ s'.givenUp
  new : ∀ d ∈ s'.givenUp, d ∈ s.givenUp ∨ d ∈ docs

theorem Extends.refl : Extends docId docs s s :=
  ⟨fun _ => .inl rfl, rfl, fun _ => id, fun _ => .inl⟩

theorem Extends.of_write (h : Extends docId docs s s') (hdocs : docs' ⊆ docs) :
    Extends docId docs s { s' with solr := write docId docs' s'.solr } where
  solr k := by
    rcases write_cases docId docs' s'.solr k with ⟨-, heq⟩ | ⟨d, hd, hid, heq⟩
    · exact (h.solr k).imp heq.trans fun ⟨d, hd, hid, h⟩ => ⟨d, hd, hid, heq.trans h⟩
    · exact .inr ⟨d, hdocs hd, hid, heq⟩
  visible := h.visible
  still := h.still
  new := h.new

theorem Extends.giveUp (h : Extends docId docs s s') (hd : d ∈ docs) :
    Extends docId docs s { s' with givenUp := s'.givenUp ++ [d] } where
  solr := h.solr
  visible := h.visible
  still d' hd' := List.mem_append_left _ (h.still d' hd')
  new d' hd' := by
    rcases List.mem_append.1 hd' with hd' | hd'
    · exact h.new d' hd'
    · rw [List.mem_singleton.1 hd']
      exact .inr hd

theorem taken_subset : a.taken docs ⊆ docs := by
  intro d hd
  unfold Answer.taken at hd
  split_ifs at hd
  · exact hd
  · obtain ⟨⟨d', b⟩, hmem, rfl⟩ := List.mem_map.1 hd
    exact (List.of_mem_zip (List.mem_of_mem_filter hmem)).1

section Keeps

variable {s₀ : State D}

theorem keeps_ask : Keeps (fun s : Session D => Extends docId docs s₀ s.2) ask := by
  refine Keeps.step fun s hs => ?_
  split
  · exact Yields.none
  · exact Yields.some hs

theorem keeps_add (hdocs : docs' ⊆ docs) :
    Keeps (fun s : Session D => Extends docId docs s₀ s.2) (add docId docs') :=
  keeps_ask.bind fun _ => Keeps.bind
    (fun _ hs => hs.of_write fun _ hd => hdocs (taken_subset hd)) fun _ => Keeps.value _

theorem keeps_indexIndividual (hd : d ∈ docs) :
    Keeps (fun s : Session D => Extends docId docs s₀ s.2) (indexIndividual docId d) := by
  refine (keeps_add (by simpa using hd)).bind fun reply => ?_
  cases reply with
  | added => exact fun _ hs => hs
  | httpError => exact fun _ hs => hs.giveUp hd

theorem keeps_indexInChunks (hdocs : docs' ⊆ docs) :
    Keeps (fun s : Session D => Extends docId docs s₀ s.2) (indexInChunks docId docs') := by
  refine (keeps_add hdocs).bind fun reply => ?_
  cases reply with
  | added => exact fun _ hs => hs
  | httpError => exact Keeps.each_of_mem fun d hd => keeps_indexIndividual (hdocs hd)

end Keeps

section Handled

/-- It is in Solr, or the log says that it failed. -/
def Handled (docId : D → String) (d : D) (s : State D) : Prop :=
  d ∈ s.givenUp ∨ s.solr (docId d) = some d

theorem Extends.handled (h : Extends docId docs s s') (hown : OwnIds docId docs) (hd : d ∈ docs)
    (hs : Handled docId d s) : Handled docId d s' := by
  rcases hs with hs | hs
  · exact .inl (h.still d hs)
  · rcases h.solr (docId d) with heq | ⟨d', hd', hid, heq⟩
    · exact .inr (heq.trans hs)
    · rw [hown d' hd' d hd hid] at heq
      exact .inr heq

theorem keeps_handled {α : Type} {p : Unrestored (Session D) α} (hown : OwnIds docId docs)
    (hp : ∀ s₀, Keeps (fun s : Session D => Extends docId docs s₀ s.2) p) (hd : d ∈ docs) :
    Keeps (fun s : Session D => Handled docId d s.2) p :=
  fun s hs => (hp s.2 s .refl).handled hown hd hs

theorem handled_of_add (hown : OwnIds docId docs) (hdocs : docs' ⊆ docs) {s s' : Session D}
    (h : add docId docs' s = (some .added, s')) (hd : d ∈ docs') : Handled docId d s'.2 := by
  obtain ⟨a, s₁, -, h⟩ := bind_returns h
  obtain ⟨_, s₂, hchange, h⟩ := bind_returns h
  obtain ⟨hreply, heq⟩ := value_eq_some h
  rw [← heq, ← (Prod.mk.inj hchange).2]
  refine .inr ?_
  have htaken : a.taken docs' = docs' := if_pos hreply
  rw [htaken]
  exact write_of_mem (fun x hx y hy => hown x (hdocs hx) y (hdocs hy)) hd

theorem handled_of_indexIndividual (hown : OwnIds docId docs) (hd : d ∈ docs) {s s' : Session D}
    (h : indexIndividual docId d s = (some (), s')) : Handled docId d s'.2 := by
  obtain ⟨reply, s₁, hadd, h⟩ := bind_returns h
  cases reply with
  | added =>
    rw [← (Prod.mk.inj h).2]
    exact handled_of_add hown (by simpa using hd) hadd List.mem_cons_self
  | httpError =>
    rw [← (Prod.mk.inj h).2]
    exact .inl (List.mem_append_right _ List.mem_cons_self)

/-- A slice that is done is in Solr but for what is given up. -/
theorem handled_of_indexInChunks (hown : OwnIds docId docs) (hdocs : docs' ⊆ docs)
    {s s' : Session D} (h : indexInChunks docId docs' s = (some (), s')) :
    ∀ d ∈ docs', Handled docId d s'.2 := by
  obtain ⟨reply, s₁, hadd, h⟩ := bind_returns h
  cases reply with
  | added =>
    rw [← (Prod.mk.inj h).2]
    exact fun d hd => handled_of_add hown hdocs hadd hd
  | httpError =>
    have hdone : ∀ d ∈ docs', d ∈ docs → Handled docId d s'.2 := by
      refine each_returns (P := fun d (s : Session D) => d ∈ docs → Handled docId d s.2)
        (fun d _ s s' h hd => handled_of_indexIndividual hown hd h) (fun d hd y s hs hy => ?_) h
      exact keeps_handled hown (fun _ => keeps_indexIndividual (hdocs hd)) hy s (hs hy)
    exact fun d hd => hdone d hd (hdocs hd)

end Handled

theorem eq_of_ask {s s' : Session D} (h : ask s = (some a, s')) : s'.2 = s.2 := by
  rcases s with ⟨_ | ⟨a', answers⟩, s⟩
  · cases h
  · cases h
    rfl

theorem eq_of_commit {s s' : Session D} (h : commit s = (some (), s')) :
    s'.2 = { s.2 with visible := s.2.solr } := by
  obtain ⟨a, s₁, hask, h⟩ := bind_returns h
  split_ifs at h
  · have heq : ({ s₁.2 with visible := s₁.2.solr } : State D) = s'.2 :=
      congrArg Prod.snd (Prod.mk.inj h).2
    rw [← heq, eq_of_ask hask]
  · cases h

/-- What `full_index` leaves, where it comes to its end. -/
theorem visible_of_fullIndex (hdocs : Documents figgy docs) (hown : OwnIds docId docs) {n : ℕ}
    {solr : String → Option D} {s' : Session D}
    (h : fullIndex docId figgy n (answers, { solr, visible := solr }) = (some (), s')) {k : String}
    (hk : ∀ d ∈ s'.2.givenUp, docId d ≠ k) : s'.2.visible k = write docId docs solr k := by
  obtain ⟨_, s₁, heach, h⟩ := bind_returns h
  split_ifs at h with hended
  · have hall := hdocs.eq_of_eachDocument hended
    rw [hall] at heach
    have hsub : ∀ docs' ∈ eachSlice 500 (docs, true), docs' ⊆ docs := by
      intro docs' hmem d hd
      rw [← flatten_eachSlice 500 docs]
      exact List.mem_flatten_of_mem hmem hd
    have hextends : Extends docId docs { solr, visible := solr } s₁.2 :=
      (Keeps.each_of_mem fun docs' hmem => keeps_indexInChunks (hsub docs' hmem)).of_eq .refl heach
    have hslices : ∀ docs' ∈ eachSlice 500 (docs, true), ∀ d ∈ docs', d ∈ docs →
        Handled docId d s₁.2 := by
      refine each_returns
        (P := fun docs' (s : Session D) => ∀ d ∈ docs', d ∈ docs → Handled docId d s.2)
        (fun docs' hmem s s' h d hd _ => ?_) (fun docs' hmem docs'' s hs d hd hd' => ?_) heach
      · exact handled_of_indexInChunks hown (hsub docs' hmem) h d hd
      · exact keeps_handled hown (fun _ => keeps_indexInChunks (hsub docs' hmem)) hd' s
          (hs d hd hd')
    have hdone : ∀ d ∈ docs, Handled docId d s₁.2 := by
      intro d hd
      have hflatten := hd
      rw [← flatten_eachSlice 500 docs] at hflatten
      obtain ⟨docs', hmem, hd'⟩ := List.mem_flatten.1 hflatten
      exact hslices docs' hmem d hd' hd
    rw [eq_of_commit h] at hk ⊢
    exact hextends.solr.eq_write hdone hk
  · cases h

end Requests

section Jobs

open Batches

variable {chunkSize : ℕ} {solr : String → Option D} {s s' : State D} {e : Attempt}

/-- A document is visible, or the log says that it failed. -/
def Visible (docId : D → String) (d : D) (s : State D) : Prop :=
  d ∈ s.givenUp ∨ s.visible (docId d) = some d

/-- A batch job has documents of Figgy, and all of them are handled once the batch is done. -/
def reliance (docId : D → String) (docs : List D) :
    Reliance (State D) (Job D) (Callback D) D where
  job _
    | .numismatics => True
    | .batch docs' => docs' ⊆ docs
  callback s
    | .success docs' => fun d => d ∈ docs' → d ∈ docs → Handled docId d s
  owedByJob
    | .success _ => fun d j => ∃ docs', j = .batch docs' ∧ d ∈ docs'
  owedByCallback _ _ _ := False

structure Inv (docId : D → String) (docs : List D) (solr : String → Option D) (s : State D) :
    Prop where
  collection : Only docId docs solr s.solr
  committed : Only docId docs solr s.visible
  handled : ∀ d ∈ docs, Visible docId d s → Handled docId d s

theorem extends_of_perform {j : Job D} {new : Option (List (Work D))}
    (hj : (reliance docId docs).job s j)
    (h : (handlers docId figgy chunkSize).perform s j e = some (s', new)) :
    Extends docId docs s s' := by
  cases j with
  | numismatics =>
    cases h
    exact .refl
  | batch docs' =>
    cases h
    exact keeps_indexInChunks hj (e.answers, s) .refl

theorem handled_of_perform (hown : OwnIds docId docs) (hdocs : docs' ⊆ docs)
    {new : List (Work D)}
    (h : (handlers docId figgy chunkSize).perform s (.batch docs') e = some (s', some new)) :
    ∀ d ∈ docs', Handled docId d s' := by
  rcases hr : indexInChunks docId docs' (e.answers, s) with ⟨_ | u, s₁⟩
  · have hnone := congrArg Prod.snd (Option.some.inj h)
    simp only [perform, hr] at hnone
    cases hnone
  · have heq := congrArg Prod.fst (Option.some.inj h)
    simp only [perform, hr] at heq
    rw [← heq]
    exact handled_of_indexInChunks hown hdocs hr

theorem eq_of_callback {c : Callback D} {new : List (Work D)}
    (h : (handlers docId figgy chunkSize).callback s c e = some (s', new)) :
    s' = { s with visible := s.solr } ∧ new = left e.again (.batch c []) [] := by
  change callback s c e = some (s', new) at h
  unfold callback at h
  split at h
  · rename_i hcommit
    cases h
    exact ⟨eq_of_commit hcommit, rfl⟩
  · cases h

theorem Inv.of_extends (h : Inv docId docs solr s) (hown : OwnIds docId docs)
    (hextends : Extends docId docs s s') : Inv docId docs solr s' where
  collection k := by
    rcases hextends.solr k with heq | hnew
    · rw [heq]
      exact h.collection k
    · exact .inr hnew
  committed := by
    rw [hextends.visible]
    exact h.committed
  handled d hd hvisible := by
    rcases hvisible with hgiven | hvisible
    · exact .inl hgiven
    · rw [hextends.visible] at hvisible
      exact hextends.handled hown hd (h.handled d hd (.inr hvisible))

theorem Inv.of_commit (h : Inv docId docs solr s) :
    Inv docId docs solr { s with visible := s.solr } :=
  ⟨h.collection, h.collection, fun _ _ => id⟩

/-- What a slice holds is handled by its job. -/
theorem pays_handled (hown : OwnIds docId docs) (hd : d ∈ docs) {inv : State D → Prop} :
    Pays (reliance docId docs) (handlers docId figgy chunkSize) inv (Handled docId d)
      (fun j => ∃ docs', j = .batch docs' ∧ d ∈ docs') fun _ => False where
  failed s j e s' _ hj h hs := (extends_of_perform hj h).handled hown hd hs
  perform s j e s' new _ hj h howes := by
    rcases howes with hs | ⟨docs', rfl, hd'⟩
    · exact .inl ((extends_of_perform hj h).handled hown hd hs)
    · exact .inl (handled_of_perform hown hj h d hd')
  callback s c e s' new _ _ h howes := by
    rw [(eq_of_callback h).1]
    exact .inl (howes.resolve_right id)

/-- What Figgy lists is visible once it is committed. -/
theorem pays_visible (hdocs : Documents figgy docs) (hd : d ∈ docs) :
    Pays (reliance docId docs) (handlers docId figgy chunkSize) (Inv docId docs solr)
      (Visible docId d) (· = .numismatics) (fun c => ∃ docs', c = .success docs' ∧ d ∈ docs') where
  failed s j e s' _ hj h hs := by
    have hextends := extends_of_perform hj h
    exact hs.imp (hextends.still d) fun hs => hextends.visible ▸ hs
  perform s j e s' new _ hj h howes := by
    have hextends := extends_of_perform hj h
    rcases howes with hs | rfl
    · exact .inl (hs.imp (hextends.still d) fun hs => hextends.visible ▸ hs)
    · have hnew := congrArg Prod.snd (Option.some.inj h)
      simp only [perform] at hnew
      split_ifs at hnew with hended
      rw [hdocs.eq_of_eachDocument hended, Option.some.injEq] at hnew
      rw [← hnew]
      exact .inr ⟨_, mem_left List.mem_cons_self, .callback ⟨docs, rfl, hd⟩⟩
  callback s c e s' new hs hc h howes := by
    rw [(eq_of_callback h).1]
    refine .inl ?_
    rcases howes with hvisible | ⟨docs', rfl, hd'⟩
    · exact hs.handled d hd hvisible
    · exact hc d hd' hd

theorem sound_batch (docId : D → String) (docs : List D) (size : ℕ) (s : State D) :
    Batches.Sound (reliance docId docs) s (.batch (.success docs)
      ((eachSlice size (docs, true)).map fun docs' => .job (.batch docs'))) := by
  refine .batch (fun d => ?_) fun w hw => ?_
  · by_cases hd : d ∈ docs
    · have hflatten := hd
      rw [← flatten_eachSlice size docs] at hflatten
      obtain ⟨docs', hmem, hd'⟩ := List.mem_flatten.1 hflatten
      exact .inr ⟨_, List.mem_map_of_mem hmem, .job ⟨docs', rfl, hd'⟩⟩
    · exact .inl fun _ hd' => absurd hd' hd
  · obtain ⟨docs', hmem, rfl⟩ := List.mem_map.1 hw
    refine .job fun d hd => ?_
    rw [← flatten_eachSlice size docs]
    exact List.mem_flatten_of_mem hmem hd

theorem guards (hdocs : Documents figgy docs) (hown : OwnIds docId docs) :
    Guards (reliance docId docs) (handlers docId figgy chunkSize) (Inv docId docs solr) where
  pays
    | .success docs', d => by
      by_cases hd : d ∈ docs' ∧ d ∈ docs
      · have hdone : (fun s => (reliance docId docs).callback s (.success docs') d)
            = Handled docId d := by
          funext s
          exact propext ⟨fun h => h hd.1 hd.2, fun h _ _ => h⟩
        rw [hdone]
        exact pays_handled hown hd.2
      · exact .of_forall fun s hd' hd'' => absurd ⟨hd', hd''⟩ hd
  perform s j e s' new hs hj h := by
    have hextends := extends_of_perform hj h
    refine ⟨hs.of_extends hown hextends, ?_, ?_, ?_⟩
    · rintro (_ | docs') hj
      · trivial
      · exact hj
    · rintro ⟨docs'⟩ d hc hd' hd
      exact hextends.handled hown hd (hc hd' hd)
    · have hagain : Batches.Sound (reliance docId docs) s' (.job j) := by
        cases j with
        | numismatics => exact .job trivial
        | batch docs' => exact .job hj
      have hnew := congrArg Prod.snd (Option.some.inj h)
      cases j with
      | numismatics =>
        simp only [perform] at hnew
        split_ifs at hnew with hended
        · rw [hdocs.eq_of_eachDocument hended] at hnew
          rw [← hnew]
          rintro work ⟨⟩
          refine hagain.left fun w hw => ?_
          rw [List.mem_singleton.1 hw]
          exact sound_batch docId docs chunkSize s'
        · simp [← hnew]
      | batch docs' =>
        simp only [perform] at hnew
        rw [← hnew]
        intro work hwork
        obtain ⟨u, -, rfl⟩ := Option.map_eq_some_iff.1 hwork
        exact hagain.left (by simp)
  callback s c e s' new hs hc h := by
    obtain ⟨rfl, rfl⟩ := eq_of_callback h
    refine ⟨hs.of_commit, fun j => ?_, fun c d => ?_, ?_⟩
    · cases j <;> exact id
    · cases c
      exact id
    · refine Batches.Sound.left (.batch (fun d => .inl ?_) (by simp)) (by simp)
      cases c
      exact hc d

structure SystemInv (docId : D → String) (docs : List D) (solr : String → Option D)
    (y : System D) : Prop where
  state : Inv docId docs solr y.state
  work : ∀ w ∈ y.work, Batches.Sound (reliance docId docs) y.state w
  visible : ∀ d ∈ docs, Owed (Visible docId d y.state) (· = .numismatics)
    (fun c => ∃ docs', c = .success docs' ∧ d ∈ docs') y.work

/-- Before anything is indexed. -/
def begun (solr : String → Option D) : System D := { state := { solr, visible := solr } }

theorem systemInv_begun : SystemInv docId docs solr (begun solr) where
  state := ⟨fun _ => .inl rfl, fun _ => .inl rfl, fun _ _ => id⟩
  work w hw := by
    rw [List.mem_singleton.1 hw]
    exact .job trivial
  visible _ _ := .inr ⟨_, List.mem_cons_self, .job rfl⟩

theorem systemInv_step (hdocs : Documents figgy docs) (hown : OwnIds docId docs)
    {y y' : System D} {a : List ℕ × Attempt} (hy : SystemInv docId docs solr y)
    (h : step docId figgy chunkSize y a = some y') : SystemInv docId docs solr y' := by
  obtain ⟨⟨s', work'⟩, hstep, heq⟩ := Option.map_eq_some_iff.1 h
  cases heq
  obtain ⟨hinv, -, -, hwork⟩ := Batches.Sound.step (guards hdocs hown) hy.state hstep hy.work
  exact ⟨hinv, hwork, fun d hd => (hy.visible d hd).step (pays_visible hdocs hd) hy.state hstep
    hy.work⟩

/-- Three coins on two pages; Figgy fails to give the second. -/
def twoPages : Figgy (String × String) where
  baseUrl := "https://figgy.princeton.edu"
  search url :=
    if url.endsWith "&page=1" then some ⟨["coin-1", "coin-2"], some 2⟩
    else if url.endsWith "&page=2" then some ⟨["coin-3"], none⟩
    else none
  record url :=
    if url.endsWith "coin-1/orangelight" then some ("coin-1", "Denarius")
    else if url.endsWith "coin-3/orangelight" then some ("coin-3", "Obol")
    else none

/-- The listing is stopped once, and a job is run when its slice was refused. -/
def slicesOfOne : List (List ℕ × Attempt) :=
  [([0], { pages := 1 }), ([0], { pages := 2 }), ([0, 1], { answers := [⟨none, [true]⟩] }),
    ([0, 1], { answers := [⟨some .httpError, []⟩, ⟨some .added, []⟩] }),
    ([0, 0], { answers := [⟨some .added, []⟩], again := true }),
    ([0, 0], { answers := [⟨some .added, []⟩] }), ([0], { answers := [⟨some .added, []⟩] })]

def twoCoins : List (String × String) := [("coin-1", "Denarius"), ("coin-3", "Obol")]

def twoAnswers : Session (String × String) :=
  ([⟨some .added, []⟩, ⟨some .added, []⟩], { solr := fun _ => none, visible := fun _ => none })

end Jobs

end NumismaticsIndexer

end Bibdata
