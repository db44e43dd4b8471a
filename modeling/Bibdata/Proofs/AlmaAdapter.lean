import Bibdata.AlmaAdapter
import Bibdata.Library.Transition

/-!
# The options of Alma while threads call it

Where calls with an option in common do not overlap, each call has its own options, and what no call
has set is as it was configured (`configured_of_run`). Where two such calls overlap, the option of
one of them may stay for good (`stays_manyAndItems`).
-/

namespace Bibdata

namespace AlmaAdapter

open Transition

variable {n : ℕ} {initial : String → Value} {s s' : Threads n}

theorem nodup_options (request : Request) : ((options request).map Prod.fst).Nodup := by
  cases request <;> decide

theorem inv_step {e : Fin n × Act} (hs : Overrides.Inv initial s) (hapart : Apart s e)
    (h : step s e = some s') : Overrides.Inv initial s' := by
  refine hs.step ?_ h
  obtain ⟨i, request | _ | _⟩ := e
  · exact ⟨nodup_options request, hapart⟩
  · trivial
  · trivial

/-- A call has the options that it asks for, and an option that no call has set, or is putting back,
has the value that it was configured with: also one that is saved already. -/
theorem configured_of_run {es : List (Fin n × Act)}
    (h : Run step Apart ({ config := initial } : Threads n) es s) :
    (∀ i request original, s.calls i = .body (options request) original →
      ∀ x ∈ options request, s.config x.1 = x.2)
    ∧ ∀ k, (∀ i, k ∉ Overrides.overridden (s.calls i)) → s.config k = initial k := by
  have hinv := h.invariant (fun _ _ _ hs hok hstep => inv_step hs hok hstep) Overrides.inv_ended
  refine ⟨fun i request original hbody => ?_, fun _ => hinv.unset⟩
  have hgood := hinv.good i
  rw [hbody] at hgood
  exact hgood.2.2.2

/-- A search for a user is under way while the items of two records are fetched one after the
other, the first of which raises. -/
def itemsAndUser : List (Fin 2 × Act) :=
  [(0, .call .findUser), (0, .next), (0, .next), (1, .call .getItemsForBib), (1, .next), (0, .next),
    (1, .next), (1, .raise), (1, .next), (1, .next), (0, .next), (1, .call .itemData), (1, .next),
    (1, .next), (1, .next), (1, .next)]

def configured (key : String) : Value := if key = "timeout" then .seconds 5 else .flag false

theorem configured_itemsAndUser : ∃ s : Threads 2,
    Run step Apart { config := configured } itemsAndUser s
      ∧ s.config "enable_loggable" = .flag true ∧ s.config "timeout" = .seconds 10
      ∧ s.config "region" = .flag false := by
  have hexec : ∃ s ∈ exec (guarded step Apart) ({ config := configured } : Threads 2) itemsAndUser,
      (∃ original, s.calls 0 = .body (options .findUser) original)
        ∧ (∃ original, s.calls 1 = .body (options .itemData) original)
        ∧ ∀ i, "region" ∉ Overrides.overridden (s.calls i) :=
    ⟨_, rfl, ⟨_, rfl⟩, ⟨_, rfl⟩, by decide +kernel⟩
  obtain ⟨s, hs, ⟨saved, hfirst⟩, ⟨saved', hsecond⟩, hfree⟩ := hexec
  have hrun := run_of_exec hs
  obtain ⟨hbody, hkept⟩ := configured_of_run hrun
  exact ⟨s, hrun, hbody 0 .findUser saved hfirst _ List.mem_cons_self,
    hbody 1 .itemData saved' hsecond _ List.mem_cons_self, hkept "region" hfree⟩

/-- Many records are asked for while the items of one are fetched, and what is saved for them is
the timeout of that. -/
def manyAndItems : List (Fin 2 × Act) :=
  [(0, .call .getItemsForBib), (0, .next), (0, .next), (0, .next), (0, .next),
    (1, .call .getAvailabilityMany), (1, .next), (1, .next), (0, .next), (0, .next), (0, .next),
    (1, .next), (1, .next), (1, .next), (1, .next), (1, .next)]

/-- The timeout of a call that is over may stay, whatever was configured. -/
theorem stays_manyAndItems (initial : String → Value) : ∃ s : Threads 2,
    Run step (fun _ _ => True) { config := initial } manyAndItems s
      ∧ s.calls 0 = .ended ∧ s.calls 1 = .ended ∧ s.config "timeout" = .seconds 10 := by
  have hexec : ∃ s ∈ exec (guarded step fun _ _ => True) ({ config := initial } : Threads 2)
      manyAndItems, s.calls 0 = .ended ∧ s.calls 1 = .ended ∧ s.config "timeout" = .seconds 10 :=
    ⟨_, rfl, rfl, rfl, rfl⟩
  obtain ⟨s, hs, hended⟩ := hexec
  exact ⟨s, run_of_exec hs, hended⟩

end AlmaAdapter

end Bibdata
