import Heightfield.Proofs.Session.Run
/-!
# The chronicle of a session

What is seen of the sweeps of a session, from its beginning, is a chronicle: tickets are issued in order,
and each sweep is finished at most once, with the result that the parameters of its ticket give at that
moment.  From a chronicle alone one reads what is on display, and that newer surfaces replace older ones
only.  `recorded_run` ties the state of the session to its chronicle.
-/
namespace Heightfield

variable {α : Type} [Analytic α]

/-! ## Events -/

namespace Event

def issue? : Event α → Option (Nat × Parameters α)
  | issued t p => some (t, p)
  | finished _ _ => none

def finishedTicket? : Event α → Option Nat
  | issued _ _ => none
  | finished t _ => some t

/-- The ticket and the surface of a sweep that went on display. -/
def applied? : Event α → Option (Nat × Surface α)
  | issued _ _ => none
  | finished t r => (shownBy? r).map (t, ·)

end Event

def issues (log : List (Event α)) : List (Nat × Parameters α) := log.filterMap Event.issue?

def finishedTickets (log : List (Event α)) : List Nat := log.filterMap Event.finishedTicket?

/-- The surfaces that went on display, with their tickets. -/
def appliedSurfaces (log : List (Event α)) : List (Nat × Surface α) := log.filterMap Event.applied?

/-- The ticket issued last; none is zero. -/
def latestIssued (log : List (Event α)) : Nat := ((issues log).getLast?.map Prod.fst).getD 0

/-- What is on display after the events. -/
def shown (log : List (Event α)) : Display α :=
  ((appliedSurfaces log).getLast?.map fun a => a.2.display).getD .empty

theorem mem_issues {log : List (Event α)} {t : Nat} {p : Parameters α} :
    (t, p) ∈ issues log ↔ .issued t p ∈ log := by
  unfold issues
  rw [List.mem_filterMap]
  constructor
  · rintro ⟨e, he, hissue⟩
    cases e with
    | issued u q =>
      obtain ⟨rfl, rfl⟩ := Prod.mk.inj (Option.some.inj hissue)
      exact he
    | finished u r => cases hissue
  · intro he
    exact ⟨_, he, rfl⟩

section append

variable {log : List (Event α)} {t : Nat} {p : Parameters α} {r : Except SweepError (Update α)}

@[simp] theorem issues_issued : issues (log ++ [.issued t p]) = issues log ++ [(t, p)] := by
  simp [issues, Event.issue?]

@[simp] theorem issues_finished : issues (log ++ [.finished t r]) = issues log := by
  simp [issues, Event.issue?]

@[simp] theorem finishedTickets_issued : finishedTickets (log ++ [.issued t p]) = finishedTickets log := by
  simp [finishedTickets, Event.finishedTicket?]

@[simp] theorem finishedTickets_finished :
    finishedTickets (log ++ [.finished t r]) = finishedTickets log ++ [t] := by
  simp [finishedTickets, Event.finishedTicket?]

@[simp] theorem appliedSurfaces_issued : appliedSurfaces (log ++ [.issued t p]) = appliedSurfaces log := by
  simp [appliedSurfaces, Event.applied?]

@[simp] theorem appliedSurfaces_finished :
    appliedSurfaces (log ++ [.finished t r]) = appliedSurfaces log ++ ((shownBy? r).map (t, ·)).toList := by
  cases h : shownBy? r <;> simp [appliedSurfaces, Event.applied?, h]

@[simp] theorem latestIssued_issued : latestIssued (log ++ [.issued t p]) = t := by
  simp [latestIssued]

@[simp] theorem latestIssued_finished : latestIssued (log ++ [.finished t r]) = latestIssued log := by
  simp [latestIssued]

@[simp] theorem shown_issued : shown (log ++ [.issued t p]) = shown log := by
  simp [shown]

@[simp] theorem shown_finished :
    shown (log ++ [.finished t r]) = (shownBy? r).elim (shown log) Surface.display := by
  cases h : shownBy? r <;> simp [shown, h]

end append

/-- The surface that went on display last: its sweep held the latest ticket when it was finished, and the
parameters of that ticket give it. -/
def AppliedLast (log : List (Event α)) (t : Nat) (p : Parameters α) (surface : Surface α) : Prop :=
  ∃ before after, log = before ++ .finished t (.ok ⟨t, surface, true⟩) :: after ∧ appliedSurfaces after = [] ∧
    (t, p) ∈ issues before ∧ t = latestIssued before ∧ p.sweep = .ok surface

theorem AppliedLast.append {log : List (Event α)} {t : Nat} {p : Parameters α} {surface : Surface α}
    (h : AppliedLast log t p surface) {e : Event α} (he : e.applied? = none) :
    AppliedLast (log ++ [e]) t p surface := by
  obtain ⟨before, after, rfl, hafter, hrest⟩ := h
  refine ⟨before, after ++ [e], by simp, ?_, hrest⟩
  unfold appliedSurfaces at hafter ⊢
  simp [hafter, he]

theorem AppliedLast.sweep_eq {log : List (Event α)} {t : Nat} {p : Parameters α} {surface : Surface α}
    (h : AppliedLast log t p surface) : p.sweep = .ok surface := by
  obtain ⟨before, after, -, -, -, -, hsweep⟩ := h
  exact hsweep

/-! ## Chronicles -/

/-- Logs in which tickets are issued in order, and a sweep is finished at most once, with what its
parameters give at that moment. -/
inductive Chronicle : List (Event α) → Prop
  | nil : Chronicle []
  | issue {log} (p : Parameters α) : Chronicle log → Chronicle (log ++ [.issued (latestIssued log + 1) p])
  | finish {log t p} : Chronicle log → (t, p) ∈ issues log → t ∉ finishedTickets log →
      Chronicle (log ++ [.finished t (p.outcome t (latestIssued log))])

namespace Chronicle

variable {log : List (Event α)}

/-- **Tickets are issued without gap or repetition.** -/
theorem tickets (h : Chronicle log) : (issues log).map Prod.fst = List.range' 1 (latestIssued log) := by
  induction h with
  | nil => rfl
  | issue p h ih => simp [ih, List.range'_1_concat, Nat.add_comm]
  | finish h hp ht ih => simpa using ih

theorem le_of_mem_issues (h : Chronicle log) {t : Nat} {p : Parameters α} (hp : (t, p) ∈ issues log) :
    t ≤ latestIssued log := by
  have hmem := List.mem_map_of_mem (f := Prod.fst) hp
  rw [h.tickets, List.mem_range'_1] at hmem
  omega

theorem le_of_mem_finished (h : Chronicle log) {t : Nat} (ht : t ∈ finishedTickets log) :
    t ≤ latestIssued log := by
  induction h with
  | nil => cases ht
  | issue p h ih =>
    rw [finishedTickets_issued] at ht
    rw [latestIssued_issued]
    exact Nat.le_succ_of_le (ih ht)
  | finish h hp hu ih =>
    rw [finishedTickets_finished, List.mem_append, List.mem_singleton] at ht
    rw [latestIssued_finished]
    rcases ht with ht | rfl
    · exact ih ht
    · exact h.le_of_mem_issues hp

theorem finished_nodup (h : Chronicle log) : (finishedTickets log).Nodup := by
  induction h with
  | nil => exact List.nodup_nil
  | issue p h ih => simpa using ih
  | finish h hp ht ih =>
    rw [finishedTickets_finished, List.nodup_append]
    refine ⟨ih, List.pairwise_singleton _ _, fun a ha b hb hab => ?_⟩
    rw [List.mem_singleton.1 hb] at hab
    exact ht (hab ▸ ha)

theorem mem_finished_of_mem_applied {log : List (Event α)} {t : Nat} {surface : Surface α}
    (ha : (t, surface) ∈ appliedSurfaces log) : t ∈ finishedTickets log := by
  obtain ⟨e, he, happ⟩ := List.mem_filterMap.1 ha
  cases e with
  | issued u p => cases happ
  | finished u r =>
    obtain ⟨x, -, heq⟩ := Option.map_eq_some_iff.1 happ
    obtain ⟨rfl, -⟩ := Prod.mk.inj heq
    exact List.mem_filterMap.2 ⟨_, he, rfl⟩

/-- **Newer surfaces replace older ones.** -/
theorem applied_increasing (h : Chronicle log) :
    ((appliedSurfaces log).map Prod.fst).Pairwise (· < ·) := by
  induction h with
  | nil => exact List.Pairwise.nil
  | issue p h ih => simpa using ih
  | @finish log u p h hp hu ih =>
    rw [appliedSurfaces_finished]
    cases hr : shownBy? (p.outcome u (latestIssued log)) with
    | none => simpa using ih
    | some x =>
      have hlatest := (shownBy?_eq_some.1 hr).1
      rw [List.map_append, List.pairwise_append]
      refine ⟨ih, List.pairwise_singleton _ _, fun a ha b hb => ?_⟩
      obtain ⟨⟨a, y⟩, hmem, rfl⟩ := List.mem_map.1 ha
      obtain rfl : b = u := by simpa using hb
      -- what went on display before is finished, and the ticket is not
      have hfin := mem_finished_of_mem_applied hmem
      have hle := h.le_of_mem_finished hfin
      have hne : a ≠ b := fun he => hu (he ▸ hfin)
      show a < b
      omega


/-- Where an event stands in a list with one more: at its end, or in the list before. -/
theorem eq_or_of_concat_eq {β : Type} {l before after : List β} {e x : β} (h : l ++ [e] = before ++ x :: after) :
    (l = before ∧ e = x) ∨ ∃ after', l = before ++ x :: after' := by
  rcases List.eq_nil_or_concat after with rfl | ⟨after', y, rfl⟩
  · obtain ⟨hl, he⟩ := List.append_inj' h rfl
    exact Or.inl ⟨hl, (List.cons.inj he).1⟩
  · rw [List.concat_eq_append, ← List.cons_append, ← List.append_assoc] at h
    exact Or.inr ⟨after', (List.append_inj' h rfl).1⟩

/-- **A sweep is finished once, with what the parameters of its ticket give at that moment.** -/
theorem of_finished (h : Chronicle log) {before after : List (Event α)} {t : Nat}
    {r : Except SweepError (Update α)} (hlog : log = before ++ .finished t r :: after) :
    t ∉ finishedTickets before ∧ ∃ p, (t, p) ∈ issues before ∧ r = p.outcome t (latestIssued before) := by
  induction h generalizing after with
  | nil => cases before <;> cases hlog
  | issue p h ih =>
    rcases eq_or_of_concat_eq hlog with ⟨-, he⟩ | ⟨after', hl⟩
    · cases he
    · exact ih hl
  | @finish log u p h hp hu ih =>
    rcases eq_or_of_concat_eq hlog with ⟨rfl, he⟩ | ⟨after', hl⟩
    · obtain ⟨rfl, rfl⟩ := Event.finished.inj he
      exact ⟨hu, p, hp, rfl⟩
    · exact ih hl

/-- **What is on display is the surface that was applied last, as a whole.** -/
theorem shown_eq (h : Chronicle log) :
    (appliedSurfaces log = [] ∧ shown log = .empty) ∨
      ∃ t p surface, AppliedLast log t p surface ∧ shown log = surface.display := by
  induction h with
  | nil => exact Or.inl ⟨rfl, rfl⟩
  | issue p h ih =>
    rw [appliedSurfaces_issued, shown_issued]
    rcases ih with hnone | ⟨t, q, surface, hlast, hshown⟩
    · exact Or.inl hnone
    · exact Or.inr ⟨t, q, surface, hlast.append rfl, hshown⟩
  | @finish log u p h hp hu ih =>
    cases hr : shownBy? (p.outcome u (latestIssued log)) with
    | none =>
      rw [appliedSurfaces_finished, shown_finished, hr, Option.map_none, Option.toList_none, List.append_nil]
      rcases ih with hnone | ⟨t, q, surface, hlast, hshown⟩
      · exact Or.inl hnone
      · exact Or.inr ⟨t, q, surface, hlast.append (by rw [Event.applied?, hr]; rfl), hshown⟩
    | some x =>
      obtain ⟨hlatest, hsweep⟩ := shownBy?_eq_some.1 hr
      refine Or.inr ⟨u, p, x, ⟨log, [], ?_, rfl, hp, hlatest, hsweep⟩, ?_⟩
      · simp [Parameters.outcome, hsweep, Except.map, hlatest]
      · rw [shown_finished, hr, Option.elim_some]

end Chronicle

end Heightfield
