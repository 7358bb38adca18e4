import Heightfield.Proofs.Session.History
/-!
# The order in which sweeps are finished

Of the pending sweeps of a session only one can still go on display: that with the latest ticket, if it
gives a surface (`Awaits`).  It does so whenever it is finished, and all others are never seen.  So the
order in which pending sweeps are finished does not matter, whatever else is changed meanwhile.
-/
namespace Heightfield

variable {α : Type} [Analytic α]

namespace Session

/-- The sweep with the index is pending, holds the latest ticket, and gives the surface. -/
def Awaits (s : Session α) (i : Nat) (surface : Surface α) : Prop :=
  ∃ job, s.jobs[i]? = some job ∧ job.result = none ∧ job.ticket = s.latest ∧
    job.parameters.sweep = .ok surface

section Awaits

variable {s s' : Session α} {log : List (Event α)} {i j : Nat} {x y : Surface α}

theorem awaits_congr (hlatest : s'.latest = s.latest) (hjobs : s'.jobs[i]? = s.jobs[i]?) :
    s'.Awaits i x ↔ s.Awaits i x := by
  unfold Awaits
  rw [hlatest, hjobs]

theorem Awaits.unique (h : Recorded s log) (hi : s.Awaits i x) (hj : s.Awaits j y) : i = j ∧ x = y := by
  obtain ⟨a, ha, -, hta, hx⟩ := hi
  obtain ⟨b, hb, -, htb, hy⟩ := hj
  have hij : i = j := by
    rw [h.ticket_eq ha] at hta
    rw [h.ticket_eq hb] at htb
    omega
  subst hij
  obtain rfl := Option.some.inj (ha.symm.trans hb)
  exact ⟨rfl, Except.ok.inj (hx.symm.trans hy)⟩

theorem not_awaits_finished : ¬ (s.finished i).1.Awaits i y := by
  rintro ⟨job, hjob, hresult, -⟩
  rcases s.finished_cases i with ⟨old, hold, -, heq⟩ | ⟨hno, heq⟩
  · rw [heq, jobs_settled_self hold] at hjob
    rw [← Option.some.inj hjob] at hresult
    cases hresult
  · rw [heq] at hjob
    exact hno job hjob hresult

/-- What is awaited stays so while other sweeps are finished. -/
theorem awaits_finished (hij : i ≠ j) : (s.finished i).1.Awaits j y ↔ s.Awaits j y := by
  rcases s.finished_cases i with ⟨job, -, -, heq⟩ | ⟨-, heq⟩
  · rw [heq]
    exact awaits_congr rfl (jobs_settled_ne s job hij)
  · rw [heq]

theorem Awaits.display_finished (h : s.Awaits i x) : (s.finished i).1.display = x.display := by
  obtain ⟨job, hjob, hpending, hticket, hsweep⟩ := h
  rw [finished_of_pending hjob hpending]
  dsimp only [settled]
  rw [shownBy?_eq_some.2 ⟨hticket, hsweep⟩, Option.elim_some]

/-- **No other sweep changes the display.** -/
theorem display_finished_of_not_awaits (h : ∀ x, ¬ s.Awaits i x) :
    (s.finished i).1.display = s.display := by
  rcases s.finished_cases i with ⟨job, hjob, hpending, heq⟩ | ⟨-, heq⟩
  · rw [heq]
    dsimp only [settled]
    cases hr : shownBy? (job.parameters.outcome job.ticket s.latest) with
    | none => rfl
    | some x =>
      obtain ⟨hticket, hsweep⟩ := shownBy?_eq_some.1 hr
      exact absurd ⟨job, hjob, hpending, hticket, hsweep⟩ (h x)
  · rw [heq]

end Awaits

/-- The indices of the sweeps that are finished. -/
def completions (as : List (Action α)) : List Nat := as.filterMap Action.finishes?

theorem mem_completions_cons {a : Action α} {as : List (Action α)} {i : Nat} :
    i ∈ completions (a :: as) ↔ a.finishes? = some i ∨ i ∈ completions as := by
  unfold completions
  rw [List.mem_filterMap, List.mem_filterMap]
  simp

/-! ## One action -/

section act

variable {s : Session α} {log : List (Event α)} {a : Action α}

/-- Without requests, an action finishes a sweep or leaves tickets, sweeps and display as they are. -/
theorem act_of_not_requests (ha : a.requests = false) :
    (∃ i, a = .finish i) ∨
      a.finishes? = none ∧ (s.act a).1.latest = s.latest ∧ (s.act a).1.jobs = s.jobs ∧
        (s.act a).1.display = s.display := by
  cases a with
  | finish i => exact Or.inl ⟨i, rfl⟩
  | request | refresh => cases ha
  | mode | domain | clip | resolution | percentile => exact Or.inr ⟨rfl, rfl, rfl, rfl⟩
  | formula raw latex => exact Or.inr ⟨rfl, s.setFormula_frame raw latex⟩

/-- When its sweep is finished, the awaited surface goes on display, and nothing is awaited any more. -/
theorem Awaits.act (hs : Recorded s log) {i : Nat} {x : Surface α} (h : s.Awaits i x)
    (ha : a.finishes? = some i) :
    (s.act a).1.display = x.display ∧ ∀ j y, ¬ (s.act a).1.Awaits j y := by
  cases a with
  | finish k =>
    obtain rfl : k = i := Option.some.inj ha
    refine ⟨h.display_finished, fun j y hy => ?_⟩
    by_cases hkj : k = j
    · subst hkj
      exact not_awaits_finished hy
    · exact hkj (h.unique hs ((awaits_finished hkj).1 hy)).1
  | _ => cases ha

/-- Every other action without requests leaves the display as it is, and what is awaited. -/
theorem act_of_not_awaits (ha : a.requests = false)
    (h : ∀ i, a.finishes? = some i → ∀ x, ¬ s.Awaits i x) :
    (s.act a).1.display = s.display ∧ ∀ j y, (s.act a).1.Awaits j y ↔ s.Awaits j y := by
  rcases act_of_not_requests ha with ⟨i, rfl⟩ | ⟨-, hlatest, hjobs, hdisplay⟩
  · have hi := h i rfl
    refine ⟨display_finished_of_not_awaits hi, fun j y => ?_⟩
    by_cases hij : i = j
    · subst hij
      exact ⟨fun hy => absurd hy not_awaits_finished, fun hy => absurd hy (hi y)⟩
    · exact awaits_finished hij
  · exact ⟨hdisplay, fun j y => awaits_congr hlatest (by rw [hjobs])⟩

end act

/-! ## Runs -/

/-- **While no sweep is requested, the display changes to the awaited surface, and only if its sweep is
finished.** -/
theorem display_run : ∀ {as : List (Action α)} {s : Session α} {log : List (Event α)}, Recorded s log →
    (∀ a ∈ as, a.requests = false) →
    (∀ i ∈ completions as, ∀ x, s.Awaits i x → (s.run as).1.display = x.display) ∧
    ((∀ i ∈ completions as, ∀ x, ¬ s.Awaits i x) → (s.run as).1.display = s.display)
  | [], _, _, _, _ => ⟨nofun, fun _ => rfl⟩
  | a :: as, s, log, hs, has => by
    have ha := has a List.mem_cons_self
    obtain ⟨ihshown, ihkept⟩ := display_run (recorded_preserved.act hs a)
      fun b hb => has b (List.mem_cons_of_mem a hb)
    rw [run]
    by_cases h : ∃ i x, a.finishes? = some i ∧ s.Awaits i x
    · obtain ⟨i, x, hi, hx⟩ := h
      obtain ⟨hdisplay, hnone⟩ := hx.act hs hi
      have hfinal := (ihkept fun j _ => hnone j).trans hdisplay
      refine ⟨fun j _ y hy => ?_, fun hno => absurd hx (hno i (mem_completions_cons.2 (Or.inl hi)) x)⟩
      rw [← (hx.unique hs hy).2]
      exact hfinal
    · have hno : ∀ i, a.finishes? = some i → ∀ x, ¬ s.Awaits i x := fun i hi x hx => h ⟨i, x, hi, hx⟩
      obtain ⟨hdisplay, hsame⟩ := act_of_not_awaits ha hno
      constructor
      · intro j hj y hy
        rcases mem_completions_cons.1 hj with hj | hj
        · exact absurd hy (hno j hj y)
        · exact ihshown j hj y ((hsame j y).2 hy)
      · intro hnever
        refine (ihkept fun j hj y hy => ?_).trans hdisplay
        exact hnever j (mem_completions_cons.2 (Or.inr hj)) y ((hsame j y).1 hy)

/-- **The order in which pending sweeps are finished does not matter.**  Two lists of actions without
requests that finish the same sweeps lead from any session that can be reached to the same display: that of
the sweep with the latest ticket, if it is among them and gives a surface, and else the one before. -/
theorem display_of_perm (mode : Json) (domain : Domain α) (resolution : Json) (clip : Option (Clip α))
    (percentile : α) (wholeSweeps : Bool) (history : List (Action α)) {as bs : List (Action α)}
    (has : ∀ a ∈ as, a.requests = false) (hbs : ∀ b ∈ bs, b.requests = false)
    (hperm : (completions as).Perm (completions bs)) :
    let s := ((new mode domain resolution clip percentile wholeSweeps).run history).1
    (s.run as).1.display = (s.run bs).1.display ∧
    (∀ i ∈ completions as, ∀ surface, s.Awaits i surface → (s.run as).1.display = surface.display) ∧
    ((∀ i ∈ completions as, ∀ surface, ¬ s.Awaits i surface) → (s.run as).1.display = s.display) := by
  intro s
  have hs := recorded_run mode domain resolution clip percentile wholeSweeps history
  obtain ⟨hshown, hkept⟩ := display_run hs has
  obtain ⟨hshown', hkept'⟩ := display_run hs hbs
  refine ⟨?_, hshown, hkept⟩
  by_cases h : ∃ i ∈ completions as, ∃ x, s.Awaits i x
  · obtain ⟨i, hi, x, hx⟩ := h
    rw [hshown i hi x hx, hshown' i (hperm.mem_iff.1 hi) x hx]
  · have hno : ∀ i ∈ completions as, ∀ x, ¬ s.Awaits i x := fun i hi x hx => h ⟨i, hi, x, hx⟩
    rw [hkept hno, hkept' fun i hi => hno i (hperm.mem_iff.2 hi)]

/-- A session over a single point in which two sweeps are pending. -/
def twoPending : Session Float :=
  let point : Interval Float :=
    ⟨Scalar.ofInt 0, Scalar.ofInt 0, by decide +kernel, by decide +kernel, by decide +kernel⟩
  ((new (.string "real") ⟨point, point⟩ (.int 1) none (Scalar.ofInt 95) false).run
    [.formula "x" false, .request, .formula "1" false, .request]).1

theorem display_of_twoPending :
    twoPending.jobs.map (fun job => (job.ticket, job.result.isNone)) = [(1, true), (2, true)] ∧
    (twoPending.run [.finish 1, .finish 0]).1.display.grid.isSome = true ∧
    (twoPending.run [.finish 0, .formula "y" false, .finish 1]).1.display =
      (twoPending.run [.finish 1, .finish 0]).1.display := by
  have has : ∀ a ∈ ([.finish 0, .formula "y" false, .finish 1] : List (Action Float)), a.requests = false := by
    decide
  have hbs : ∀ b ∈ ([.finish 1, .finish 0] : List (Action Float)), b.requests = false := by decide
  have hperm : (completions ([.finish 0, .formula "y" false, .finish 1] : List (Action Float))).Perm
      (completions ([.finish 1, .finish 0] : List (Action Float))) := List.Perm.swap 1 0 []
  exact ⟨by decide +kernel, by decide +kernel, (display_of_perm _ _ _ _ _ _ _ has hbs hperm).1⟩

end Session

end Heightfield
