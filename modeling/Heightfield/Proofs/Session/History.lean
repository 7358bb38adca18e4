import Heightfield.Proofs.Session.Chronicle
/-!
# Sessions and their chronicles

In every session that can be reached, the tickets, the sweeps and the display are those of its chronicle
(`recorded_new`, `recorded_run`), for every action keeps this.  `run_consistent` says in full what
that means for a user of the session.
-/
namespace Heightfield

variable {α : Type} [Analytic α]

namespace Session

/-- The log tells how the tickets, the sweeps and the display of the session came about. -/
structure Recorded (s : Session α) (log : List (Event α)) : Prop where
  chronicle : Chronicle log
  latest : s.latest = latestIssued log
  jobs : s.jobs.map (fun job => (job.ticket, job.parameters)) = issues log
  finished : ∀ job ∈ s.jobs, job.ticket ∈ finishedTickets log ↔ job.result ≠ none
  display : s.display = shown log

theorem recorded_new (mode : Json) (domain : Domain α) (resolution : Json) (clip : Option (Clip α))
    (percentile : α) (wholeSweeps : Bool) :
    Recorded (new mode domain resolution clip percentile wholeSweeps) [] where
  chronicle := .nil
  latest := rfl
  jobs := rfl
  finished := nofun
  display := rfl

namespace Recorded

variable {s : Session α} {log : List (Event α)}

/-- **The sweep with index `i` holds ticket `i + 1`.** -/
theorem ticket_eq (h : Recorded s log) {i : Nat} {job : Job α} (hi : s.jobs[i]? = some job) :
    job.ticket = i + 1 := by
  have htickets := h.chronicle.tickets
  rw [← h.jobs, List.map_map] at htickets
  have hget := congrArg (·[i]?) htickets
  simp only [List.getElem?_map, hi, Option.map_some] at hget
  obtain ⟨hlt, heq⟩ := List.getElem?_eq_some_iff.1 hget.symm
  rw [List.getElem_range'] at heq
  simpa [Nat.add_comm] using heq.symm

theorem length_jobs (h : Recorded s log) : s.jobs.length = s.latest := by
  have hlength := congrArg List.length h.chronicle.tickets
  rw [← h.jobs, ← h.latest] at hlength
  simpa using hlength

theorem draw (h : Recorded s log) (p : Parameters α) :
    Recorded (s.drawn p) (log ++ [.issued (s.latest + 1) p]) where
  chronicle := by
    rw [h.latest]
    exact h.chronicle.issue p
  latest := by rw [latestIssued_issued]; rfl
  jobs := by simp [drawn, h.jobs]
  finished := by
    intro job hjob
    rw [finishedTickets_issued]
    rcases List.mem_append.1 hjob with hjob | hjob
    · exact h.finished job hjob
    · -- a ticket that is only drawn now was never finished
      rw [List.mem_singleton.1 hjob]
      refine ⟨fun hfin => ?_, fun hresult => absurd rfl hresult⟩
      have hle := h.chronicle.le_of_mem_finished hfin
      rw [← h.latest] at hle
      exact absurd hle (Nat.not_succ_le_self _)
  display := by rw [shown_issued]; exact h.display

theorem settle (h : Recorded s log) {i : Nat} {job : Job α} (hi : s.jobs[i]? = some job)
    (hresult : job.result = none) :
    Recorded (s.settled i job)
      (log ++ [.finished job.ticket (job.parameters.outcome job.ticket s.latest)]) where
  chronicle := by
    have hmem := List.mem_of_getElem? hi
    rw [h.latest]
    refine h.chronicle.finish ?_ fun hfin => (h.finished job hmem).1 hfin hresult
    rw [← h.jobs]
    exact List.mem_map_of_mem hmem
  latest := by rw [latestIssued_finished]; exact h.latest
  jobs := by
    rw [issues_finished, ← h.jobs]
    refine List.ext_getElem? fun j => ?_
    rw [List.getElem?_map, List.getElem?_map]
    by_cases hj : i = j
    · subst hj
      rw [jobs_settled_self hi, hi]
      rfl
    · rw [jobs_settled_ne s job hj]
  finished := by
    intro other hother
    obtain ⟨j, hj⟩ := List.mem_iff_getElem?.1 hother
    rw [finishedTickets_finished, List.mem_append, List.mem_singleton]
    by_cases hij : i = j
    · -- the sweep is no longer pending
      subst hij
      rw [jobs_settled_self hi] at hj
      rw [← Option.some.inj hj]
      exact ⟨fun _ => Option.some_ne_none _, fun _ => Or.inr rfl⟩
    · rw [jobs_settled_ne s job hij] at hj
      have hne : other.ticket ≠ job.ticket := by
        rw [h.ticket_eq hj, h.ticket_eq hi]
        omega
      rw [← h.finished other (List.mem_of_getElem? hj)]
      exact ⟨fun hfin => hfin.resolve_right hne, Or.inl⟩
  display := by
    rw [shown_finished, ← h.display]
    rfl

end Recorded

theorem recorded_preserved : Preserved (@Recorded α _) where
  change := by
    intro s s' log hlatest hjobs hdisplay h
    refine ⟨h.chronicle, hlatest.trans h.latest, ?_, ?_, hdisplay.trans h.display⟩
    · rw [hjobs]
      exact h.jobs
    · rw [hjobs]
      exact h.finished
  draw := fun _ h => h.draw _
  settle := fun hi hresult h => h.settle hi hresult

/-- A sweep that is to be finished is finished then, if it was not before. -/
theorem Recorded.mem_finished_act {s : Session α} {log : List (Event α)} (h : Recorded s log) {i : Nat}
    (hi : i < s.latest) : i + 1 ∈ finishedTickets (log ++ (s.act (.finish i)).2) := by
  have h' := recorded_preserved.act h (.finish i)
  rw [← h.length_jobs] at hi
  have hjob : ∃ job, (s.act (.finish i)).1.jobs[i]? = some job ∧ job.result ≠ none := by
    rw [act]
    rcases s.finished_cases i with ⟨job, hj, -, heq⟩ | ⟨hno, heq⟩
    · rw [heq]
      exact ⟨_, jobs_settled_self hj, Option.some_ne_none _⟩
    · rw [heq]
      exact ⟨s.jobs[i], List.getElem?_eq_getElem hi, hno _ (List.getElem?_eq_getElem hi)⟩
  obtain ⟨job, hj, hresult⟩ := hjob
  rw [← h'.ticket_eq hj]
  exact (h'.finished job (List.mem_of_getElem? hj)).2 hresult

theorem Recorded.mem_finished_run {s : Session α} {log : List (Event α)} (h : Recorded s log)
    {before : List (Action α)} {i : Nat} (hi : i < (s.run before).1.latest) (after : List (Action α)) :
    i + 1 ∈ finishedTickets (log ++ (s.run (before ++ .finish i :: after)).2) := by
  have hbefore := run_preserves recorded_preserved before h
  have hmem := hbefore.mem_finished_act hi
  rw [run_append, run, ← List.append_assoc, ← List.append_assoc, finishedTickets, List.filterMap_append]
  exact List.mem_append_left _ hmem

/-- **Every session that can be reached is recorded in what was seen of it.** -/
theorem recorded_run (mode : Json) (domain : Domain α) (resolution : Json) (clip : Option (Clip α))
    (percentile : α) (wholeSweeps : Bool) (actions : List (Action α)) :
    Recorded ((new mode domain resolution clip percentile wholeSweeps).run actions).1
      ((new mode domain resolution clip percentile wholeSweeps).run actions).2 :=
  run_preserves recorded_preserved actions (recorded_new mode domain resolution clip percentile wholeSweeps)

/-- **A session stays consistent whatever happens in it.**  Tickets are issued without gap or repetition,
each for the parameters of the moment of its request.  A sweep is finished once, when that is first asked
for, with what these parameters give, and goes on display exactly if its ticket is the latest at that
moment.  The display is empty, or is as a whole the surface that was applied last.  Newer surfaces replace
older ones only. -/
theorem run_consistent (mode : Json) (domain : Domain α) (resolution : Json) (clip : Option (Clip α))
    (percentile : α) (wholeSweeps : Bool) (actions : List (Action α)) :
    let start := new mode domain resolution clip percentile wholeSweeps
    let s := (start.run actions).1
    let log := (start.run actions).2
    (issues log).map Prod.fst = List.range' 1 s.latest ∧ s.latest = latestIssued log ∧
    (∀ t p, (t, p) ∈ issues log ↔ ∃ before a after, actions = before ++ a :: after ∧ a.requests = true ∧
      (start.run before).1.parameters? = some p ∧ t = (start.run before).1.latest + 1) ∧
    (finishedTickets log).Nodup ∧
    (∀ before i after, actions = before ++ .finish i :: after → i < (start.run before).1.latest →
      i + 1 ∈ finishedTickets log) ∧
    (∀ before t r after, log = before ++ .finished t r :: after → ∃ p, (t, p) ∈ issues before ∧
      r = p.sweep.map fun surface => ⟨t, surface, decide (t = latestIssued before)⟩) ∧
    ((appliedSurfaces log = [] ∧ s.display = ⟨none, none, none⟩) ∨
      ∃ t p n grid limits, AppliedLast log t p ⟨grid, limits, grid.statistics⟩ ∧
        Resolution.ofJson p.resolution = .ok n ∧
        grid = Grid.sample p.formula p.domain n p.clip p.wholeSweeps ∧
        grid.limits p.percentile = .ok limits ∧
        s.display = ⟨some grid, some limits, some grid.statistics⟩) ∧
    ((appliedSurfaces log).map Prod.fst).Pairwise (· < ·) := by
  intro start s log
  have h : Recorded s log := recorded_run mode domain resolution clip percentile wholeSweeps actions
  refine ⟨?_, h.latest, ?_, h.chronicle.finished_nodup, ?_, ?_, ?_, h.chronicle.applied_increasing⟩
  · rw [h.latest]
    exact h.chronicle.tickets
  · intro t p
    rw [mem_issues]
    exact issued_mem_run
  · rintro before i after rfl hi
    have hstart := recorded_new mode domain resolution clip percentile wholeSweeps
    exact hstart.mem_finished_run hi after
  · intro before t r after hlog
    exact (h.chronicle.of_finished hlog).2
  · rw [h.display]
    rcases h.chronicle.shown_eq with hnone | ⟨t, p, surface, hlast, hshown⟩
    · exact Or.inl hnone
    · obtain ⟨grid, limits, statistics⟩ := surface
      obtain ⟨n, hn, hgrid, hlimits, hstatistics⟩ := Parameters.of_sweep_eq_ok hlast.sweep_eq
      dsimp only at hgrid hlimits hstatistics
      subst hstatistics
      exact Or.inr ⟨t, p, n, grid, limits, hlast, hn, hgrid, hlimits, hshown⟩

end Session

end Heightfield
