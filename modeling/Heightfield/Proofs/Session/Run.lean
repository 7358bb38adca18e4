import Heightfield.Session
/-!
# What happens in a session

An action changes the formula or a parameter, asks for a sweep or finishes one.  A run is any list of
actions, so that a sweep can be finished at any later time, in any order, or never.  To refresh is to request
a sweep and to finish it at once; where other actions come in between, these are two actions of a run.  Of
each sweep a run shows two events: that it was requested, with its ticket and the parameters it keeps, and
that it was finished, with its result.

Whatever the action, the tickets, the sweeps and the display change in two ways only: a ticket is drawn, or
a pending sweep is finished (`run_preserves`).
-/
namespace Heightfield

variable {α : Type} [Analytic α]

/-! ## Actions and events -/

inductive Action (α : Type) [Scalar α] where
  | formula (raw : String) (latex : Bool)
  | mode (mode : Json)
  | domain (domain : Domain α)
  | clip (clip : Option (Clip α))
  | resolution (resolution : Json)
  | percentile (percentile : α)
  | request
  | refresh
  /-- The sweep with an index is finished. -/
  | finish (i : Nat)

namespace Action

/-- Whether a sweep is asked for. -/
def requests : Action α → Bool
  | request | refresh => true
  | _ => false

/-- The sweep that is finished. -/
def finishes? : Action α → Option Nat
  | finish i => some i
  | _ => none

end Action

inductive Event (α : Type) [Scalar α] where
  | issued (ticket : Nat) (parameters : Parameters α)
  | finished (ticket : Nat) (result : Except SweepError (Update α))

namespace Session

/-- A sweep is requested. -/
def requested (s : Session α) : Session α × List (Event α) :=
  match s.request? with
  | none => (s, [])
  | some s' => (s', (s'.jobs.drop s.jobs.length).map fun job => .issued job.ticket job.parameters)

/-- A sweep is finished.  To repeat the result of an earlier time is no event. -/
def finished (s : Session α) (i : Nat) : Session α × List (Event α) :=
  match s.jobs[i]?, s.finish? i with
  | some job, some (s', r) => (s', if job.result.isNone then [.finished job.ticket r] else [])
  | _, _ => (s, [])

/-- A session after an action, and what was seen of its sweeps. -/
def act (s : Session α) : Action α → Session α × List (Event α)
  | .formula raw latex => ((s.setFormula raw latex).1, [])
  | .mode mode => ({ s with mode := mode }, [])
  | .domain domain => ({ s with domain := domain }, [])
  | .clip clip => ({ s with clip := clip }, [])
  | .resolution resolution => ({ s with resolution := resolution }, [])
  | .percentile percentile => ({ s with percentile := percentile }, [])
  | .request => s.requested
  | .finish i => s.finished i
  | .refresh =>
    match s.request? with
    | none => (s, [])
    | some s' =>
      let (s'', events) := s'.finished (s'.jobs.length - 1)
      (s'', s.requested.2 ++ events)

def run (s : Session α) : List (Action α) → Session α × List (Event α)
  | [] => (s, [])
  | a :: as => (((s.act a).1.run as).1, (s.act a).2 ++ ((s.act a).1.run as).2)

/-- A formula changes neither tickets nor sweeps nor the display. -/
theorem setFormula_frame (s : Session α) (raw : String) (latex : Bool) :
    (s.setFormula raw latex).1.latest = s.latest ∧ (s.setFormula raw latex).1.jobs = s.jobs ∧
      (s.setFormula raw latex).1.display = s.display := by
  unfold setFormula
  split
  · exact ⟨rfl, rfl, rfl⟩
  · exact ⟨rfl, rfl, rfl⟩

/-! ## Tickets -/

/-- The session after a ticket was drawn for parameters. -/
def drawn (s : Session α) (p : Parameters α) : Session α :=
  { s with latest := s.latest + 1, jobs := s.jobs ++ [⟨s.latest + 1, p, none⟩] }

theorem request?_eq (s : Session α) : s.request? = s.parameters?.map s.drawn := rfl

theorem requested_of_none {s : Session α} (h : s.parameters? = none) : s.requested = (s, []) := by
  unfold requested
  rw [request?_eq, h]
  rfl

theorem requested_of_some {s : Session α} {p : Parameters α} (h : s.parameters? = some p) :
    s.requested = (s.drawn p, [.issued (s.latest + 1) p]) := by
  have hdrop : (s.drawn p).jobs.drop s.jobs.length = [⟨s.latest + 1, p, none⟩] := List.drop_left
  unfold requested
  rw [request?_eq, h, Option.map_some]
  simp only [hdrop, List.map_cons, List.map_nil]

end Session

/-! ## Results -/

/-- The surface of a sweep is sampled, and measured, as its parameters say. -/
theorem Parameters.of_sweep_eq_ok {p : Parameters α} {surface : Surface α} (h : p.sweep = .ok surface) :
    ∃ n, Resolution.ofJson p.resolution = .ok n ∧
      surface.grid = Grid.sample p.formula p.domain n p.clip p.wholeSweeps ∧
      surface.grid.limits p.percentile = .ok surface.limits ∧ surface.statistics = surface.grid.statistics := by
  unfold Parameters.sweep at h
  split at h
  · cases h
  · rename_i n hn
    dsimp only at h
    split at h
    · cases h
    · rename_i limits hlimits
      obtain rfl := Except.ok.inj h
      exact ⟨n, hn, rfl, hlimits, rfl⟩

/-- What a sweep reports that holds a ticket, and finishes when the latest one is `latest`. -/
def Parameters.outcome (p : Parameters α) (ticket latest : Nat) : Except SweepError (Update α) :=
  p.sweep.map fun surface => ⟨ticket, surface, decide (ticket = latest)⟩

/-- The surface of an update that went on display. -/
def Update.shown? (u : Update α) : Option (Surface α) := if u.applied then some u.surface else none

/-- The surface that goes on display with a result. -/
def shownBy? (r : Except SweepError (Update α)) : Option (Surface α) := r.toOption.bind Update.shown?

theorem shownBy?_eq_some {p : Parameters α} {t latest : Nat} {surface : Surface α} :
    shownBy? (p.outcome t latest) = some surface ↔ t = latest ∧ p.sweep = .ok surface := by
  unfold shownBy? Parameters.outcome Update.shown?
  cases p.sweep with
  | error e => simp [Except.map, Except.toOption]
  | ok x => by_cases h : t = latest <;> simp [Except.map, Except.toOption, h]

namespace Session

/-- The session after its pending sweep with an index was finished. -/
def settled (s : Session α) (i : Nat) (job : Job α) : Session α :=
  let r := job.parameters.outcome job.ticket s.latest
  { s with
    display := (shownBy? r).elim s.display Surface.display
    jobs := s.jobs.set i { job with result := some r } }

theorem jobs_settled_self {s : Session α} {i : Nat} {job : Job α} (hi : s.jobs[i]? = some job) :
    (s.settled i job).jobs[i]? =
      some { job with result := some (job.parameters.outcome job.ticket s.latest) } := by
  obtain ⟨hlt, -⟩ := List.getElem?_eq_some_iff.1 hi
  exact List.getElem?_set_self hlt

theorem jobs_settled_ne (s : Session α) (job : Job α) {i j : Nat} (h : i ≠ j) :
    (s.settled i job).jobs[j]? = s.jobs[j]? := List.getElem?_set_ne h

theorem complete_eq (s : Session α) (job : Job α) :
    s.complete job =
      ({ s with display :=
          (shownBy? (job.parameters.outcome job.ticket s.latest)).elim s.display Surface.display },
        job.parameters.outcome job.ticket s.latest) := by
  unfold complete Parameters.outcome
  cases job.parameters.sweep with
  | error e => rfl
  | ok surface =>
    by_cases h : job.ticket = s.latest
    · simp [apply, h, shownBy?, Update.shown?, Except.map, Except.toOption]
    · simp [apply, h, shownBy?, Update.shown?, Except.map, Except.toOption]

theorem finish?_of_pending {s : Session α} {i : Nat} {job : Job α} (hi : s.jobs[i]? = some job)
    (hjob : job.result = none) :
    s.finish? i = some (s.settled i job, job.parameters.outcome job.ticket s.latest) := by
  unfold finish?
  rw [hi, Option.map_some, hjob]
  simp only [complete_eq]
  rfl

theorem finished_of_pending {s : Session α} {i : Nat} {job : Job α} (hi : s.jobs[i]? = some job)
    (hjob : job.result = none) :
    s.finished i =
      (s.settled i job, [.finished job.ticket (job.parameters.outcome job.ticket s.latest)]) := by
  unfold finished
  rw [finish?_of_pending hi hjob, hi]
  simp [hjob]

/-- To finish a sweep settles it if it is pending, and else changes nothing. -/
theorem finished_cases (s : Session α) (i : Nat) :
    (∃ job, s.jobs[i]? = some job ∧ job.result = none ∧ s.finished i =
      (s.settled i job, [.finished job.ticket (job.parameters.outcome job.ticket s.latest)])) ∨
    (∀ job, s.jobs[i]? = some job → job.result ≠ none) ∧ s.finished i = (s, []) := by
  cases hi : s.jobs[i]? with
  | none =>
    refine Or.inr ⟨nofun, ?_⟩
    unfold finished
    rw [hi]
  | some job =>
    cases hjob : job.result with
    | none => exact Or.inl ⟨job, rfl, hjob, finished_of_pending hi hjob⟩
    | some r =>
      refine Or.inr ⟨?_, ?_⟩
      · intro job' hjob' hnone
        rw [← Option.some.inj hjob', hjob] at hnone
        cases hnone
      · unfold finished finish?
        simp [hi, hjob]

/-! ## Runs -/

theorem getElem?_drawn (s : Session α) (p : Parameters α) :
    (s.drawn p).jobs[(s.drawn p).jobs.length - 1]? = some ⟨s.latest + 1, p, none⟩ := by
  simp [drawn]

/-- A sweep that is finished at once has the latest ticket. -/
theorem refresh?_eq {s : Session α} {p : Parameters α} (hp : s.parameters? = some p) :
    s.refresh? = some ((s.drawn p).settled ((s.drawn p).jobs.length - 1) ⟨s.latest + 1, p, none⟩,
      p.outcome (s.latest + 1) (s.latest + 1)) := by
  rw [refresh?, request?_eq, hp]
  exact finish?_of_pending (s.getElem?_drawn p) rfl

theorem act_refresh (s : Session α) : (s.act .refresh).1 = s.refresh?.elim s Prod.fst := by
  cases hp : s.parameters? with
  | none => simp [act, refresh?, request?_eq, hp]
  | some p => simp [act, refresh?_eq hp, request?_eq, hp, finished_of_pending (s.getElem?_drawn p)]

theorem run_append : ∀ (s : Session α) (as bs : List (Action α)),
    s.run (as ++ bs) = (((s.run as).1.run bs).1, (s.run as).2 ++ ((s.run as).1.run bs).2)
  | _, [], _ => rfl
  | s, a :: as, bs => by
    rw [List.cons_append, run, run_append (s.act a).1 as bs, run, List.append_assoc]

/-- A property of sessions and of what was seen so far that every change keeps. -/
structure Preserved (P : Session α → List (Event α) → Prop) : Prop where
  /-- A change of the formula or of a parameter. -/
  change : ∀ {s s' : Session α} {log}, s'.latest = s.latest → s'.jobs = s.jobs → s'.display = s.display →
    P s log → P s' log
  draw : ∀ {s : Session α} {p log}, s.parameters? = some p → P s log →
    P (s.drawn p) (log ++ [.issued (s.latest + 1) p])
  settle : ∀ {s : Session α} {i job log}, s.jobs[i]? = some job → job.result = none → P s log →
    P (s.settled i job) (log ++ [.finished job.ticket (job.parameters.outcome job.ticket s.latest)])

section Preserved

variable {P : Session α → List (Event α) → Prop} {s : Session α} {log : List (Event α)}

theorem Preserved.finished (h : Preserved P) (hs : P s log) (i : Nat) :
    P (s.finished i).1 (log ++ (s.finished i).2) := by
  rcases s.finished_cases i with ⟨job, hi, hjob, heq⟩ | ⟨-, heq⟩
  · rw [heq]
    exact h.settle hi hjob hs
  · rw [heq, List.append_nil]
    exact hs

theorem Preserved.act (h : Preserved P) (hs : P s log) (a : Action α) :
    P (s.act a).1 (log ++ (s.act a).2) := by
  have change {s'} (hlatest : s'.latest = s.latest) (hjobs : s'.jobs = s.jobs)
      (hdisplay : s'.display = s.display) : P s' (log ++ []) := by
    rw [List.append_nil]
    exact h.change hlatest hjobs hdisplay hs
  cases a with
  | formula raw latex =>
    obtain ⟨hlatest, hjobs, hdisplay⟩ := s.setFormula_frame raw latex
    exact change hlatest hjobs hdisplay
  | mode | domain | clip | resolution | percentile => exact change rfl rfl rfl
  | finish i => exact h.finished hs i
  | request =>
    cases hp : s.parameters? with
    | none =>
      rw [Session.act, requested_of_none hp]
      exact change rfl rfl rfl
    | some p =>
      rw [Session.act, requested_of_some hp]
      exact h.draw hp hs
  | refresh =>
    cases hp : s.parameters? with
    | none =>
      simp only [Session.act, request?_eq, hp, Option.map_none]
      exact change rfl rfl rfl
    | some p =>
      simp only [Session.act, request?_eq, hp, Option.map_some, requested_of_some hp]
      rw [← List.append_assoc]
      exact h.finished (h.draw hp hs) _

/-- **What every change keeps, every run keeps.** -/
theorem run_preserves (h : Preserved P) : ∀ {s log} (as : List (Action α)), P s log →
    P (s.run as).1 (log ++ (s.run as).2)
  | s, log, [], hs => by
    rw [run, List.append_nil]
    exact hs
  | s, log, a :: as, hs => by
    rw [run, ← List.append_assoc]
    exact run_preserves h as (h.act hs a)

end Preserved

/-! ## The tickets of a run -/

theorem issued_not_mem_finished {s : Session α} {i t : Nat} {p : Parameters α} :
    .issued t p ∉ (s.finished i).2 := by
  rcases s.finished_cases i with ⟨job, -, -, heq⟩ | ⟨-, heq⟩
  · rw [heq]
    simp
  · rw [heq]
    simp

/-- A ticket is issued when a sweep is asked for, with the parameters of that moment. -/
theorem issued_mem_act {s : Session α} {a : Action α} {t : Nat} {p : Parameters α} :
    .issued t p ∈ (s.act a).2 ↔ a.requests = true ∧ s.parameters? = some p ∧ t = s.latest + 1 := by
  cases a with
  | formula | mode | domain | clip | resolution | percentile => simp [act, Action.requests]
  | finish i =>
    simp only [act, Action.requests, Bool.false_eq_true, false_and, iff_false]
    exact issued_not_mem_finished
  | request =>
    cases hq : s.parameters? with
    | none => simp [act, requested_of_none hq]
    | some q =>
      simp only [act, requested_of_some hq, Action.requests, List.mem_singleton, Event.issued.injEq, true_and,
        Option.some.injEq]
      constructor
      · rintro ⟨rfl, rfl⟩
        exact ⟨rfl, rfl⟩
      · rintro ⟨rfl, rfl⟩
        exact ⟨rfl, rfl⟩
  | refresh =>
    cases hq : s.parameters? with
    | none => simp [act, request?_eq, hq]
    | some q =>
      simp only [act, request?_eq, hq, Option.map_some, requested_of_some hq, Action.requests, true_and,
        Option.some.injEq, List.singleton_append, List.mem_cons, Event.issued.injEq]
      constructor
      · rintro (⟨rfl, rfl⟩ | h)
        · exact ⟨rfl, rfl⟩
        · exact absurd h issued_not_mem_finished
      · rintro ⟨rfl, rfl⟩
        exact Or.inl ⟨rfl, rfl⟩

/-- **The tickets of a run are those of its requests.** -/
theorem issued_mem_run {t : Nat} {p : Parameters α} : ∀ {s : Session α} {as : List (Action α)},
    .issued t p ∈ (s.run as).2 ↔ ∃ before a after, as = before ++ a :: after ∧ a.requests = true ∧
      (s.run before).1.parameters? = some p ∧ t = (s.run before).1.latest + 1
  | s, [] => by simp [run]
  | s, a :: as => by
    rw [run, List.mem_append, issued_mem_act, issued_mem_run]
    constructor
    · rintro (h | ⟨before, b, after, rfl, h⟩)
      · exact ⟨[], a, as, rfl, h⟩
      · exact ⟨a :: before, b, after, rfl, h⟩
    · rintro ⟨before, b, after, heq, h⟩
      cases before with
      | nil =>
        obtain ⟨rfl, rfl⟩ := List.cons.inj heq
        exact Or.inl h
      | cons c before =>
        obtain ⟨rfl, rfl⟩ := List.cons.inj heq
        exact Or.inr ⟨before, b, after, rfl, h⟩

end Session

end Heightfield
