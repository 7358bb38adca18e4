import Heightfield.Proofs.Names.Operands
import Heightfield.Proofs.Session.Order
/-!
# Steps that fail

A formula can be rejected, a sweep can be asked for without a formula, and a sweep can give no surface or come
too late.  None of this disturbs a session: a rejected formula leaves behind only what was wrong with it, and
a sweep only its ticket and its result (`act_of_fails`, `run_of_allFail`).  `failures_contained` says in full
what each failure leaves as it was.
-/
namespace Heightfield

variable {α : Type} [Analytic α]

/-! ## Formulas that are rejected -/

/-- **Only an unknown mode is no fault of the text.** -/
theorem Formula.unknownMode_of_parse {mode : Except String Mode} {latex : Bool} {raw : String}
    {e : FormulaError} (h : Formula.parse mode latex raw = .error e) (he : e.kind? = none) :
    ∃ shown, mode = .error shown ∧ e = .unknownMode shown := by
  cases mode with
  | ok mode =>
    obtain ⟨kind, hkind⟩ := Formula.kind?_of_parse h
    rw [he] at hkind
    cases hkind
  | error shown =>
    refine ⟨shown, rfl, ?_⟩
    unfold Formula.parse at h
    simp only [Formula.compile] at h
    generalize (if latex then latexToPlain raw else raw) = plain at h
    split at h
    · rw [← Except.error.inj h] at he
      cases he
    · split at h
      · rw [← Except.error.inj h] at he
        cases he
      · exact (Except.error.inj h).symm

namespace Session

theorem setFormula_of_ok {s : Session α} {raw : String} {latex : Bool} {f : Formula}
    (h : Formula.parse (Mode.ofJson s.mode) latex raw = .ok f) :
    s.setFormula raw latex = ({ s with formula := some f, rejected := none }, .ok f) := by
  unfold setFormula
  rw [h]

/-- A fault of the text is remembered, and nothing else is changed. -/
theorem setFormula_of_kind {s : Session α} {raw : String} {latex : Bool} {e : FormulaError}
    (h : Formula.parse (Mode.ofJson s.mode) latex raw = .error e) (he : e.kind? ≠ none) :
    s.setFormula raw latex = ({ s with rejected := some e }, .error e) := by
  unfold setFormula
  rw [h]
  simp only [if_pos (Option.isSome_iff_ne_none.2 he)]

theorem setFormula_of_no_kind {s : Session α} {raw : String} {latex : Bool} {e : FormulaError}
    (h : Formula.parse (Mode.ofJson s.mode) latex raw = .error e) (he : e.kind? = none) :
    s.setFormula raw latex = (s, .error e) := by
  unfold setFormula
  rw [h]
  simp only [he, Option.isSome_none, Bool.false_eq_true, if_false]

end Session

/-! ## Sweeps that give no surface -/

/-- A sweep fails for its resolution or, once the surface is sampled, for its percentile. -/
theorem Parameters.sweep_eq_error {p : Parameters α} {e : SweepError} :
    p.sweep = .error e ↔
      (∃ r, Resolution.ofJson p.resolution = .error r ∧ e = .resolution r) ∨
      ∃ n l, Resolution.ofJson p.resolution = .ok n ∧
        (Grid.sample p.formula p.domain n p.clip p.wholeSweeps).limits p.percentile = .error l ∧
        e = .limits l := by
  unfold Parameters.sweep
  cases hn : Resolution.ofJson p.resolution with
  | error r => simp [eq_comm]
  | ok n =>
    cases hl : (Grid.sample p.formula p.domain n p.clip p.wholeSweeps).limits p.percentile with
    | error l => simp [hl, eq_comm]
    | ok l => simp [hl]

theorem Parameters.outcome_of_error {p : Parameters α} {e : SweepError} (h : p.sweep = .error e)
    (t latest : Nat) : p.outcome t latest = .error e := by
  unfold Parameters.outcome
  rw [h]
  rfl

/-- Nothing is shown by a sweep that comes too late or gives no surface. -/
theorem shownBy?_eq_none {p : Parameters α} {t latest : Nat} :
    shownBy? (p.outcome t latest) = none ↔ t ≠ latest ∨ ∃ e, p.sweep = .error e := by
  rw [Option.eq_none_iff_forall_ne_some]
  simp only [ne_eq, shownBy?_eq_some, not_and]
  cases hp : p.sweep with
  | error e => simp
  | ok surface => simp

namespace Session

section
variable {s : Session α} {i : Nat} {job : Job α}

/-- **Of a sweep that shows nothing only the result is kept.** -/
theorem settled_of_unseen (h : shownBy? (job.parameters.outcome job.ticket s.latest) = none) :
    s.settled i job =
      { s with
        jobs := s.jobs.set i { job with result := some (job.parameters.outcome job.ticket s.latest) } } := by
  simp only [settled, h, Option.elim_none]

theorem finish?_of_done {r : Except SweepError (Update α)} (hi : s.jobs[i]? = some job)
    (hjob : job.result = some r) : s.finish? i = some (s, r) := by
  unfold finish?
  rw [hi, Option.map_some, hjob]

/-- A sweep that gives no surface leaves behind its error. -/
theorem finish?_of_error {e : SweepError} (hi : s.jobs[i]? = some job) (hjob : job.result = none)
    (he : job.parameters.sweep = .error e) :
    s.finish? i =
      some ({ s with jobs := s.jobs.set i { job with result := some (.error e) } }, .error e) := by
  have hunseen : shownBy? (job.parameters.outcome job.ticket s.latest) = none :=
    shownBy?_eq_none.2 (Or.inr ⟨e, he⟩)
  rw [finish?_of_pending hi hjob, settled_of_unseen hunseen, Parameters.outcome_of_error he]

/-- A sweep that comes too late leaves behind its surface, which was not applied. -/
theorem finish?_of_outdated {surface : Surface α} (hi : s.jobs[i]? = some job) (hjob : job.result = none)
    (hsweep : job.parameters.sweep = .ok surface) (hticket : job.ticket ≠ s.latest) :
    s.finish? i =
      some ({ s with jobs := s.jobs.set i { job with result := some (.ok ⟨job.ticket, surface, false⟩) } },
        .ok ⟨job.ticket, surface, false⟩) := by
  have hunseen : shownBy? (job.parameters.outcome job.ticket s.latest) = none :=
    shownBy?_eq_none.2 (Or.inl hticket)
  have houtcome : job.parameters.outcome job.ticket s.latest = .ok ⟨job.ticket, surface, false⟩ := by
    rw [Parameters.outcome, hsweep, decide_eq_false hticket]
    rfl
  rw [finish?_of_pending hi hjob, settled_of_unseen hunseen, houtcome]

/-- A sweep that fails at once leaves behind its ticket and its result. -/
theorem refresh?_of_error {p : Parameters α} {e : SweepError} (hp : s.parameters? = some p)
    (he : p.sweep = .error e) :
    s.refresh? =
      some ({ s with latest := s.latest + 1, jobs := s.jobs ++ [⟨s.latest + 1, p, some (.error e)⟩] },
        .error e) := by
  have hunseen : shownBy? (p.outcome (s.latest + 1) (s.drawn p).latest) = none :=
    shownBy?_eq_none.2 (Or.inr ⟨e, he⟩)
  rw [refresh?_eq hp, settled_of_unseen hunseen]
  simp only [Parameters.outcome_of_error he]
  simp [drawn]

theorem parameters?_of_no_formula (h : s.formula = none) : s.parameters? = none := by
  unfold parameters?
  rw [h, Option.map_none]

theorem act_of_no_formula (h : s.formula = none) {a : Action α} (ha : a.requests = true) :
    s.act a = (s, []) := by
  have hparameters := parameters?_of_no_formula h
  cases a with
  | request => exact requested_of_none hparameters
  | refresh => simp only [act, request?_eq, hparameters, Option.map_none]
  | _ => cases ha

end

/-! ## Actions that fail -/

/-- The formula is rejected, or there is none to sweep, or the sweep gives nothing to show. -/
def Fails (s : Session α) : Action α → Prop
  | .formula raw latex => ∃ e, Formula.parse (Mode.ofJson s.mode) latex raw = .error e
  | .request => s.parameters? = none
  | .refresh => ∀ p, s.parameters? = some p → ∃ e, p.sweep = .error e
  | .finish i => ∀ surface, ¬ s.Awaits i surface
  | .mode _ | .domain _ | .clip _ | .resolution _ | .percentile _ => False

/-- Every action of the list fails when its turn comes. -/
def AllFail (s : Session α) : List (Action α) → Prop
  | [] => True
  | a :: as => s.Fails a ∧ (s.act a).1.AllFail as

/-- The second session is the first one, but for what was wrong with the last formula, the tickets, and the
results of sweeps. -/
structure Undisturbed (s s' : Session α) : Prop where
  eq : s' = { s with rejected := s'.rejected, latest := s'.latest, jobs := s'.jobs }
  rejected : s'.rejected = none → s.rejected = none
  latest : s.latest ≤ s'.latest
  /-- The sweeps of before are still there, and those that were finished keep their results. -/
  jobs : ∀ (i : Nat) (job : Job α), s.jobs[i]? = some job → ∃ job' : Job α, s'.jobs[i]? = some job' ∧ job'.ticket = job.ticket ∧
    job'.parameters = job.parameters ∧ (job.result ≠ none → job'.result = job.result)

namespace Undisturbed

variable {s s' s'' : Session α}

theorem refl (s : Session α) : Undisturbed s s :=
  ⟨rfl, id, Nat.le_refl _, fun _ job hi => ⟨job, hi, rfl, rfl, fun _ => rfl⟩⟩

theorem trans (h : Undisturbed s s') (h' : Undisturbed s' s'') : Undisturbed s s'' where
  eq := by
    rw [h'.eq, h.eq]
  rejected := fun hnone => h.rejected (h'.rejected hnone)
  latest := h.latest.trans h'.latest
  jobs := by
    intro i job hi
    obtain ⟨job', hi', hticket, hparameters, hresult⟩ := h.jobs i job hi
    obtain ⟨job'', hi'', hticket', hparameters', hresult'⟩ := h'.jobs i job' hi'
    refine ⟨job'', hi'', hticket'.trans hticket, hparameters'.trans hparameters, fun hdone => ?_⟩
    have hkept := hresult hdone
    rw [hresult' (hkept ▸ hdone), hkept]

theorem of_rejected (s : Session α) (e : FormulaError) : Undisturbed s { s with rejected := some e } :=
  ⟨rfl, nofun, Nat.le_refl _, fun _ job hi => ⟨job, hi, rfl, rfl, fun _ => rfl⟩⟩

theorem of_drawn (s : Session α) (p : Parameters α) : Undisturbed s (s.drawn p) where
  eq := rfl
  rejected := id
  latest := Nat.le_succ _
  jobs := by
    intro i job hi
    obtain ⟨hlt, -⟩ := List.getElem?_eq_some_iff.1 hi
    exact ⟨job, (List.getElem?_append_left hlt).trans hi, rfl, rfl, fun _ => rfl⟩

theorem of_settled {i : Nat} {job : Job α} (hi : s.jobs[i]? = some job) (hjob : job.result = none)
    (h : shownBy? (job.parameters.outcome job.ticket s.latest) = none) :
    Undisturbed s (s.settled i job) where
  eq := by
    rw [settled_of_unseen h]
  rejected := id
  latest := Nat.le_refl _
  jobs := by
    intro j old hj
    by_cases hij : i = j
    · subst hij
      obtain rfl := Option.some.inj (hi.symm.trans hj)
      exact ⟨_, jobs_settled_self hi, rfl, rfl, fun hdone => absurd hjob hdone⟩
    · exact ⟨old, (jobs_settled_ne s job hij).trans hj, rfl, rfl, fun _ => rfl⟩

end Undisturbed

/-- A sweep that is not awaited disturbs nothing. -/
theorem undisturbed_finished {s : Session α} {i : Nat} (h : ∀ surface, ¬ s.Awaits i surface) :
    Undisturbed s (s.finished i).1 := by
  rcases s.finished_cases i with ⟨job, hi, hjob, heq⟩ | ⟨-, heq⟩
  · rw [heq]
    refine .of_settled hi hjob (Option.eq_none_iff_forall_ne_some.2 fun surface hshown => ?_)
    obtain ⟨hticket, hsweep⟩ := shownBy?_eq_some.1 hshown
    exact h surface ⟨job, hi, hjob, hticket, hsweep⟩
  · rw [heq]
    exact .refl s

/-- **An action that fails disturbs nothing.** -/
theorem act_of_fails {s : Session α} {a : Action α} (h : s.Fails a) : Undisturbed s (s.act a).1 := by
  cases a with
  | mode | domain | clip | resolution | percentile => exact h.elim
  | formula raw latex =>
    obtain ⟨e, he⟩ := h
    rw [act]
    by_cases hkind : e.kind? = none
    · rw [setFormula_of_no_kind he hkind]
      exact .refl s
    · rw [setFormula_of_kind he hkind]
      exact .of_rejected s e
  | request =>
    rw [act, requested_of_none h]
    exact .refl s
  | finish i => exact undisturbed_finished h
  | refresh =>
    rw [act_refresh]
    cases hp : s.parameters? with
    | none =>
      rw [refresh?, request?_eq, hp]
      exact .refl s
    | some p =>
      obtain ⟨e, he⟩ := h p hp
      have hpending := s.getElem?_drawn p
      rw [refresh?_eq hp, Option.elim_some]
      exact (Undisturbed.of_drawn s p).trans
        (.of_settled hpending rfl (shownBy?_eq_none.2 (Or.inr ⟨e, he⟩)))

/-- **Nor do any number of actions that fail.** -/
theorem run_of_allFail : ∀ {s : Session α} {as : List (Action α)}, s.AllFail as → Undisturbed s (s.run as).1
  | s, [], _ => .refl s
  | s, a :: as, h => by
    rw [run]
    exact (act_of_fails h.1).trans (run_of_allFail h.2)

/-- **No failure disturbs a session.**  In every session that can be reached: a formula that is accepted
replaces the one before and clears what was wrong; one that is rejected changes only what was wrong, and
nothing at all if the fault is an unknown mode.  Without a formula no ticket is drawn and nothing changes.  Of a
sweep that gives no surface, or whose ticket is no longer the latest, only the result is kept, and of one
that fails at once also its ticket.  Any number of failures leave the formula, the parameters and the display
as they were. -/
theorem failures_contained (mode : Json) (domain : Domain α) (resolution : Json) (clip : Option (Clip α))
    (percentile : α) (wholeSweeps : Bool) (history : List (Action α)) :
    let s := ((new mode domain resolution clip percentile wholeSweeps).run history).1
    (∀ raw latex,
      (∀ f, Formula.parse (Mode.ofJson s.mode) latex raw = .ok f →
        s.setFormula raw latex = ({ s with formula := some f, rejected := none }, .ok f)) ∧
      (∀ e, Formula.parse (Mode.ofJson s.mode) latex raw = .error e → e.kind? ≠ none →
        s.setFormula raw latex = ({ s with rejected := some e }, .error e)) ∧
      (∀ e, Formula.parse (Mode.ofJson s.mode) latex raw = .error e → e.kind? = none →
        (∃ shown, Mode.ofJson s.mode = .error shown ∧ e = .unknownMode shown) ∧
          s.setFormula raw latex = (s, .error e))) ∧
    (s.formula = none → s.request? = none ∧ s.refresh? = none ∧
      ∀ a : Action α, a.requests = true → s.act a = (s, [])) ∧
    (∀ (i : Nat) (job : Job α), s.jobs[i]? = some job →
      (∀ r, job.result = some r → s.finish? i = some (s, r)) ∧
      (job.result = none →
        (∀ e, job.parameters.sweep = .error e → s.finish? i =
          some ({ s with jobs := s.jobs.set i { job with result := some (.error e) } }, .error e)) ∧
        (∀ surface, job.parameters.sweep = .ok surface → job.ticket ≠ s.latest → s.finish? i =
          some ({ s with jobs := s.jobs.set i { job with result := some (.ok ⟨job.ticket, surface, false⟩) } },
            .ok ⟨job.ticket, surface, false⟩)))) ∧
    (∀ p e, s.parameters? = some p → p.sweep = .error e → s.refresh? =
      some ({ s with latest := s.latest + 1, jobs := s.jobs ++ [⟨s.latest + 1, p, some (.error e)⟩] },
        .error e)) ∧
    (∀ as : List (Action α), s.AllFail as →
      (s.run as).1.formula = s.formula ∧ (s.run as).1.display = s.display ∧ Undisturbed s (s.run as).1) := by
  intro s
  refine ⟨fun raw latex => ⟨fun f => setFormula_of_ok, fun e => setFormula_of_kind, fun e he hkind => ?_⟩,
    fun hnone => ?_,
    fun i job hi => ⟨fun r => finish?_of_done hi, fun hjob => ⟨fun e => finish?_of_error hi hjob, fun surface =>
      finish?_of_outdated hi hjob⟩⟩,
    fun p e => refresh?_of_error, fun as has => ?_⟩
  · exact ⟨Formula.unknownMode_of_parse he hkind, setFormula_of_no_kind he hkind⟩
  · have hrequest : s.request? = none := by rw [request?_eq, parameters?_of_no_formula hnone, Option.map_none]
    exact ⟨hrequest, by rw [refresh?, hrequest, Option.bind_none], fun a => act_of_no_formula hnone⟩
  · have h := run_of_allFail has
    refine ⟨?_, ?_, h⟩
    · rw [h.eq]
    · rw [h.eq]

theorem isFinite_ofInt_zero : Scalar.isFinite (Scalar.ofInt 0 : Float) = true := by decide +kernel

theorem lt_ofInt_zero : Scalar.lt (Scalar.ofInt 0 : Float) (Scalar.ofInt 0) = false := by decide +kernel

/-- The domain of a single point. -/
def origin : Domain Float :=
  let point : Interval Float :=
    ⟨Scalar.ofInt 0, Scalar.ofInt 0, isFinite_ofInt_zero, isFinite_ofInt_zero, lt_ofInt_zero⟩
  ⟨point, point⟩

/-- A session whose first sweep is outdated, and whose second one has a resolution that is none. -/
def barren : Session Float :=
  ((new (.string "real") origin (.int 1) none (Scalar.ofInt 95) false).run
    [.formula "x" false, .request, .resolution (.int 0), .request]).1

theorem failures_of_barren :
    barren.setFormula "x+" false = ({ barren with rejected := some .malformed }, .error .malformed) ∧
    (∃ job surface, barren.jobs[0]? = some job ∧ job.parameters.sweep = .ok surface ∧ barren.finish? 0 =
      some ({ barren with
          jobs := barren.jobs.set 0 { job with result := some (.ok ⟨job.ticket, surface, false⟩) } },
        .ok ⟨job.ticket, surface, false⟩)) ∧
    ∃ job e, barren.jobs[1]? = some job ∧ job.parameters.sweep = .error e ∧ barren.finish? 1 =
      some ({ barren with jobs := barren.jobs.set 1 { job with result := some (.error e) } }, .error e) := by
  have hall := failures_contained (.string "real") origin (.int 1) none (Scalar.ofInt 95) false
    [.formula "x" false, .request, .resolution (.int 0), .request]
  rw [← barren] at hall
  obtain ⟨hformula, -, hsweep, -⟩ := hall
  have hstale : (barren.jobs[0]?.elim false fun job =>
      job.result.isNone && job.ticket != barren.latest && job.parameters.sweep.isOk) = true := by decide +kernel
  have hfailing : (barren.jobs[1]?.elim false fun job =>
      job.result.isNone && !job.parameters.sweep.isOk) = true := by decide +kernel
  refine ⟨(hformula "x+" false).2.1 .malformed (by decide +kernel) (by decide), ?_, ?_⟩
  · cases hi : barren.jobs[0]? with
    | none =>
      rw [hi] at hstale
      cases hstale
    | some job =>
      rw [hi] at hstale
      simp only [Option.elim_some, Bool.and_eq_true, Option.isNone_iff_eq_none, bne_iff_ne] at hstale
      obtain ⟨⟨hjob, hticket⟩, hok⟩ := hstale
      cases hsurface : job.parameters.sweep with
      | error e =>
        rw [hsurface] at hok
        cases hok
      | ok surface =>
        exact ⟨job, surface, rfl, hsurface, ((hsweep 0 job hi).2 hjob).2 surface hsurface hticket⟩
  · cases hi : barren.jobs[1]? with
    | none =>
      rw [hi] at hfailing
      cases hfailing
    | some job =>
      rw [hi] at hfailing
      simp only [Option.elim_some, Bool.and_eq_true, Option.isNone_iff_eq_none, Bool.not_eq_true'] at hfailing
      obtain ⟨hjob, hok⟩ := hfailing
      cases hsurface : job.parameters.sweep with
      | ok surface =>
        rw [hsurface] at hok
        cases hok
      | error e => exact ⟨job, e, rfl, hsurface, ((hsweep 1 job hi).2 hjob).1 e hsurface⟩

end Session

end Heightfield
