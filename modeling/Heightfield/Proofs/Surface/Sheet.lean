import Heightfield.Proofs.Surface.Cell
/-!
# A formula over a lattice is the formula in its cells

When every step of a formula can be applied to whole sheets, the sheet that comes out holds in
each cell the value of the formula in that cell (`Formula.shows_sheet?`).  A single value stands
for all cells, so it is the value in every one; a sheet is single just if the formula has no
variables (`Expr.isUniform_sheet?`).  Nothing is said about formulas with a step that fails in
some cell: they have no sheet.
-/
namespace Heightfield

/-! ## Tables in which every entry was read -/

section Read

variable {β γ δ : Type} {f : β → Option γ} {p : γ → δ} {q : β → δ}

theorem map_eq_map_of_mapM (h : ∀ a b, f a = some b → p b = q a) :
    ∀ {l : List β} {t : List γ}, l.mapM f = some t → t.map p = l.map q
  | [], t, ht => by
    obtain rfl : t = [] := by simpa using ht.symm
    rfl
  | a :: l, t, ht => by
    simp only [List.mapM_cons, Option.bind_eq_bind, Option.bind_eq_some_iff, Option.pure_def,
      Option.some.injEq] at ht
    obtain ⟨b, hb, u, hu, rfl⟩ := ht
    rw [List.map_cons, List.map_cons, h a b hb, map_eq_map_of_mapM h hu]

theorem map_map_eq_of_mapM (h : ∀ a b, f a = some b → p b = q a) {rows : List (List β)} {t : List (List γ)}
    (ht : rows.mapM (List.mapM f) = some t) : t.map (·.map p) = rows.map (·.map q) :=
  map_eq_map_of_mapM (fun _ _ hr => map_eq_map_of_mapM h hr) ht

end Read

namespace Formula

variable {α : Type} {xs ys : List α}

namespace Sheet

/-- The sheet holds in every cell what `f` gives at the point of the cell. -/
def Shows (xs ys : List α) (s : Sheet α) (f : α → α → Option (Value α)) : Prop :=
  (s.rows xs ys).map (·.map some) = tabulate xs ys f

theorem Shows.congr {s : Sheet α} {f g : α → α → Option (Value α)} (h : s.Shows xs ys f)
    (hfg : ∀ x ∈ xs, ∀ y ∈ ys, f x y = g x y) : s.Shows xs ys g := by
  rw [Shows, ← tabulate_congr hfg]
  exact h

/-- A function of values that may be missing, read off the sheet and of what it shows. -/
theorem Shows.map_rows {β : Type} {s : Sheet α} {value : α → α → Option (Value α)} (h : s.Shows xs ys value)
    (g : Option (Value α) → β) :
    (s.rows xs ys).map (·.map fun v => g (some v)) = tabulate xs ys fun x y => g (value x y) := by
  rw [← map_tabulate _ g, ← h, List.map_map]
  simp only [Function.comp_def, List.map_map]

theorem shows_uniform (v : Value α) : (uniform v).Shows xs ys fun _ _ => some v :=
  map_tabulate _ _

theorem eq_some_of_shows_uniform {v : Value α} {f : α → α → Option (Value α)}
    (h : (uniform v).Shows xs ys f) : ∀ x ∈ xs, ∀ y ∈ ys, f x y = some v := by
  intro x hx y hy
  have hv : tabulate xs ys (fun _ _ => some v) = tabulate xs ys f := (shows_uniform v).symm.trans h
  exact (eq_of_tabulate_eq hv x hx y hy).symm

theorem shows_ofPoints (f : α → α → Value α) : (ofPoints xs ys f).Shows xs ys fun x y => some (f x y) :=
  map_tabulate _ _

theorem Shows.map {s : Sheet α} {f : α → α → Option (Value α)} (k : Value α → Value α)
    (h : s.Shows xs ys f) : (s.map k).Shows xs ys fun x y => (f x y).map k := by
  cases s with
  | uniform v =>
    refine (shows_uniform (k v)).congr fun x hx y hy => ?_
    rw [eq_some_of_shows_uniform h x hx y hy, Option.map_some]
  | cells rows =>
    have hk : (rows.map (·.map k)).map (·.map some) = (rows.map (·.map some)).map (·.map (Option.map k)) := by
      simp [Function.comp_def]
    rw [Shows, ← map_tabulate f (Option.map k), ← h]
    exact hk

theorem Shows.map? {s t : Sheet α} {f : α → α → Option (Value α)} {k : Value α → Option (Value α)}
    (h : s.Shows xs ys f) (ht : s.map? k = some t) : t.Shows xs ys fun x y => (f x y).bind k := by
  cases s with
  | uniform v =>
    obtain ⟨w, hw, rfl⟩ := Option.map_eq_some_iff.1 ht
    refine (shows_uniform w).congr fun x hx y hy => ?_
    rw [eq_some_of_shows_uniform h x hx y hy, Option.bind_some, hw]
  | cells rows =>
    obtain ⟨rows', hrows', rfl⟩ := Option.map_eq_some_iff.1 ht
    have hk : rows'.map (·.map some) = (rows.map (·.map some)).map (·.map (Option.bind · k)) := by
      rw [map_map_eq_of_mapM (fun _ _ hb => hb.symm) hrows']
      simp [Function.comp_def]
    rw [Shows, ← map_tabulate f (Option.bind · k), ← h]
    exact hk

/-! ## Two operands -/

theorem map_some_of_zipRow? {k : Value α → Value α → Option (Value α)} :
    ∀ {vs ws us : List (Value α)}, zipRow? k vs ws = some us → us.map some = List.zipWith k vs ws
  | [], ws, us, h => by
    obtain rfl : us = [] := by simpa [zipRow?] using h.symm
    rfl
  | v :: vs, [], us, h => by
    obtain rfl : us = [] := by simpa [zipRow?] using h.symm
    rfl
  | v :: vs, w :: ws, us, h => by
    obtain ⟨u, hu, h⟩ := Option.bind_eq_some_iff.1 h
    obtain ⟨us', hus', rfl⟩ := Option.map_eq_some_iff.1 h
    rw [List.map_cons, List.zipWith_cons_cons, hu, map_some_of_zipRow? hus']

theorem map_some_of_zipRows? {k : Value α → Value α → Option (Value α)} :
    ∀ {rs ss ts : List (List (Value α))}, zipRows? k rs ss = some ts →
      ts.map (·.map some) = List.zipWith (List.zipWith k) rs ss
  | [], ss, ts, h => by
    obtain rfl : ts = [] := by simpa [zipRows?] using h.symm
    rfl
  | r :: rs, [], ts, h => by
    obtain rfl : ts = [] := by simpa [zipRows?] using h.symm
    rfl
  | r :: rs, s :: ss, ts, h => by
    obtain ⟨t, ht, h⟩ := Option.bind_eq_some_iff.1 h
    obtain ⟨ts', hts', rfl⟩ := Option.map_eq_some_iff.1 h
    rw [List.map_cons, List.zipWith_cons_cons, map_some_of_zipRow? ht, map_some_of_zipRows? hts']

/-- An operation on two values that may be missing. -/
def lift (k : Value α → Value α → Option (Value α)) (v w : Option (Value α)) : Option (Value α) :=
  v.bind fun v => w.bind (k v)

theorem zipWith_lift (k : Value α → Value α → Option (Value α)) (rs ss : List (List (Value α))) :
    List.zipWith (List.zipWith (lift k)) (rs.map (·.map some)) (ss.map (·.map some)) =
      List.zipWith (List.zipWith k) rs ss := by
  simp [List.zipWith_map, lift]

theorem Shows.zip? {s t u : Sheet α} {f g : α → α → Option (Value α)}
    {k : Value α → Value α → Option (Value α)} (hs : s.Shows xs ys f) (ht : t.Shows xs ys g)
    (hu : s.zip? k t = some u) : u.Shows xs ys fun x y => lift k (f x y) (g x y) := by
  cases s with
  | uniform v =>
    -- the first operand is `v` everywhere, so the second alone is mapped
    have hf := eq_some_of_shows_uniform hs
    have hu' : t.map? (k v) = some u := by cases t <;> exact hu
    refine (ht.map? hu').congr fun x hx y hy => ?_
    rw [hf x hx y hy, lift, Option.bind_some]
  | cells rows =>
    cases t with
    | uniform w =>
      have hg := eq_some_of_shows_uniform ht
      refine (hs.map? (k := (k · w)) hu).congr fun x hx y hy => ?_
      simp only [lift, hg x hx y hy, Option.bind_some]
    | cells rows' =>
      obtain ⟨rows'', h, rfl⟩ := Option.map_eq_some_iff.1 hu
      rw [Shows, ← zipWith_tabulate (lift k) f g, ← hs, ← ht]
      exact (map_some_of_zipRows? h).trans (zipWith_lift k rows rows').symm

end Sheet

/-! ## Expressions -/

/-- Whether the sheet is one value for all cells. -/
def Sheet.isUniform : Sheet α → Bool
  | uniform _ => true
  | cells _ => false

open Sheet (Shows isUniform shows_ofPoints shows_uniform)

section
variable {s t u : Sheet α}

theorem Sheet.isUniform_map (k : Value α → Value α) : (s.map k).isUniform = s.isUniform := by cases s <;> rfl

theorem Sheet.isUniform_map? {k : Value α → Option (Value α)} (h : s.map? k = some t) :
    t.isUniform = s.isUniform := by
  cases s <;> (obtain ⟨w, -, rfl⟩ := Option.map_eq_some_iff.1 h; rfl)

theorem Sheet.isUniform_zip? {k : Value α → Value α → Option (Value α)} (h : s.zip? k t = some u) :
    u.isUniform = (s.isUniform && t.isUniform) := by
  cases s <;> cases t <;> (obtain ⟨w, -, rfl⟩ := Option.map_eq_some_iff.1 h; rfl)

end

variable [Analytic α] {s t u : Sheet α} {mode : Mode}

/-- An operation on sheets maps the cells to shared powers, or acts in every cell as it does on values. -/
theorem Operation.sheet?_cases {op : Operation} (h : op.sheet? s t = some u) :
    (op = .pow ∧ (∃ rows, s = .cells rows) ∧ ∃ exponent, t = .uniform exponent ∧
      s.map? (Value.powShared · exponent) = some u) ∨
    ((op = .pow → s.isUniform = true ∨ t.isUniform = false) ∧ s.zip? op.eval t = some u) := by
  unfold Operation.sheet? at h
  split at h
  · rename_i rows exponent
    exact Or.inl ⟨rfl, ⟨rows, rfl⟩, exponent, rfl, h⟩
  · rename_i hne
    split at h
    · cases h
    refine Or.inr ⟨fun hop => ?_, h⟩
    cases s with
    | uniform v => exact Or.inl rfl
    | cells rows =>
      cases t with
      | uniform w => exact absurd rfl (hne rows w hop rfl)
      | cells rows' => exact Or.inr rfl

/-- The sheet of a variable has its value at each point. -/
theorem exists_ofPoints_of_sheets {name : String} (h : sheets mode xs ys name = some s) :
    ∃ f, s = Sheet.ofPoints xs ys f ∧ ∀ x y, environment mode x y name = some (f x y) := by
  unfold sheets at h
  unfold environment
  cases mode with
  | real =>
    dsimp only at h ⊢
    split at h <;> rename_i hx
    · cases h; exact ⟨_, rfl, fun x y => by rw [if_pos hx]⟩
    · split at h <;> rename_i hy
      · cases h; exact ⟨_, rfl, fun x y => by rw [if_neg hx, if_pos hy]⟩
      · cases h
  | complex =>
    dsimp only at h ⊢
    split at h <;> rename_i hx
    · cases h; exact ⟨_, rfl, fun x y => by rw [if_pos hx]⟩
    · split at h <;> rename_i hy
      · cases h; exact ⟨_, rfl, fun x y => by rw [if_neg hx, if_pos hy]⟩
      · split at h <;> rename_i hz
        · cases h; exact ⟨_, rfl, fun x y => by rw [if_neg hx, if_neg hy, if_pos hz]⟩
        · cases h

theorem isUniform_sheets {name : String} (h : sheets mode xs ys name = some s) : s.isUniform = false := by
  obtain ⟨f, rfl, -⟩ := exists_ofPoints_of_sheets h
  rfl

theorem shows_sheets {name : String} (h : sheets mode xs ys name = some s) :
    s.Shows xs ys fun x y => environment mode x y name := by
  obtain ⟨f, rfl, hf⟩ := exists_ofPoints_of_sheets h
  exact (shows_ofPoints f).congr fun x _ y _ => (hf x y).symm

/-- **A sheet is one value for all cells just if the expression has no variables.** -/
theorem Expr.isUniform_sheet? : ∀ {e : Expr} {s : Sheet α}, e.sheet? (sheets mode xs ys) = some s →
    e.varies = !s.isUniform
  | .int n, s, h => by cases h; rfl
  | .decimal d e, s, h => by cases h; rfl
  | .constant c, s, h => by cases h; rfl
  | .var name, s, h => by rw [isUniform_sheets h]; rfl
  | .neg a, s, h => by
    obtain ⟨t, ht, rfl⟩ := Option.map_eq_some_iff.1 h
    rw [Sheet.isUniform_map, ← isUniform_sheet? ht]
    rfl
  | .apply f a, s, h => by
    obtain ⟨t, ht, h⟩ := Option.bind_eq_some_iff.1 h
    rw [Sheet.isUniform_map? h, ← isUniform_sheet? ht]
    rfl
  | .binary op a b, s, h => by
    obtain ⟨t, ht, h⟩ := Option.bind_eq_some_iff.1 h
    obtain ⟨u, hu, h⟩ := Option.bind_eq_some_iff.1 h
    rw [varies_binary, isUniform_sheet? ht, isUniform_sheet? hu]
    rcases Operation.sheet?_cases h with ⟨-, ⟨rows, rfl⟩, exponent, rfl, hmap⟩ | ⟨-, hzip⟩
    · rw [Sheet.isUniform_map? hmap]
      rfl
    · rw [Sheet.isUniform_zip? hzip, Bool.not_and]
  | .undefined _, s, h => by cases h
  | .applied _ _, s, h => by cases h
  | .bare, s, h => by cases h

theorem Operation.shows_sheet? {op : Operation} {a b : Expr} {f g : α → α → Option (Value α)}
    (hs : s.Shows xs ys f) (ht : t.Shows xs ys g) (ha : a.varies = !s.isUniform) (hb : b.varies = !t.isUniform)
    (h : op.sheet? s t = some u) :
    u.Shows xs ys fun x y => (f x y).bind fun v => (g x y).bind (Expr.operate op a b v) := by
  rcases Operation.sheet?_cases h with ⟨rfl, ⟨rows, rfl⟩, exponent, rfl, h⟩ | ⟨hpow, h⟩
  · -- the exponent stands for all cells, so it is the second operand in each of them
    have hg := Sheet.eq_some_of_shows_uniform ht
    have hshared : ∀ v w : Value α, Expr.operate .pow a b v w = v.powShared w := fun v w => if_pos ⟨rfl, ha, hb⟩
    refine (hs.map? h).congr fun x hx y hy => ?_
    simp only [hg x hx y hy, Option.bind_some, hshared]
  · have hplain : ∀ v w : Value α, Expr.operate op a b v w = op.eval v w := fun v w => by
      refine if_neg fun hshared => ?_
      obtain ⟨hop, hvaries, hfixed⟩ := hshared
      rw [ha] at hvaries
      rw [hb] at hfixed
      rcases hpow hop with huniform | huniform
      · rw [huniform] at hvaries
        cases hvaries
      · rw [huniform] at hfixed
        cases hfixed
    have heval : op.eval = Expr.operate (α := α) op a b := funext fun v => funext fun w => (hplain v w).symm
    rw [heval] at h
    exact hs.zip? ht h

/-- **A sheet of an expression shows its values in the cells**, one case for each way to build an expression. -/
theorem Expr.shows_sheet? (mode : Mode) : ∀ {e : Expr} {s : Sheet α}, e.sheet? (sheets mode xs ys) = some s →
    s.Shows xs ys fun x y => e.evalCell (environment mode x y)
  | .int n, s, h => by cases h; exact shows_uniform _
  | .decimal d e, s, h => by cases h; exact shows_uniform _
  | .constant c, s, h => by cases h; exact shows_uniform _
  | .var name, s, h => shows_sheets h
  | .neg a, s, h => by
    obtain ⟨t, ht, rfl⟩ := Option.map_eq_some_iff.1 h
    exact (shows_sheet? mode ht).map Value.neg
  | .apply f a, s, h => by
    obtain ⟨t, ht, h⟩ := Option.bind_eq_some_iff.1 h
    exact (shows_sheet? mode ht).map? h
  | .binary op a b, s, h => by
    obtain ⟨t, ht, h⟩ := Option.bind_eq_some_iff.1 h
    obtain ⟨u, hu, h⟩ := Option.bind_eq_some_iff.1 h
    exact Operation.shows_sheet? (shows_sheet? mode ht) (shows_sheet? mode hu) (isUniform_sheet? ht)
      (isUniform_sheet? hu) h
  | .undefined _, s, h => by cases h
  | .applied _ _, s, h => by cases h
  | .bare, s, h => by cases h

theorem shows_sheet? {f : Formula} (h : f.sheet? xs ys = some s) : s.Shows xs ys fun x y => f.cellValue? x y :=
  Expr.shows_sheet? f.mode h

/-- **A formula means the same over a lattice as at its points**: where all steps can be applied to whole sheets, the
sheet holds in each cell the value at the point of the cell. -/
def AlikeOver (f : Formula) (xs ys : List α) : Prop :=
  ∀ s, f.sheet? xs ys = some s → s.Shows xs ys fun x y => f.value? x y

/-- **A formula means the same over a lattice as at its points, if the powers agree there.** -/
theorem alikeOver_of_powersAgree {f : Formula}
    (h : ∀ x ∈ xs, ∀ y ∈ ys, f.expr.PowersAgree (environment f.mode x y)) : f.AlikeOver xs ys :=
  fun _ hs => (shows_sheet? hs).congr fun x hx y hy => cellValue?_of_powersAgree (h x hx y hy)

/-- **Without shortcuts a formula means the same over a lattice as at its points.** -/
theorem alikeOver_of_isPlain {f : Formula} (h : f.expr.isPlain α = true) : f.AlikeOver xs ys :=
  alikeOver_of_powersAgree fun _ _ _ _ => Expr.powersAgree_of_isPlain h _

end Formula

end Heightfield
