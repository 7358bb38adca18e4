import Heightfield.Proofs.Number.RealLine
import Heightfield.Proofs.Surface.Cell
/-!
# Values in both modes

While a formula is evaluated over the plane and on the real axis, its values agree: they are the same integer or real
number, or the one is a complex number that the other is (`Value.Agrees`).  One lemma for each operation says that
values that agree lead to such again, or to none on both sides.
-/
namespace Heightfield.Formula.Value

open Exact (Tame OnLine Rounds tame_ofInt)

variable {K : Type} [Field K] [LinearOrder K] [FloorRing K]

/-- The value on the real axis, and the one over the plane: both the same integer, word or real number, or a real
number and the complex number that it is. -/
inductive Agrees : Value (Exact K) → Value (Exact K) → Prop where
  | int (n : ℤ) : Agrees (.int n) (.int n)
  | word (n : ℤ) : Agrees (.word n) (.word n)
  | real (o : Origin) {x : Exact K} (hx : Tame x) : Agrees (.real o x) (.real o x)
  | line {x : Exact K} {z : Complex (Exact K)} (h : OnLine x z) : Agrees (computed x) (computedComplex z)

/-- Results of which both are missing, or agree. -/
abbrev Agree : Option (Value (Exact K)) → Option (Value (Exact K)) → Prop := Option.Rel Agrees

/-- Two values made one sort, on the axis and over the plane. -/
inductive PairAgrees : Pair (Exact K) → Pair (Exact K) → Prop where
  | ints (a b : ℤ) : PairAgrees (.ints a b) (.ints a b)
  | words (a b : ℤ) : PairAgrees (.words a b) (.words a b)
  | reals (o : Origin) {x y : Exact K} (hx : Tame x) (hy : Tame y) : PairAgrees (.reals o x y) (.reals o x y)
  | lines {x y : Exact K} {z w : Complex (Exact K)} (hx : OnLine x z) (hy : OnLine y w) :
      PairAgrees (.reals .computed x y) (.complexes .computed z w)

section
variable {v v' w w' : Value (Exact K)}

/-- **Values that agree are made one sort alike.** -/
theorem unify_agrees (hv : Agrees v v') (hw : Agrees w w') : Option.Rel PairAgrees (unify v w) (unify v' w') := by
  cases hv with
  | int a => cases hw with
    | int b => exact .some (.ints a b)
    | word b =>
      rw [unify]
      split
      · exact .some (.words a b)
      · exact .none
    | real o hy => exact .some (.reals _ (tame_ofInt a) hy)
    | line hy => exact .some (.lines (.ofReal (tame_ofInt a)) hy)
  | word a => cases hw with
    | int b =>
      rw [unify]
      split
      · exact .some (.words a b)
      · exact .none
    | word b => exact .some (.words a b)
    | real o hy => exact .some (.reals _ (tame_ofInt a) hy)
    | line hy => exact .some (.lines (.ofReal (tame_ofInt a)) hy)
  | real o hx => cases hw with
    | int b => exact .some (.reals _ hx (tame_ofInt b))
    | word b => exact .some (.reals _ hx (tame_ofInt b))
    | real p hy => exact .some (.reals _ hx hy)
    | line hy =>
      cases o <;> exact .some (.lines (.ofReal hx) hy)
  | line hx => cases hw with
    | int b => exact .some (.lines hx (.ofReal (tame_ofInt b)))
    | word b => exact .some (.lines hx (.ofReal (tame_ofInt b)))
    | real p hy => cases p <;> exact .some (.lines hx (.ofReal hy))
    | line hy => exact .some (.lines hx hy)

/-! ## Results -/

theorem rel_map {α β γ δ : Type} {r : α → β → Prop} {t : γ → δ → Prop} {a : Option α} {b : Option β} {f : α → γ}
    {g : β → δ} (h : Option.Rel r a b) (hfg : ∀ x y, r x y → t (f x) (g y)) : Option.Rel t (a.map f) (b.map g) := by
  cases h with
  | none => exact .none
  | some hxy => exact .some (hfg _ _ hxy)

theorem rel_bind {α β γ δ : Type} {r : α → β → Prop} {t : γ → δ → Prop} {a : Option α} {b : Option β}
    {f : α → Option γ} {g : β → Option δ} (h : Option.Rel r a b) (hfg : ∀ x y, r x y → Option.Rel t (f x) (g y)) :
    Option.Rel t (a.bind f) (b.bind g) := by
  cases h with
  | none => exact .none
  | some hxy => exact hfg _ _ hxy

/-! ## Arithmetic -/

section
variable {g : Exact K → Exact K → Exact K} {k : Complex (Exact K) → Complex (Exact K) → Complex (Exact K)}
  {x y : Exact K}

/-- An operation that keeps to the real line. -/
def OnLines (g : Exact K → Exact K → Exact K) (k : Complex (Exact K) → Complex (Exact K) → Complex (Exact K)) : Prop :=
  ∀ {x y : Exact K} {z w : Complex (Exact K)}, OnLine x z → OnLine y w → OnLine (g x y) (k z w)

theorem OnLines.tame (h : OnLines g k) (hx : Tame x) (hy : Tame y) : Tame (g x y) :=
  (h (.ofReal hx) (.ofReal hy)).tame.1

theorem arithmetic_agrees {q : Pair (Exact K) → Value (Exact K)} {f : ℤ → ℤ → ℤ}
    (hints : ∀ a b, q (.ints a b) = .int (f a b)) (hwords : ∀ a b, q (.words a b) = .word (wrap (f a b)))
    (hreals : ∀ o x y, q (.reals o x y) = .real o (g x y)) (hcomplexes : ∀ o z w, q (.complexes o z w) = .complex o (k z w))
    (hline : OnLines g k) (hv : Agrees v v') (hw : Agrees w w') :
    Agree ((unify v w).map q) ((unify v' w').map q) :=
  rel_map (unify_agrees hv hw) fun p p' h => by
    cases h with
    | ints a b =>
      rw [hints]
      exact .int _
    | words a b =>
      rw [hwords]
      exact .word _
    | reals o hx hy =>
      rw [hreals]
      exact .real o (hline.tame hx hy)
    | lines hx hy =>
      rw [hreals, hcomplexes]
      exact .line (hline hx hy)

end

variable [OtherFunctions K]

theorem neg_agrees (hv : Agrees v v') : Agrees v.neg v'.neg := by
  cases hv with
  | int n => exact .int _
  | word n => exact .word _
  | real o hx => exact .real o hx.neg
  | line h => exact .line h.neg

theorem add_agrees (hv : Agrees v v') (hw : Agrees w w') : Agree (add v w) (add v' w') :=
  arithmetic_agrees (fun _ _ => rfl) (fun _ _ => rfl) (fun _ _ _ => rfl) (fun _ _ _ => rfl) OnLine.add hv hw

theorem sub_agrees (hv : Agrees v v') (hw : Agrees w w') : Agree (sub v w) (sub v' w') :=
  arithmetic_agrees (fun _ _ => rfl) (fun _ _ => rfl) (fun _ _ _ => rfl) (fun _ _ _ => rfl) OnLine.sub hv hw

theorem mul_agrees (hv : Agrees v v') (hw : Agrees w w') : Agree (mul v w) (mul v' w') :=
  arithmetic_agrees (fun _ _ => rfl) (fun _ _ => rfl) (fun _ _ _ => rfl) (fun _ _ _ => rfl) OnLine.mul hv hw

/-! ## Extrema -/

theorem extremum_agrees {f : ℤ → ℤ → ℤ} {g : Exact K → Exact K → Exact K}
    {k : Complex (Exact K) → Complex (Exact K) → Complex (Exact K)} (hline : OnLines g k) (hv : Agrees v v')
    (hw : Agrees w w') : Agree (extremum f g k v w) (extremum f g k v' w') :=
  rel_map (unify_agrees hv hw) fun p p' h => by
    cases h with
    | ints a b =>
      change Agrees (chosenInt f a b) (chosenInt f a b)
      unfold chosenInt
      split
      · exact .word _
      · exact .int _
    | words a b => exact .word _
    | reals o hx hy => exact .real .computed (hline.tame hx hy)
    | lines hx hy => exact .line (hline hx hy)

theorem min_agrees (hv : Agrees v v') (hw : Agrees w w') : Agree (min v w) (min v' w') :=
  extremum_agrees OnLine.min hv hw

theorem max_agrees (hv : Agrees v v') (hw : Agrees w w') : Agree (max v w) (max v' w') :=
  extremum_agrees OnLine.max hv hw

/-! ## Operations on the real axis -/

theorem onAxis_agrees (hv : Agrees v v') : ∃ x, Tame x ∧ onAxis v = some x ∧ onAxis v' = some x := by
  cases hv with
  | int n => exact ⟨_, tame_ofInt n, rfl, rfl⟩
  | word n => exact ⟨_, tame_ofInt n, rfl, rfl⟩
  | real o hx => exact ⟨_, hx, rfl, rfl⟩
  | line h => exact ⟨_, h.tame.1, rfl, congrArg some h.axis⟩

theorem agree_onAxis {q : Exact K → Exact K → Value (Exact K)} (hq : ∀ {x y}, Tame x → Tame y → Agrees (q x y) (q x y))
    (hv : Agrees v v') (hw : Agrees w w') : Agree ((onAxis v).bind fun x => (onAxis w).map (q x))
      ((onAxis v').bind fun x => (onAxis w').map (q x)) := by
  obtain ⟨x, hx, hvx, hvx'⟩ := onAxis_agrees hv
  obtain ⟨y, hy, hwy, hwy'⟩ := onAxis_agrees hw
  rw [hvx, hvx', hwy, hwy']
  exact .some (hq hx hy)

theorem modInt_agrees (a b : ℤ) : Agree (modInt a b) (modInt a b : Option (Value (Exact K))) := by
  unfold modInt
  split_ifs
  · exact .some (.real .computed (tame_ofInt _))
  · exact .some (.real .computed (tame_ofInt _))
  · exact .none
  · exact .some (.int _)

theorem mod_agrees (hv : Agrees v v') (hw : Agrees w w') : Agree (mod v w) (mod v' w') := by
  -- two integers have a remainder of their own; otherwise both numbers are taken from the axis
  have haxis := agree_onAxis (q := fun x y => computed (Scalar.mod x y)) (fun hx hy => .real .computed (hx.mod hy)) hv hw
  cases hv with
  | int a | word a => cases hw with
    | int b | word b => exact modInt_agrees a b
    | real p hy => exact haxis
    | line hy => exact haxis
  | real o hx => cases hw <;> exact haxis
  | line hx => cases hw <;> exact haxis

theorem onIntegers_agrees (f : ℤ → ℤ → ℤ) (hv : Agrees v v') (hw : Agrees w w') :
    Agree (onIntegers f v w) (onIntegers f v' w') := by
  refine agree_onAxis (fun {x y} _ _ => ?_) hv hw
  split
  · exact .real .computed (tame_ofInt _)
  · exact .real .computed .notANumber

theorem gcd_agrees (hv : Agrees v v') (hw : Agrees w w') : Agree (gcd v w) (gcd v' w') := by
  unfold gcd
  exact onIntegers_agrees _ hv hw

theorem lcm_agrees (hv : Agrees v v') (hw : Agrees w w') : Agree (lcm v w) (lcm v' w') := by
  unfold lcm
  exact onIntegers_agrees _ hv hw

/-! ## Rounding and magnitudes -/

theorem rounded_agrees {f : Exact K → Exact K} (hf : Rounds f) (hv : Agrees v v') :
    Agrees (rounded f v) (rounded f v') := by
  cases hv with
  | int n =>
    change Agrees (toWord n) (toWord n)
    unfold toWord
    split
    · exact .word n
    · exact .int n
  | word n => exact .word n
  | real o hx => exact .real .computed (hf.tame hx)
  | line h => exact .line (h.componentwise hf)

variable [IsStrictOrderedRing K]

theorem round_agrees (hv : Agrees v v') : Agree (round v) (round v') := by
  have hf : Rounds (roundHalfAway : Exact K → Exact K) := Exact.rounds_roundHalfAway
  cases hv with
  | int n => exact .some (.real .computed (hf.tame (tame_ofInt n)))
  | word n => exact .some (.real .computed (hf.tame (tame_ofInt n)))
  | real o hx => exact .some (.real .computed (hf.tame hx))
  | line h => exact .some (.line (h.componentwise hf))

theorem abs_agrees (hv : Agrees v v') : Agree (abs v) (abs v') := by
  cases hv with
  | int n => exact .some (.int _)
  | word n => exact .some (.word _)
  | real o hx => exact .some (.real o hx.abs)
  | @line x z h =>
    have habs : abs (computedComplex z) = some (.real .computed (Scalar.abs x)) := by
      rw [← h.hypot]
      rfl
    rw [habs]
    exact .some (.real .computed h.tame.1.abs)

/-! ## Powers -/

theorem pow_ofInt (x : Exact K) (n : ℕ) : Analytic.pow x (Scalar.ofInt n) = x.powNat n := by
  rw [Exact.ofInt_eq, Int.cast_natCast, Exact.pow_natCast]

theorem powReal_agrees (o : Origin) {x : Exact K} (hx : Tame x) (n : ℕ) :
    Agree (powReal o x (Scalar.ofInt n)) (powReal o x (Scalar.ofInt n)) := by
  have hint : (Scalar.toInt? (Scalar.ofInt n : Exact K)).isNone = false := by
    rw [Exact.ofInt_eq, Exact.toInt?_intCast]
    rfl
  unfold powReal powRealWritten
  simp only [pow_ofInt, hint, Bool.and_false, Bool.false_eq_true, if_false]
  split_ifs
  · exact .none
  · exact .some (.real .written (hx.powNat n))
  · exact .none
  · exact .some (.real .computed (hx.powNat n))

/-- **A small power agrees**, whatever its base is. -/
theorem pow_agrees (hv : Agrees v v') {n : ℕ} (hn : n < 100) : Agree (pow v (.int n)) (pow v' (.int n)) := by
  have hnonneg : (0 : ℤ) ≤ n := Int.natCast_nonneg n
  cases hv with
  | int a =>
    rw [pow, unify, Option.bind_some]
    simp only [if_pos hnonneg]
    cases powInt a (n : ℤ).toNat with
    | none => exact .none
    | some b => exact .some (.int b)
  | word a =>
    rw [pow, unify]
    split
    · simp only [Option.bind_some, if_pos hnonneg]
      exact .some (.word _)
    · exact .none
  | real o hx => exact powReal_agrees (o.join .written) hx n
  | @line x z h =>
    have hexponent : (Scalar.ofInt n : Exact K) = Exact.number (n : K) := by rw [Exact.ofInt_eq, Int.cast_natCast]
    have hreal : pow (computed x) (.int n) = some (computed (x.powNat n)) := congrArg (some ∘ computed) (pow_ofInt x n)
    have hcomplex : pow (computedComplex z) (.int n) =
        some (computedComplex (powComplexComputed z (.ofReal (Exact.number (n : K))))) := by
      rw [← hexponent]
      rfl
    rw [hreal, hcomplex]
    exact .some (.line (h.powComplexComputed hn))

/-! ## Shared powers -/

theorem mul_self_eq_pow (o : Origin) {x : Exact K} (hx : Tame x) : mul (real o x) (real o x) = pow (real o x) (.int 2) := by
  have hexponent : (Scalar.ofInt 2 : Exact K) = Scalar.ofInt ((2 : ℕ) : ℤ) := rfl
  have hint : (Scalar.toInt? (Scalar.ofInt 2 : Exact K)).isNone = false := by
    rw [Exact.ofInt_eq, Exact.toInt?_intCast]
    rfl
  have hlt : Scalar.lt (Scalar.ofInt 2 : Exact K) (Scalar.ofInt 0) = false := by
    rw [Exact.ofInt_eq, Exact.ofInt_eq, Exact.lt_number]
    simp
  have hpow : Analytic.pow x (Scalar.ofInt 2) = x * x := by
    rw [hexponent, pow_ofInt]
    cases hx with
    | number a => rw [Exact.powNat_number, Exact.number_mul, pow_two]
    | notANumber => rw [Exact.powNat_notANumber two_ne_zero, Exact.mul_notANumber]
  have hfinite : (Scalar.isFinite (x * x) || !(Scalar.isFinite x && Scalar.isFinite (Scalar.ofInt 2 : Exact K))) = true := by
    cases hx with
    | number a => rfl
    | notANumber => rfl
  cases o with
  | computed => exact (congrArg (some ∘ computed) hpow).symm
  | written =>
    have hright : pow (real .written x) (.int 2) = powRealWritten x (Scalar.ofInt 2) := rfl
    rw [hright, powRealWritten]
    simp only [hlt, hint, hpow, hfinite, Bool.and_false, Bool.false_eq_true, if_false, if_true]
    rfl

theorem mul_self_eq_pow_of_onLine {x : Exact K} {z : Complex (Exact K)} (h : OnLine x z) :
    mul (computedComplex z) (computedComplex z) = pow (computedComplex z) (.int 2) := by
  have hright : pow (computedComplex z) (.int 2) =
      some (computedComplex (powComplexComputed z (.ofReal (Scalar.ofInt 2)))) := rfl
  rw [hright, h.powComplexComputed_two]
  rfl

/-- **On the real line a natural power is the same when its exponent is shared.** -/
theorem powShared_agrees (hv : Agrees v v') (n : ℕ) :
    v.powShared (.int n) = v.pow (.int n) ∧ v'.powShared (.int n) = v'.pow (.int n) := by
  have hnegative : (n : ℤ) ≠ -1 := by omega
  have hreal : ∀ (o : Origin) {x : Exact K}, Tame x → (real o x).powShared (.int n) = (real o x).pow (.int n) :=
    fun o x hx => by
      unfold powShared
      simp only [if_neg hnegative]
      split
      · rename_i hn
        rw [hn]
        exact mul_self_eq_pow o hx
      · rfl
  cases hv with
  | int a | word a => exact ⟨rfl, rfl⟩
  | real o hx => exact ⟨hreal o hx, hreal o hx⟩
  | line h =>
    refine ⟨hreal .computed h.tame.1, ?_⟩
    unfold powShared computedComplex
    dsimp only
    split
    · rename_i hn
      rw [hn]
      exact mul_self_eq_pow_of_onLine h
    · rfl

end

end Heightfield.Formula.Value
