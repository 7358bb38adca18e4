import Heightfield.Colour.Shading
import Heightfield.Proofs.Number.Bounded
/-!
# The channels of colours

The lines of a colour map stay between zero and one, and their knots are well apart (`tame`).  So no quotient in them is
large, every entry of a table is bounded, and what is left of an entry after rounding is finite
(`isFinite_of_mem_shadeAll`), whatever the limits and the heights are.
-/
namespace Heightfield
namespace Colour

open Double (value Bounded Bound bound_natCast)

/-! ## Lines -/

def inUnit (x : Float) : Bool := Scalar.isFinite x && Scalar.le (Scalar.ofInt 0) x && Scalar.le x (Scalar.ofInt 1)

/-- Two places are apart when they differ by this much. -/
def leastGap : Float := Scalar.ofRatio 1 1024

/-- The places and the values lie between zero and one, and the places are apart. -/
def tame : List (Float × Float) → Bool
  | [] => true
  | [(p, v)] => inUnit p && inUnit v
  | (p, v) :: (q, w) :: rest => inUnit p && inUnit v && Scalar.le leastGap (q - p) && tame ((q, w) :: rest)

theorem bounded_of_inUnit {x : Float} (h : inUnit x = true) : Bounded 1 x := by
  simp only [inUnit, Bool.and_eq_true] at h
  obtain ⟨⟨hfinite, hlow⟩, hhigh⟩ := h
  obtain ⟨hzero, hvzero⟩ := Double.value_ofInt (n := 0) (by decide)
  obtain ⟨hone, hvone⟩ := Double.value_ofInt (n := 1) (by decide)
  have hlow' := (Double.le_iff hzero hfinite).1 hlow
  have hhigh' := (Double.le_iff hfinite hone).1 hhigh
  rw [hvzero, Int.cast_zero] at hlow'
  rw [hvone, Int.cast_one] at hhigh'
  exact ⟨hfinite, by rwa [abs_of_nonneg hlow']⟩

theorem value_leastGap : leastGap.isFinite = true ∧ value leastGap = 2 ^ (-10 : ℤ) := by
  have hgap : (((1 : ℤ) : ℚ) / (1024 : ℕ)) = 2 ^ (-10 : ℤ) := by norm_num
  have hone : |(1 : ℤ)| ≤ 2 ^ 53 := by decide
  have hle : |((1 : ℤ) : ℚ) / (1024 : ℕ)| ≤ Double.greatest :=
    le_trans (by norm_num) (Double.intCast_le_greatest hone)
  have hround := Double.rounds_ofRatio 1 (by decide : 0 < 1024) hle
  exact ⟨hround.isFinite, hgap ▸ hround.value_eq ⟨1, -10, hone, by decide, by rw [hgap, Int.cast_one, one_mul]⟩⟩

theorem bounded_lineThrough {t : Float} (ht : Bounded 1 t) : ∀ {line : List (Float × Float)}, tame line = true →
    Bounded (4097 : ℕ) (lineThrough t line)
  | [], _ => (Bounded.ofInt (n := 0) (by decide)).mono (by norm_num)
  | [(p, v)], h => by
    rw [tame, Bool.and_eq_true] at h
    exact (bounded_of_inUnit h.2).mono (by norm_num)
  | (p, v) :: (q, w) :: rest, h => by
    simp only [tame, Bool.and_eq_true] at h
    obtain ⟨⟨⟨hp, hv⟩, hgap⟩, hrest⟩ := h
    rw [lineThrough]
    split
    · have hq : inUnit q = true ∧ inUnit w = true := by
        cases rest with
        | nil => exact Bool.and_eq_true_iff.1 hrest
        | cons => simp only [tame, Bool.and_eq_true] at hrest; exact hrest.1.1
      have htwo := bound_natCast (m := 2) (by decide)
      have hsteps := (bounded_of_inUnit hq.1).sub (bounded_of_inUnit hp) htwo (by norm_num)
      have hwide : (2 : ℚ) ^ (-10 : ℤ) ≤ |value (q - p)| := by
        rw [← value_leastGap.2]
        exact ((Double.le_iff value_leastGap.1 hsteps.isFinite).1 hgap).trans (le_abs_self _)
      have hway := (ht.sub (bounded_of_inUnit hp) htwo (by norm_num)).div hsteps.isFinite (by norm_num) hwide
        (bound_natCast (m := 2048) (by decide)) (by norm_num)
      have hrise := hway.mul ((bounded_of_inUnit hq.2).sub (bounded_of_inUnit hv) htwo (by norm_num))
        (bound_natCast (m := 4096) (by decide)) (by norm_num)
      exact hrise.add (bounded_of_inUnit hv) (bound_natCast (by decide)) (by norm_num)
    · exact bounded_lineThrough ht hrest

/-! ## Tables -/

/-- Every channel of every colour of the table is bounded. -/
def BoundedTable (table : Table Float) : Prop :=
  ∀ c ∈ table, ∀ x ∈ [c.red, c.green, c.blue], Bounded (4097 : ℕ) x

theorem boundedTable_ofFn {f : Fin 256 → Rgb Float}
    (h : ∀ i, ∀ x ∈ [(f i).red, (f i).green, (f i).blue], Bounded (4097 : ℕ) x) : BoundedTable (.ofFn f) := by
  intro c hc
  obtain ⟨i, hi, rfl⟩ := Vector.mem_iff_getElem.1 hc
  rw [Vector.getElem_ofFn]
  exact h ⟨i, hi⟩

theorem boundedTable_ofLines {red green blue : List (Float × Float)} (hred : tame red = true) (hgreen : tame green = true)
    (hblue : tame blue = true) : BoundedTable (ofLines red green blue) := by
  refine boundedTable_ofFn fun i => ?_
  have hplace : |(((i.val : ℕ) : ℤ) : ℚ) / (255 : ℕ)| ≤ (1 : ℕ) := by
    rw [Int.cast_natCast, abs_of_nonneg (by positivity), div_le_iff₀ (by norm_num)]
    have := i.isLt
    push_cast
    rw [one_mul]
    exact_mod_cast (by omega : i.val ≤ 255)
  have ht : Bounded 1 (Scalar.ofRatio i.val 255 : Float) :=
    (Bounded.ofRatio (by decide) (bound_natCast (m := 1) (by decide)) hplace).mono (by norm_num)
  simp only [List.forall_mem_cons, List.not_mem_nil, false_implies, implies_true, and_true]
  exact ⟨bounded_lineThrough ht hred, bounded_lineThrough ht hgreen, bounded_lineThrough ht hblue⟩

/-- The three lines of stops are tame. -/
def tameStops (colours : List Nat) : Bool :=
  tame (evenLine (colours.map (· / 65536))) && tame (evenLine (colours.map (· / 256 % 256))) &&
    tame (evenLine (colours.map (· % 256)))

theorem boundedTable_ofStops {colours : List Nat} (h : tameStops colours = true) : BoundedTable (ofStops colours) := by
  simp only [tameStops, Bool.and_eq_true] at h
  exact boundedTable_ofLines h.1.1 h.1.2 h.2

theorem boundedTable_viridis : BoundedTable viridis := by
  have hentries : ∀ e ∈ viridisEntries, e / 100000000 ≤ 10000 := by decide +kernel
  have hchannel : ∀ n : ℕ, n ≤ 10000 → Bounded (4097 : ℕ) (Scalar.ofRatio n 10000 : Float) := fun n hn => by
    refine (Bounded.ofRatio (by decide) (bound_natCast (m := 1) (by decide)) ?_).mono (by norm_num)
    rw [Int.cast_natCast, abs_of_nonneg (by positivity), div_le_iff₀ (by norm_num)]
    push_cast
    rw [one_mul]
    exact_mod_cast hn
  refine boundedTable_ofFn fun i => ?_
  simp only [List.forall_mem_cons, List.not_mem_nil, false_implies, implies_true, and_true]
  exact ⟨hchannel _ (hentries _ (Array.getElem_mem _)), hchannel _ (by omega), hchannel _ (by omega)⟩

/-- The lines of a source are tame, if they are made from stops. -/
def Source.isTame : Source → Bool
  | .stops colours => tameStops colours
  | _ => true

theorem boundedTable_of_isTame {source : Source} (h : source.isTame = true) : BoundedTable source.table := by
  cases source with
  | viridis => exact boundedTable_viridis
  | jet => exact boundedTable_ofLines (by decide +kernel) (by decide +kernel) (by decide +kernel)
  | hot => exact boundedTable_ofLines (by decide +kernel) (by decide +kernel) (by decide +kernel)
  | hsv => exact boundedTable_ofLines (by decide +kernel) (by decide +kernel) (by decide +kernel)
  | stops colours => exact boundedTable_ofStops h

theorem exists_of_registered? {name : String} {m : ColourMap} (h : registered? name = some m) :
    ∃ known ∈ registry, m.source = known.2 := by
  unfold registered? at h
  generalize registry = maps at h ⊢
  obtain ⟨known, hmem, hfound⟩ := List.exists_of_findSome?_eq_some h
  refine ⟨known, hmem, ?_⟩
  dsimp only at hfound
  split at hfound
  · cases hfound
    rfl
  split at hfound
  · cases hfound
    rfl
  · cases hfound

theorem isTame_of_registered? {name : String} {m : ColourMap} (h : registered? name = some m) :
    m.source.isTame = true := by
  have hregistry : (registry.all fun known => known.2.isTame) = true := by decide +kernel
  obtain ⟨known, hmem, hsource⟩ := exists_of_registered? h
  rw [hsource]
  exact List.all_eq_true.1 hregistry known hmem

theorem isTame_resolve (name : Option String) : (resolve name).source.isTame = true := by
  have hown : (ownMaps.all fun own => tameStops own.2) = true := by decide +kernel
  unfold resolve
  generalize ownMaps = maps at hown ⊢
  extract_lets asked key
  split
  · rename_i own colours hfind
    exact List.all_eq_true.1 hown (own, colours) (List.mem_of_find?_eq_some hfind)
  · cases hkey : registered? key with
    | some m => exact isTame_of_registered? hkey
    | none =>
      cases hlower : registered? (lowercase key) with
      | some m => exact isTame_of_registered? hlower
      | none => rfl

theorem boundedTable_resolve (name : Option String) : BoundedTable (resolve name).table := by
  have hsource := boundedTable_of_isTame (isTame_resolve name)
  unfold ColourMap.table
  split
  · exact fun c hc => hsource c (Vector.mem_reverse.1 hc)
  · exact hsource

/-! ## Rounding -/

theorem bounded_roundHalfEven {n : ℕ} {x : Float} (hx : Bounded n x) (hn : n + 1 ≤ 2 ^ 53) :
    Bounded (n + 1 : ℕ) (roundHalfEven x) := by
  have hbelow := hx.floor (by omega)
  have hone : Bounded 1 (Scalar.ofInt 1) := (Bounded.ofInt (n := 1) (by decide)).mono (by norm_num)
  have habove : Bounded (n + 1 : ℕ) (Scalar.floor x + Scalar.ofInt 1) :=
    hbelow.add hone (bound_natCast hn) (by push_cast; exact le_rfl)
  have hsame : Bounded (n + 1 : ℕ) (Scalar.floor x) := hbelow.mono (by push_cast; linarith)
  unfold roundHalfEven
  dsimp only
  split
  · exact hsame
  split
  · exact habove
  split
  · exact hsame
  · exact habove

theorem isFinite_rounded {x : Float} (hx : Bounded (4097 : ℕ) x) : (rounded x).isFinite = true := by
  have hscale : |(10000 : ℤ)| ≤ 2 ^ 53 := by decide
  obtain ⟨hfinite, hvalue⟩ := Double.value_ofInt hscale
  have hscaled := hx.mul (Bounded.ofInt hscale) (bound_natCast (m := 40970000) (by decide)) (by norm_num)
  refine ((bounded_roundHalfEven hscaled (by decide)).div hfinite one_pos ?_
    (bound_natCast (m := 40970001) (by decide)) (by norm_num)).isFinite
  rw [hvalue]
  norm_num

/-! ## Shades -/

theorem bounded_black : ∀ x ∈ [(black : Rgb Float).red, black.green, black.blue], Bounded (4097 : ℕ) x := by
  have hzero : Bounded (4097 : ℕ) (Scalar.ofInt 0) := (Bounded.ofInt (n := 0) (by decide)).mono (by norm_num)
  simp only [List.forall_mem_cons, List.not_mem_nil, false_implies, implies_true, and_true]
  exact ⟨hzero, hzero, hzero⟩

/-- **The channels of every shade are finite**, between whatever limits it was chosen. -/
theorem isFinite_of_mem_shadeAll (name : Option String) (lower upper : Float) (rows : List (List Float)) :
    ∀ row ∈ shadeAll name lower upper rows, ∀ c ∈ row, ∀ x ∈ c.channels, x.isFinite = true := by
  intro row hrow c hc x hx
  have hbounded : ∀ y ∈ [c.red, c.green, c.blue], Bounded (4097 : ℕ) y := by
    obtain ⟨heights, -, rfl⟩ := List.mem_map.1 hrow
    obtain ⟨v, -, rfl⟩ := List.mem_map.1 hc
    unfold shade
    split
    · exact boundedTable_resolve name _ (Vector.getElem_mem _)
    · exact bounded_black
  obtain ⟨y, hy, rfl⟩ := List.mem_map.1 (show x ∈ [c.red, c.green, c.blue].map rounded from hx)
  exact isFinite_rounded (hbounded y hy)

end Colour
end Heightfield
