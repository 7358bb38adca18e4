import Heightfield.Json.Writer
/-!
# A value is written on one line

Only plain characters are written, from the space to the tilde (`plain_write`).  So no line ends within a value, whatever
texts and names it holds: quotes, backslashes, controls and all that is not ASCII are escaped with plain characters, and
numbers are made of digits, signs, points and letters.
-/
namespace Heightfield

/-- Every character stands between the space and the tilde. -/
def Plain (s : List Char) : Prop := ∀ c ∈ s, 0x20 ≤ c.toNat ∧ c.toNat < 0x7F

instance (s : List Char) : Decidable (Plain s) := List.decidableBAll _ s

namespace Plain

variable {s t : List Char}

theorem nil : Plain [] := nofun

theorem append (hs : Plain s) (ht : Plain t) : Plain (s ++ t) := List.forall_mem_append.2 ⟨hs, ht⟩

theorem cons {c : Char} (hc : Plain [c]) (hs : Plain s) : Plain (c :: s) := hc.append hs

theorem sublist (ht : Plain t) (h : s.Sublist t) : Plain s := fun c hc => ht c (h.subset hc)

theorem replicate {c : Char} (hc : Plain [c]) (n : Nat) : Plain (List.replicate n c) := by
  intro d hd
  rw [(List.mem_replicate.1 hd).2]
  exact hc c (List.mem_singleton_self c)

theorem flatMap {β : Type} {f : β → List Char} (hf : ∀ b, Plain (f b)) (bs : List β) : Plain (bs.flatMap f) := by
  intro c hc
  obtain ⟨b, -, hb⟩ := List.mem_flatMap.1 hc
  exact hf b c hb

theorem newline_not_mem (hs : Plain s) : '\n' ∉ s := by
  intro hmem
  have hlow := (hs '\n' hmem).1
  exact absurd hlow (by decide)

end Plain

/-! ## Digits -/

theorem plain_digitChar : ∀ n < 16, Plain [n.digitChar] := by decide

theorem plain_toDigits {base : Nat} (hbase : 1 < base) (hle : base ≤ 16) (n : Nat) : Plain (base.toDigits n) := by
  induction n using Nat.strongRecOn with
  | ind n ih =>
    rw [Nat.toDigits_eq_if hbase]
    by_cases hn : n < base
    · rw [if_pos hn]
      exact plain_digitChar n (by omega)
    · rw [if_neg hn]
      have hless : n / base < n := Nat.div_lt_self (by omega) hbase
      have hlast : n % base < base := Nat.mod_lt n (by omega)
      exact (ih _ hless).append (plain_digitChar _ (by omega))

theorem plain_toString_nat (n : Nat) : Plain (toString n).toList := by
  rw [show toString n = n.repr from rfl, Nat.toList_repr]
  exact plain_toDigits (by decide) (by decide) n

theorem plain_toString_int (n : Int) : Plain (toString n).toList := by
  cases n with
  | ofNat m => exact plain_toString_nat m
  | negSucc m =>
    rw [show toString (Int.negSucc m) = "-" ++ toString (m + 1) from rfl, String.toList_append]
    exact Plain.append (by decide) (plain_toString_nat (m + 1))

theorem plain_hexadecimal (width n : Nat) : Plain (Quoted.hexadecimal width n) :=
  (Plain.replicate (by decide) _).append (plain_toDigits (by decide) (by decide) n)

/-! ## Reals -/

namespace Decimal

theorem plain_padded (n q : Nat) : Plain (padded n q) :=
  (Plain.replicate (by decide) _).append (plain_toDigits (by decide) (by decide) q)

theorem plain_exponentText (e : Int) : Plain (exponentText e) := by
  unfold exponentText
  refine Plain.cons (by decide) (Plain.cons ?_ (plain_padded 2 _))
  split <;> decide

theorem plain_withPoint {whole fraction : List Char} (hwhole : Plain whole) (hfraction : Plain fraction) :
    Plain (withPoint whole fraction) := by
  unfold withPoint
  split
  · exact hwhole
  · exact hwhole.append (Plain.cons (by decide) hfraction)

variable {ds : List Char}

theorem plain_scientificText (hds : Plain ds) (e : Int) : Plain (scientificText ds e) :=
  (plain_withPoint (hds.sublist (List.take_sublist _ _)) (hds.sublist (List.drop_sublist _ _))).append
    (plain_exponentText e)

theorem plain_positionalText (hds : Plain ds) (e : Int) : Plain (positionalText ds e) := by
  have hzeros : ∀ n, Plain (List.replicate n '0') := Plain.replicate (by decide)
  unfold positionalText
  split
  · exact plain_withPoint (by decide) ((hzeros _).append hds)
  · exact plain_withPoint ((hds.sublist (List.take_sublist _ _)).append (hzeros _)) (hds.sublist (List.drop_sublist _ _))

theorem plain_text_roundTrip (hds : Plain ds) (e : Int) : Plain (roundTrip.text ds e) := by
  unfold roundTrip
  dsimp only
  split
  · split
    · exact plain_positionalText hds e
    · exact (plain_positionalText hds e).append (by decide)
  · exact plain_scientificText hds e

/-- A style is plain when its words are, and makes plain text of plain digits. -/
structure Style.IsPlain (style : Style) : Prop where
  zero : Plain style.zero.toList
  infinity : Plain style.infinity.toList
  nan : Plain style.nan.toList
  text : ∀ {ds}, Plain ds → ∀ e, Plain (style.text ds e)

theorem Style.IsPlain.write {style : Style} (h : style.IsPlain) (x : Float) : Plain (style.write x).toList := by
  have hsign : ∀ (negative : Bool) {s : String}, Plain s.toList → Plain ((if negative then "-" else "") ++ s).toList := by
    intro negative s hs
    rw [String.toList_append]
    cases negative
    · exact Plain.append (by decide) hs
    · exact Plain.append (by decide) hs
  unfold Style.write
  split
  · exact h.nan
  · rename_i negative hx
    cases negative
    · exact h.infinity
    · exact hsign true h.infinity
  · rename_i negative significand exponent hx
    dsimp only
    split
    · exact hsign negative h.zero
    · refine hsign negative ?_
      rw [String.toList_ofList]
      exact h.text (plain_padded _ _) _

end Decimal

namespace Json

theorem isPlain_realStyle : realStyle.IsPlain where
  zero := by decide
  infinity := by decide
  nan := by decide
  text := Decimal.plain_text_roundTrip

/-! ## Texts -/

theorem plain_unitEscape (u : Nat) : Plain (unitEscape u) :=
  Plain.cons (by decide) (Plain.cons (by decide) (plain_hexadecimal 4 u))

/-- **A character is written with plain characters.** -/
theorem plain_writeChar (c : Char) : Plain (writeChar c) := by
  unfold writeChar
  split
  · rename_i hquote
    rcases hquote with rfl | rfl <;> decide
  split
  · decide
  split
  · decide
  split
  · decide
  split
  · decide
  split
  · decide
  split
  · rename_i hplain
    exact List.forall_mem_singleton.2 hplain
  split
  · exact plain_unitEscape _
  · exact (plain_unitEscape _).append (plain_unitEscape _)

theorem plain_writeString (s : String) : Plain (writeString s) :=
  Plain.cons (by decide) ((Plain.flatMap plain_writeChar s.toList).append (by decide))

/-! ## Values -/

theorem plain_commaSeparated : ∀ {texts : List (List Char)}, (∀ t ∈ texts, Plain t) → Plain (commaSeparated texts)
  | [], _ => Plain.nil
  | [t], h => by
    rw [commaSeparated, List.intercalate_singleton]
    exact h t (List.mem_singleton_self t)
  | t :: u :: texts, h => by
    obtain ⟨ht, hrest⟩ := List.forall_mem_cons.1 h
    rw [commaSeparated, List.intercalate_cons_cons]
    exact (ht.append (by decide)).append (plain_commaSeparated hrest)

theorem writeItems_eq (items : List Json) : writeItems items = items.map write := by
  induction items with
  | nil => rfl
  | cons j items ih => rw [writeItems, ih, List.map_cons]

theorem writeFields_eq (fields : List (String × Json)) :
    writeFields fields = fields.map fun f => writeString f.1 ++ ':' :: ' ' :: write f.2 := by
  induction fields with
  | nil => rfl
  | cons f fields ih => rw [writeFields, ih, List.map_cons]

/-- **A value is written with plain characters**, so on one line. -/
theorem plain_write : ∀ j : Json, Plain (write j)
  | null => by decide
  | bool b => by cases b <;> decide
  | int n => plain_toString_int n
  | real x => isPlain_realStyle.write x
  | string s => plain_writeString s
  | array items => by
    have hitems : ∀ t ∈ items.map write, Plain t := by
      intro t ht
      obtain ⟨j, hj, rfl⟩ := List.mem_map.1 ht
      exact plain_write j
    rw [write, writeItems_eq]
    exact Plain.cons (by decide) ((plain_commaSeparated hitems).append (by decide))
  | object fields => by
    have hfields : ∀ t ∈ fields.map fun f => writeString f.1 ++ ':' :: ' ' :: write f.2, Plain t := by
      intro t ht
      obtain ⟨⟨name, j⟩, hf, rfl⟩ := List.mem_map.1 ht
      exact (plain_writeString name).append (Plain.append (s := [':', ' ']) (by decide) (plain_write j))
    rw [write, writeFields_eq]
    exact Plain.cons (by decide) ((plain_commaSeparated hfields).append (by decide))
termination_by j => sizeOf j
decreasing_by
  · have hless := List.sizeOf_lt_of_mem hj
    rw [array.sizeOf_spec]
    omega
  · have hless := List.sizeOf_lt_of_mem hf
    rw [Prod.mk.sizeOf_spec] at hless
    rw [object.sizeOf_spec]
    omega

end Json
end Heightfield
