import Heightfield.Formula.Phrase
/-!
# What a reader of phrases can do

Each reader makes one choice at the token in front and leaves the rest to readers with less fuel.  The choices of a
reader are the constructors of a relation, and whatever it reads it has read by one of them (`operand_reading`,
`following_reading`, `item_reading`, `group_reading`, `operands_reading`, `items_reading`, `ofLine_reading`).  What holds of all readings
is proved by induction on the fuel, over these cases.
-/
namespace Heightfield.Formula

namespace Phrase

section
variable (fuel level : Nat)

/-- The ways to read an operand. -/
inductive OperandReading : List Token → Phrase → List Token → Prop where
  | integer (n : Nat) (rest : List Token) : OperandReading (.integer n :: rest) (integer n) rest
  | decimal (d : Nat) (e : Int) (rest : List Token) : OperandReading (.decimal d e :: rest) (decimal d e) rest
  | undefined (s : String) (rest : List Token) : OperandReading (.undefined s :: rest) (undefined s) rest
  | not {ts rest : List Token} {a : Phrase} (ha : expression fuel notLevel ts = some (a, rest)) :
    OperandReading (.name "not" :: ts) (not a) rest
  | word {s : String} {a : Phrase} (ha : ofWord s = some a) (rest : List Token) : OperandReading (.name s :: rest) a rest
  | ellipsis (rest : List Token) : OperandReading (.mark .ellipsis :: rest) ellipsis rest
  | plus {ts rest : List Token} {a : Phrase} (ha : expression fuel powerLevel ts = some (a, rest)) :
    OperandReading (.mark .plus :: ts) (sign .plus a) rest
  | minus {ts rest : List Token} {a : Phrase} (ha : expression fuel powerLevel ts = some (a, rest)) :
    OperandReading (.mark .minus :: ts) (sign .minus a) rest
  | group {ts rest : List Token} {a : Phrase} (ha : group fuel ts = some (a, rest)) :
    OperandReading (.mark .opening :: ts) a rest

/-- The ways to go on behind the phrase `a`. -/
inductive FollowingReading (a : Phrase) : List Token → Phrase → List Token → Prop where
  | ends {ts : List Token} (hts : ts.head? ≠ some (.mark .opening)) : FollowingReading a ts a ts
  | call {ts mid rest : List Token} {bs : List Phrase} {p : Phrase}
    (hbs : operands fuel conditionalLevel ts = some (bs, mid)) (hp : following fuel level (call a bs) mid = some (p, rest)) :
    FollowingReading a (.mark .opening :: ts) p rest
  | binary {m : Mark} {op : Operator} {own right : Nat} {ts mid rest : List Token} {b p : Phrase}
    (hm : operator? m = some (op, own, right)) (hb : expression fuel right ts = some (b, mid))
    (hp : following fuel level (binary op a b) mid = some (p, rest)) : FollowingReading a (.mark m :: ts) p rest
  | and {ts mid rest : List Token} {b p : Phrase} (hb : expression fuel (andLevel + 1) ts = some (b, mid))
    (hp : following fuel level (and a b) mid = some (p, rest)) : FollowingReading a (.name "and" :: ts) p rest
  | or {ts mid rest : List Token} {b p : Phrase} (hb : expression fuel (orLevel + 1) ts = some (b, mid))
    (hp : following fuel level (or a b) mid = some (p, rest)) : FollowingReading a (.name "or" :: ts) p rest
  | conditional {ts mid rest : List Token} {c b : Phrase} (hc : expression fuel orLevel ts = some (c, .name "else" :: mid))
    (hb : expression fuel conditionalLevel mid = some (b, rest)) :
    FollowingReading a (.name "if" :: ts) (conditional c a b) rest

/-- The ways to read an item. -/
inductive ItemReading : List Token → Phrase → List Token → Prop where
  | star {starred : Nat} {ts rest : List Token} {a : Phrase} (ha : expression fuel starred ts = some (a, rest)) :
    ItemReading (.mark .times :: ts) (star a) rest
  | plain {ts rest : List Token} {a : Phrase} (ha : expression fuel conditionalLevel ts = some (a, rest)) :
    ItemReading ts a rest

/-- The ways to read what stands behind an opening parenthesis. -/
inductive GroupReading : List Token → Phrase → List Token → Prop where
  | empty (rest : List Token) : GroupReading (.mark .closing :: rest) (tuple []) rest
  | alone {ts rest : List Token} {a : Phrase} (ha : item fuel sumLevel ts = some (a, .mark .closing :: rest)) :
    GroupReading ts a rest
  | tuple {ts mid rest : List Token} {a : Phrase} {bs : List Phrase}
    (ha : item fuel sumLevel ts = some (a, .mark .comma :: mid)) (hbs : operands fuel sumLevel mid = some (bs, rest)) :
    GroupReading ts (tuple (a :: bs)) rest

/-- The ways to read items up to the closing parenthesis. -/
inductive OperandsReading (starred : Nat) : List Token → List Phrase → List Token → Prop where
  | nil (rest : List Token) : OperandsReading starred (.mark .closing :: rest) [] rest
  | last {ts rest : List Token} {a : Phrase} (ha : item fuel starred ts = some (a, .mark .closing :: rest)) :
    OperandsReading starred ts [a] rest
  | cons {ts mid rest : List Token} {a : Phrase} {bs : List Phrase}
    (ha : item fuel starred ts = some (a, .mark .comma :: mid)) (hbs : operands fuel starred mid = some (bs, rest)) :
    OperandsReading starred ts (a :: bs) rest

/-- The ways to read items up to the end. -/
inductive ItemsReading : List Token → List Phrase → Prop where
  | last {ts : List Token} {a : Phrase} (ha : item fuel sumLevel ts = some (a, [])) : ItemsReading ts [a]
  | comma {ts : List Token} {a : Phrase} (ha : item fuel sumLevel ts = some (a, [.mark .comma])) : ItemsReading ts [a]
  | cons {ts mid : List Token} {a : Phrase} {bs : List Phrase} {ends : Bool}
    (ha : item fuel sumLevel ts = some (a, .mark .comma :: mid)) (hbs : items fuel mid = some (bs, ends)) :
    ItemsReading ts (a :: bs)

end

/-- The ways to read a line without the word `return`: a phrase alone, or a tuple. -/
inductive LineReading (ts : List Token) : Phrase → Prop where
  | alone {fuel : Nat} {a : Phrase} (ha : items fuel ts = some ([a], false)) : LineReading ts a
  | tuple {fuel : Nat} {ps : List Phrase} {ends : Bool} (hps : items fuel ts = some (ps, ends)) :
    LineReading ts (tuple ps)

section
variable {fuel level starred : Nat} {a p : Phrase} {ts rest : List Token}

theorem operand_reading (h : operand (fuel + 1) level ts = some (p, rest)) : OperandReading fuel ts p rest := by
  unfold operand at h
  split at h
  · cases h
  · rename_i hfuel
    obtain rfl := Nat.succ.inj hfuel
    split at h
    · cases h
      exact .integer _ _
    · cases h
      exact .decimal _ _ _
    · cases h
      exact .undefined _ _
    · split at h
      · cases h
      · obtain ⟨_, hread, heq⟩ := Option.map_eq_some_iff.1 h
        cases heq
        exact .not hread
    · obtain ⟨_, hword, heq⟩ := Option.map_eq_some_iff.1 h
      cases heq
      exact .word hword _
    · cases h
      exact .ellipsis _
    · obtain ⟨_, hread, heq⟩ := Option.map_eq_some_iff.1 h
      cases heq
      exact .plus hread
    · obtain ⟨_, hread, heq⟩ := Option.map_eq_some_iff.1 h
      cases heq
      exact .minus hread
    · exact .group h
    · cases h
  · cases h

theorem following_reading (h : following (fuel + 1) level a ts = some (p, rest)) :
    FollowingReading fuel level a ts p rest := by
  have hends : ts.head? ≠ some (.mark .opening) → some (a, ts) = some (p, rest) →
      FollowingReading fuel level a ts p rest := fun hts heq => by
    cases heq
    exact .ends hts
  unfold following at h
  split at h
  · obtain ⟨_, hread, hnext⟩ := Option.bind_eq_some_iff.1 h
    exact .call hread hnext
  · rename_i hopening
    replace hends := hends fun heq => hopening (by simpa using heq)
    split at h
    · split at h
      · exact hends h
      · obtain ⟨_, hread, hnext⟩ := Option.bind_eq_some_iff.1 h
        exact .binary ‹_› hread hnext
    · exact hends h
  · split at h
    · exact hends (by simp) h
    · obtain ⟨_, hread, hnext⟩ := Option.bind_eq_some_iff.1 h
      exact .and hread hnext
  · split at h
    · exact hends (by simp) h
    · obtain ⟨_, hread, hnext⟩ := Option.bind_eq_some_iff.1 h
      exact .or hread hnext
  · split at h
    · exact hends (by simp) h
    · obtain ⟨⟨c, mid⟩, hread, hnext⟩ := Option.bind_eq_some_iff.1 h
      dsimp only at hnext
      split at hnext
      · obtain ⟨_, hread', heq⟩ := Option.map_eq_some_iff.1 hnext
        cases heq
        exact .conditional hread hread'
      · cases hnext
  · rename_i hmark _ _ _
    refine hends (fun heq => ?_) h
    obtain ⟨us, rfl⟩ := List.head?_eq_some_iff.1 heq
    exact hmark _ _ rfl

theorem item_reading (h : item (fuel + 1) starred ts = some (p, rest)) : ItemReading fuel ts p rest := by
  unfold item at h
  split at h
  · cases h
  · rename_i hfuel
    obtain rfl := Nat.succ.inj hfuel
    obtain ⟨_, hread, heq⟩ := Option.map_eq_some_iff.1 h
    cases heq
    exact .star hread
  · rename_i hfuel _
    obtain rfl := Nat.succ.inj hfuel
    exact .plain h

theorem group_reading (h : group (fuel + 1) ts = some (p, rest)) : GroupReading fuel ts p rest := by
  unfold group at h
  split at h
  · cases h
  · cases h
    exact .empty _
  · rename_i hfuel _
    obtain rfl := Nat.succ.inj hfuel
    obtain ⟨⟨a, mid⟩, hread, hnext⟩ := Option.bind_eq_some_iff.1 h
    dsimp only at hnext
    split at hnext
    · split at hnext
      · cases hnext
      · cases hnext
        exact .alone hread
    · obtain ⟨_, hread', heq⟩ := Option.map_eq_some_iff.1 hnext
      cases heq
      exact .tuple hread hread'
    · cases hnext

theorem operands_reading {ps : List Phrase} (h : operands (fuel + 1) starred ts = some (ps, rest)) :
    OperandsReading fuel starred ts ps rest := by
  unfold operands at h
  split at h
  · cases h
  · cases h
    exact .nil _
  · rename_i hfuel _
    obtain rfl := Nat.succ.inj hfuel
    obtain ⟨⟨a, mid⟩, hread, hnext⟩ := Option.bind_eq_some_iff.1 h
    dsimp only at hnext
    split at hnext
    · cases hnext
      exact .last hread
    · obtain ⟨_, hread', heq⟩ := Option.map_eq_some_iff.1 hnext
      cases heq
      exact .cons hread hread'
    · cases hnext

theorem items_reading {ps : List Phrase} {ends : Bool} (h : items (fuel + 1) ts = some (ps, ends)) :
    ItemsReading fuel ts ps := by
  rw [items] at h
  obtain ⟨⟨a, mid⟩, hread, hnext⟩ := Option.bind_eq_some_iff.1 h
  dsimp only at hnext
  split at hnext
  · cases hnext
    exact .last hread
  · cases hnext
    exact .comma hread
  · obtain ⟨_, hread', heq⟩ := Option.map_eq_some_iff.1 hnext
    cases heq
    exact .cons hread hread'
  · cases hnext

theorem ofLine_reading (h : ofLine ts = some p) : ∃ us, (ts = us ∨ ts = .name "return" :: us) ∧ LineReading us p := by
  unfold ofLine at h
  split at h
  case' h_1 us => refine ⟨us, Or.inr rfl, ?_⟩
  case' h_2 => refine ⟨_, Or.inl rfl, ?_⟩
  all_goals
    dsimp only at h
    split at h
    · cases h
      exact .alone ‹_›
    · cases h
      exact .tuple ‹_›
    · cases h

end

end Phrase

end Heightfield.Formula
