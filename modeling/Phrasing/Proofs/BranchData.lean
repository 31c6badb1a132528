import Phrasing.Branch.Data

/-!
What is written of a branch as data is read as that branch again, just when its numbers are finite.
-/

namespace Phrasing

namespace Value

variable {name other : String} {value : Value} {fields : List (String × Value)}

theorem lookup_insertField (h : fields.lookup name = none) :
    (insertField name value fields).lookup other = ((name, value) :: fields).lookup other := by
  induction fields with
  | nil => rfl
  | cons field fields ih =>
    obtain ⟨first, held⟩ := field
    rw [List.lookup_cons] at h
    cases hfirst : name == first with
    | true =>
      rw [hfirst] at h
      cases h
    | false =>
      rw [hfirst] at h
      rw [insertField]
      split
      · rfl
      · rw [List.lookup_cons, ih h, List.lookup_cons, List.lookup_cons, List.lookup_cons]
        cases hother : other == first with
        | false => rfl
        | true =>
          have hne : (other == name) = false := by
            rw [eq_of_beq hother, BEq.comm, hfirst]
          rw [hne]

/-- The order that fields are kept in does not matter to what is found in them. -/
theorem field?_ofFields (h : (fields.map Prod.fst).Nodup) (name : String) :
    (ofFields fields).field? name = fields.lookup name := by
  change (fields.foldr _ []).lookup name = _
  induction fields generalizing name with
  | nil => rfl
  | cons field fields ih =>
    obtain ⟨hnew, hlater⟩ := List.nodup_cons.1 h
    have hnone : fields.lookup field.1 = none := by
      rw [List.lookup_eq_none_iff]
      intro later hmem
      rw [bne_iff_ne]
      intro heq
      exact hnew (heq ▸ List.mem_map_of_mem hmem)
    rw [List.foldr_cons, lookup_insertField ((ih hlater _).trans hnone), List.lookup_cons,
      List.lookup_cons, ih hlater]

theorem number?_ofBinary64 (x : Binary64) :
    (ofBinary64 x).number? = if x.isFinite then some x else none := by
  cases x <;> rfl

end Value

namespace Operand

/-- The doubles of an operand. -/
def doubles : Operand → List Binary64
  | float x => [x]
  | range low high => [low, high]
  | _ => []

/-- An index has 64 bits, a whole number 64 bits with a sign. -/
def InLimits : Operand → Prop
  | pointer index => index < Numeral.indexLimit
  | integer n => Numeral.isLiteral n = true
  | _ => True

variable {x : Operand}

theorem rangeOfValue?_content (low high : Binary64) :
    rangeOfValue? (range low high).content =
      if [low, high].all Binary64.isFinite then some (range low high) else none := by
  have hnames : ([("low", Value.ofBinary64 low), ("high", Value.ofBinary64 high)].map
      Prod.fst).Nodup := by simp
  have hlow : (range low high).content.field? "low" = some (.ofBinary64 low) :=
    Value.field?_ofFields hnames "low"
  have hhigh : (range low high).content.field? "high" = some (.ofBinary64 high) :=
    Value.field?_ofFields hnames "high"
  rw [rangeOfValue?, hlow, hhigh]
  simp only [Option.bind_eq_bind, Option.bind_some, Value.number?_ofBinary64]
  cases hl : low.isFinite <;> cases hh : high.isFinite <;> simp [hl, hh]

theorem ofContent?_content (h : x.InLimits) :
    ofContent? x.form x.content = if x.doubles.all Binary64.isFinite then some x else none := by
  cases x with
  | pointer index =>
    have hindex : (Value.integer index).index? = some index := if_pos h
    rw [form, content, ofContent?, if_pos rfl, hindex]
    rfl
  | integer n =>
    have hliteral : (Value.integer n).literal? = some n := if_pos h
    rw [form, content, ofContent?, if_neg (by decide), if_pos rfl, hliteral]
    rfl
  | float y =>
    rw [form, content, ofContent?, if_neg (by decide), if_neg (by decide), if_pos rfl,
      Value.number?_ofBinary64]
    cases hfinite : y.isFinite <;> simp [doubles, hfinite]
  | text s => simp [form, content, ofContent?, doubles, Value.text?]
  | range low high =>
    rw [form, ofContent?, if_neg (by decide), if_neg (by decide), if_neg (by decide),
      if_neg (by decide), if_pos rfl, rangeOfValue?_content]
    rfl

theorem ofValue?_toValue (h : x.InLimits) :
    ofValue? x.toValue = if x.doubles.all Binary64.isFinite then some x else none := by
  have hnames : ([("type", Value.text x.form), ("value", x.content)].map Prod.fst).Nodup := by
    simp
  have htype : x.toValue.field? "type" = some (.text x.form) := Value.field?_ofFields hnames "type"
  have hvalue : x.toValue.field? "value" = some x.content := Value.field?_ofFields hnames "value"
  rw [← ofContent?_content h]
  change (do ofContent? (← (← x.toValue.field? "type").name?) (← x.toValue.field? "value")) = _
  rw [htype, hvalue]
  rfl

end Operand

namespace Branch

def InLimits (b : Branch) : Prop := b.target < Numeral.indexLimit ∧ b.operand.InLimits

/-- A branch is read from what is written of it, unless a double in it is not finite: that is written
as null, and nothing is read. -/
theorem ofValue?_toValue {b : Branch} (h : b.InLimits) :
    ofValue? b.toValue = if b.operand.doubles.all Binary64.isFinite then some b else none := by
  obtain ⟨htarget, hoperand⟩ := h
  have hnames : ([("target", Value.integer b.target), ("operator", .text b.operator.name),
      ("negate", .bool b.negate), ("operand", b.operand.toValue), ("result", .text b.result)].map
        Prod.fst).Nodup := by simp
  have hfield := Value.field?_ofFields hnames
  have hindex : (Value.integer b.target).index? = some b.target := if_pos htarget
  have hread : ofValue? b.toValue = (do
      ofParts? (← b.toValue.field? "target") (← b.toValue.field? "operator")
        ((b.toValue.field? "negate").getD (.bool false)) (← b.toValue.field? "operand")
        (← b.toValue.field? "result")) := rfl
  rw [hread, toValue, hfield, hfield, hfield, hfield, hfield]
  change ofParts? (.integer b.target) (.text b.operator.name) (.bool b.negate) b.operand.toValue
    (.text b.result) = _
  simp only [ofParts?, hindex, Operand.ofValue?_toValue hoperand, Value.name?, Value.bool?,
    Value.text?, Operator.ofName?_name, Option.bind_eq_bind, Option.bind_some]
  split <;> rfl

end Branch

end Phrasing
