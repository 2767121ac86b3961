/-!
# Values

A value is an integer of sixty-four bits with a sign. Arithmetic is exact: an operation computes
with unbounded integers and has a value only when its result fits.

## Main definitions

* `Value`, `Value.ofInt?` — the values, and the value of an integer that fits.
* `Value.text` — a value in decimal.
-/

namespace ArithFrontEnd

/-- An integer from `-2 ^ 63` up to `2 ^ 63 - 1`. -/
abbrev Value := Int64

namespace Value

/-- The integers that are values. -/
def Fits (n : Int) : Prop := -9223372036854775808 ≤ n ∧ n ≤ 9223372036854775807

instance (n : Int) : Decidable (Fits n) := inferInstanceAs (Decidable (_ ∧ _))

/-- The value that equals `n`, if `n` fits. -/
def ofInt? (n : Int) : Option Value :=
  if Fits n then some (Int64.ofInt n) else none

/-- A value in decimal, with a minus sign if it is negative. -/
def text (v : Value) : String := toString v.toInt

theorem fits_toInt (v : Value) : Fits v.toInt := ⟨v.le_toInt, Int.le_of_lt_add_one v.toInt_lt⟩

@[simp] theorem ofInt?_toInt (v : Value) : ofInt? v.toInt = some v := by
  simp [ofInt?, fits_toInt]

theorem ofInt?_eq_some_iff {n : Int} {v : Value} : ofInt? n = some v ↔ v.toInt = n := by
  constructor
  · intro h
    unfold ofInt? at h
    split at h
    · next fits =>
      cases h
      exact Int64.toInt_ofInt_of_le fits.1 (Int.lt_add_one_of_le fits.2)
    · contradiction
  · rintro rfl
    exact ofInt?_toInt v

theorem ofInt?_eq_none_iff {n : Int} : ofInt? n = none ↔ ¬ Fits n := by
  simp [ofInt?]

end Value

end ArithFrontEnd
