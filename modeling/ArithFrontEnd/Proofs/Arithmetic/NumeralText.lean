import ArithFrontEnd.Arithmetic.Numeral

/-!
# Written values are numerals

A value that is written in decimal can be read again.  Reading goes from the left, and the digits
read so far are never more than the whole numeral, so no part of it is out of range.

## Main results

* `readDigits_append` — digits are read part by part.
* `value?_text` — **the text of a value is a numeral of that value.**
* `value?_of_digits` — digits are a numeral of the integer that they stand for, if it is in range.
-/

namespace ArithFrontEnd
namespace Numeral

/-- The integer of a magnitude and a sign. -/
def signed (negative : Bool) (n : Nat) : Int := if negative then -(n : Int) else n

theorem digit?_digitChar {d : Nat} (hd : d < 10) : digit? d.digitChar = some d := by
  rw [digit?, if_pos (by simpa [Nat.isDigit_digitChar] using hd)]
  exact congrArg some (Nat.toNat_digitChar_sub_48_of_lt_ten hd)

/-- Digits are read part by part. -/
theorem readDigits_append (negative : Bool) (v : Value) (cs ds : List Char) :
    readDigits negative v (cs ++ ds) =
      match readDigits negative v cs with
      | .ok w => readDigits negative w ds
      | .error e => .error e := by
  induction cs generalizing v with
  | nil => rfl
  | cons c cs ih =>
    rw [List.cons_append, readDigits, readDigits]
    cases digit? c with
    | none => rfl
    | some d =>
      dsimp only
      cases Value.ofInt? (10 * v.toInt + if negative then -(d : Int) else d) with
      | none => rfl
      | some w => exact ih w

/-- One more digit multiplies the magnitude by ten. -/
theorem readDigits_digitChar {negative : Bool} {n d : Nat} (hd : d < 10) {v w : Value}
    (hv : v.toInt = signed negative n) (hw : w.toInt = signed negative (10 * n + d)) :
    readDigits negative v [d.digitChar] = .ok w := by
  have hnext : 10 * v.toInt + (if negative then -(d : Int) else d) = w.toInt := by
    rw [hv, hw]
    cases negative with
    | false => simp [signed]
    | true =>
      simp [signed]
      omega
  rw [readDigits, digit?_digitChar hd]
  simp [hnext, readDigits]

/-- The magnitude without its last digit is in range too. -/
theorem fits_signed_of_le {negative : Bool} {m n : Nat} (hle : m ≤ n)
    (hfits : Value.Fits (signed negative n)) : Value.Fits (signed negative m) := by
  unfold Value.Fits signed at *
  cases negative <;> simp at * <;> omega

theorem readDigits_toDigits {negative : Bool} (n : Nat) {v : Value}
    (hv : v.toInt = signed negative n) :
    readDigits negative 0 (Nat.toDigits 10 n) = .ok v := by
  induction n using Nat.strongRecOn generalizing v with
  | ind n ih =>
    have hzero : (0 : Value).toInt = signed negative 0 := by cases negative <;> rfl
    rw [Nat.toDigits_eq_if (by omega)]
    split
    · next hlt => exact readDigits_digitChar hlt hzero (by simpa using hv)
    · next hge =>
      -- the digits before the last one are those of a smaller magnitude
      have hfits : Value.Fits (signed negative (n / 10)) :=
        fits_signed_of_le (Nat.div_le_self n 10) (hv ▸ Value.fits_toInt v)
      obtain ⟨w, hw⟩ : ∃ w : Value, w.toInt = signed negative (n / 10) :=
        ⟨_, Value.ofInt?_eq_some_iff.1 (if_pos hfits)⟩
      rw [readDigits_append, ih (n / 10) (by omega) hw]
      refine readDigits_digitChar (Nat.mod_lt n (by omega)) hw ?_
      rw [hv, Nat.div_add_mod]

/-- Digits without a sign are read as they are. -/
theorem read_of_digits {text : String} (hne : text.toList ≠ [])
    (hdigits : ∀ c ∈ text.toList, c.isDigit = true) :
    read text = readDigits false 0 text.toList := by
  rw [read]
  split
  · next heq => exact absurd heq hne
  · next heq => exact absurd (hdigits '+' (heq ▸ List.mem_cons_self)) (by decide)
  · next heq => exact absurd (hdigits '-' (heq ▸ List.mem_cons_self)) (by decide)
  · next heq => rw [heq]

/-- Digits after a minus sign count downwards. -/
theorem read_of_minus {text : String} {n : Nat} (htext : text.toList = '-' :: Nat.toDigits 10 n) :
    read text = readDigits true 0 (Nat.toDigits 10 n) := by
  rw [read, htext]
  cases hds : Nat.toDigits 10 n with
  | nil => exact absurd hds Nat.toDigits_ne_nil
  | cons c cs => rfl

/-- The text of a value is a numeral of that value. -/
theorem value?_text (v : Value) : value? v.text = some v := by
  have hread : read v.text = .ok v := by
    unfold Value.text
    cases hint : v.toInt with
    | ofNat n =>
      have htext : (toString (Int.ofNat n)).toList = Nat.toDigits 10 n := Nat.toList_repr
      have hdigits : ∀ c ∈ Nat.toDigits 10 n, c.isDigit = true := fun c hc =>
        Nat.isDigit_of_mem_toDigits (by omega) (by omega) hc
      rw [read_of_digits (htext ▸ Nat.toDigits_ne_nil) (htext ▸ hdigits), htext,
        readDigits_toDigits n hint]
    | negSucc n =>
      have htext : (toString (Int.negSucc n)).toList = '-' :: Nat.toDigits 10 (n + 1) := by
        simp [Int.toString_eq_repr, Int.repr, String.toList_append]
      rw [read_of_minus htext, readDigits_toDigits (n + 1) (by rw [hint]; rfl)]
  rw [value?, hread]
  rfl

/-! ### The value of digits -/

theorem le_ofDigitChars (cs : List Char) (n : Nat) : n ≤ Nat.ofDigitChars 10 cs n := by
  rw [Nat.ofDigitChars_eq_ofDigitChars_zero]
  have hpow : 1 * n ≤ 10 ^ cs.length * n := Nat.mul_le_mul_right n (Nat.one_le_pow _ _ (by omega))
  omega

/-- Digits are read up to the first one with which they are too large. -/
theorem readDigits_eq_ofInt? {cs : List Char} (hdigits : ∀ c ∈ cs, c.isDigit = true) {v : Value}
    {n : Nat} (hv : v.toInt = n) :
    (readDigits false v cs).toOption = Value.ofInt? (Nat.ofDigitChars 10 cs n) := by
  induction cs generalizing v n with
  | nil => rw [readDigits, Nat.ofDigitChars_nil, ← hv, Value.ofInt?_toInt]; rfl
  | cons c cs ih =>
    have hdigit : digit? c = some (c.toNat - '0'.toNat) := if_pos (hdigits c List.mem_cons_self)
    have hnext : 10 * v.toInt + (c.toNat - '0'.toNat : Nat) =
        (10 * n + (c.toNat - '0'.toNat) : Nat) := by
      rw [hv]
      push_cast
      rfl
    rw [readDigits, hdigit, Nat.ofDigitChars_cons]
    simp only [Bool.false_eq_true, if_false]
    rw [hnext]
    cases hw : Value.ofInt? ((10 * n + (c.toNat - '0'.toNat) : Nat) : Int) with
    | some w =>
      exact ih (fun d hd => hdigits d (List.mem_cons_of_mem c hd)) (Value.ofInt?_eq_some_iff.1 hw)
    | none =>
      -- more digits do not make it smaller
      have hlarge := Value.ofInt?_eq_none_iff.1 hw
      have hle := le_ofDigitChars cs (10 * n + (c.toNat - '0'.toNat))
      refine (Value.ofInt?_eq_none_iff.2 fun hfits => hlarge ?_).symm
      unfold Value.Fits at *
      omega

/-- A text of digits is the numeral of the integer that they stand for. -/
theorem value?_of_digits {text : String} (hne : text.toList ≠ [])
    (hdigits : ∀ c ∈ text.toList, c.isDigit = true) :
    value? text = Value.ofInt? (Nat.ofDigitChars 10 text.toList 0) := by
  rw [value?, read_of_digits hne hdigits]
  exact readDigits_eq_ofInt? hdigits rfl

end Numeral
end ArithFrontEnd
