import ArithFrontEnd.Engine.Action
import ArithFrontEnd.Grammar.Symbol

/-!
# What a predictive parser works from

A predictive parser needs to know which right-hand side a nonterminal is to be expanded by, given
the terminal that comes next. Where that knowledge comes from does not matter: it may be the table
of a grammar or made by hand, over any names of terminals, nonterminals and actions.

Predictions made by hand give offsets as machine words, which may be too large for any stack. Sums
of words wrap around, as they do in programs that are built without overflow checks.

## Main definitions

* `Offset.ofWord`, `Offset.height?` — the offset that a machine word gives, and where it leads.
* `Prediction`, `Predictor` — a predicted right-hand side, and a source of predictions.
* `TokenValue`, `InputToken` — what a parser reads.
* `Predictor.erase` — the predictor without actions.

## Main results

* `Offset.height?_ofWord` — **an offset leads where the sum of machine words does.**
-/

namespace ArithFrontEnd

namespace Offset

/-- The offset that a machine word gives. The height of a cell is less than `2 ^ 63`, so that a sum
that wraps around leads down, and only words of the upper half do. -/
def ofWord (word : UInt64) : Int := word.toInt64.toInt

/-- The machine word that gives an offset. -/
def toWord (offset : Int) : UInt64 := .ofInt offset

/-- The height that an offset leads to from a height. Below the lowest cell there is none. -/
def height? (base : Nat) (offset : Int) : Option Nat := (base + offset).toNat?

theorem height?_eq_some_iff {base height : Nat} {offset : Int} :
    height? base offset = some height ↔ base + offset = height := Int.mem_toNat?

@[simp] theorem height?_natCast (base height : Nat) :
    height? base height = some (base + height) := rfl

/-- The words of the upper half lead down. -/
theorem ofWord_eq (word : UInt64) : ofWord word =
    if 2 * word.toNat < UInt64.size then (word.toNat : Int) else word.toNat - UInt64.size := by
  rw [ofWord, Int64.toInt, UInt64.toBitVec_toInt64, BitVec.toInt_eq_toNat_cond,
    UInt64.toNat_toBitVec]

/-- An offset leads to a cell of a stack just if the sum of machine words is the height of the
cell. -/
theorem height?_ofWord {base size height : Nat} (hbase : base ≤ size)
    (hsize : 2 * size < UInt64.size) (hheight : height < size) (word : UInt64) :
    height? base (ofWord word) = some height ↔ (.ofNat base + word : UInt64).toNat = height := by
  have hword : word.toNat < UInt64.size := word.toNat_lt
  rw [height?_eq_some_iff, ofWord_eq, UInt64.toNat_add, UInt64.toNat_ofNat']
  simp only [UInt64.size] at hsize hword ⊢
  split <;> omega

/-- The largest word leads one cell down. -/
example : height? 3 (ofWord 18446744073709551615) = some 2 := by decide

/-- The word that has given an offset is known. -/
@[simp] theorem toWord_ofWord (word : UInt64) : toWord (ofWord word) = word := by
  apply UInt64.toNat.inj
  have hword : word.toNat < 2 ^ 64 := word.toNat_lt
  change (Int.toNat (ofWord word % 2 ^ 64)) % 2 ^ 64 = _
  rw [ofWord_eq, UInt64.size]
  split <;> omega

end Offset

/-- A right-hand side that a nonterminal is to be expanded by. -/
structure Prediction (T N A : Type) where
  /-- The symbols in order. -/
  production : List (Symbol T N A)
  /-- Where the value of the nonterminal is delivered: so many cells above the height at which the
  nonterminal stood, or below it if negative. Without an offset it is dropped. -/
  inherited : Option Int
  deriving DecidableEq, Repr

/-- A source of predictions, with the names that messages need. The end of the input is the absence
of a terminal. -/
structure Predictor (T N A : Type) where
  /-- The nonterminal that the whole input is to stand for. -/
  start : N
  /-- The right-hand side that a nonterminal is to be expanded by when this comes next. -/
  predict : N → Option T → Option (Prediction T N A)
  /-- The name of a terminal or of the end of the input. -/
  terminalName : Option T → String
  /-- The name of a nonterminal. -/
  nonterminalName : N → String
  /-- The name of an action. -/
  actionName : A → String
  /-- The number of steps allowed for an input of this length. -/
  stepLimit : Nat → Nat

/-- A number of steps that suffices where no nonterminal leads back to itself before a token has
been matched. The expansions between two matches then form trees no deeper than there are
nonterminals, with as many branches as a right-hand side has symbols. -/
def sufficientSteps (nonterminals width tokens : Nat) : Nat :=
  (tokens + 1) * Nat.pow (width + 2) (2 * nonterminals + 3)

/-- What is known of the value of a token. -/
inductive TokenValue
  /-- The token has no value. -/
  | nothing
  /-- The token has this value. -/
  | known (v : Value)
  /-- The token has a value that cannot be known. -/
  | unknown
  deriving DecidableEq, Repr

/-- A token as a parser reads it. -/
structure InputToken (T : Type) where
  /-- The terminal that the token is an instance of. -/
  terminal : T
  /-- The value of the token. -/
  value : TokenValue
  /-- How messages show the token. -/
  shown : String
  deriving DecidableEq, Repr

/-- The token without its value. -/
def InputToken.erase {T : Type} (token : InputToken T) : InputToken T :=
  { token with value := .nothing }

namespace Predictor

variable {T N A : Type}

/-- The predictor that expands without actions and delivers no values. -/
def erase (p : Predictor T N A) : Predictor T N A :=
  { p with predict := fun n t =>
      (p.predict n t).map fun prediction =>
        ⟨prediction.production.filter (!·.isAction), none⟩ }

/-- How messages show what comes next: a token, or the end of the input. -/
def shownNext (p : Predictor T N A) : List (InputToken T) → String
  | [] => p.terminalName none
  | token :: _ => token.shown

end Predictor

end ArithFrontEnd
