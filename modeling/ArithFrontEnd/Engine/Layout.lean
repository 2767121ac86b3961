import ArithFrontEnd.Engine.Step

/-!
# Stacks from the bottom up

A stack can be counted from the bottom, so that a cell keeps its height whatever is put on top of
it. A right-hand side is put on such a stack from its last symbol to its first, and each of its
nonterminals brings its place with it.

## Main definitions

* `pushSymbol`, `pushAll` — a symbol and a right-hand side are put on a stack.
* `pushPrediction` — a predicted right-hand side is put on a stack, with the value that goes to it.

## Main results

* `size_pushAll` — a right-hand side takes the cells of its expansion.
* `pushPrediction_ofWord` — the height of a value is the sum of machine words.
* `pushAll_reverse` — **both ways of counting show the same stack.**
* `deliverAt_eq_some`, `reverse_of_deliverAt` — what a value that is delivered at a height changes,
  from the top down and from the bottom up.
* `deliverBy_natCast` — an offset that leads up to a right-hand side does not see the cells below.
-/

namespace ArithFrontEnd

variable {T N A : Type}

/-- Put the cells of a symbol on a stack. The place of a nonterminal comes first. -/
def pushSymbol (stack : Array (Cell T N A)) : Symbol T N A → Array (Cell T N A)
  | .terminal t => stack.push (.new (.terminal t))
  | .nonterminal n => (stack.push (.new (.synthesized n))).push (.new (.nonterminal n))
  | .action a => stack.push (.new (.action a))

/-- Put the cells of a right-hand side on a stack, so that its first symbol is on top. -/
def pushAll (stack : Array (Cell T N A)) (production : List (Symbol T N A)) :
    Array (Cell T N A) :=
  production.reverse.foldl pushSymbol stack

/-- Put the cells of a predicted right-hand side on a stack. A value that the nonterminal carries is
received at the height that the offset leads to, which has to be that of a cell. -/
def pushPrediction (stack : Array (Cell T N A)) (prediction : Prediction T N A) :
    List Value → Option (Array (Cell T N A))
  | [] => some (pushAll stack prediction.production)
  | [v] =>
    let pushed := pushAll stack prediction.production
    match prediction.inherited with
    | none => some pushed
    | some offset =>
      (Offset.height? stack.size offset).bind fun height =>
        if height < pushed.size then some (pushed.modify height (Cell.receive v)) else none
  | _ => none

variable {stack : Array (Cell T N A)}

@[simp] theorem pushAll_nil : pushAll stack [] = stack := rfl

@[simp] theorem pushAll_cons (s : Symbol T N A) (production : List (Symbol T N A)) :
    pushAll stack (s :: production) = pushSymbol (pushAll stack production) s := by
  simp [pushAll]

theorem pushAll_append (u v : List (Symbol T N A)) :
    pushAll stack (u ++ v) = pushAll (pushAll stack v) u := by
  simp [pushAll]

theorem size_pushSymbol (s : Symbol T N A) :
    (pushSymbol stack s).size = stack.size + (cellsOf s).length := by
  cases s <;> simp [pushSymbol, cellsOf]

/-- A right-hand side takes the cells of its expansion. -/
theorem size_pushAll (production : List (Symbol T N A)) :
    (pushAll stack production).size = stack.size + (expansion production).length := by
  induction production with
  | nil => rfl
  | cons s production ih =>
    rw [pushAll_cons, size_pushSymbol, ih, expansion, expansion, List.flatMap_cons,
      List.length_append]
    omega

/-- The cells below a symbol stay as they are. -/
theorem getElem?_pushSymbol {i : Nat} (h : i < stack.size) (s : Symbol T N A) :
    (pushSymbol stack s)[i]? = stack[i]? := by
  cases s with
  | terminal t => rw [pushSymbol, Array.getElem?_push, if_neg (by omega)]
  | nonterminal n =>
    rw [pushSymbol, Array.getElem?_push, Array.size_push, if_neg (by omega), Array.getElem?_push,
      if_neg (by omega)]
  | action a => rw [pushSymbol, Array.getElem?_push, if_neg (by omega)]

/-- The cells below a right-hand side stay as they are. -/
theorem getElem?_pushAll {i : Nat} (h : i < stack.size) (production : List (Symbol T N A)) :
    (pushAll stack production)[i]? = stack[i]? := by
  induction production with
  | nil => rfl
  | cons s production ih =>
    have hlt : i < (pushAll stack production).size := by
      rw [size_pushAll]
      omega
    rw [pushAll_cons, getElem?_pushSymbol hlt, ih]

theorem pushSymbol_reverse (cells : List (Cell T N A)) (s : Symbol T N A) :
    pushSymbol cells.reverse.toArray s = (cellsOf s ++ cells).reverse.toArray := by
  cases s <;> simp [pushSymbol, cellsOf]

/-- The cells that are put on a stack from the bottom up are those that an expansion has from the
top down. -/
theorem pushAll_reverse (below : List (Cell T N A)) (production : List (Symbol T N A)) :
    pushAll below.reverse.toArray production = (expansion production ++ below).reverse.toArray := by
  induction production with
  | nil => rfl
  | cons s production ih =>
    rw [pushAll_cons, ih, pushSymbol_reverse, expansion, expansion, List.flatMap_cons,
      List.append_assoc]

/-- The height at which a value is received is the sum of machine words, which may wrap around. -/
theorem pushPrediction_ofWord {production : List (Symbol T N A)} {word : UInt64} {v : Value}
    {height : Nat} (hsize : 2 * (pushAll stack production).size < UInt64.size)
    (hheight : (.ofNat stack.size + word : UInt64).toNat = height) :
    pushPrediction stack ⟨production, some (Offset.ofWord word)⟩ [v] =
      if height < (pushAll stack production).size then
        some ((pushAll stack production).modify height (Cell.receive v))
      else none := by
  have hbase : stack.size ≤ (pushAll stack production).size := by
    rw [size_pushAll]
    exact Nat.le_add_right _ _
  have hsum {i : Nat} (hi : i < (pushAll stack production).size) :
      Offset.height? stack.size (Offset.ofWord word) = some i ↔ height = i := by
    rw [Offset.height?_ofWord hbase hsize hi, hheight]
  unfold pushPrediction
  dsimp only
  split
  · next hlt => rw [(hsum hlt).2 rfl, Option.bind_some, if_pos hlt]
  · next hge =>
    refine Option.bind_eq_none_iff.2 fun i hi => if_neg fun hlt => hge ?_
    rwa [(hsum hlt).1 hi]

/-! ### Delivering at a height -/

variable {v : Value} {height : Nat} {cells cells' : List (Cell T N A)}

/-- A change in the middle of a list. -/
theorem modify_length_append {α : Type} (f : α → α) (xs ys : List α) (y : α) :
    (xs ++ y :: ys).modify xs.length f = xs ++ f y :: ys := by
  rw [List.modify_eq_take_cons_drop (by simp)]
  simp

/-- A height is that of the cell with as many cells below it. -/
theorem deliverAt_append (above below : List (Cell T N A)) (cell : Cell T N A) :
    deliverAt v below.length (above ++ cell :: below) =
      some (above ++ cell.receive v :: below) := by
  have hlength : (above ++ cell :: below).length = above.length + 1 + below.length := by
    rw [List.length_append, List.length_cons]
    omega
  rw [deliverAt, if_pos (by omega), hlength,
    show above.length + 1 + below.length - 1 - below.length = above.length by omega,
    modify_length_append]

theorem deliverAt_eq_none_iff : deliverAt v height cells = none ↔ cells.length ≤ height := by
  simp [deliverAt]

theorem deliverAt_eq_some (h : deliverAt v height cells = some cells') :
    ∃ above cell below, cells = above ++ cell :: below ∧ below.length = height ∧
      cells' = above ++ cell.receive v :: below := by
  have hlt : height < cells.length := by
    refine Nat.lt_of_not_le fun hle => ?_
    rw [deliverAt_eq_none_iff.2 hle] at h
    cases h
  obtain ⟨above, cell, below, rfl, hbelow⟩ : ∃ above cell below,
      cells = above ++ cell :: below ∧ below.length = height := by
    refine ⟨cells.take (cells.length - 1 - height), cells[cells.length - 1 - height],
      cells.drop (cells.length - 1 - height + 1), ?_, ?_⟩
    · rw [← List.drop_eq_getElem_cons, List.take_append_drop]
    · rw [List.length_drop]
      omega
  subst hbelow
  rw [deliverAt_append] at h
  exact ⟨above, cell, below, rfl, rfl, (Option.some.inj h).symm⟩

/-- A value reaches the same cell from the top down and from the bottom up. -/
theorem reverse_of_deliverAt (h : deliverAt v height cells = some cells') :
    cells'.reverse.toArray = cells.reverse.toArray.modify height (Cell.receive v) := by
  obtain ⟨above, cell, below, rfl, rfl, rfl⟩ := deliverAt_eq_some h
  have hreverse (cell : Cell T N A) :
      (above ++ cell :: below).reverse = below.reverse ++ cell :: above.reverse := by simp
  have hlength : below.length = below.reverse.length := List.length_reverse.symm
  rw [hreverse, hreverse, hlength, List.modify_toArray, modify_length_append]

/-! ### Delivering by an offset -/

variable {base : Nat} {offset : Int}

theorem deliverBy_eq_some_iff : deliverBy v base offset cells = some cells' ↔
    ∃ height, Offset.height? base offset = some height ∧ deliverAt v height cells = some cells' :=
  Option.bind_eq_some_iff

theorem deliverBy_eq_none_iff : deliverBy v base offset cells = none ↔
    ∀ height, Offset.height? base offset = some height → cells.length ≤ height := by
  simp only [deliverBy, Option.bind_eq_none_iff, deliverAt_eq_none_iff]

/-- An offset that leads up to some cells does not see the cells below. -/
theorem deliverBy_natCast (v : Value) (height : Nat) (cells below : List (Cell T N A)) :
    deliverBy v below.length (height : Int) (cells ++ below) =
      (deliverAt v height cells).map (· ++ below) := by
  rw [deliverBy, Offset.height?_natCast, Option.bind_some]
  cases h : deliverAt v height cells with
  | none =>
    rw [deliverAt_eq_none_iff] at h
    refine deliverAt_eq_none_iff.2 ?_
    rw [List.length_append]
    omega
  | some cells' =>
    obtain ⟨above, cell, rest, rfl, rfl, rfl⟩ := deliverAt_eq_some h
    rw [Nat.add_comm, ← List.length_append, List.append_assoc, List.cons_append, deliverAt_append]
    simp

/-- The cells after a delivery are those before, and one that has received the value. -/
theorem mem_of_deliverBy (h : deliverBy v base offset cells = some cells') {cell : Cell T N A}
    (hcell : cell ∈ cells') : cell ∈ cells ∨ ∃ other ∈ cells, cell = other.receive v := by
  obtain ⟨height, -, hdeliver⟩ := deliverBy_eq_some_iff.1 h
  obtain ⟨above, other, below, rfl, -, rfl⟩ := deliverAt_eq_some hdeliver
  rcases List.mem_append.1 hcell with habove | hcell
  · exact Or.inl (List.mem_append_left _ habove)
  · rcases List.mem_cons.1 hcell with rfl | hbelow
    · exact Or.inr ⟨other, List.mem_append_right _ List.mem_cons_self, rfl⟩
    · exact Or.inl (List.mem_append_right _ (List.mem_cons_of_mem _ hbelow))

end ArithFrontEnd
