import ArithFrontEnd.Engine.Action

/-!
# Registries of actions

A registry says which action an identifier stands for, and remembers the order in which the actions
were registered.

## Main definitions

* `Registry`, `Registry.register`, `Registry.find?` — the actions by identifier.

## Main results

* `Registry.register_eq_ok_iff` — an identifier can be registered once.
* `Registry.find?_register` — **the actions after a registration**.
-/

namespace ArithFrontEnd

/-- The actions by identifier, in order of registration. -/
structure Registry (A : Type) where
  /-- The identifiers with their actions. -/
  entries : List (A × Action)

namespace Registry

variable {A : Type}

/-- The registry without actions. -/
def empty : Registry A := ⟨[]⟩

/-- The identifiers in order of registration. -/
def ids (r : Registry A) : List A := r.entries.map (·.1)

/-- The number of registered actions. -/
def size (r : Registry A) : Nat := r.entries.length

@[simp] theorem ids_empty : (empty : Registry A).ids = [] := rfl

variable [DecidableEq A]

/-- The action that an identifier stands for. -/
def find? (r : Registry A) (id : A) : Option Action := r.entries.lookup id

/-- The identifier stands for an action. -/
def contains (r : Registry A) (id : A) : Bool := r.ids.contains id

/-- Let `id` stand for `action`. An identifier that already stands for an action is refused. -/
def register (r : Registry A) (id : A) (action : Action) : Except A (Registry A) :=
  if r.contains id then .error id else .ok ⟨r.entries ++ [(id, action)]⟩

/-- Register a list of actions, up to the first identifier that is refused. -/
def registerAll (r : Registry A) (entries : List (A × Action)) : Except A (Registry A) :=
  entries.foldlM (fun r entry => r.register entry.1 entry.2) r

/-- What is said of a second registration, given how the identifier is shown. -/
def duplicateMessage (shown : String) : String :=
  s!"action {shown} has already been registered"

theorem register_eq_ok_iff {r r' : Registry A} {id : A} {action : Action} :
    r.register id action = .ok r' ↔ id ∉ r.ids ∧ r' = ⟨r.entries ++ [(id, action)]⟩ := by
  unfold register
  split <;> simp_all [contains, eq_comm]

/-- After a registration the new identifier stands for the new action, and every other one for what
it stood for. -/
theorem find?_register {r r' : Registry A} {id : A} {action : Action}
    (h : r.register id action = .ok r') (other : A) :
    r'.find? other = if other = id then some action else r.find? other := by
  obtain ⟨fresh, rfl⟩ := register_eq_ok_iff.1 h
  have none : r.entries.lookup id = none := by
    rw [List.lookup_eq_none_iff]
    intro entry mem
    exact bne_iff_ne.2 fun eq => fresh (List.mem_map.2 ⟨entry, mem, eq.symm⟩)
  simp only [find?, List.lookup_append, List.lookup_cons, List.lookup_nil]
  by_cases eq : other = id
  · subst eq
    simp [none]
  · have ne : (other == id) = false := by simpa using eq
    simp [eq, ne]

end Registry

end ArithFrontEnd
