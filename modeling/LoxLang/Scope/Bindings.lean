import LoxLang.Value

/-!
The bindings of one scope: names with their values, each name at most once.
-/

namespace LoxLang

/-- Names with their values, in the order in which they were first bound. -/
structure Bindings where
  entries : List (String × Value) := []
  deriving DecidableEq, Repr, Inhabited

namespace Bindings

def find? (name : String) : List (String × Value) → Option Value
  | [] => none
  | (key, value) :: rest => if key = name then some value else find? name rest

def put (name : String) (value : Value) : List (String × Value) → List (String × Value)
  | [] => [(name, value)]
  | (key, old) :: rest =>
      if key = name then (name, value) :: rest else (key, old) :: put name value rest

def get? (bindings : Bindings) (name : String) : Option Value :=
  find? name bindings.entries

def insert (bindings : Bindings) (name : String) (value : Value) : Bindings :=
  ⟨put name value bindings.entries⟩

def sorted (bindings : Bindings) : List (String × Value) :=
  bindings.entries.mergeSort fun a b => decide (a.1 ≤ b.1)

theorem find?_put (name other : String) (value : Value) (entries : List (String × Value)) :
    find? other (put name value entries) =
      if name = other then some value else find? other entries := by
  induction entries with
  | nil => simp [put, find?]
  | cons entry rest ih =>
      obtain ⟨key, old⟩ := entry
      by_cases same : key = name
      · subst same; by_cases h : key = other <;> simp [put, find?, h]
      · by_cases h : key = other
        · subst h; simp [put, find?, same, Ne.symm same]
        · simp [put, find?, same, h, ih]

@[simp] theorem get?_empty (name : String) : (⟨[]⟩ : Bindings).get? name = none :=
  rfl

@[simp] theorem get?_insert (bindings : Bindings) (name other : String) (value : Value) :
    (bindings.insert name value).get? other =
      if name = other then some value else bindings.get? other :=
  find?_put name other value bindings.entries

end Bindings

end LoxLang
