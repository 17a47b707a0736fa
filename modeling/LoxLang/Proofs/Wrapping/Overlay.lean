import LoxLang.Proofs.Scoping.Representation

/-!
# One map in place of two

A stack whose lowest map is replaced by two maps that bind together what the one binds.
No name is looked up in another way there, and neither assignments nor declarations
lead out of this relation.  The lower of the two maps never binds a new name, since
declarations go to the one above it.
-/

namespace LoxLang.Scoping

namespace Scopes

variable (scopes : Scopes) (top : Bindings) (name : String) (value : Value)

theorem get?_under :
    (scopes.under top).get? name = (top.get? name).or (scopes.get? name) := by
  change lookup name top (scopes.top :: scopes.below) = _
  rw [lookup.eq_def]
  dsimp only
  cases top.get? name <;> rfl

theorem get?_bottom : Scopes.get? ⟨top, []⟩ name = top.get? name := by
  change lookup name top [] = _
  rw [lookup.eq_def]
  dsimp only
  cases top.get? name <;> rfl

theorem assign?_under :
    (scopes.under top).assign? name value =
      if (top.get? name).isSome then some (scopes.under (top.insert name value))
      else (scopes.assign? name value).map (·.under top) := by
  change update name value top (scopes.top :: scopes.below) = _
  rw [update.eq_def]
  dsimp only
  cases top.get? name <;> rfl

theorem assign?_bottom :
    Scopes.assign? ⟨top, []⟩ name value =
      if (top.get? name).isSome then some ⟨top.insert name value, []⟩ else none := by
  change update name value top [] = _
  rw [update.eq_def]
  dsimp only
  cases top.get? name <;> rfl

theorem define_under :
    (scopes.under top).define name value = scopes.under (top.insert name value) :=
  rfl

end Scopes

/--
The second stack has two maps where the first has its lowest, and the lower of the two
binds the given names.
-/
inductive Overlaid (bound : String → Bool) : Scopes → Scopes → Prop
  | bottom {globals inner outer : Bindings} :
      (∀ name, globals.get? name = (inner.get? name).or (outer.get? name)) →
      (∀ name, (outer.get? name).isSome = bound name) →
      Overlaid bound ⟨globals, []⟩ (Scopes.under ⟨outer, []⟩ inner)
  | under {scopes scopes' : Scopes} {top : Bindings} :
      Overlaid bound scopes scopes' → Overlaid bound (scopes.under top) (scopes'.under top)

variable {bound : String → Bool} {scopes scopes' : Scopes}

theorem Overlaid.depth (h : Overlaid bound scopes scopes') :
    scopes'.below.length = scopes.below.length + 1 := by
  induction h with
  | bottom _ _ => rfl
  | under _ ih => simp [Scopes.under, ih]

theorem Overlaid.get?_eq (h : Overlaid bound scopes scopes') (name : String) :
    scopes'.get? name = scopes.get? name := by
  induction h with
  | bottom hvalues _ => simp [Scopes.get?_under, Scopes.get?_bottom, hvalues]
  | under _ ih => simp [Scopes.get?_under, ih]

theorem Overlaid.define (h : Overlaid bound scopes scopes') (name : String) (value : Value) :
    Overlaid bound (scopes.define name value) (scopes'.define name value) := by
  cases h with
  | bottom hvalues hbound =>
      rw [Scopes.define_under]
      refine .bottom (fun other => ?_) hbound
      by_cases hname : name = other <;> simp [hname, hvalues]
  | under h => exact .under h

/-- The topmost binding of a name is the same map in both stacks, or the one of two. -/
theorem Overlaid.assign (h : Overlaid bound scopes scopes') (name : String) (value : Value) :
    Option.Rel (Overlaid bound) (scopes.assign? name value) (scopes'.assign? name value) := by
  induction h with
  | @bottom globals inner outer hvalues hbound =>
      rw [Scopes.assign?_bottom, Scopes.assign?_under, Scopes.assign?_bottom]
      have hname := hvalues name
      cases hinner : inner.get? name with
      | some old =>
          simp only [hinner, Option.some_or] at hname
          simp only [hname, Option.isSome_some, if_true]
          refine .some (.bottom (fun other => ?_) hbound)
          by_cases hother : name = other <;> simp [hother, hvalues]
      | none =>
          simp only [hinner, Option.none_or] at hname
          cases houter : outer.get? name with
          | none =>
              simp only [hname, houter, Option.isSome_none, Bool.false_eq_true, if_false,
                Option.map_none]
              exact .none
          | some old =>
              simp only [hname, houter, Option.isSome_some, Option.isSome_none, Bool.false_eq_true,
                if_true, if_false, Option.map_some]
              refine .some (.bottom (fun other => ?_) (fun other => ?_))
              · by_cases hother : name = other
                · subst hother
                  simp [hinner]
                · simp [hother, hvalues]
              · by_cases hother : name = other
                · subst hother
                  simp [← hbound, houter]
                · simp [hother, hbound]
  | @under scopes scopes' top _ ih =>
      rw [Scopes.assign?_under, Scopes.assign?_under]
      cases htop : top.get? name with
      | some old => exact .some (.under ‹_›)
      | none =>
          simp only [Option.isSome_none, Bool.false_eq_true, if_false]
          cases hassign : scopes.assign? name value <;>
            cases hassign' : scopes'.assign? name value <;> rw [hassign, hassign'] at ih <;>
            cases ih
          · exact .none
          · exact .some (.under ‹_›)

end LoxLang.Scoping
