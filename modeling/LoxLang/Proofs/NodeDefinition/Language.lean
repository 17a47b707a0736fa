import Mathlib.Data.List.Basic
import LoxLang.NodeDefinition.Grammar

/-!
# The language of node definitions

The grammar of node definitions as relations on sequences of terminals.  A derivation comes
with the annotation that its type is written as, or with the name and the fields it defines.
-/

namespace LoxLang.NodeDefinition

/-! ## The grammar -/

inductive Terminal where
  | name (text : String)
  | colon | comma | lessThan | moreThan | optional | ending
  deriving DecidableEq, Repr

def Terminal.kind : Terminal → DefinitionToken.Kind
  | name _ => .name
  | colon => .colon
  | comma => .comma
  | lessThan => .lessThan
  | moreThan => .moreThan
  | optional => .optional
  | ending => .ending

inductive Named : String → String → Prop
  | object : Named "Object" "Any"
  | other {name} : name ≠ "Object" → Named name name

/-- `OPTIONAL?`, with the annotation without and with it. -/
inductive Suffix : List Terminal → String → String → Prop
  | none {hint} : Suffix [] hint hint
  | optional {hint} : Suffix [.optional] hint ("Optional[" ++ hint ++ "]")

/-- `type_ref: NAME generic? OPTIONAL?` and `generic: "<" type_ref ">"`, with the annotation. -/
inductive IsType : List Terminal → String → Prop
  | plain {name head suffix hint} :
      Named name head → Suffix suffix head hint → IsType (.name name :: suffix) hint
  | list {inside inner suffix hint} :
      IsType inside inner → Suffix suffix ("Tuple[" ++ inner ++ ", ...]") hint →
      IsType (.name "List" :: .lessThan :: (inside ++ .moreThan :: suffix)) hint
  | generic {name head inside inner suffix hint} :
      name ≠ "List" → Named name head → IsType inside inner →
      Suffix suffix (head ++ "[" ++ inner ++ "]") hint →
      IsType (.name name :: .lessThan :: (inside ++ .moreThan :: suffix)) hint

/-- `field ("," field)*` with `field: type_ref NAME`, and the name and annotation of each. -/
inductive IsFields : List Terminal → List (String × String) → Prop
  | last {type hint name} : IsType type hint → IsFields (type ++ [.name name]) [(name, hint)]
  | more {type hint name rest fields} :
      IsType type hint → IsFields rest fields →
      IsFields (type ++ .name name :: .comma :: rest) ((name, hint) :: fields)

/-- `start: NAME ":" field ("," field)*`. -/
inductive IsDefinition : List Terminal → String → List (String × String) → Prop
  | start {name rest fields} :
      IsFields rest fields → IsDefinition (.name name :: .colon :: rest) name fields

def Viable (terminals : List Terminal) : Prop :=
  ∃ more name fields, IsDefinition (terminals ++ more) name fields

theorem Viable.of_append {front back : List Terminal} (h : Viable (front ++ back)) :
    Viable front := by
  obtain ⟨more, name, fields, hdefinition⟩ := h
  rw [List.append_assoc] at hdefinition
  exact ⟨_, name, fields, hdefinition⟩

theorem IsDefinition.viable {terminals : List Terminal} {name : String}
    {fields : List (String × String)} (h : IsDefinition terminals name fields) :
    Viable terminals := by
  refine ⟨[], name, fields, ?_⟩
  rwa [List.append_nil]

/-! ## Tokens as terminals -/

def terminal (token : DefinitionToken) : Terminal :=
  match token.kind with
  | .name => .name (String.ofList token.text)
  | .colon => .colon
  | .comma => .comma
  | .lessThan => .lessThan
  | .moreThan => .moreThan
  | .optional => .optional
  | .ending => .ending

theorem kind_terminal (token : DefinitionToken) : (terminal token).kind = token.kind := by
  unfold terminal
  split <;> simp_all [Terminal.kind]

theorem kind_of_terminal {token : DefinitionToken} {t : Terminal} (h : terminal token = t) :
    token.kind = t.kind := by
  rw [← kind_terminal, h]

theorem terminal_of_name {token : DefinitionToken} (h : token.kind = .name) :
    terminal token = .name (String.ofList token.text) := by
  simp [terminal, h]

theorem text_of_terminal {token : DefinitionToken} {name : String}
    (h : terminal token = .name name) : String.ofList token.text = name := by
  rw [terminal_of_name (kind_of_terminal h)] at h
  exact Terminal.name.inj h

theorem terminal_of_kind {token : DefinitionToken} {t : Terminal} (h : token.kind = t.kind)
    (ht : t.kind ≠ .name) : terminal token = t := by
  cases t <;> simp_all [terminal, Terminal.kind]

theorem exists_terminals (terminals : List Terminal) :
    ∃ tokens : List DefinitionToken, tokens.map terminal = terminals := by
  refine List.map_surjective_iff.mpr (fun t => ?_) terminals
  cases t with
  | name text => exact ⟨⟨.name, text.toList, 0⟩, by simp [terminal]⟩
  | colon => exact ⟨⟨.colon, [], 0⟩, rfl⟩
  | comma => exact ⟨⟨.comma, [], 0⟩, rfl⟩
  | lessThan => exact ⟨⟨.lessThan, [], 0⟩, rfl⟩
  | moreThan => exact ⟨⟨.moreThan, [], 0⟩, rfl⟩
  | optional => exact ⟨⟨.optional, [], 0⟩, rfl⟩
  | ending => exact ⟨⟨.ending, [], 0⟩, rfl⟩

end LoxLang.NodeDefinition
