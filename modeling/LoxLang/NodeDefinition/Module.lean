import LoxLang.NodeDefinition.Grammar

/-!
The module of node classes that node definitions stand for.

The classes come in families: a base class, and a class for each definition that
derives from it.  The text is a fixed head and then the classes in order, each
after two empty lines.
-/

namespace LoxLang

/-- A base class with the definitions of the classes that derive from it. -/
structure NodeFamily where
  base : String
  definitions : List String
  deriving DecidableEq, Repr, Inhabited

namespace NodeFamily

def builtIn : List NodeFamily :=
  [⟨"Expr",
      ["Assign   : Token name, Expr value",
        "Binary   : Expr left, Token operator, Expr right",
        "Grouping : Expr expression",
        "Literal  : Object value",
        "Unary    : Token operator, Expr right",
        "Variable : Token name"]⟩,
    ⟨"Stmt",
      ["Block          : List<Stmt> statements",
        "ExpressionStmt : Expr expression",
        "PrintStmt      : Expr expression",
        "VarDecl        : Token name, Expr? initializer"]⟩]

def header : List String :=
  ["\"\"\"Abstract syntax tree node definitions for the Lox language.",
    "",
    "Generated by ``python -m lox.tools.generate_ast``; edit the node",
    "definitions in that module and regenerate instead of editing this file.",
    "\"\"\"",
    "",
    "from __future__ import annotations",
    "",
    "from dataclasses import dataclass",
    "from typing import Any, Optional, Tuple",
    "",
    "from .tokens import Token"]

def baseLines (base : String) : List String :=
  ["", "", "@dataclass(frozen=True)", "class " ++ base ++ ":",
    "    \"\"\"Base class of the " ++ base ++ " node family.\"\"\""]

def classLines (base : String) (definition : NodeDefinition) : List String :=
  ["", "", "@dataclass(frozen=True)", "class " ++ definition.name ++ "(" ++ base ++ "):"] ++
    definition.fields.map fun field => "    " ++ field.name ++ ": " ++ field.type.hint

def lines (family : NodeFamily) : Except DefinitionError (List String) := do
  let definitions ← family.definitions.mapM NodeDefinition.ofText
  return baseLines family.base ++ definitions.flatMap (classLines family.base)

/-- The text of the module; the first malformed definition is the error. -/
def moduleText (families : List NodeFamily) : Except DefinitionError String := do
  let body ← families.mapM lines
  return "\n".intercalate (header ++ body.flatten) ++ "\n"

end NodeFamily

end LoxLang
