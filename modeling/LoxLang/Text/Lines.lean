/-!
Line ends and lines.  In a text file a carriage return ends a line as a line feed does, and
the two together end one line.  On standard input that depends on how the stream is opened: it
may read as a text file does, or end its lines at line feeds only and keep carriage returns.
-/

namespace LoxLang

namespace Lines

def unify : List Char → List Char
  | [] => []
  | '\r' :: '\n' :: rest => '\n' :: unify rest
  | c :: rest => (if c = '\r' then '\n' else c) :: unify rest

/-- The lines of a text whose line ends are line feeds; what follows the last one is a line unless
it is empty. -/
def ofText (text : List Char) : List (List Char) :=
  let pieces := text.splitOn '\n'
  if pieces.getLast? = some [] then pieces.dropLast else pieces

def join (lines : List String) : String :=
  String.join (lines.map (· ++ "\n"))

end Lines

inductive Newlines where
  | universal
  | feeds
  deriving DecidableEq, Repr

namespace Newlines

def translate : Newlines → List Char → List Char
  | universal, text => Lines.unify text
  | feeds, text => text

end Newlines

/-- The text that a command is given beside its arguments, and what ends the lines in it. -/
structure StandardInput where
  text : List Char := []
  newlines : Newlines := .feeds
  deriving DecidableEq, Repr

namespace StandardInput

/-- A text that is given as such is read as a text file is. -/
instance : Coe (List Char) StandardInput where
  coe text := { text, newlines := .universal }

def lines (input : StandardInput) : List (List Char) :=
  Lines.ofText (input.newlines.translate input.text)

end StandardInput

end LoxLang
