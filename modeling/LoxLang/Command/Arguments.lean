import LoxLang.Text.DecimalDigit
import LoxLang.Text.Quoted

/-!
Command-line arguments.

An interface is a program with flags and one positional argument.  A flag starts
with a hyphen and takes a value or none; a long flag may be cut short as long as
no other starts alike, and its value may follow an `=`; short flags without values
may stand together behind one hyphen, also with an `=` behind the first.  Behind
`--` everything is positional.  Flags act in order, so a request for help ends the
reading where it stands; the flags of one argument act once all of them are known.
-/

namespace LoxLang

inductive FlagEffect (σ : Type) where
  | help
  | set (change : σ → σ)
  | take (change : String → σ → σ)

structure Flag (σ : Type) where
  names : List String
  effect : FlagEffect σ

structure Interface (σ : Type) where
  program : String
  usage : String
  help : String
  flags : List (Flag σ)
  positional : String
  isRequired : Bool
  store : String → σ → σ

inductive ArgumentStop where
  | help
  | misuse (message : String)
  deriving DecidableEq, Repr, Inhabited

namespace Flag

variable {σ : Type}

def takesValue (flag : Flag σ) : Bool :=
  match flag.effect with
  | .take _ => true
  | _ => false

def label (flag : Flag σ) : String :=
  "argument " ++ "/".intercalate flag.names ++ ": "

def ignored (flag : Flag σ) (value : List Char) : ArgumentStop :=
  .misuse (flag.label ++ "ignored explicit argument " ++ Quoted.quote (String.ofList value))

def apply (flag : Flag σ) (settings : σ) : Except ArgumentStop σ :=
  match flag.effect with
  | .help => .error .help
  | .set change => .ok (change settings)
  | .take _ => .ok settings

def applyTo (flag : Flag σ) (value : String) (settings : σ) : Except ArgumentStop σ :=
  match flag.effect with
  | .take change => .ok (change value settings)
  | _ => flag.apply settings

end Flag

inductive ArgumentForm (σ : Type) where
  | positional
  | separator
  /-- A flag by its whole name, with the text attached to it: behind an `=`, or run on. -/
  | flag (flag : Flag σ) (name : List Char) (attached : Option (List Char))
  | unknownFlag

namespace Interface

variable {σ : Type} (interface : Interface σ)

def names : List (String × Flag σ) :=
  interface.flags.flatMap fun flag => flag.names.map (·, flag)

def named? (name : List Char) : Option (Flag σ) :=
  interface.names.lookup (String.ofList name)

def cutEquals (text : List Char) : List Char × Option (List Char) :=
  match text.dropWhile (· ≠ '=') with
  | [] => (text, none)
  | _ :: value => (text.takeWhile (· ≠ '='), some value)

/-- Whether an argument is a negative number, which is no flag; a line end behind it is nothing. -/
def isNegativeNumber (text : List Char) : Bool :=
  let line := if text.getLast? = some '\n' then text.dropLast else text
  match line with
  | '-' :: size =>
      let whole := size.takeWhile isDecimalDigit
      match size.dropWhile isDecimalDigit with
      | [] => !whole.isEmpty
      | '.' :: fraction => !fraction.isEmpty && fraction.all isDecimalDigit
      | _ => false
  | _ => false

/-- The flags that an argument may stand for, with the name meant and the text attached. -/
def candidates (text : List Char) : List (List Char × Flag σ × Option (List Char)) :=
  match text with
  | '-' :: '-' :: _ =>
      let (stem, value) := cutEquals text
      interface.names.filterMap fun (name, flag) =>
        if stem.isPrefixOf name.toList then some (name.toList, flag, value) else none
  | _ =>
      interface.names.filterMap fun (name, flag) =>
        if name.toList = text.take 2 then some (name.toList, flag, some (text.drop 2))
        else if text.isPrefixOf name.toList then some (name.toList, flag, none)
        else none

def classify (argument : String) : Except ArgumentStop (ArgumentForm σ) :=
  let text := argument.toList
  if text.head? ≠ some '-' then .ok .positional
  else
    match interface.named? text with
    | some flag => .ok (.flag flag text none)
    | none =>
        if text.length = 1 then .ok .positional
        else
          let (stem, value) := cutEquals text
          match interface.named? stem, value with
          | some flag, some value => .ok (.flag flag stem (some value))
          | _, _ =>
              match interface.candidates text with
              | [(name, flag, attached)] => .ok (.flag flag name attached)
              | [] =>
                  if isNegativeNumber text || text.contains ' ' then .ok .positional
                  else .ok .unknownFlag
              | several =>
                  .error (.misuse ("ambiguous option: " ++ argument ++ " could match " ++
                    ", ".intercalate (several.map fun (name, _) => String.ofList name)))

def classifyAll : List String → Except ArgumentStop (List (String × ArgumentForm σ))
  | [] => .ok []
  | argument :: rest =>
      if argument = "--" then
        .ok ((argument, .separator) :: rest.map fun other => (other, .positional))
      else do
        let form ← interface.classify argument
        return (argument, form) :: (← classifyAll rest)

inductive BundleEnd (σ : Type) where
  | complete
  | value (flag : Flag σ) (value : String)
  | awaits (flag : Flag σ)

structure Bundle (σ : Type) where
  plain : List (Flag σ) := []
  ending : BundleEnd σ := .complete

def bare (flag : Flag σ) : Bundle σ :=
  if flag.takesValue then { ending := .awaits flag } else { plain := [flag] }

/-- The value that an attached text is; a separator counts as no text. -/
def attachedValue (text : List Char) : String :=
  if text = ['-', '-'] then "" else String.ofList text

/-- A flag with the text attached to it: its value, or letters that are a flag each. -/
def unbundle (flag : Flag σ) (text : List Char) : Except ArgumentStop (Bundle σ) :=
  if flag.takesValue then .ok { ending := .value flag (attachedValue text) }
  else
    match text with
    | [] => .error (flag.ignored [])
    | letter :: letters =>
        match interface.named? ['-', letter] with
        | none => .error (flag.ignored (letter :: letters))
        | some next => do
            let bundle ← if letters.isEmpty then .ok (bare next) else unbundle next letters
            return { bundle with plain := flag :: bundle.plain }

def attach (flag : Flag σ) (name text : List Char) : Except ArgumentStop (Bundle σ) :=
  if ['-', '-'].isPrefixOf name && !flag.takesValue then .error (flag.ignored text)
  else interface.unbundle flag text

/-- The settings so far, whether the positional argument is still open, and what was not used. -/
structure Progress (σ : Type) where
  settings : σ
  isOpen : Bool := true
  unused : List String := []

namespace Progress

def leave (progress : Progress σ) (arguments : List String) : Progress σ :=
  { progress with unused := progress.unused ++ arguments }

def fill (progress : Progress σ) (store : String → σ → σ) (argument : String) : Progress σ :=
  { progress with settings := store argument progress.settings, isOpen := false }

end Progress

def applyPlain (flags : List (Flag σ)) (progress : Progress σ) :
    Except ArgumentStop (Progress σ) := do
  let settings ← flags.foldlM (fun settings flag => flag.apply settings) progress.settings
  return { progress with settings }

def applyValue (flag : Flag σ) (value : String) (progress : Progress σ) :
    Except ArgumentStop (Progress σ) := do
  let settings ← flag.applyTo value progress.settings
  return { progress with settings }

/-- Uses the arguments behind the last flag; a separator beside the positional one is dropped. -/
def finish (progress : Progress σ) : List (String × ArgumentForm σ) → Progress σ
  | [] => progress
  | (first, form) :: rest =>
      if !progress.isOpen then progress.leave (first :: rest.map Prod.fst)
      else
        match form, rest with
        | .separator, [] => if interface.isRequired then progress.leave [first] else progress
        | .separator, (argument, _) :: rest =>
            (progress.fill interface.store argument).leave (rest.map Prod.fst)
        | _, (_, .separator) :: rest =>
            (progress.fill interface.store first).leave (rest.map Prod.fst)
        | _, rest => (progress.fill interface.store first).leave (rest.map Prod.fst)

def isFlag : ArgumentForm σ → Bool
  | .flag _ _ _ => true
  | .unknownFlag => true
  | _ => false

def consume (progress : Progress σ) (items : List (String × ArgumentForm σ)) :
    Except ArgumentStop (Progress σ) :=
  if !items.any fun item => isFlag item.2 then .ok (interface.finish progress items)
  else
    match items with
    | [] => .ok progress
    | (_, .flag flag name attached) :: rest => do
        let bundle ← match attached with
          | none => .ok (bare flag)
          | some text => interface.attach flag name text
        match bundle.ending, rest with
        | .complete, rest => consume (← applyPlain bundle.plain progress) rest
        | .value last value, rest =>
            let progress ← applyPlain bundle.plain progress
            consume (← applyValue last value progress) rest
        | .awaits last, (argument, .positional) :: rest =>
            let progress ← applyPlain bundle.plain progress
            consume (← applyValue last argument progress) rest
        | .awaits last, _ => throw (.misuse (last.label ++ "expected one argument"))
    | (argument, .positional) :: rest =>
        consume
          (if progress.isOpen then progress.fill interface.store argument
            else progress.leave [argument])
          rest
    | (argument, _) :: rest => consume (progress.leave [argument]) rest
termination_by items.length

def parse (defaults : σ) (arguments : List String) : Except ArgumentStop σ := do
  let items ← interface.classifyAll arguments
  let progress ← interface.consume { settings := defaults } items
  if interface.isRequired && progress.isOpen then
    throw (.misuse ("the following arguments are required: " ++ interface.positional))
  if !progress.unused.isEmpty then
    throw (.misuse ("unrecognized arguments: " ++ " ".intercalate progress.unused))
  return progress.settings

def misuseText (message : String) : String :=
  interface.usage ++ "\n" ++ interface.program ++ ": error: " ++ message ++ "\n"

end Interface

end LoxLang
