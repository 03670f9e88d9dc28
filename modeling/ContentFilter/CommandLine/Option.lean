import ContentFilter.Text.Basic

/-!
# Options of a command line

A command line is a list of words. A word that begins with a hyphen, unless it is only that, is
an option; an option with a value has it in the next word, which must not look like an option
itself. The word `--` ends the options. An option is given once, unless it gathers values.
-/

set_option autoImplicit false

namespace ContentFilter.CommandLine

/-- How often an option is given and whether it has a value. -/
inductive Arity where
  | switch
  | single
  | many
deriving DecidableEq, Repr

/-- An option that a command knows. -/
structure OptionSpec where
  /-- The long name, without hyphens. -/
  long : Text
  short : Option Char := none
  /-- What it takes. -/
  arity : Arity
deriving DecidableEq, Repr

/-- Whether a word is an option, known or unknown, or the word that ends the options. -/
def looksLikeOption (word : Text) : Bool :=
  match word with
  | '-' :: _ :: _ => true
  | _ => false

/-- Whether a word names an option. -/
def OptionSpec.isNamedBy (spec : OptionSpec) (word : Text) : Bool :=
  match word with
  | ['-', c] => spec.short == some c
  | '-' :: '-' :: name => name == spec.long
  | _ => false

/-- The words of a command line, sorted out. -/
structure Words where
  /-- The options in order, by long name; a switch has the empty value. -/
  options : List (Text × Text) := []
  /-- The words that are neither options nor values of options. -/
  plain : List Text := []
deriving DecidableEq, Repr, Inhabited

namespace Words

/-- The values of an option. -/
def values (w : Words) (long : Text) : List Text :=
  (w.options.filter (·.1 == long)).map (·.2)

/-- The value of an option that is given at most once. -/
def value? (w : Words) (long : Text) : Option Text := (w.values long).head?

/-- Whether an option is given. -/
def has (w : Words) (long : Text) : Bool := (w.value? long).isSome

/-- The words with an option more, if it may be given again. -/
def withOption (w : Words) (spec : OptionSpec) (value : Text) : Option Words :=
  if spec.arity != .many && w.has spec.long then none
  else some { w with options := w.options ++ [(spec.long, value)] }

/-- The words with a plain word more. -/
def withPlain (w : Words) (word : Text) : Words := { w with plain := w.plain ++ [word] }

/-- Sort out the words of a command that knows the options `specs`; `none` where the command
line is at fault. -/
def sort (specs : List OptionSpec) (w : Words) : List Text → Option Words
  | [] => some w
  | word :: rest =>
    if word = "--".toList then some (rest.foldl withPlain w)
    else if !looksLikeOption word then sort specs (w.withPlain word) rest
    else match specs.find? (·.isNamedBy word) with
      | none => none
      | some spec =>
        if spec.arity = .switch then
          match w.withOption spec [] with
          | some extended => sort specs extended rest
          | none => none
        else match rest with
          | [] => none
          | value :: rest =>
            if looksLikeOption value then none
            else match w.withOption spec value with
              | some extended => sort specs extended rest
              | none => none

end Words

/-- The options before the first plain word, that word, and the words after it. -/
def splitAtCommand (specs : List OptionSpec) (before : List Text) :
    List Text → Option (Words × Text × List Text)
  | [] => none
  | word :: rest =>
    if !looksLikeOption word then
      (Words.sort specs {} before.reverse).map fun w => (w, word, rest)
    else match specs.find? (·.isNamedBy word), rest with
      | some spec, value :: rest' =>
        if spec.arity = .switch then splitAtCommand specs (word :: before) (value :: rest')
        else splitAtCommand specs (value :: word :: before) rest'
      | _, _ => none

end ContentFilter.CommandLine
