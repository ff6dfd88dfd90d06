/-!
# Options and operands

A subcommand's arguments are options with values, `--name value` or `--name=value`, and operands.
A word that begins with a dash is neither a separate value nor an operand, unless it is the dash
alone or the option takes signed numbers; after a double dash every word is an operand.
-/

namespace Vivarium.CommandLine

/-- The options that a subcommand knows. -/
structure Vocabulary where
  options : List String
  /-- Those whose value may begin with a minus sign. -/
  signed : List String

/-- The arguments of a subcommand, sorted. -/
structure Arguments where
  options : List (String × String)
  operands : List String
deriving DecidableEq, Repr

/-- A word that begins with a dash and has more to it. -/
def isDashed (word : String) : Bool :=
  match word.toList with
  | '-' :: _ :: _ => true
  | _ => false

/-- What stands behind the double dash of an option: its name and, after an equals sign, a value. -/
def optionParts? (word : String) : Option (String × Option String) :=
  match word.toList with
  | '-' :: '-' :: cs =>
    let name := String.ofList (cs.takeWhile (· != '='))
    match cs.dropWhile (· != '=') with
    | [] => some (name, none)
    | _ :: value => some (name, some (String.ofList value))
  | _ => none

namespace Arguments

def addOption (a : Arguments) (name value : String) : Arguments :=
  { a with options := (name, value) :: a.options }

def addOperand (a : Arguments) (word : String) : Arguments :=
  { a with operands := word :: a.operands }

/-- Sorts the arguments. There is no result for an unknown option or one without a value. -/
def sort? (v : Vocabulary) : List String → Option Arguments
  | [] => some ⟨[], []⟩
  | word :: rest =>
    if word = "--" then some ⟨[], rest⟩
    else
      match optionParts? word with
      | some (name, some value) =>
        if v.options.contains name then (sort? v rest).map (·.addOption name value) else none
      | some (name, none) =>
        match rest with
        | [] => none
        | value :: rest =>
          if v.options.contains name && (!isDashed value || v.signed.contains name) then
            (sort? v rest).map (·.addOption name value)
          else none
      | none => if isDashed word then none else (sort? v rest).map (·.addOperand word)

/-- Every option is given at most once. -/
def distinct (a : Arguments) : Bool := decide (a.options.map Prod.fst).Nodup

/-- The value of an option, if it is given and can be read. There is no result if it cannot. -/
def optional (a : Arguments) (name : String) (read : String → Option α) : Option (Option α) :=
  match a.options.lookup name with
  | none => some none
  | some value => (read value).map some

/-- The same with a value for the case that the option is not given. -/
def valueD (a : Arguments) (name : String) (read : String → Option α) (default : α) : Option α :=
  (a.optional name read).map (·.getD default)

end Arguments

end Vivarium.CommandLine
