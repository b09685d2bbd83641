/-!
# Options of a command

`readOptions` reads the arguments of a command up to the name of a subcommand or to their end. A
long option is written `--name`, a short one `-n`; short ones may be written together behind one
dash. A value stands in the next argument, or in that of the option: behind `=`, or directly behind
a short option. Each option may be given once.
-/

namespace StyleGuide.CommandLine

/-- What can be asked in place of running a command. -/
inductive Question where
  | help
  | version
deriving DecidableEq

/-- What an option does. -/
inductive Action where
  | flag
  /-- It takes a value. -/
  | value
  /-- It asks something; no argument behind it is read. -/
  | ask (q : Question)
deriving DecidableEq

/-- An option that a command knows. -/
structure OptionSpec where
  long : String
  short? : Option Char
  action : Action

/-- The arguments are not those of the command. -/
inductive UsageError where
  | unknownOption
  | unknownArgument
  | repeatedOption
  | missingValue
  | emptyValue
  | uselessValue
  | missingCommand
deriving DecidableEq

/-- The options that have been given. -/
structure Given where
  flags : List String
  values : List (String × String)
  /-- An option whose value is looked for in the next argument, and that argument once it has been
  read. The value is checked when the next option follows, or at the end. -/
  last : Option (String × Option String)

namespace Given

/-- No option has been given. -/
def nothing : Given := ⟨[], [], none⟩

/-- Add a value, which is not empty. -/
def setValue (name value : String) (g : Given) : Except UsageError Given :=
  if value.isEmpty then .error .emptyValue
  else if (g.values.lookup name).isSome then .error .repeatedOption
  else .ok { g with values := g.values ++ [(name, value)] }

/-- Add a flag. -/
def setFlag (name : String) (g : Given) : Except UsageError Given :=
  if g.flags.contains name then .error .repeatedOption
  else .ok { g with flags := g.flags ++ [name] }

/-- Check the value of the last option. -/
def settle (g : Given) : Except UsageError Given :=
  match g.last with
  | none => .ok g
  | some (_, none) => .error .missingValue
  | some (name, some value) => setValue name value { g with last := none }

/-- Add an option, with the value that its argument holds. -/
def add (o : OptionSpec) (value? : Option String) (g : Given) :
    Except UsageError (Question ⊕ Given) := do
  match o.action, value? with
  | .flag, none => .inr <$> (← g.settle).setFlag o.long
  | .ask q, none =>
    let _ ← g.settle
    pure (.inl q)
  | .value, none => pure (.inr { ← g.settle with last := some (o.long, none) })
  | .value, some v => .inr <$> (← g.settle).setValue o.long v
  | _, some _ => .error .uselessValue

/-- Add the short options that stand behind one dash. -/
def addShort (table : List OptionSpec) : List Char → Given →
    Except UsageError (Question ⊕ Given)
  | [], g => .ok (.inr g)
  | c :: rest, g =>
    match table.find? (·.short? == some c) with
    | none => .error .unknownOption
    | some o =>
      if o.action = .value ∧ rest ≠ [] then
        g.add o (some (String.ofList (if rest.head? = some '=' then rest.tail else rest)))
      else
        match g.add o none with
        | .ok (.inr g) => addShort table rest g
        | stopped => stopped

/-- Add the long option that stands behind two dashes. -/
def addLong (table : List OptionSpec) (cs : List Char) (g : Given) :
    Except UsageError (Question ⊕ Given) :=
  let name := cs.takeWhile (· != '=')
  match table.find? (·.long == String.ofList name) with
  | none => .error .unknownOption
  | some o =>
    match cs.drop name.length with
    | [] => g.add o none
    | _ :: value => g.add o (some (String.ofList value))

end Given

/-- Where reading ends. -/
inductive Stop where
  /-- No argument is left. -/
  | finished (given : Given)
  /-- The name of a subcommand has been read, and these arguments are left. -/
  | command (name : String) (given : Given) (rest : List String)
  | asked (q : Question)

/-- Read the options of a command that has the given subcommands. Behind an argument `--` no option
is read, so nothing may follow on it. -/
def readOptions (table : List OptionSpec) (commands : List String) :
    Given → List String → Except UsageError Stop
  | g, [] => .finished <$> g.settle
  | g, arg :: rest =>
    let proceed := fun (r : Except UsageError (Question ⊕ Given)) =>
      match r with
      | .ok (.inr g) => readOptions table commands g rest
      | .ok (.inl q) => .ok (.asked q)
      | .error e => .error e
    match g.last, arg.toList with
    | some (name, none), cs =>
      if cs.head? = some '-' ∧ cs ≠ ['-'] then .error .missingValue
      else readOptions table commands { g with last := some (name, some arg) } rest
    | _, ['-', '-'] => if rest.isEmpty then .finished <$> g.settle else .error .unknownArgument
    | _, '-' :: '-' :: cs => proceed (g.addLong table cs)
    | _, '-' :: c :: cs => proceed (g.addShort table (c :: cs))
    | _, _ =>
      if commands.contains arg then .ok (.command arg g rest) else .error .unknownArgument

end StyleGuide.CommandLine
