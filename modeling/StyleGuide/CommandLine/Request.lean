import StyleGuide.CommandLine.Options
import StyleGuide.Path.Basic

/-!
# What the arguments of the program ask for

`Request.ofArguments` reads the arguments of the program: options, then a subcommand with options
of its own.
-/

namespace StyleGuide.CommandLine

/-- What to compile, and what to do with it. -/
structure CompileRequest where
  /-- The file with the configuration. -/
  config : Path
  /-- The file to write to, in place of the standard output. -/
  output : Option Path
  /-- Whether what handles stand for is put in. -/
  resolve : Bool
deriving DecidableEq

/-- What the arguments ask for. -/
inductive Request where
  | ask (q : Question)
  | compile (request : CompileRequest)
deriving DecidableEq

/-- The file with the configuration, unless an option says otherwise. -/
def defaultConfig : String := "styleguide.toml"

/-- The options in front of the subcommand. -/
def globalOptions : List OptionSpec := [
  ⟨"config", some 'c', .value⟩, ⟨"verbose", some 'v', .flag⟩, ⟨"help", some 'h', .ask .help⟩,
  ⟨"version", some 'V', .ask .version⟩]

/-- The options of the subcommand `compile`. -/
def compileOptions : List OptionSpec := [
  ⟨"output", some 'o', .value⟩, ⟨"resolve", none, .flag⟩, ⟨"help", some 'h', .ask .help⟩]

/-- The subcommands. -/
def subcommands : List String := ["compile", "help"]

namespace Request

/-- What the arguments of the subcommand `help` ask for: help about the program or one of its
subcommands. -/
def ofHelp : List String → Except UsageError Request
  | [] => .ok (.ask .help)
  | [topic] => if subcommands.contains topic then .ok (.ask .help) else .error .unknownArgument
  | _ => .error .unknownArgument

/-- What the arguments of the subcommand `compile` ask for, behind the given options. -/
def ofCompile (given : Given) (args : List String) : Except UsageError Request := do
  match ← readOptions compileOptions [] .nothing args with
  | .asked q => pure (.ask q)
  | .command .. => .error .unknownArgument
  | .finished own =>
    let given ← given.settle
    pure (.compile
      { config := .ofString ((given.values.lookup "config").getD defaultConfig)
        output := (own.values.lookup "output").map .ofString
        resolve := own.flags.contains "resolve" })

/-- What the arguments of the program ask for. -/
def ofArguments (args : List String) : Except UsageError Request := do
  match ← readOptions globalOptions subcommands .nothing args with
  | .asked q => pure (.ask q)
  | .finished _ => .error .missingCommand
  | .command name given rest => if name = "help" then ofHelp rest else ofCompile given rest

end Request

end StyleGuide.CommandLine
