import Wabun.Text.Search

/-!
The arguments of the command.
-/

namespace Wabun.Console

/-- What to do with a script. -/
inductive Emit where
  | run
  | phrases
  | program
deriving DecidableEq

def Emit.named? : String → Option Emit
  | "run" => some run
  | "parse" => some phrases
  | "ast" => some program
  | _ => none

structure Options where
  file : Option String := none
  emit : Option Emit := none
  /-- directories for modules, in the order given -/
  modulePath : List String := []
  /-- directories for modules that come last, if any were given -/
  lastPath : Option (List String) := none

/-- Arguments that cannot be understood. -/
inductive UsageFault where
  | missingValue (option : String)
  | missingEmit
  | unknownEmit (value : String)
  | repeatedEmit
  | unexpected (argument : String)

namespace UsageFault

def fileOption : String := "[FILE]"

def modulePathOption : String := "--module-path <MODULE_PATH>"

def lastPathOption : String := "--kotoba-path <ENV_PATH>"

def usage : String := "\n\nUsage: kotoba [OPTIONS] [FILE]"

def possibleEmits : String := "\n  [possible values: run, parse, ast]"

def message : UsageFault → String
  | missingValue option => s!"a value is required for '{option}' but none was supplied"
  | missingEmit =>
    "a value is required for '--emit <EMIT>' but none was supplied" ++ possibleEmits
  | unknownEmit value => s!"invalid value '{value}' for '--emit <EMIT>'" ++ possibleEmits
  | repeatedEmit => "the argument '--emit <EMIT>' cannot be used multiple times" ++ usage
  | unexpected argument => s!"unexpected argument '{argument}' found" ++ usage

def text (fault : UsageFault) : String :=
  "error: " ++ fault.message ++ "\n\nFor more information, try '--help'.\n"

end UsageFault

/-- What the arguments ask for. -/
inductive Request where
  | run (options : Options)
  | version
  | help

namespace Options

def setFile (options : Options) (file : String) : Except UsageFault Options :=
  if options.file.isSome then .error (.unexpected file)
  else if file.isEmpty then .error (.missingValue UsageFault.fileOption)
  else .ok { options with file := some file }

def setEmit (options : Options) (value : String) : Except UsageFault Options :=
  if options.emit.isSome then
    .error .repeatedEmit
  else if value.isEmpty then
    .error .missingEmit
  else
    match Emit.named? value with
    | some emit => .ok { options with emit := some emit }
    | none => .error (.unknownEmit value)

def addModulePath (options : Options) (directory : String) : Except UsageFault Options :=
  if directory.isEmpty then .error (.missingValue UsageFault.modulePathOption)
  else .ok { options with modulePath := options.modulePath ++ [directory] }

/-- Adds directories that are separated by colons. -/
def addLastPath (options : Options) (directories : String) : Except UsageFault Options :=
  let parts := Text.parts ':' directories
  if parts.any String.isEmpty then .error (.missingValue UsageFault.lastPathOption)
  else .ok { options with lastPath := some (options.lastPath.getD [] ++ parts) }

/-- The options that take a value, by their long names. -/
def withValue? :
    String → Option ((Options → String → Except UsageFault Options) × UsageFault)
  | "--emit" => some (setEmit, .missingEmit)
  | "--module-path" => some (addModulePath, .missingValue UsageFault.modulePathOption)
  | "--kotoba-path" => some (addLastPath, .missingValue UsageFault.lastPathOption)
  | _ => none

/-- Whether an argument can be the value of the option before it. -/
def isValue (argument : String) : Bool :=
  argument.toList.head? != some '-' || argument == "-"

/-- Splits an argument at its first equals sign. -/
def splitEquals (argument : String) : String × Option String :=
  let name := argument.toList.takeWhile (· != '=')
  match argument.toList.dropWhile (· != '=') with
  | [] => (argument, none)
  | _ :: value => (String.ofList name, some (String.ofList value))

/-- What the characters of a short argument, without its dash, ask for. -/
inductive Short where
  | flags
  | version
  | help
  | modulePath (attached : Option String)
  | unknown (c : Char)

def readShort : List Char → Short
  | [] => .flags
  | 'v' :: rest => readShort rest
  | 'V' :: _ => .version
  | 'h' :: _ => .help
  | 'I' :: [] => .modulePath none
  | 'I' :: '=' :: rest => .modulePath (some (String.ofList rest))
  | 'I' :: rest => .modulePath (some (String.ofList rest))
  | c :: _ => .unknown c

/-- Reads the arguments in order. The flag says that only files can follow. -/
def readFrom (options : Options) (onlyFiles : Bool) : List String → Except UsageFault Request
  | [] => .ok (.run options)
  | argument :: rest =>
    if onlyFiles || isValue argument then do
      readFrom (← options.setFile argument) onlyFiles rest
    else
      match splitEquals argument with
      | ("--", none) => readFrom options true rest
      | ("--verbose", none) => readFrom options onlyFiles rest
      | ("--version", none) => .ok .version
      | ("--help", none) => .ok .help
      | (name, value) =>
        match withValue? name, value, rest with
        | some (set, _), some value, rest => do
          readFrom (← set options value) onlyFiles rest
        | some (_, missing), none, [] => .error missing
        | some (set, missing), none, value :: rest =>
          if isValue value then do
            readFrom (← set options value) onlyFiles rest
          else
            .error missing
        | none, _, rest =>
          if argument.toList.take 2 == ['-', '-'] then
            .error (.unexpected argument)
          else
            match readShort (argument.toList.drop 1), rest with
            | .flags, rest => readFrom options onlyFiles rest
            | .version, _ => .ok .version
            | .help, _ => .ok .help
            | .modulePath (some directory), rest => do
              readFrom (← options.addModulePath directory) onlyFiles rest
            | .modulePath none, [] => .error (.missingValue UsageFault.modulePathOption)
            | .modulePath none, directory :: rest =>
              if isValue directory then do
                readFrom (← options.addModulePath directory) onlyFiles rest
              else
                .error (.missingValue UsageFault.modulePathOption)
            | .unknown c, _ => .error (.unexpected (String.ofList ['-', c]))

end Options

/-- What the arguments ask for. A variable of the environment stands in for
the last directories if no argument gives them. -/
def Request.ofArguments (arguments : List String) (environment : Option String) :
    Except UsageFault Request := do
  match ← Options.readFrom {} false arguments with
  | .run options =>
    match options.lastPath, environment with
    | none, some directories => return .run (← options.addLastPath directories)
    | _, _ => return .run options
  | other => return other

/-- Where modules are looked for: beside the script, then in the directories
given. -/
def Options.searchPath (options : Options) (scriptDirectory : Option String) : List String :=
  scriptDirectory.toList ++ options.modulePath ++ options.lastPath.getD []

end Wabun.Console
