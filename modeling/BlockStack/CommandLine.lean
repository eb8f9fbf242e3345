import BlockStack.Numeral

/-!
# BlockStack.CommandLine

Reading the arguments of a program that has options, switches and commands.

* `Form`: the options and switches of a program or of one of its commands. An option has a value,
  in the same argument after an equals sign or in the next one; a switch has none.
* `Usage`: why arguments are not accepted, or that they ask for help.
* `Form.scan`: read arguments from left to right, up to the name of a command. Whether the value
  of an option is accepted is found out when the next option is read or at the end.
* `CommandLine.read`: options of the program, a command, and options of the command. What is not
  given is taken from the environment.
-/

namespace BlockStack

/-- Why arguments are not accepted, or what they ask for. -/
inductive Usage where
  | displayHelp
  | displayVersion
  | nothingGiven
  | missingCommand
  | unknownCommand
  | unknownArgument
  | missingArgument
  | repeatedArgument
  | noValue
  | needlessValue
  | badNumber
  deriving DecidableEq, Repr

namespace Usage

def name : Usage → String
  | displayHelp => "DisplayHelp"
  | displayVersion => "DisplayVersion"
  | nothingGiven => "DisplayHelpOnMissingArgumentOrSubcommand"
  | missingCommand => "MissingSubcommand"
  | unknownCommand => "InvalidSubcommand"
  | unknownArgument => "UnknownArgument"
  | missingArgument => "MissingRequiredArgument"
  | repeatedArgument => "ArgumentConflict"
  | noValue => "InvalidValue"
  | needlessValue => "TooManyValues"
  | badNumber => "ValueValidation"

/-- The exit code of a program that does nothing but answer to its arguments. -/
def exitCode : Usage → Nat
  | displayHelp | displayVersion => 0
  | _ => 2

end Usage

/-- What the value of an option is. -/
inductive ValueForm where
  | path
  | text
  | number
  deriving DecidableEq, Repr

def ValueForm.check : ValueForm → String → Except Usage Unit
  | path, value => if value.isEmpty then .error .noValue else .ok ()
  | text, _ => .ok ()
  | number, value => if (Numeral.read64? value).isSome then .ok () else .error .badNumber

/-- An option; its value may come from a variable of the environment. -/
structure OptionForm where
  name : String
  value : ValueForm
  envVar : Option String := none
  required : Bool := false
  deriving DecidableEq, Repr

/-- A switch; it may be set by a variable of the environment. -/
structure SwitchForm where
  name : String
  envVar : Option String := none
  deriving DecidableEq, Repr

/-- The options and switches of a program or of a command. -/
structure Form where
  name : String
  options : List OptionForm := []
  switches : List SwitchForm := []
  hasVersion : Bool := false
  deriving DecidableEq, Repr

/-- The values and switches that were given. -/
structure Given where
  values : List (String × String) := []
  switches : List String := []
  deriving DecidableEq, Repr, Inhabited

namespace Given

def value? (given : Given) (name : String) : Option String := given.values.lookup name

def isSet (given : Given) (name : String) : Bool := given.switches.contains name

def isEmpty (given : Given) : Bool := given.values.isEmpty && given.switches.isEmpty

/-- Take a value of an option; there may be only one. -/
def addValue (given : Given) (option : OptionForm) (value : String) : Except Usage Given :=
  if (given.value? option.name).isSome then .error .repeatedArgument
  else
    match option.value.check value with
    | .error usage => .error usage
    | .ok () => .ok { given with values := given.values ++ [(option.name, value)] }

/-- Set a switch; it may be set only once. -/
def addSwitch (given : Given) (switch : SwitchForm) : Except Usage Given :=
  if given.isSet switch.name then .error .repeatedArgument
  else .ok { given with switches := given.switches ++ [switch.name] }

end Given

/-- Arguments being read: what was given so far, and the last option that was not settled yet, with
its value if that was read. After two dashes alone all arguments are plain words. -/
structure Scan where
  given : Given := {}
  pending : Option (OptionForm × Option String) := none
  onlyWords : Bool := false
  deriving DecidableEq, Repr, Inhabited

namespace Scan

/-- Whether the next word is the value of an option. -/
def awaitsValue (scan : Scan) : Bool :=
  match scan.pending with
  | some (_, none) => true
  | _ => false

/-- Settle the last option. -/
def settle (scan : Scan) : Except Usage Given :=
  match scan.pending with
  | none => .ok scan.given
  | some (_, none) => .error .noValue
  | some (option, some value) => scan.given.addValue option value

/-- Settle the last option and answer. -/
def stop (scan : Scan) (usage : Usage) : Usage :=
  match scan.settle with
  | .error earlier => earlier
  | .ok _ => usage

/-- Take a word as the value of the last option. -/
def giveValue (scan : Scan) (value : String) : Scan :=
  { scan with pending := scan.pending.map (fun e => (e.1, some value)) }

end Scan

namespace Form

def scanOption (scan : Scan) (option : OptionForm) (value : Option String) : Except Usage Scan :=
  match scan.settle with
  | .error usage => .error usage
  | .ok given =>
    match value with
    | none => .ok { scan with given, pending := some (option, none) }
    | some value =>
      match given.addValue option value with
      | .error usage => .error usage
      | .ok given => .ok { scan with given, pending := none }

def scanSwitch (scan : Scan) (switch : SwitchForm) (value : Option String) : Except Usage Scan :=
  if value.isSome then .error .needlessValue
  else
    match scan.settle with
    | .error usage => .error usage
    | .ok given =>
      match given.addSwitch switch with
      | .error usage => .error usage
      | .ok given => .ok { scan with given, pending := none }

def scanQuestion (scan : Scan) (usage : Usage) (value : Option String) : Except Usage Scan :=
  if value.isSome then .error .needlessValue else .error (scan.stop usage)

/-- The name of an argument after its two dashes, and the value after an equals sign. -/
def splitValue (argument : String) : String × Option String :=
  let cs := argument.toList.drop 2
  let name := String.ofList (cs.takeWhile (· ≠ '='))
  match cs.dropWhile (· ≠ '=') with
  | [] => (name, none)
  | _ :: value => (name, some (String.ofList value))

def scanLong (form : Form) (scan : Scan) (argument : String) : Except Usage Scan :=
  let (name, value) := splitValue argument
  if name = "help" then scanQuestion scan .displayHelp value
  else if name = "version" ∧ form.hasVersion then scanQuestion scan .displayVersion value
  else
    match form.options.find? (fun option => option.name = name) with
    | some option => scanOption scan option value
    | none =>
      match form.switches.find? (fun switch => switch.name = name) with
      | some switch => scanSwitch scan switch value
      | none => .error .unknownArgument

/-- Answer to an argument that starts with one dash; there are only questions. -/
def answerShort (form : Form) (scan : Scan) (letter : Char) : Usage :=
  if letter = 'h' then scan.stop .displayHelp
  else if letter = 'V' ∧ form.hasVersion then scan.stop .displayVersion
  else .unknownArgument

/-- Whether a word is the name of a command; help is one wherever there are commands. -/
def isCommand (commands : List Form) (word : String) : Bool :=
  !commands.isEmpty && (word = "help" || commands.any (fun command => command.name = word))

/-- Answer to a word that is neither a value nor a command. -/
def answerWord (commands : List Form) (onlyWords : Bool) (word : String) : Usage :=
  if commands.isEmpty then .unknownArgument
  else if onlyWords && isCommand commands word then .unknownArgument
  else .unknownCommand

/-- Answer to the words after a call for help, which lead to a command. -/
def answerHelp (commands : List Form) (words : List String) : Usage :=
  match words with
  | [] => .displayHelp
  | [word] => if isCommand commands word then .displayHelp else .unknownCommand
  | _ => .unknownCommand

/-- Read arguments from left to right, up to the name of a command. -/
def scan (form : Form) (commands : List Form) (state : Scan) :
    List String → Except Usage (Scan × Option (Form × List String))
  | [] => .ok (state, none)
  | argument :: rest =>
    if state.onlyWords then .error (answerWord commands true argument)
    else if !state.awaitsValue && isCommand commands argument then
      match commands.find? (fun command => command.name = argument) with
      | some command => .ok (state, some (command, rest))
      | none => .error (answerHelp commands rest)
    else
      match argument.toList with
      | ['-', '-'] => form.scan commands { state with onlyWords := true } rest
      | '-' :: '-' :: _ =>
        match form.scanLong state argument with
        | .error usage => .error usage
        | .ok state => form.scan commands state rest
      | '-' :: letter :: _ => .error (form.answerShort state letter)
      | _ =>
        if state.awaitsValue then form.scan commands (state.giveValue argument) rest
        else .error (answerWord commands false argument)

/-- Take the value of an option from the environment if it was not given. -/
def fillOption (environment : String → Option String) (given : Given) (option : OptionForm) :
    Except Usage Given :=
  match given.value? option.name, option.envVar.bind environment with
  | none, some value => given.addValue option value
  | _, _ => .ok given

/-- Take a switch from the environment if it was not given. -/
def fillSwitch (environment : String → Option String) (given : Given) (switch : SwitchForm) :
    Except Usage Given :=
  if given.isSet switch.name then .ok given
  else
    match switch.envVar.bind environment with
    | none => .ok given
    | some "true" => given.addSwitch switch
    | some "false" => .ok given
    | some _ => .error .noValue

def fill (form : Form) (environment : String → Option String) (given : Given) :
    Except Usage Given :=
  match form.options.foldlM (fillOption environment) given with
  | .error usage => .error usage
  | .ok given => form.switches.foldlM (fillSwitch environment) given

def lacks (form : Form) (given : Given) : Bool :=
  form.options.any (fun option => option.required && (given.value? option.name).isNone)

/-- Settle the last option, and take from the environment what was not given. -/
def conclude (form : Form) (environment : String → Option String) (scan : Scan) :
    Except Usage Given :=
  match scan.settle with
  | .error usage => .error usage
  | .ok given => form.fill environment given

def readCommand (form : Form) (environment : String → Option String) (arguments : List String) :
    Except Usage Given :=
  match form.scan [] {} arguments with
  | .error usage => .error usage
  | .ok (scan, _) =>
    match form.conclude environment scan with
    | .error usage => .error usage
    | .ok given => if form.lacks given then .error .missingArgument else .ok given

end Form

/-- What was given on a command line: options of the program, and a command with its options. -/
structure CommandLine where
  given : Given
  command : String
  ofCommand : Given
  deriving DecidableEq, Repr

/-- Read a command line. The arguments of the command are accepted before the last option of the
program. -/
def CommandLine.read (form : Form) (commands : List Form) (environment : String → Option String)
    (arguments : List String) : Except Usage CommandLine :=
  match form.scan commands {} arguments with
  | .error usage => .error usage
  | .ok (scan, none) =>
    match form.conclude environment scan with
    | .error usage => .error usage
    | .ok given => .error (if given.isEmpty then .nothingGiven else .missingCommand)
  | .ok (scan, some (command, rest)) =>
    match command.readCommand environment rest with
    | .error usage => .error usage
    | .ok ofCommand =>
      match form.conclude environment scan with
      | .error usage => .error usage
      | .ok given =>
        if form.lacks given then .error .missingArgument
        else .ok { given, command := command.name, ofCommand }

end BlockStack
