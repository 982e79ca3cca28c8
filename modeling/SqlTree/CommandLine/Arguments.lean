namespace SqlTree

/-- An option that a command knows, by a long name behind two hyphens and by a letter behind one. Its value
is the next argument, or the rest of its own. -/
structure OptionSpec where
  long : String
  short : Char
  takesValue : Bool
  deriving DecidableEq

/-- What the environment of a program calls its setting of an option: the names of both, in
capitals, with underscores for hyphens. -/
def OptionSpec.settingName (program : String) (option : OptionSpec) : String :=
  let capitals (name : String) := name.toList.map fun c => if c = '-' then '_' else c.toUpper
  String.ofList (capitals program ++ '_' :: capitals option.long)

/-- Why arguments cannot be read. -/
inductive ArgumentError where
  | unknown (argument : String)
  | noValue (option : OptionSpec)
  | needlessValue (option : OptionSpec)
  | repeated (option : OptionSpec)
  | badValue (option : OptionSpec) (value : String)
  | noCommand
  | unknownCommand (name : String)
  deriving DecidableEq

namespace ArgumentError

def message : ArgumentError → String
  | unknown argument => s!"unexpected argument '{argument}' found"
  | noValue option => s!"a value is required for '--{option.long}' but none was supplied"
  | needlessValue option => s!"unexpected value for '--{option.long}' found; no more were expected"
  | repeated option => s!"the argument '--{option.long}' cannot be used multiple times"
  | badValue option value => s!"invalid value '{value}' for '--{option.long}'"
  | noCommand => "a subcommand is required but one was not provided"
  | unknownCommand name => s!"unrecognized subcommand '{name}'"

end ArgumentError

/-- The options that were given, with their values, and the other arguments. -/
structure Arguments where
  options : List (OptionSpec × String)
  others : List String

namespace Arguments

def addOption (option : OptionSpec) (value : String) (a : Arguments) : Arguments :=
  { a with options := (option, value) :: a.options }

def addOther (other : String) (a : Arguments) : Arguments :=
  { a with others := other :: a.others }

/-- What the letters behind one hyphen say. The last of them may want the next argument. -/
def readLetters (specs : List OptionSpec) :
    List Char → Except ArgumentError (List (OptionSpec × String) × Option OptionSpec)
  | [] => .ok ([], none)
  | c :: cs =>
    match specs.find? fun option => option.short == c with
    | none => .error (.unknown (String.ofList ['-', c]))
    | some option =>
      if option.takesValue then
        match cs with
        | [] => .ok ([], some option)
        | '=' :: value => .ok ([(option, String.ofList value)], none)
        | value => .ok ([(option, String.ofList value)], none)
      else
        (readLetters specs cs).map fun (options, open?) => ((option, "") :: options, open?)

/-- What an argument behind two hyphens says. -/
def readLong (specs : List OptionSpec) (text : List Char) :
    Except ArgumentError (List (OptionSpec × String) × Option OptionSpec) :=
  let name := String.ofList (text.takeWhile (· != '='))
  match specs.find? fun option => option.long == name, text.dropWhile (· != '=') with
  | none, _ => .error (.unknown ("--" ++ name))
  | some option, '=' :: value =>
    if option.takesValue then .ok ([(option, String.ofList value)], none)
    else .error (.needlessValue option)
  | some option, _ =>
    if option.takesValue then .ok ([], some option) else .ok ([(option, "")], none)

/-- What an argument says if it is no value: options, one of which may want the next argument;
or nothing, if it is an argument of its own. -/
def readOptions (specs : List OptionSpec) (argument : String) :
    Except ArgumentError (Option (List (OptionSpec × String) × Option OptionSpec)) :=
  match argument.toList with
  | '-' :: '-' :: text => (readLong specs text).map some
  | '-' :: c :: cs => (readLetters specs (c :: cs)).map some
  | _ => .ok none

/-- Whether an argument can be the value of the option in front of it. -/
def isValue (argument : String) : Bool :=
  match argument.toList with
  | '-' :: _ :: _ => false
  | _ => true

/-- Reads arguments. Two hyphens alone end the options; with `stop`, so does the first argument
that is none, and it and all behind it are left as they are. -/
def read (specs : List OptionSpec) (stop : Bool) : List String → Except ArgumentError Arguments
  | [] => .ok ⟨[], []⟩
  | argument :: rest =>
    if argument = "--" then .ok ⟨[], rest⟩
    else
      match readOptions specs argument with
      | .error e => .error e
      | .ok none =>
        if stop then .ok ⟨[], argument :: rest⟩ else (read specs stop rest).map (addOther argument)
      | .ok (some (options, none)) =>
        (read specs stop rest).map fun a => { a with options := options ++ a.options }
      | .ok (some (options, some open?)) =>
        match rest with
        | [] => .error (.noValue open?)
        | value :: rest =>
          if isValue value then
            (read specs stop rest).map fun a =>
              { a with options := options ++ (open?, value) :: a.options }
          else .error (.noValue open?)

/-- The value of an option, which may be given once. -/
def value? (a : Arguments) (option : OptionSpec) : Except ArgumentError (Option String) :=
  match (a.options.filter fun given => given.1 == option).map (·.2) with
  | [] => .ok none
  | [value] => .ok (some value)
  | _ => .error (.repeated option)

end Arguments

end SqlTree
