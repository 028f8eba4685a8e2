import Interpose.Text.Hex
import Interpose.Weaving.Pass

/-!
# The command line

What the words of a command line ask for, and the two forms of the report.  A switch is written with
two dashes and its name, or with one dash and its letter; letters may share a dash, and a value may
stand in the word of its switch or in the next.

## Main definitions

* `Switch` — the switches
* `Setting`, `Switch.settings` — switches with their values, as the words give them
* `Command`, `Request.ofWords` — what is asked for
* `Report.line`, `Report.json` — what is printed about a pass
-/

namespace Interpose

/-- The switches of the command line. -/
inductive Switch where
  | input
  | output
  | noConstructors
  | exclude
  | json
  | verbose
  | help
  | version
deriving DecidableEq, Repr, Inhabited

namespace Switch

/-- All switches, in the order in which they are explained. -/
def all : List Switch := [input, output, noConstructors, exclude, json, verbose, help, version]

/-- The name that follows two dashes. -/
def name : Switch → String
  | input => "input"
  | output => "output"
  | noConstructors => "no-constructors"
  | exclude => "exclude"
  | json => "json"
  | verbose => "verbose"
  | help => "help"
  | version => "version"

/-- The letter that follows one dash. -/
def letter? : Switch → Option Char
  | input => some 'i'
  | output => some 'o'
  | verbose => some 'v'
  | help => some 'h'
  | version => some 'V'
  | noConstructors | exclude | json => none

/-- What the value of a switch is, if it takes one. -/
def value? : Switch → Option String
  | input | output => some "FILE"
  | exclude => some "TYPE"
  | noConstructors | json | verbose | help | version => none

/-- A switch with the place of its value. -/
def usage (s : Switch) : String :=
  "--" ++ s.name ++ match s.value? with
    | some value => " <" ++ value ++ ">"
    | none => ""

/-- What a switch is for. -/
def purpose : Switch → String
  | input => "The input module that will be modified"
  | output => "The path of the resulting module. Defaults to overwriting the input"
  | noConstructors => "Leave `newobj` sites alone and only intercept method calls"
  | exclude => "Never rewrite methods of this type; a trailing `.` excludes a namespace"
  | json => "Emit the rewrite report as JSON instead of human-readable text"
  | verbose => "Enable verbose (debug-level) logging output"
  | help => "Print help"
  | version => "Print version"

/-- The explanation of a switch. -/
def explanation (s : Switch) : String :=
  let letter := match s.letter? with
    | some letter => String.ofList ['-', letter, ',', ' ']
    | none => "    "
  let shown := "  " ++ letter ++ s.usage
  shown ++ String.ofList (List.replicate (25 - shown.length) ' ') ++ s.purpose

/-- The switch of a name. -/
def ofName? (name : String) : Option Switch := all.find? fun s => s.name = name

/-- The switch of a letter. -/
def ofLetter? (letter : Char) : Option Switch := all.find? fun s => s.letter? = some letter

end Switch

/-- A switch with its value, which is empty if it takes none. -/
structure Setting where
  switch : Switch
  value : String := ""
deriving DecidableEq, Repr, Inhabited

/-- Why the words of a command line make no sense. -/
inductive UsageError where
  | unexpectedWord (word : String)
  | missingValue (switch : Switch)
  | unexpectedValue (switch : Switch) (value : String)
  | repeated (switch : Switch)
  | missingInput
deriving DecidableEq, Repr

/-- The wording of an error. -/
def UsageError.message : UsageError → String
  | unexpectedWord word => "unexpected argument '" ++ word ++ "' found"
  | missingValue switch =>
    "a value is required for '" ++ switch.usage ++ "' but none was supplied"
  | unexpectedValue switch value =>
    "unexpected value '" ++ value ++ "' for '" ++ switch.usage ++ "' found; no more were expected"
  | repeated switch => "the argument '" ++ switch.usage ++ "' cannot be used multiple times"
  | missingInput =>
    "the following required arguments were not provided:\n  " ++ Switch.usage .input

namespace Switch

/-- The settings in the letters after one dash, and a switch at their end that still lacks its
value. -/
def lettered : List Char → Except UsageError (List Setting × Option Switch)
  | [] => return ([], none)
  | letter :: rest => do
    match ofLetter? letter with
    | none => throw (.unexpectedWord (String.ofList ['-', letter]))
    | some switch =>
      if switch.value?.isNone then
        let (settings, open?) ← lettered rest
        return (⟨switch, ""⟩ :: settings, open?)
      else
        match rest with
        | [] => return ([], some switch)
        | '=' :: value => return ([⟨switch, String.ofList value⟩], none)
        | value => return ([⟨switch, String.ofList value⟩], none)

/-- The setting in a word after two dashes, or a switch that still lacks its value. -/
def named (word : List Char) : Except UsageError (List Setting × Option Switch) := do
  let name := String.ofList (word.takeWhile (· ≠ '='))
  let value? := (word.dropWhile (· ≠ '=')).tail?.map String.ofList
  match ofName? name with
  | none => throw (.unexpectedWord ("--" ++ name))
  | some switch =>
    match switch.value?.isSome, value? with
    | true, some value => return ([⟨switch, value⟩], none)
    | true, none => return ([], some switch)
    | false, some value => throw (.unexpectedValue switch value)
    | false, none => return ([⟨switch, ""⟩], none)

/-- The settings in one word. -/
def ofWord (word : String) : Except UsageError (List Setting × Option Switch) :=
  match word.toList with
  | '-' :: '-' :: rest => if rest.isEmpty then throw (.unexpectedWord word) else named rest
  | '-' :: letter :: rest => lettered (letter :: rest)
  | _ => throw (.unexpectedWord word)

/-- The settings that words give. -/
def settings : List String → Except UsageError (List Setting)
  | [] => return []
  | word :: rest => do
    match ← ofWord word with
    | (found, none) => return found ++ (← settings rest)
    | (found, some switch) =>
      match rest with
      | [] => throw (.missingValue switch)
      | value :: rest =>
        if value.startsWith "-" && value ≠ "-" then throw (.missingValue switch)
        return found ++ ⟨switch, value⟩ :: (← settings rest)

end Switch

/-- The weaving of one module. -/
structure Command where
  input : String
  output : String
  policy : WeavePolicy := {}
  /-- Whether the report is printed as JSON. -/
  json : Bool := false
  /-- Whether the files that are read and written are named while that happens. -/
  verbose : Bool := false
deriving DecidableEq, Repr

/-- What a command line asks for. -/
inductive Request where
  | help
  | version
  | weave (command : Command)
deriving DecidableEq, Repr

namespace Request

/-- The first switch that is set twice although it counts once. -/
def repeated? : List Setting → Option Switch
  | [] => none
  | s :: rest =>
    if s.switch ≠ .exclude ∧ rest.any (fun later => later.switch = s.switch) then some s.switch
    else repeated? rest

/-- What settings ask for. -/
def ofSettings (settings : List Setting) : Except UsageError Request := do
  let values switch := (settings.filter fun s => s.switch = switch).map Setting.value
  let isSet switch := !(values switch).isEmpty
  if isSet .help then return .help
  if isSet .version then return .version
  if let some switch := repeated? settings then throw (.repeated switch)
  match values .input with
  | [] => throw .missingInput
  | input :: _ =>
    return .weave {
      input
      output := (values .output).headD input
      policy := { constructions := !isSet .noConstructors, excludedTypes := values .exclude }
      json := isSet .json
      verbose := isSet .verbose }

/-- What the words of a command line ask for. -/
def ofWords (words : List String) : Except UsageError Request := do
  ofSettings (← Switch.settings words)

end Request

/-- The line that shows how the command is used. -/
def usageLine : String := "Usage: interpose [OPTIONS] --input <FILE>"

/-- The explanation of the command. -/
def helpText : String :=
  "interpose - add call interception to a CIL module container\n\n" ++ usageLine ++
    "\n\nOptions:\n" ++ "\n".intercalate (Switch.all.map Switch.explanation)

/-- A pass over the module of one file. -/
structure Report where
  input : String
  output : String
  summary : PassSummary
deriving DecidableEq, Repr

namespace Report

/-- The report in one line. -/
def line (r : Report) : String :=
  r.output ++ ": rewrote " ++ toString r.summary.woven ++ " of " ++ toString r.summary.visited ++
    " methods, " ++ toString r.summary.sites ++ " call sites intercepted (" ++
    toString r.summary.skipped ++ " already processed)"

/-- A character inside a JSON string. -/
def jsonChar (c : Char) : List Char :=
  match c with
  | '"' => ['\\', '"']
  | '\\' => ['\\', '\\']
  | '\n' => ['\\', 'n']
  | '\r' => ['\\', 'r']
  | '\t' => ['\\', 't']
  | '\x08' => ['\\', 'b']
  | '\x0c' => ['\\', 'f']
  | c => if c.toNat < 32 then ['\\', 'u'] ++ (hexPadded 4 c.toNat).toList else [c]

/-- A JSON string. -/
def jsonString (text : String) : String :=
  "\"" ++ String.ofList (text.toList.flatMap jsonChar) ++ "\""

/-- The report as a JSON object, one member a line. -/
def json (r : Report) : String :=
  let members := [("input", jsonString r.input), ("output", jsonString r.output),
    ("visited", toString r.summary.visited), ("rewritten", toString r.summary.woven),
    ("skipped", toString r.summary.skipped), ("sites", toString r.summary.sites)]
  let lines := members.map fun (key, value) => "  " ++ jsonString key ++ ": " ++ value
  "\x7b\n" ++ ",\n".intercalate lines ++ "\n\x7d"

end Report

end Interpose
