import Shortfall.Command.Option
import Shortfall.Text.Case

/-!
# Command lines

A command line names a command, and a command of the catalog may be one of its own commands.
Options may stand anywhere, so the words that name the command are looked for first, passing over
options and their values. What an option is depends on the command it is read for, which is why a
switch of a command has to stand behind the command's name.

Then the words that are left are read as options and arguments of the command.
-/

namespace Shortfall.Command

def dash : UInt8 := 0x2D

/-- What the tool is asked to do. -/
inductive Verb where
  /-- The tool itself, when no command is named. -/
  | top
  | analyze
  | catalog
  | packs
  | enable
  | disable
  | showPack
  | log
  | strategies
  | taint
  | version
  /-- Texts about the use of the tool. -/
  | help
  | completion
  deriving DecidableEq, Repr

namespace Verb

/-- The commands of a command, by name. -/
def children : Verb → List (Text × Verb)
  | top => [("analyze", analyze), ("catalog", catalog), ("log", log), ("strategies", strategies),
      ("taint", taint), ("version", version), ("help", help), ("completion", completion)]
  | catalog => [("packs", packs), ("enable", enable), ("disable", disable), ("show", showPack)]
  | _ => []

/-- The options of all commands. -/
def commonOptions : List OptionSpec := [
  ⟨"config", .text⟩, ⟨"log-level", .text⟩, ⟨"log-format", .text⟩, ⟨"packs-dir", .text⟩,
  ⟨"no-color", .switch⟩]

def ownOptions : Verb → List OptionSpec
  | analyze => [
      ⟨"intent", .text⟩, ⟨"taint", .text⟩, ⟨"program", .texts⟩, ⟨"strategy", .text⟩,
      ⟨"also", .texts⟩, ⟨"json", .switch⟩, ⟨"fail-on", .text⟩, ⟨"sequential", .switch⟩,
      ⟨"metrics-textfile", .text⟩]
  | taint => [⟨"json", .switch⟩, ⟨"strict", .switch⟩, ⟨"metrics-textfile", .text⟩]
  | log => [⟨"command", .text⟩, ⟨"failed", .switch⟩, ⟨"last", .number⟩, ⟨"summary", .switch⟩]
  | _ => []

def option? (verb : Verb) (name : Text) : Option OptionSpec :=
  (verb.ownOptions ++ commonOptions).find? fun spec => spec.name = name

/-! ## Finding the command -/

/-- Whether a word is an option whose value is the word behind it, as far as a command knows. -/
def takesNext (verb : Verb) (word : Text) : Bool :=
  if word.contains 0x3D then false
  else if word.startsWith "--" then
    match verb.option? (word.drop 2) with
    | some spec => spec.kind ≠ .switch
    | none => true
  else word.length = 2 && word.startsWith [dash]

/-- The first word that is neither an option nor its value. The value of an option is passed over
only if more words follow it. -/
def firstName? (verb : Verb) : List Text → Option Text
  | [] => none
  | word :: rest =>
      if word = "--" then none
      else if verb.takesNext word then
        match rest with
        | _ :: next :: more => verb.firstName? (next :: more)
        | _ => none
      else if word.isEmpty || word.startsWith [dash] then verb.firstName? rest
      else some word

/-- The words without the first one that is the given name and no value of an option. -/
def withoutName (verb : Verb) (name : Text) : List Text → List Text
  | [] => []
  | word :: rest =>
      if word = "--" then word :: rest
      else if verb.takesNext word then
        match rest with
        | [] => [word]
        | value :: more => word :: value :: verb.withoutName name more
      else if !word.startsWith [dash] && word = name then rest
      else word :: verb.withoutName name rest

/-- The command of a command that the words name, and the words without its name. -/
def descend? (verb : Verb) (words : List Text) : Option (Verb × List Text) :=
  match verb.firstName? words with
  | none => none
  | some name =>
      match verb.children.lookup name with
      | none => none
      | some child => some (child, verb.withoutName name words)

/-- The command that the words name, and the other words. -/
def find (words : List Text) : Verb × List Text :=
  match top.descend? words with
  | none => (top, words)
  | some (verb, rest) => (verb.descend? rest).getD (verb, rest)

end Verb

/-! ## Suggestions -/

/-- The next row of the table of distances: `above` is the row before, `left` the entry in front
and `corner` the one above that. -/
def distanceRow (byte : UInt8) (left corner : Nat) : Text → List Nat → List Nat
  | other :: rest, above :: more =>
      let entry := if byte = other then corner else min (min left above) corner + 1
      entry :: distanceRow byte entry above rest more
  | _, _ => []

def distanceFrom (name : Text) (row : List Nat) : Text → Nat
  | [] => row.getLastD 0
  | byte :: rest =>
      let first := row.headD 0 + 1
      distanceFrom name (first :: distanceRow byte first (row.headD 0) name row.tail) rest

/-- How many bytes have to be added, removed or replaced to get from one text to another. -/
def editDistance (a b : Text) : Nat := distanceFrom b (List.range (b.length + 1)) a

/-- The commands that an unknown word may have been meant for. -/
def suggestions (word : Text) : List Text :=
  let typed := word.lower
  (Verb.top.children.filter fun (name, verb) =>
    verb ≠ .help && (editDistance typed name ≤ 2 || name.startsWith typed)).map (·.1)

def suggestionText (word : Text) : Text :=
  let names := suggestions word
  if names.isEmpty then []
  else ("\n\nDid you mean this?\n" : Text)
    ++ names.flatMap fun name => [0x09] ++ name ++ [0x0A]

/-! ## Reading options -/

/-- Why a command line cannot be run. -/
inductive LineError where
  | unknownCommand (word : Text)
  | badSyntax (word : Text)
  | unknownOption (name : Text)
  /-- An unknown letter, and the letters from it on. -/
  | unknownLetter (letter : UInt8) (letters : Text)
  | missingValue (name : Text)
  | badValue (option value : Text) (error : ValueError)
  | tooFewArguments (least given : Nat)
  | wrongArguments (wanted given : Nat)
  | missingOption (name : Text)
  deriving DecidableEq, Repr

/-- The character shown for a letter: the first byte of its encoding as a character. -/
def letterChar (letter : UInt8) : Char :=
  if letter < 0x80 then Char.ofNat letter.toNat
  else if letter < 0xC0 then 'Â'
  else 'Ã'

def LineError.message : LineError → Text
  | unknownCommand word =>
      "unknown command " ++ word.quoted ++ " for \"secgap\"" ++ suggestionText word
  | badSyntax word => "bad flag syntax: " ++ word
  | unknownOption name => "unknown flag: --" ++ name
  | unknownLetter letter letters =>
      "unknown shorthand flag: " ++ Text.quotedChar (letterChar letter) ++ " in -" ++ letters
  | missingValue name => "flag needs an argument: --" ++ name
  | badValue option value error =>
      "invalid argument " ++ value.quoted ++ " for \"" ++ option ++ "\" flag: " ++ error.message
  | tooFewArguments least given =>
      "requires at least " ++ Text.ofNat least ++ " arg(s), only received " ++ Text.ofNat given
  | wrongArguments wanted given =>
      "accepts " ++ Text.ofNat wanted ++ " arg(s), received " ++ Text.ofNat given
  | missingOption name => "required flag(s) \"" ++ name ++ "\" not set"

/-- A command line, taken apart. -/
structure Invocation where
  verb : Verb
  options : Options := []
  arguments : List Text := []
  deriving DecidableEq, Repr

def helpName : Text := "help"

/-- The value of an option; the option for help can be asked for with any command. -/
def readValue (spec : OptionSpec) (value : Text) : Except LineError (Text × OptionValue) :=
  match spec.kind.value value with
  | .ok value => .ok (spec.name, value)
  | .error error =>
      let shown : Text := if spec.name = helpName then "-h, --help" else "--" ++ spec.name
      .error (.badValue shown value error)

def helpOption : OptionSpec := ⟨helpName, .switch⟩

/-- The uses of options in a word of letters behind one dash. Only help has a letter. -/
def readLetters : Text → Except LineError Options
  | [] => .ok []
  | letter :: rest =>
      if Text.startsWith (letter :: rest) "test." then .ok []
      else if letter ≠ 0x68 then .error (.unknownLetter letter (letter :: rest))
      else
        match rest with
        | 0x3D :: byte :: more =>
            match readValue helpOption (byte :: more) with
            | .ok use => .ok [use]
            | .error error => .error error
        | _ =>
            match readLetters rest with
            | .ok uses => .ok ((helpName, .switch true) :: uses)
            | .error error => .error error

/-- How a word with two dashes in front is used, given the words behind it. -/
inductive LongUse where
  /-- The value is part of the word, or none is needed. -/
  | alone (use : Text × OptionValue)
  /-- The value is the next word. -/
  | withNext (use : Text × OptionValue)

def readLong (verb : Verb) (word : Text) (rest : List Text) : Except LineError LongUse :=
  let spelled : Text := word.drop 2
  if spelled.isEmpty || spelled.startsWith [dash] || spelled.startsWith "=" then
    .error (.badSyntax word)
  else
    let name := spelled.takeWhile (· ≠ 0x3D)
    let spec? := if name = helpName then some helpOption else verb.option? name
    match spec? with
    | none => .error (.unknownOption name)
    | some spec =>
        if spelled.contains 0x3D then
          (readValue spec (spelled.drop (name.length + 1))).map .alone
        else if spec.kind = .switch then .ok (.alone (name, .switch true))
        else
          match rest with
          | [] => .error (.missingValue name)
          | value :: _ => (readValue spec value).map .withNext

/-- Adds a use of an option or an argument in front of what was read behind it. -/
def Invocation.withOptions (invocation : Invocation) (uses : Options) : Invocation :=
  { invocation with options := uses ++ invocation.options }

def Invocation.withArgument (invocation : Invocation) (argument : Text) : Invocation :=
  { invocation with arguments := argument :: invocation.arguments }

/-- The words as options and arguments of a command. -/
def readWords (verb : Verb) : List Text → Except LineError Invocation
  | [] => .ok { verb }
  | word :: rest =>
      if word = "--" then .ok { verb, arguments := rest }
      else if word.startsWith "--" then
        match readLong verb word rest with
        | .error error => .error error
        | .ok (.alone use) => (readWords verb rest).map (·.withOptions [use])
        | .ok (.withNext use) =>
            match rest with
            | [] => .ok { verb, options := [use] }
            | _ :: more => (readWords verb more).map (·.withOptions [use])
      else if word.startsWith [dash] && word.length > 1 then
        match readLetters (word.drop 1) with
        | .error error => .error error
        | .ok uses => (readWords verb rest).map (·.withOptions uses)
      else (readWords verb rest).map (·.withArgument word)

/-- Checks the number of arguments of a command. -/
def checkArguments (invocation : Invocation) : Except LineError Unit :=
  let given := invocation.arguments.length
  match invocation.verb with
  | .enable | .disable | .showPack =>
      if given = 1 then .ok () else .error (.wrongArguments 1 given)
  | .taint => if given = 0 then .error (.tooFewArguments 1 0) else .ok ()
  | _ => .ok ()

/-- Whether a text about the use of the tool is asked for. -/
def Invocation.asksForHelp (invocation : Invocation) : Bool :=
  invocation.options.switch helpName
    || [Verb.top, .help, .completion].contains invocation.verb

/-- The command line in some words. -/
def parse (words : List Text) : Except LineError Invocation :=
  let (verb, rest) := Verb.find words
  match verb, verb.firstName? rest with
  | .top, some word => .error (.unknownCommand word)
  | _, _ =>
      match readWords verb rest with
      | .error error => .error error
      | .ok invocation =>
          if invocation.asksForHelp then .ok invocation
          else
            match checkArguments invocation with
            | .error error => .error error
            | .ok _ => .ok invocation

end Shortfall.Command
