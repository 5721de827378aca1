import Inyandiko.Text.Digit
import Inyandiko.Text.Quoted

/-! Arguments of the command line: options, which may be shortened while they stay unambiguous,
and words. The words are those of the first stretch of arguments between options. -/
namespace Inyandiko.CommandLine

open Text

inductive Flag
  | help
  | verbose
  | json
  | keepGoing
  deriving DecidableEq, Repr

def spellings : List (String × Flag) :=
  [("-h", .help), ("--help", .help), ("--verbose", .verbose), ("-v", .verbose), ("--json", .json),
   ("--no-stop-on-validation-fail", .keepGoing)]

/-- The name of an option in complaints: all its spellings. -/
def Flag.name (flag : Flag) : String :=
  "/".intercalate ((spellings.filter (·.2 = flag)).map (·.1))

def shortFlag? (letter : Char) : Option Flag := spellings.lookup (String.ofList ['-', letter])

/-- An argument that looks like an option: as it is written, which option it is if it is one,
whether it is a long one, and the text attached to it, with or without an equals sign. -/
structure OptionWord where
  raw : String
  flag : Option Flag
  isLong : Bool := false
  attached : Option Chars := none

inductive Word
  | plain (text : String)
  | option (word : OptionWord)

def atEquals (text : Chars) : Chars × Option Chars :=
  match text.dropWhile (· ≠ '=') with
  | [] => (text, none)
  | _ :: value => (text.takeWhile (· ≠ '='), some value)

def abbreviated (start : Chars) : List (String × Flag) :=
  spellings.filter fun entry => startsWith entry.1.toList start

/-- Whether a text is a negative number, which is a word. -/
def isNegativeNumber (text : Chars) : Bool :=
  match text with
  | '-' :: body =>
    let body := if body.getLast? = some '\n' then body.dropLast else body
    let rest := body.dropWhile isDecimal
    match rest with
    | [] => !body.isEmpty
    | '.' :: fraction => !fraction.isEmpty && fraction.all isDecimal
    | _ => false
  | _ => false

def unknown (raw : String) : Word :=
  if isNegativeNumber raw.toList || raw.toList.contains ' ' then .plain raw
  else .option { raw, flag := none }

def classifyLong (raw : String) : Except String Word :=
  let (start, value) := atEquals raw.toList
  match abbreviated start with
  | [] => .ok (unknown raw)
  | [(_, flag)] => .ok (.option { raw, flag, isLong := true, attached := value })
  | several =>
    let matching := ", ".intercalate (several.map (·.1))
    .error s!"ambiguous option: {raw} could match {matching}"

def classify (raw : String) : Except String Word :=
  match spellings.lookup raw, raw.toList with
  | some flag, text => .ok (.option { raw, flag, isLong := startsWith text ['-', '-'] })
  | none, '-' :: c :: rest =>
    let (start, value) := atEquals raw.toList
    match spellings.lookup (String.ofList start), value with
    | some flag, some value =>
      .ok (.option { raw, flag, isLong := c = '-', attached := some value })
    | _, _ =>
      if c = '-' then classifyLong raw
      else match shortFlag? c with
        | some flag => .ok (.option { raw, flag, attached := some rest })
        | none => .ok (unknown raw)
  | none, _ => .ok (.plain raw)

/-- Reads arguments; after two dashes alone there are only words. -/
def classifyAll : List String → Except String (List Word)
  | [] => .ok []
  | raw :: rest =>
    if raw = "--" then .ok ((raw :: rest).map .plain)
    else return (← classify raw) :: (← classifyAll rest)

def ignored (flag : Flag) (attached : Chars) : String :=
  s!"argument {flag.name}: ignored explicit argument {String.ofList (quoted attached)}"

/-- The options that an option and the letters attached to it set. Every letter is an option of its
own; the text from the first other character on is refused. -/
def letters (flag : Flag) : (attached : Chars) → Except String (List Flag)
  | [] => .error (ignored flag [])
  | c :: rest =>
    match shortFlag? c, rest with
    | none, rest => .error (ignored flag (c :: rest))
    | some next, [] => .ok [flag, next]
    | some next, rest => return flag :: (← letters next rest)

/-- The options that an argument sets; `none` for an argument that is no option. -/
def OptionWord.flags? (word : OptionWord) : Except String (Option (List Flag)) :=
  match word.flag, word.attached with
  | none, _ => .ok none
  | some flag, none => .ok (some [flag])
  | some flag, some attached =>
    if word.isLong then .error (ignored flag attached) else some <$> letters flag attached

/-- The arguments read so far: the options set, the words, whether the words still go on, and what
is left over. -/
structure Arguments where
  flags : List Flag := []
  words : Option (List String) := none
  going : Bool := false
  extras : List String := []

inductive Stop
  | help
  | complaint (message : String)
  deriving DecidableEq, Repr

def takeIn (arguments : Arguments) : List Word → Except Stop Arguments
  | [] => .ok arguments
  | .plain text :: rest =>
    match arguments.words with
    | none => takeIn { arguments with words := some [text], going := true } rest
    | some words =>
      if arguments.going then takeIn { arguments with words := some (words ++ [text]) } rest
      else takeIn { arguments with extras := arguments.extras ++ [text] } rest
  | .option word :: rest =>
    match word.flags? with
    | .error message => .error (.complaint message)
    | .ok none =>
      takeIn { arguments with going := false, extras := arguments.extras ++ [word.raw] } rest
    | .ok (some flags) =>
      if flags.contains .help then .error .help
      else takeIn { arguments with going := false, flags := arguments.flags ++ flags } rest

structure Invocation where
  words : List String := []
  verbose : Bool := false
  json : Bool := false
  stopOnInvalid : Bool := true
  deriving DecidableEq, Repr

/-- Reads the arguments of the command line. Of the words the first two dashes are dropped. -/
def parse (argv : List String) : Except Stop Invocation := do
  let words ← (classifyAll argv).mapError Stop.complaint
  let arguments ← takeIn {} words
  if arguments.extras.isEmpty then
    return {
      words := (arguments.words.getD []).erase "--"
      verbose := arguments.flags.contains .verbose
      json := arguments.flags.contains .json
      stopOnInvalid := !arguments.flags.contains .keepGoing }
  else
    let extras := " ".intercalate arguments.extras
    throw (.complaint s!"unrecognized arguments: {extras}")

def usage : String :=
  "usage: ikin [-h] [--verbose] [--json] [--no-stop-on-validation-fail]\n" ++
  "            [command ...]\n"

def helpText : String :=
  usage ++
  "\nIkinyarwanda script runner\n" ++
  "\npositional arguments:\n" ++
  "  command               [run] [file.ikw] | serve [port]\n" ++
  "\noptions:\n" ++
  "  -h, --help            show this help message and exit\n" ++
  "  --verbose, -v         Enable debug logging\n" ++
  "  --json                Print the result record as JSON\n" ++
  "  --no-stop-on-validation-fail\n" ++
  "                        Keep running after a failed validation\n"

end Inyandiko.CommandLine
