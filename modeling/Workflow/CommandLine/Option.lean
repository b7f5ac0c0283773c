namespace Workflow.CommandLine

inductive CommandName
  | check
  | compile
  | simulate
  | batch
deriving DecidableEq, Repr

namespace CommandName

def word : CommandName → String
  | check => "check"
  | compile => "compile"
  | simulate => "simulate"
  | batch => "batch"

def ofWord? (word : String) : Option CommandName :=
  [check, compile, simulate, batch].find? (·.word = word)

end CommandName

inductive OptionName
  | config
  | reader
  | verbose
  | help
  | version
  | emit
  | direction
  | outFolder
  | vars
deriving DecidableEq, Repr

namespace OptionName

def word : OptionName → String
  | config => "config"
  | reader => "reader"
  | verbose => "verbose"
  | help => "help"
  | version => "version"
  | emit => "emit"
  | direction => "direction"
  | outFolder => "out-dir"
  | vars => "vars"

def letter? : OptionName → Option Char
  | verbose => some 'v'
  | help => some 'h'
  | version => some 'V'
  | vars => some 'D'
  | _ => none

def hasValue : OptionName → Bool
  | verbose | help | version => false
  | _ => true

def isRepeatable : OptionName → Bool
  | emit | vars => true
  | _ => false

/-- The options that can be given in front of the command, and those that can be given after it. -/
def allowed : Option CommandName → List OptionName
  | none => [config, reader, verbose, help, version]
  | some .check | some .batch => [config, reader, verbose, help]
  | some .compile => [config, reader, verbose, help, emit, direction, outFolder]
  | some .simulate => [config, reader, verbose, help, vars]

end OptionName

inductive Piece
  /-- An option without a value. -/
  | flag (option : OptionName)
  /-- An option with its value. -/
  | setting (option : OptionName) (value : String)
  /-- An option whose value is the next argument. -/
  | awaiting (option : OptionName)
  /-- From here on there are operands only. -/
  | operandsOnly
  | operand (text : String)
  /-- Nothing that can be understood. -/
  | unknown
deriving DecidableEq, Repr

def dropEquals : List Char → List Char
  | '=' :: r => r
  | s => s

/-- The options of a run of letters. What follows the letter of an option with a value is its
value. -/
def readLetters (options : List OptionName) : List Char → List Piece
  | [] => []
  | c :: r =>
    match options.find? (·.letter? = some c) with
    | none => [.unknown]
    | some o =>
      if !o.hasValue then .flag o :: readLetters options r
      else if r.isEmpty then [.awaiting o]
      else [.setting o (String.ofList (dropEquals r))]

def readWord (options : List OptionName) (s : List Char) : Piece :=
  match options.find? (·.word.toList = s.takeWhile (· ≠ '=')) with
  | none => .unknown
  | some o =>
    match s.dropWhile (· ≠ '='), o.hasValue with
    | [], true => .awaiting o
    | [], false => .flag o
    | _ :: value, true => .setting o (String.ofList value)
    | _ :: _, false => .unknown

/-- Takes an argument apart. A hyphen alone is an operand. -/
def readArgument (options : List OptionName) (argument : String) : List Piece :=
  match argument.toList with
  | ['-', '-'] => [.operandsOnly]
  | '-' :: '-' :: word => [readWord options word]
  | '-' :: c :: letters => readLetters options (c :: letters)
  | _ => [.operand argument]

def isValue (argument : String) : Bool :=
  match argument.toList with
  | '-' :: _ :: _ => false
  | _ => true

end Workflow.CommandLine
