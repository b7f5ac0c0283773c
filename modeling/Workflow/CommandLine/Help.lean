import Workflow.CommandLine.Option

namespace Workflow.CommandLine

def programName : String := "pdl"

def programVersion : String := "0.1.0"

def versionText : String :=
  programName ++ " " ++ programVersion ++ "\n"

structure HelpEntry where
  term : String
  summary : String

/-- Entries below a heading, their summaries in one column. -/
def helpSection (heading : String) (entries : List HelpEntry) : String :=
  let width := (entries.map (·.term.length)).foldl max 0
  let line (e : HelpEntry) : String :=
    "  " ++ e.term ++ String.ofList (List.replicate (width - e.term.length + 2) ' ') ++
    e.summary ++ "\n"
  heading ++ ":\n" ++ String.join (entries.map line)

def CommandName.summary : CommandName → String
  | check => "Parse and validate a process file"
  | compile => "Compile a process file into its artifacts"
  | simulate => "Print the (step, next) pairs the generated code would yield"
  | batch => "Compile every process file in a directory"

def OptionName.entry : OptionName → HelpEntry
  | config => ⟨"    --config <CONFIG>", "Pipeline config file (YAML)"⟩
  | reader => ⟨"    --reader <READER>", "Source reader: yaml or minimal"⟩
  | verbose => ⟨"-v, --verbose", "Log at debug level"⟩
  | help => ⟨"-h, --help", "Print help"⟩
  | version => ⟨"-V, --version", "Print version"⟩
  | emit => ⟨"    --emit <EMIT>", "Artifacts to produce (comma separated)"⟩
  | direction => ⟨"    --direction <DIRECTION>", "Diagram layout direction"⟩
  | outFolder => ⟨"    --out-dir <OUT_DIR>", "Write artifacts here instead of printing them"⟩
  | vars => ⟨"-D, --vars <VARS>", "Condition variables (key=value)"⟩

def listedOptions : Option CommandName → List OptionName
  | none => [.config, .reader, .verbose, .help, .version]
  | some .check | some .batch => [.config, .reader, .verbose, .help]
  | some .compile => [.config, .emit, .reader, .direction, .verbose, .outFolder, .help]
  | some .simulate => [.config, .reader, .vars, .verbose, .help]

def operandEntry (c : CommandName) : HelpEntry :=
  if c = .batch then ⟨"<DIR>", ""⟩ else ⟨"<FILE>", "Path to the process YAML file"⟩

def operandSection (c : CommandName) : String :=
  let e := operandEntry c
  if e.summary = "" then "Arguments:\n  " ++ e.term ++ "\n" else helpSection "Arguments" [e]

def helpText (topic : Option CommandName) : String :=
  let options := helpSection "Options" ((listedOptions topic).map OptionName.entry)
  match topic with
  | none =>
    let commands := [CommandName.check, .compile, .simulate, .batch].map fun c =>
      HelpEntry.mk c.word c.summary
    "Usage: " ++ programName ++ " [OPTIONS] <COMMAND>\n\n" ++
      helpSection "Commands"
        (commands ++ [⟨"help", "Print this message or the help of the given subcommand(s)"⟩]) ++
      "\n" ++ options
  | some c =>
    c.summary ++ "\n\nUsage: " ++ programName ++ " " ++ c.word ++ " [OPTIONS] " ++
      (operandEntry c).term ++
      "\n\n" ++ operandSection c ++ "\n" ++ options

end Workflow.CommandLine
