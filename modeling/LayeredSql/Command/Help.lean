import LayeredSql.Command.Arguments

/-! # Help pages

What the program and its commands say of themselves: what they do, how their words stand, and what
their operands and options are for. -/

namespace LayeredSql.Command

/-- What help is given on. -/
inductive Topic where
  | program
  | compile
  | lineage
  | quote
  | help
deriving DecidableEq, Repr

def Topic.ofCommand? : String → Option Topic
  | "compile" => some .compile
  | "lineage" => some .lineage
  | "quote" => some .quote
  | "help" => some .help
  | _ => none

structure Page where
  about : String
  usage : String
  /-- Title and entries of the first table: commands or operands. -/
  parts : String × List (String × String)
  options : List (OptionName × String)

namespace Page

/-- Two columns with a title. The left one is as wide as its widest entry. -/
def table (title : String) (entries : List (String × String)) : String :=
  let width := (entries.map fun entry => entry.1.length).foldl max 0
  let line := fun (entry : String × String) =>
    "  " ++ entry.1 ++ String.ofList (List.replicate (width - entry.1.length) ' ') ++ "  " ++
      entry.2 ++ "\n"
  if entries.isEmpty then "" else "\n" ++ title ++ ":\n" ++ String.join (entries.map line)

def valueText : OptionName → String
  | .verbose | .help | .version => ""
  | .config => " <FILE>"
  | .dialect => " <DIALECT>"
  | .format => " <FORMAT>"

def optionText (name : OptionName) : String :=
  "-" ++ name.short.toString ++ ", --" ++ name.long ++ valueText name

def usageText (page : Page) : String := "Usage: pushdown " ++ page.usage ++ "\n"

def text (page : Page) : String :=
  page.about ++ "\n\n" ++ page.usageText ++ table page.parts.1 page.parts.2 ++
    table "Options" (page.options.map fun option => (optionText option.1, option.2))

end Page

/-- The page on a topic. The dialect that the environment names is shown behind its option. -/
def Topic.page (setting : Option String) : Topic → Page
  | program =>
    { about := "Compile relational plans into nested BigQuery or PostgreSQL SQL"
      usage := "[OPTIONS] <COMMAND>"
      parts := ("Commands", [("compile", "Compile a plan and print the final SQL"),
        ("lineage", "Compile a plan and list every intermediate relation"),
        ("quote", "Quote identifiers for a dialect"),
        ("help", "Print this message or the help of the given subcommand(s)")])
      options := [verbose, help, (.version, "Print version")] }
  | compile =>
    { about := "Compile a plan and print the final SQL"
      usage := "compile [OPTIONS] <PLAN>"
      parts := plan
      options := [config, verbose, (.dialect, "Target dialect, overriding the config file " ++ named),
        (.format, "Output format [default: sql] [possible values: sql, json]"), help] }
  | lineage =>
    { about := "Compile a plan and list every intermediate relation"
      usage := "lineage [OPTIONS] <PLAN>"
      parts := plan
      options := [config, verbose, (.dialect, "Target dialect, overriding the config file " ++ named),
        help] }
  | quote =>
    { about := "Quote identifiers for a dialect"
      usage := "quote [OPTIONS] <IDENTIFIERS>..."
      parts := ("Arguments", [("<IDENTIFIERS>...", "")])
      options := [(.dialect, named ++ " [default: bigquery]"), verbose, help] }
  | .help =>
    { about := "Print this message or the help of the given subcommand(s)"
      usage := "help [COMMAND]..."
      parts := ("Arguments", [("[COMMAND]...", "Print help for the subcommand(s)")])
      options := [] }
where
  named : String := "[env: PUSHDOWN_DIALECT=" ++ setting.getD "" ++ "]"
  plan : String × List (String × String) :=
    ("Arguments", [("<PLAN>", "Plan document (`.toml` is read as TOML, anything else as JSON)")])
  verbose : OptionName × String := (.verbose, "Log compilation steps to stderr")
  help : OptionName × String := (.help, "Print help")
  config : OptionName × String := (.config, "Configuration file")

end LayeredSql.Command
