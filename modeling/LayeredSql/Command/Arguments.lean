import LayeredSql.Error

/-! # Command-line words

Options come short or long, short ones may be clustered, and a value follows its option in the same
word or the next. Options and operands may be mixed; a word of two dashes makes everything behind it
an operand. An option may be given once. -/

namespace LayeredSql.Command

inductive OptionName where
  | verbose
  | help
  | version
  | config
  | dialect
  | format
deriving DecidableEq, Repr

namespace OptionName

def long : OptionName → String
  | verbose => "verbose"
  | help => "help"
  | version => "version"
  | config => "config"
  | dialect => "dialect"
  | format => "format"

def short : OptionName → Char
  | verbose => 'v'
  | help => 'h'
  | version => 'V'
  | config => 'c'
  | dialect => 'd'
  | format => 'f'

def takesValue : OptionName → Bool
  | verbose | help | version => false
  | config | dialect | format => true

end OptionName

/-- Why the words end without a command. -/
inductive Stop where
  | usage
  | help
  | version
deriving DecidableEq, Repr

/-- How the options of one word end. -/
inductive Ending where
  /-- Nothing is left to read. -/
  | done
  /-- An option with its value. -/
  | value (name : OptionName) (value : String)
  /-- An option whose value is the next word. -/
  | pending (name : OptionName)
  /-- An option that is not known. -/
  | unknown
deriving DecidableEq, Repr

inductive Word where
  | endOfOptions
  | operand (text : String)
  | options (flags : List OptionName) (ending : Ending)
deriving DecidableEq, Repr

/-- Reads a cluster of short options. The first one that takes a value takes the rest of the
cluster, without an equals sign in front. -/
def readCluster (known : List OptionName) : List Char → List OptionName × Ending
  | [] => ([], .done)
  | c :: rest =>
    match known.find? fun name => name.short = c with
    | none => ([], .unknown)
    | some name =>
      if name.takesValue then
        match rest with
        | [] => ([], .pending name)
        | '=' :: v => ([], .value name (String.ofList v))
        | v => ([], .value name (String.ofList v))
      else
        let (flags, ending) := readCluster known rest
        (name :: flags, ending)

/-- Reads a long option, where a value may stand behind an equals sign. -/
def readLong (known : List OptionName) (cs : List Char) : List OptionName × Ending :=
  let label := String.ofList (cs.takeWhile (· ≠ '='))
  match known.find? fun name => name.long = label with
  | none => ([], .unknown)
  | some name =>
    match cs.dropWhile (· ≠ '='), name.takesValue with
    | [], true => ([], .pending name)
    | [], false => ([name], .done)
    | _ :: v, true => ([], .value name (String.ofList v))
    | _ :: _, false => ([], .unknown)

def Word.read (known : List OptionName) (word : String) : Word :=
  match word.toList with
  | ['-', '-'] => .endOfOptions
  | '-' :: '-' :: cs =>
    let (flags, ending) := readLong known cs
    .options flags ending
  | '-' :: c :: cs =>
    let (flags, ending) := readCluster known (c :: cs)
    .options flags ending
  | _ => .operand word

/-- Whether a word can be the value of the option in front of it: a single dash can, any other word
with a dash in front cannot. -/
def isValueWord (word : String) : Bool :=
  match word.toList with
  | '-' :: _ :: _ => false
  | _ => true

/-- Which operands a command takes. -/
inductive OperandKind where
  /-- A single path, which is not empty. -/
  | path
  /-- Any number of texts. -/
  | texts
deriving DecidableEq, Repr

/-- Whether the operand may stand behind those in front of it. -/
def OperandKind.admits (kind : OperandKind) (before : List String) (text : String) : Bool :=
  match kind with
  | path => before.isEmpty && !text.isEmpty
  | texts => true

/-- The options that a command knows, and its operands. -/
structure Form where
  options : List OptionName
  operands : OperandKind
deriving DecidableEq, Repr

/-- The options and operands of a command. -/
structure Given where
  options : List (OptionName × String)
  operands : List String
deriving DecidableEq, Repr

namespace Given

def empty : Given := ⟨[], []⟩

def value? (g : Given) (name : OptionName) : Option String := g.options.lookup name

/-- Takes an option with its value; flags have an empty one. -/
def put (check : OptionName → String → Bool) (g : Given) (name : OptionName) (value : String) :
    Except Stop Given :=
  if name = .help then .error .help
  else if name = .version then .error .version
  else if (g.value? name).isSome || !check name value then .error .usage
  else .ok { g with options := g.options ++ [(name, value)] }

def putFlags (check : OptionName → String → Bool) (g : Given) (flags : List OptionName) :
    Except Stop Given :=
  flags.foldlM (fun g name => g.put check name "") g

def putOperand (kind : OperandKind) (g : Given) (text : String) : Except Stop Given :=
  if kind.admits g.operands text then .ok { g with operands := g.operands ++ [text] }
  else .error .usage

/-- Reads all words of a command. Values have to pass `check`. The first word that does not fit ends
the reading, also in front of a word that asks for help. -/
def collect (form : Form) (check : OptionName → String → Bool) (g : Given) :
    List String → Except Stop Given
  | [] => .ok g
  | word :: rest =>
    match Word.read form.options word with
    | .endOfOptions => rest.foldlM (putOperand form.operands) g
    | .operand text =>
      match g.putOperand form.operands text with
      | .error stop => .error stop
      | .ok g => collect form check g rest
    | .options flags ending =>
      match g.putFlags check flags with
      | .error stop => .error stop
      | .ok g =>
        match ending, rest with
        | .done, rest => collect form check g rest
        | .value name v, rest =>
          match g.put check name v with
          | .error stop => .error stop
          | .ok g => collect form check g rest
        | .pending name, v :: rest =>
          if isValueWord v then
            match g.put check name v with
            | .error stop => .error stop
            | .ok g => collect form check g rest
          else .error .usage
        | .pending _, [] => .error .usage
        | .unknown, _ => .error .usage

end Given

/-- Reads the options in front of the command's name, none of which takes a value, and gives back
the name and the words behind it. -/
def readFront (known : List OptionName) (g : Given) :
    List String → Except Stop (String × List String)
  | [] => .error .usage
  | word :: rest =>
    match Word.read known word with
    | .operand text => .ok (text, rest)
    | .options flags .done =>
      match g.putFlags (fun _ _ => true) flags with
      | .error stop => .error stop
      | .ok g => readFront known g rest
    | .options flags _ =>
      match g.putFlags (fun _ _ => true) flags with
      | .error stop => .error stop
      | .ok _ => .error .usage
    | .endOfOptions => .error .usage

end LayeredSql.Command
