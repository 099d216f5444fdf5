import Lox.Text.Integer
import Lox.Text.Quoted

/-!
# Command lines

A command line is a row of words: options, which start with a dash, and operands. Options may stand
anywhere. A long option may be cut short as long as only one option starts that way, and may have
its argument attached with an equals sign; short options may be run together behind one dash. An
attached argument that is `--` stands for no argument at all. Operands form one run: words that come
after options that follow an operand belong to nothing. Behind a bare `--` every word is an operand.

* `Switch`: an option and what it does to the settings of a program.
* `CommandLine`: the options of a program, with its usage and help.
* `Misuse`: what is wrong with a command line, worded by `Misuse.message`.
* `CommandLine.read`: the settings and operands of a command line.
-/

namespace Lox.Command

/-- What an option does to the settings of a program. -/
inductive Action (α : Type) where
  /-- Shows the help. -/
  | help
  /-- Needs no argument. -/
  | flag (set : α → α)
  /-- Needs an argument of a sort, and refuses those that are not of the sort. Without the argument
  nothing is set, and what was set before is cleared. -/
  | value (sort : String) (set? : String → Option (α → α)) (clear : α → α)

/-- An option, with the names that it goes by. -/
structure Switch (α : Type) where
  names : List String
  action : Action α

namespace Switch

/-- The option as a report calls it: by all its names. -/
def title (s : Switch α) : String := String.intercalate "/" s.names

end Switch

/-- What is wrong with a command line. -/
inductive Misuse where
  /-- Several options start like the word. -/
  | ambiguous (word : String) (names : List String)
  /-- An option lacks its argument. -/
  | argumentMissing (option : String)
  /-- An option that needs no argument has one. -/
  | argumentIgnored (option argument : String)
  /-- An argument is not of the sort that the option needs. -/
  | argumentInvalid (option sort argument : String)
  /-- Words that are no options and not in the run of operands. -/
  | unrecognized (words : List String)
  deriving DecidableEq, Repr

namespace Misuse

/-- What is wrong, in words. -/
def message : Misuse → String
  | ambiguous word names =>
    "ambiguous option: " ++ word ++ " could match " ++ String.intercalate ", " names
  | argumentMissing option => "argument " ++ option ++ ": expected one argument"
  | argumentIgnored option argument =>
    "argument " ++ option ++ ": ignored explicit argument " ++ Text.quote argument
  | argumentInvalid option sort argument =>
    "argument " ++ option ++ ": invalid " ++ sort ++ " value: " ++ Text.quote argument
  | unrecognized words => "unrecognized arguments: " ++ String.intercalate " " words

end Misuse

/-- Why a command line gives no settings. -/
inductive Halt where
  | help
  | misused (m : Misuse)
  deriving DecidableEq, Repr

/-- What a word of a command line is. -/
inductive Word (α : Type) where
  | operand (text : String)
  /-- The mark behind which every word is an operand. -/
  | separator
  /-- An option, by its short or its long name, and the text attached to it. -/
  | option (switch : Switch α) (long : Bool) (attached : Option String)
  /-- It looks like an option and is none. -/
  | unknown (text : String)

/-! ## Sorting words -/

/-- The option of this name. -/
def find? (switches : List (Switch α)) (name : String) : Option (Switch α) :=
  switches.find? fun s => s.names.contains name

/-- A name of an option and what is attached to it behind the first equals sign. -/
def cutAttached (word : String) : String × Option String :=
  match word.toList.span (· ≠ '=') with
  | (name, _ :: text) => (String.ofList name, some (String.ofList text))
  | (name, []) => (String.ofList name, none)

/-- The characters without a line feed at their end. -/
def withoutLineFeed (cs : List Char) : List Char :=
  if cs.getLast? = some '\n' then cs.dropLast else cs

/-- The word is a number below zero: digits behind the dash, perhaps with a point before the last
run of digits, and perhaps a line feed at the end. -/
def looksNegative (word : String) : Bool :=
  match withoutLineFeed word.toList with
  | '-' :: cs =>
    match cs.span Text.isDecimalDigit with
    | (whole, []) => whole ≠ []
    | (_, '.' :: fraction) => fraction ≠ [] && fraction.all Text.isDecimalDigit
    | _ => false
  | _ => false

/-- The options that a word may mean that is not the name of one: those that it is the start of, for
two dashes, and the one of the first letter, for a single dash. -/
def candidates (switches : List (Switch α)) (word : String) : List (String × Word α) :=
  if word.startsWith "--" then
    let (start, attached) := cutAttached word
    switches.flatMap fun s =>
      (s.names.filter (·.startsWith start)).map fun name => (name, .option s true attached)
  else
    let letter := String.ofList (word.toList.take 2)
    switches.flatMap fun s =>
      (s.names.filter (· == letter)).map fun name =>
        (name, .option s false (some (String.ofList (word.toList.drop 2))))

/-- What a word that starts with a dash is. -/
def sortDashed (switches : List (Switch α)) (word : String) : Except Misuse (Word α) :=
  let long := word.startsWith "--"
  let (name, attached) := cutAttached word
  match find? switches word with
  | some s => .ok (.option s long none)
  | none =>
    match attached.bind fun _ => find? switches name with
    | some s => .ok (.option s long attached)
    | none =>
      match candidates switches word with
      | [(_, option)] => .ok option
      | [] =>
        if looksNegative word || word.contains ' ' then .ok (.operand word) else .ok (.unknown word)
      | several => .error (.ambiguous word (several.map Prod.fst))

/-- What the words of a command line are. -/
def sortWords (switches : List (Switch α)) : List String → Except Misuse (List (Word α))
  | [] => .ok []
  | "--" :: words => .ok (.separator :: words.map .operand)
  | word :: words => do
    let sorted ←
      if word.startsWith "-" && word.length ≠ 1 then sortDashed switches word
      else .ok (.operand word)
    let more ← sortWords switches words
    pure (sorted :: more)

/-! ## Following them -/

/-- The options that run together behind one dash, from the option `s` on, with the text that
follows it in the word: the argument of `s`, or the letters of more options. -/
def runTogether (switches : List (Switch α)) (s : Switch α) :
    List Char → Except Misuse (List (Switch α × Option String))
  | [] => .ok [(s, none)]
  | c :: cs =>
    match s.action, find? switches (String.ofList ['-', c]) with
    | .value .., _ => .ok [(s, some (String.ofList (c :: cs)))]
    | _, none => .error (.argumentIgnored s.title (String.ofList (c :: cs)))
    | _, some next => do
      let more ← runTogether switches next cs
      pure ((s, none) :: more)

/-- The options that an option with an attached text stands for, the last with the argument attached
to it. Only an option with one dash takes further options, and none an empty text. -/
def expand (switches : List (Switch α)) (s : Switch α) (long : Bool) :
    Option String → Except Misuse (List (Switch α × Option String))
  | none => .ok [(s, none)]
  | some text =>
    match s.action with
    | .value .. => .ok [(s, some text)]
    | _ =>
      if long || text = "" then .error (.argumentIgnored s.title text)
      else runTogether switches s text.toList

/-- How far the run of operands is. -/
inductive Progress where
  | before
  | within
  | behind
  deriving DecidableEq, Repr

/-- What was read of a command line so far. -/
structure Reading (α : Type) where
  settings : α
  operands : List String := []
  progress : Progress := .before
  /-- Words that belong to nothing. -/
  extras : List String := []

namespace Reading

/-- The reading with a word that is an operand, if operands are still taken. -/
def operand (r : Reading α) (text : String) : Reading α :=
  if r.progress = .behind then { r with extras := r.extras ++ [text] }
  else { r with operands := r.operands ++ [text], progress := .within }

/-- The reading with the mark that ends the options. -/
def separator (r : Reading α) : Reading α :=
  if r.progress = .behind then { r with extras := r.extras ++ ["--"] }
  else { r with progress := .within }

/-- The reading at the start of an option, which ends a run of operands. -/
def option (r : Reading α) : Reading α :=
  if r.progress = .within then { r with progress := .behind } else r

/-- The reading with an option that is none. -/
def unknown (r : Reading α) (text : String) : Reading α :=
  { r.option with extras := r.extras ++ [text] }

/-- The reading with options that were followed. -/
def followed (r : Reading α) (settings : α) : Reading α := { r.option with settings }

end Reading

/-- Follows one option. -/
def apply (settings : α) (s : Switch α) (argument : Option String) : Except Halt α :=
  match s.action, argument with
  | .help, _ => .error .help
  | .flag set, _ => .ok (set settings)
  | .value .., none => .error (.misused (.argumentMissing s.title))
  | .value _ _ clear, some "--" => .ok (clear settings)
  | .value sort set? _, some text =>
    match set? text with
    | some set => .ok (set settings)
    | none => .error (.misused (.argumentInvalid s.title sort text))

/-- Follows options one after another. -/
def applyAll (settings : α) : List (Switch α × Option String) → Except Halt α
  | [] => .ok settings
  | (s, argument) :: more => do
    let settings ← apply settings s argument
    applyAll settings more

/-- The last of the options, if it needs an argument and has none attached. -/
def waiting? (options : List (Switch α × Option String)) : Option (Switch α) :=
  options.getLast?.bind fun (s, argument) =>
    match s.action, argument with
    | .value .., none => some s
    | _, _ => none

/-- Gives the last option an argument. -/
def withArgument (options : List (Switch α × Option String)) (text : String) :
    List (Switch α × Option String) :=
  options.dropLast ++ (options.getLast?.map fun last => (last.1, some text)).toList

/-- Follows the words of a command line. -/
def follow (switches : List (Switch α)) (r : Reading α) :
    List (Word α) → Except Halt (Reading α)
  | [] => .ok r
  | .operand text :: words => follow switches (r.operand text) words
  | .separator :: words => follow switches r.separator words
  | .unknown text :: words => follow switches (r.unknown text) words
  | .option s long attached :: words =>
    match expand switches s long attached with
    | .error m => .error (.misused m)
    | .ok options =>
      match waiting? options, words with
      | some _, .operand text :: words => do
        let settings ← applyAll r.settings (withArgument options text)
        follow switches (r.followed settings) words
      | some s, _ => .error (.misused (.argumentMissing s.title))
      | none, words => do
        let settings ← applyAll r.settings options
        follow switches (r.followed settings) words

/-- The options of a program, with the texts that explain them. -/
structure CommandLine (α : Type) where
  program : String
  switches : List (Switch α)
  /-- The settings without any option. -/
  settings : α
  takesOperands : Bool
  /-- How the program is called. -/
  usage : String
  /-- What the operands and options mean. -/
  explanation : String

namespace CommandLine

/-- The help of a program. -/
def help (c : CommandLine α) : String := c.usage ++ "\n" ++ c.explanation

/-- The report of a misuse. -/
def report (c : CommandLine α) (m : Misuse) : String :=
  c.usage ++ c.program ++ ": error: " ++ m.message ++ "\n"

/-- The settings and the operands of a command line. -/
def read (c : CommandLine α) (words : List String) : Except Halt (α × List String) := do
  let start : Reading α :=
    { settings := c.settings, progress := if c.takesOperands then .before else .behind }
  match sortWords c.switches words with
  | .error m => .error (.misused m)
  | .ok words =>
    let r ← follow c.switches start words
    if r.extras ≠ [] then .error (.misused (.unrecognized r.extras))
    else pure (r.settings, r.operands)

end CommandLine

end Lox.Command
