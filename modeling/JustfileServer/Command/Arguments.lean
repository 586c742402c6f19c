import JustfileServer.Command.Usage
import JustfileServer.Text.DecimalDigit
import JustfileServer.Text.Quoted

/-!
# Reading the command line

The arguments are sorted first, all of them, and then read from left to right.  An argument that
starts with a hyphen is an option, except a lone hyphen, a negative number, one with a space in it,
and whatever follows the separator `--`.  A long option may be shortened as long as only one option
of the grammar begins that way, and may have its value behind an equals sign.  Options that are not
known are put aside, and so are operands that nothing awaits; they are an error once all else has
been read.

The first operand of the main command names a subcommand, which takes all the arguments behind it
and reads them in the same way.
-/

namespace JustfileServer

/-- The value that an option brings along in its own argument. -/
inductive OptionValue
  /-- None. -/
  | absent
  /-- What stands behind the equals sign of a long option. -/
  | assigned (value : Text)
  /-- What stands behind an option of one letter, with or without an equals sign between them. -/
  | glued (letters : Text)

/-- What an argument is by its looks. -/
inductive ArgumentForm
  /-- An operand. -/
  | operand
  /-- The mark behind which all arguments are operands. -/
  | separator
  /-- An option of the grammar, perhaps with a value of its own. -/
  | option (o : CommandOption) (value : OptionValue)
  /-- An option that the grammar does not have. -/
  | unknown

/-- Why the command line asks for nothing to be done. -/
inductive Refusal
  /-- The help text is asked for. -/
  | help (g : Grammar)
  /-- The version is asked for. -/
  | version
  /-- The arguments do not fit. -/
  | misuse (g : Grammar) (message : Text)

/-- What the command line asks for. -/
inductive Invocation
  /-- Start the server; an empty path stands for no file. -/
  | serve (logPath : Text)
  /-- Report on a file. -/
  | report (path : Text)

namespace Arguments

/-! ## Sorting -/

/-- Is the argument a negative number: a hyphen, digits of any script, and perhaps a point before
the last of them?  A newline may follow. -/
def isNegativeNumber (arg : Text) : Bool :=
  match arg with
  | [] => false
  | c :: rest =>
      let digits := if rest.getLast? = some (.ofChar '\n') then rest.dropLast else rest
      c == .ofChar '-'
        && match digits.dropWhile CodePoint.isDecimalDigit with
          | [] => !digits.isEmpty
          | d :: part => d == .ofChar '.' && !part.isEmpty && part.all CodePoint.isDecimalDigit

/-- Is the spelling that of a long option? -/
def isLong (spelling : Text) : Bool := (Text.ofString "--").isPrefixOf spelling

/-- The options that a spelling may be short for, with their full spellings. -/
def expansions (g : Grammar) (arg : Text) : List (Text × CommandOption × OptionValue) :=
  if isLong arg then
    let (start, value) : Text × OptionValue :=
      match arg.splitFirst? (.ofChar '=') with
      | some (start, value) => (start, .assigned value)
      | none => (arg, .absent)
    (g.options.filter fun o => start.isPrefixOf o.1).map fun o => (o.1, o.2, value)
  else
    (g.options.filter fun o => o.1 = arg.take 2).map fun o => (o.1, o.2, .glued (arg.drop 2))

/-- The option with exactly this spelling. -/
def exactly? (g : Grammar) (spelling : Text) : Option CommandOption :=
  (g.options.find? fun o => o.1 = spelling).map Prod.snd

/-- An option whose spelling stands before an equals sign, with the value behind it. -/
def withValue? (g : Grammar) (arg : Text) : Option ArgumentForm :=
  match arg.splitFirst? (.ofChar '=') with
  | none => none
  | some (spelling, value) =>
      (exactly? g spelling).map fun o =>
        .option o (if isLong spelling then .assigned value else .glued value)

/-- The form of an argument that starts with a hyphen and is not an option in full spelling. -/
def shortened (g : Grammar) (arg : Text) : Except Refusal ArgumentForm :=
  match expansions g arg with
  | [(_, o, value)] => .ok (.option o value)
  | [] =>
      if isNegativeNumber arg || arg.contains (.ofChar ' ') then .ok .operand else .ok .unknown
  | several =>
      .error (.misuse g (Text.ofString "ambiguous option: " ++ arg
        ++ Text.ofString " could match " ++ Text.join ", " (several.map Prod.fst)))

/-- The form of an argument before any separator. -/
def form (g : Grammar) (arg : Text) : Except Refusal ArgumentForm :=
  if arg.head? ≠ some (.ofChar '-') then .ok .operand
  else
    match exactly? g arg with
    | some o => .ok (.option o .absent)
    | none =>
        if arg.length = 1 then .ok .operand
        else
          match withValue? g arg with
          | some f => .ok f
          | none => shortened g arg

/-- The arguments with their forms. -/
def sort (g : Grammar) : List Text → Except Refusal (List (Text × ArgumentForm))
  | [] => .ok []
  | arg :: rest =>
      if arg = Text.ofString "--" then
        .ok ((arg, .separator) :: rest.map fun a => (a, .operand))
      else do
        let f ← form g arg
        return (arg, f) :: (← sort g rest)

/-! ## Options -/

/-- The complaint about an option with a value that it cannot have. -/
def unwanted (g : Grammar) (o : CommandOption) (value : Text) : Refusal :=
  .misuse g (Text.ofString "argument " ++ o.title ++ Text.ofString ": ignored explicit argument "
    ++ Quoted.quote value)

/-- What the letters behind a short help option come to: they can only be the same option again. -/
def helpLetters (g : Grammar) : Text → Refusal
  | [] => .help g
  | c :: rest => if c = .ofChar 'h' then helpLetters g rest else unwanted g .help (c :: rest)

/-- What a help or version option comes to. -/
def flag (g : Grammar) (o : CommandOption) (value : OptionValue) : Refusal :=
  match value with
  | .absent => if o = .version then .version else .help g
  | .assigned v => unwanted g o v
  | .glued [] => unwanted g o []
  | .glued letters => helpLetters g letters

/-- The path that a value behind an equals sign stands for; a separator stands for none. -/
def assignedPath (value : Text) : Text := if value = Text.ofString "--" then [] else value

/-- The complaint about an option whose value is missing. -/
def valueMissing (g : Grammar) (o : CommandOption) : Refusal :=
  .misuse g (Text.ofString "argument " ++ o.title ++ Text.ofString ": expected one argument")

/-! ## Subcommands -/

/-- What has been read of a command line. -/
structure Settings where
  /-- The path of the journal's file, if one was given. -/
  logPath : Option Text
  /-- The file to report on, if one was given. -/
  file : Option Text
  /-- Arguments that nothing awaits. -/
  extras : List Text

namespace Settings

/-- Nothing has been read. -/
def none : Settings := ⟨.none, .none, []⟩

/-- Puts an argument aside. -/
def setAside (s : Settings) (arg : Text) : Settings := { s with extras := s.extras ++ [arg] }

end Settings

/-- Reads the sorted arguments of a subcommand; `awaits` tells whether an operand is still awaited,
which is then the file to report on. -/
def readSub (g : Grammar) : Bool → Settings → List (Text × ArgumentForm) → Except Refusal Settings
  | true, _, [] =>
      .error (.misuse g (Text.ofString "the following arguments are required: file"))
  | false, s, [] => .ok s
  | awaits, s, (arg, .unknown) :: rest => readSub g awaits (s.setAside arg) rest
  | awaits, s, (_, .option .log (.assigned value)) :: rest =>
      readSub g awaits { s with logPath := some (assignedPath value) } rest
  | awaits, s, (_, .option .log _) :: (value, .operand) :: rest =>
      readSub g awaits { s with logPath := some value } rest
  | _, _, (_, .option .log _) :: _ => .error (valueMissing g .log)
  | _, _, (_, .option o value) :: _ => .error (flag g o value)
  | true, s, (arg, .operand) :: (_, .separator) :: rest =>
      readSub g false { s with file := some arg } rest
  | true, s, (arg, .operand) :: rest => readSub g false { s with file := some arg } rest
  | true, s, (_, .separator) :: (arg, .operand) :: rest =>
      readSub g false { s with file := some arg } rest
  | awaits, s, (arg, _) :: rest => readSub g awaits (s.setAside arg) rest

/-- Reads the arguments of a subcommand. -/
def sub (g : Grammar) (args : List Text) : Except Refusal Settings := do
  readSub g (g == .parse) .none (← sort g args)

/-! ## The main command -/

/-- The complaint about an operand that names no subcommand. -/
def unknownCommand (name : Text) : Refusal :=
  .misuse .main (Text.ofString "argument subcommand: invalid choice: " ++ Quoted.quote name
    ++ Text.ofString " (choose from 'lsp', 'parse')")

/-- Reads the arguments of the named subcommand, on top of what was read before it. -/
def command (s : Settings) (name : Text) (args : List Text) : Except Refusal Settings := do
  let g ←
    if name = Text.ofString "lsp" then pure .lsp
    else if name = Text.ofString "parse" then pure .parse
    else throw (unknownCommand name)
  let own ← sub g args
  return ⟨own.logPath <|> s.logPath, own.file, s.extras ++ own.extras⟩

/-- Reads the sorted arguments of the main command. -/
def readMain : Settings → List (Text × ArgumentForm) → Except Refusal Settings
  | s, [] => .ok s
  | s, (arg, .unknown) :: rest => readMain (s.setAside arg) rest
  | s, (_, .option .log (.assigned value)) :: rest =>
      readMain { s with logPath := some (assignedPath value) } rest
  | s, (_, .option .log _) :: (value, .operand) :: rest =>
      readMain { s with logPath := some value } rest
  | _, (_, .option .log _) :: _ => .error (valueMissing .main .log)
  | _, (_, .option o value) :: _ => .error (flag .main o value)
  | s, (arg, .operand) :: rest => command s arg (rest.map Prod.fst)
  | s, [(arg, .separator)] => .ok (s.setAside arg)
  | _, (arg, .separator) :: _ => .error (unknownCommand arg)

/-- Reads a command line. -/
def read (args : List Text) : Except Refusal Invocation := do
  let s ← readMain .none (← sort .main args)
  if s.extras.isEmpty then
    match s.file with
    | some path => return .report path
    | none => return .serve (s.logPath.getD [])
  else
    throw (.misuse .main (Text.ofString "unrecognized arguments: " ++ Text.join " " s.extras))

end Arguments

end JustfileServer
