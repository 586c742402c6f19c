import JustfileServer.Server.Journal

/-!
# The command line as it is described

Three grammars: the main command, which starts the server by itself or hands over to a subcommand,
and the two subcommands.  Each has its options, a usage line and a help text.
-/

namespace JustfileServer

/-- The grammars of the command line. -/
inductive Grammar
  /-- The main command. -/
  | main
  /-- The subcommand that starts the server. -/
  | lsp
  /-- The subcommand that prints what a file defines. -/
  | parse
  deriving DecidableEq

/-- The options. -/
inductive CommandOption
  /-- Show the help text and do nothing else. -/
  | help
  /-- Show the version and do nothing else. -/
  | version
  /-- Keep the journal in a file as well. -/
  | log
  deriving DecidableEq

/-- How an option is called in a message. -/
def CommandOption.title : CommandOption → Text
  | .help => "-h/--help"
  | .version => "--version"
  | .log => "--log"

namespace Grammar

/-- The name of the program, with the subcommand. -/
def program : Grammar → Text
  | .main => serverName
  | .lsp => serverName ++ Text.ofString " lsp"
  | .parse => serverName ++ Text.ofString " parse"

/-- The spellings of the options, in the order in which a help text has them. -/
def options : Grammar → List (Text × CommandOption)
  | .main => [("-h", .help), ("--help", .help), ("--version", .version), ("--log", .log)]
  | .lsp => [("-h", .help), ("--help", .help), ("--log", .log)]
  | .parse => [("-h", .help), ("--help", .help)]

/-- Lines of text, each with a newline at its end. -/
def linesText (lines : List String) : Text :=
  lines.flatMap fun line => Text.ofString line ++ Text.ofString "\n"

/-- The usage line. -/
def usage (g : Grammar) : Text :=
  Text.ofString "usage: " ++ g.program
    ++ match g with
      | .main => linesText [" [-h] [--version] [--log FILE] \x7blsp,parse\x7d ..."]
      | .lsp => linesText [" [-h] [--log FILE]"]
      | .parse => linesText [" [-h] file"]

/-- The help text behind the usage line. -/
def description : Grammar → List String
  | .main =>
      ["",
        "justls - a language server for justfiles",
        "",
        "positional arguments:",
        "  \x7blsp,parse\x7d  Available commands",
        "    lsp        Start the Language Server Protocol server",
        "    parse      Parse a justfile and print its definitions",
        "",
        "options:",
        "  -h, --help   show this help message and exit",
        "  --version    show program's version number and exit",
        "  --log FILE   Log file for debugging LSP communication",
        "",
        "examples:",
        "  justls                        Start the language server on stdio",
        "  justls lsp --log /tmp/ls.log  Start the server, logging to a file",
        "  justls parse justfile         Show recipes, variables and errors",
        "        "]
  | .lsp =>
      ["",
        "options:",
        "  -h, --help  show this help message and exit",
        "  --log FILE  Log file for debugging LSP communication"]
  | .parse =>
      ["",
        "positional arguments:",
        "  file        Path to the justfile",
        "",
        "options:",
        "  -h, --help  show this help message and exit"]

/-- The help text. -/
def help (g : Grammar) : Text := g.usage ++ linesText g.description

/-- The text that tells the version. -/
def versionText : Text := serverName ++ Text.ofString " " ++ serverVersion ++ Text.ofString "\n"

/-- What is shown when the arguments do not fit the grammar. -/
def complaint (g : Grammar) (message : Text) : Text :=
  g.usage ++ g.program ++ Text.ofString ": error: " ++ message ++ Text.ofString "\n"

end Grammar

end JustfileServer
