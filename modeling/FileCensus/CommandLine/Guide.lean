import FileCensus.CommandLine.Argument

/-!
# Texts about the program

The help, the version, the completions for each shell, and what is said about a command line that is
not understood.
-/

namespace FileCensus.Guide

def programName : String := "dirsnap"

def versionNumber : String := "0.1.0"

def version : String := programName ++ " " ++ versionNumber ++ "\n"

def commands : List String := ["take", "compare", "completions", "help"]

def helpLines : List String :=
  ["Records size, modification time, MD5 checksum and permissions of the files below a directory",
    "and reports which files differ between two such records.",
    "",
    "Usage: dirsnap [-v] take [DIRECTORY] [-o OUTPUT] [--name NAME] [OPTIONS]",
    "       dirsnap [-v] compare LEFT RIGHT [--format table|json] [OPTIONS]",
    "       dirsnap [-v] completions bash|elvish|fish|powershell|zsh",
    "       dirsnap help [COMMAND]",
    "",
    "Options:",
    "  --no-size, --no-mtime, --no-md5, --no-permissions",
    "  --hash-mode binary|text",
    "  --rule PATTERN=SPEC",
    "  --ignore-patterns LIST, --include-patterns LIST",
    "  --respect-gitignore",
    "  --threads COUNT",
    "  --on-error abort|skip",
    "  -v, --verbose",
    "  -h, --help",
    "  -V, --version"]

def help : String := String.join (helpLines.map fun line => line ++ "\n")

/-- A script that lets a shell complete the names of the commands. -/
def completions (shell : Shell) : String :=
  let words := " ".intercalate commands
  match shell with
  | .bash => "complete -W '" ++ words ++ "' " ++ programName ++ "\n"
  | .fish => "complete -c " ++ programName ++ " -f -a '" ++ words ++ "'\n"
  | .zsh => "compctl -k '(" ++ words ++ ")' " ++ programName ++ "\n"
  | .elvish =>
    "set edit:completion:arg-completer[" ++ programName ++ "] = \x7b|@w| put " ++ words ++ " \x7d\n"
  | .powershell =>
    "Register-ArgumentCompleter -Native -CommandName " ++ programName ++ " -ScriptBlock \x7b '"
      ++ "', '".intercalate commands ++ "' \x7d\n"

def usage : UsageFault → String
  | .nothingGiven => help
  | .noCommand => "a command is required"
  | .unknownCommand => "there is no such command"
  | .unknownArgument => "there is no such argument here"
  | .invalidValue => "a value is missing or is not one of those that are possible"
  | .unreadableValue => "a number is not readable"
  | .repeated => "an argument is given more than once"
  | .unwantedValue => "an argument that takes no value is given one"
  | .missingArgument => "a required argument is missing"
  | .asksHelp => help
  | .asksVersion => version

end FileCensus.Guide
