import MatlabFront.Settings

/-!
# Invocations

What a command line asks for, once its words have been read: a command with what it takes, and the
options that concern every command.
-/

namespace MatlabFront.CommandLine

/-- A command of the program. A source is named by a path, or by a dash for the standard input. -/
inductive Command where
  | parse (source : String) (format : Option OutputFormat) (strict compact : Bool)
  | tokens (source : String)
  | showSettings
  /-- Writes the default settings to a file, or shows a sample when no file is named. -/
  | generateSettings (path : Option String)
  | version (detailed : Bool)
  deriving DecidableEq

/-- What a command line asks for. -/
structure Invocation where
  /-- Debug notices are shown, whatever else is said. -/
  debug : Bool
  level : Option Severity
  /-- The settings file to use instead of the usual ones. -/
  settingsPath : Option String
  command : Command
  deriving DecidableEq

end MatlabFront.CommandLine
