import AtomicCss.Style.Misfit
import AtomicCss.Text.Scanner

/-!
# Errors and warnings

Everything that can go wrong is a cause; its wording is one function.

- `Error`: the causes that end an operation, and `Error.message`.
- `FormatError`: the causes that lie in a configuration or a style.
- `Warning`: what is reported without ending anything, and `Warning.message`.
-/

namespace AtomicCss

/-- The two kinds of names that are expanded through rules. -/
inductive AliasKind where
  | selector
  | shortcut
  deriving DecidableEq, Repr

/-- The word for a kind of names. -/
def AliasKind.describe : AliasKind → String
  | .selector => "selector"
  | .shortcut => "shortcut"

/-- The two kinds of files that are read. -/
inductive FileKind where
  | config
  | styles
  deriving DecidableEq, Repr

/-- The word for a kind of files at the start of a sentence. -/
def FileKind.title : FileKind → String
  | .config => "Config"
  | .styles => "Styles"

/-- The word for a kind of files inside a sentence. -/
def FileKind.word : FileKind → String
  | .config => "config"
  | .styles => "styles"

/-- The languages in which files are written. -/
inductive FileFormat where
  | json
  | toml
  deriving DecidableEq, Repr

/-- The name of a file format. -/
def FileFormat.describe : FileFormat → String
  | .json => "JSON"
  | .toml => "TOML"

/-- Why the text of a file does not say what it should. -/
inductive DocumentError where
  /-- The text is malformed at a place. -/
  | malformed (place : Text.Position)
  /-- A value is nested too deep, or a number is too great. -/
  | unbounded
  /-- The document has the wrong form. -/
  | misfit (m : Misfit)
  /-- A field that may be given once is given again. -/
  | repeated (field : String)

/-- Why a configuration or a style is not accepted. -/
inductive FormatError where
  /-- The entry of a plugin in the configuration has the wrong form. -/
  | badEntry (key : String) (m : Misfit)
  /-- A variable is set to something that is neither text nor number nor null. -/
  | badVariable (path : String) (value : Json)
  /-- The path of a file ends in no known way. -/
  | unknownEnding (kind : FileKind)
  /-- The text of a file cannot be read. -/
  | badDocument (format : FileFormat) (kind : FileKind) (cause : DocumentError)
  /-- A style names shortcuts that nothing resolves. -/
  | unknownShortcuts (count : Nat) (path : String)

/-- Why an operation ended. -/
inductive Error where
  /-- A file could not be read. -/
  | fileNotFound (kind : FileKind) (path : String) (reason : String)
  | invalidFormat (cause : FormatError)
  /-- The pattern of a rule does not compile. -/
  | invalidPattern (reason : String)
  /-- An expansion met a name that it was about to expand already. -/
  | cyclic (kind : AliasKind) (chain : List String)
  /-- A plugin gave up. -/
  | plugin (name : String) (message : String)
  /-- The system gave up. -/
  | io (reason : String)

/-- The wording of a document error. -/
def DocumentError.message : DocumentError → String
  | .malformed place => "unexpected text at " ++ place.describe
  | .unbounded => "nested too deep or number out of range"
  | .misfit m => m.message
  | .repeated field => "duplicate field `" ++ field ++ "`"

/-- The wording of a format error. -/
def FormatError.message : FormatError → String
  | .badEntry key m => "Invalid '" ++ key ++ "' config: " ++ m.message
  | .badVariable path value =>
    "Variable '" ++ path ++ "' has unsupported value " ++ value.compact
  | .unknownEnding kind => kind.title ++ " file must be .json or .toml format"
  | .badDocument format kind cause =>
    "Invalid " ++ format.describe ++ " " ++ kind.word ++ ": " ++ cause.message
  | .unknownShortcuts count path =>
    toString count ++ " unknown shortcut(s) in " ++ path

/-- The wording of an error. -/
def Error.message : Error → String
  | .fileNotFound kind path reason =>
    "File not found: " ++ kind.title ++ " file " ++ path ++ ": " ++ reason
  | .invalidFormat cause => "Invalid format: " ++ cause.message
  | .invalidPattern reason => "Invalid rule pattern: " ++ reason
  | .cyclic kind chain =>
    "Cyclic " ++ kind.describe ++ " resolution: " ++ " -> ".intercalate chain
  | .plugin name message => "Plugin '" ++ name ++ "' failed: " ++ message
  | .io reason => "IO error: " ++ reason

/-- What is reported while an operation goes on. -/
inductive Warning where
  /-- A static rule replaces the one of the same key. -/
  | staticRedefined (key : String) (input : String)
  /-- A pattern rule replaces the one of the same key. -/
  | patternRedefined (key : String) (pattern : String)
  /-- The default selector has no name marker. -/
  | unanchoredDefault (selector : String)
  /-- Plugins were added when it was too late for them. -/
  | latePlugins (count : Nat)
  /-- Shortcut names that nothing resolves. -/
  | unknownShortcuts (names : List String)
  deriving DecidableEq, Repr

/-- The wording of a warning. -/
def Warning.message : Warning → String
  | .staticRedefined key input =>
    "Static rule '" ++ key ++ "' redefined, overwriting match '" ++ input ++ "'"
  | .patternRedefined key pattern =>
    "Dynamic rule '" ++ key ++ "' redefined, overwriting pattern '" ++ pattern ++ "'"
  | .unanchoredDefault selector =>
    "Default selector '" ++ selector
      ++ "' has no '$$' marker; rules anchored on it will not render"
  | .latePlugins count =>
    toString count ++ " plugin(s) added during the config hook are ignored"
  | .unknownShortcuts names => "Unknown shortcut(s): " ++ ", ".intercalate names

end AtomicCss
