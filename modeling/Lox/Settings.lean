/-
Settings from the environment and the command line.

The log level is a number or the name of a standard level; a name that is
not known leaves the level as it was. A text of digits is always taken for a
number, and it is the one that can fail, because not every digit of every
script is a decimal digit.
-/
import Lox.Text.Blank
import Lox.Text.Digit
import Lox.Text.Quoted

namespace Lox

-- ============================================================= log levels

/-- Why a text of digits is not a level. -/
inductive LevelFault where
  /-- Some digit is not a decimal digit. -/
  | notDecimal (raw : String)
  /-- There are more decimal digits at the front than a number may have. -/
  | tooLong (count : Nat)
deriving DecidableEq, Repr

/-- How many digits a number may have. -/
def maxLevelDigits : Nat := 4300

def LevelFault.message : LevelFault → String
  | .notDecimal raw =>
      "invalid literal for int() with base 10: " ++
        String.ofList ((Text.quoted raw).toList.take 200)
  | .tooLong count =>
      "Exceeds the limit (" ++ toString maxLevelDigits ++
        " digits) for integer string conversion: value has " ++ toString count ++
        " digits; use sys.set_int_max_str_digits() to increase the limit"

/-- The level when nothing else is said: warnings and above. -/
def defaultLevel : Int := 30

/-- The standard levels by name. -/
def namedLevels : List (String × Int) :=
  [("CRITICAL", 50), ("FATAL", 50), ("ERROR", 40), ("WARN", 30), ("WARNING", 30), ("INFO", 20),
    ("DEBUG", 10), ("NOTSET", 0)]

/-- A character in upper case, as far as the names of levels can tell: ASCII
letters, and the two letters beyond ASCII whose capitals are ASCII. -/
def capital (c : Char) : Char :=
  if c = 'ı' then 'I' else if c = 'ſ' then 'S' else c.toUpper

/-- The level that a text denotes, or the given one if it denotes none. -/
def parseLevel (raw : String) (fallback : Int) : Except LevelFault Int :=
  let cs := raw.toList
  if !cs.isEmpty && cs.all Text.isDigitOfAnyScript then
    let count := (cs.takeWhile fun c => (Text.decimalDigit? c).isSome).length
    if maxLevelDigits < count then .error (.tooLong count)
    else match Text.decimalValue? cs with
      | some n => .ok n
      | none => .error (.notDecimal raw)
  else .ok ((namedLevels.lookup (String.ofList (cs.map capital))).getD fallback)

-- ========================================================= the environment

/-- Environment variables by name. -/
abbrev Variables := List (String × String)

/-- The level that the environment asks for; an empty or blank one counts as
none. -/
def Variables.level (env : Variables) (fallback : Int) : Except LevelFault Int :=
  let raw := Text.trim ((env.lookup "LOX_LOG_LEVEL").getD "")
  if raw.isEmpty then .ok fallback else parseLevel raw fallback

/-- Whether the environment asks for a backtrace after errors: the variable
is there and not empty. -/
def Variables.showTrace (env : Variables) : Bool :=
  !((env.lookup "LOX_DEBUG_PY_TRACE").getD "").isEmpty

-- ======================================================== the command line

/-- What the options of a command line amount to, and its other words. -/
structure Settings where
  level : Int
  showTrace : Bool
  words : List String := []
deriving DecidableEq, Repr

namespace Settings

/-- The option that sets the log level, up to its value. -/
def levelOption : List Char := "--log-level=".toList

/-- One word of the command line. -/
def addWord (s : Settings) (word : String) : Except LevelFault Settings :=
  if levelOption.isPrefixOf word.toList then do
    let level ← parseLevel (String.ofList (word.toList.drop levelOption.length)) s.level
    return { s with level }
  else if word = "--py-traceback" then .ok { s with showTrace := true }
  else .ok { s with words := s.words ++ [word] }

/-- The settings of a command line, read from left to right over those of the
environment. -/
def ofArgs (env : Variables) (args : List String) : Except LevelFault Settings := do
  let level ← env.level defaultLevel
  args.foldlM addWord { level, showTrace := env.showTrace }

end Settings

end Lox
