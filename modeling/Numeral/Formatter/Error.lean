import Numeral.Options.Basic

/-!
# Errors of formatters

Why a formatter cannot be configured, or cannot answer.  Errors of the engine are handed on as they
are.
-/

namespace Numeral

/-- The methods of a formatter that need a configuration. -/
inductive Method where
  | format
  | parse
  | resolvedOptions
  deriving DecidableEq, Repr

def Method.name : Method → String
  | format => "format"
  | parse => "parse"
  | resolvedOptions => "resolvedOptions"

/-- What an argument has to convert to. -/
inductive Target where
  | number
  | string
  deriving DecidableEq, Repr

def Target.name : Target → String
  | number => "number"
  | string => "string"

/-- Why a formatter cannot be configured, or cannot answer; `ε` are the errors of its engine. -/
inductive FormatError (ε : Type) where
  | option (e : OptionError)
  /-- A requested tag is malformed. -/
  | tag (text : String)
  | alreadyConfigured
  | notConfigured (method : Method)
  /-- An argument does not convert to what the method needs. -/
  | argument (value : Value) (target : Target)
  | engine (e : ε)

namespace FormatError

variable {ε : Type}

/-- The text of the error, with the text of the engine's errors. -/
def message (engineMessage : ε → String) : FormatError ε → String
  | option e => e.message
  | tag text => s!"Invalid language tag: {text}"
  | alreadyConfigured => "Trying to re-initialize a number format object"
  | notConfigured method => s!"Method {method.name} called on an uninitialized number format"
  | argument value target => s!"Cannot convert {value.describe} to a {target.name}"
  | engine e => engineMessage e

/-- Whether the error was found while the options were checked. -/
def isValidation : FormatError ε → Bool
  | option _ => true
  | _ => false

end FormatError

end Numeral
