import Numeral.Engine.Standard
import Numeral.Formatter.Error
import Numeral.Formatter.Resolved
import Numeral.Locale.Negotiation
import Numeral.Options.Validation

/-!
# Formatters

A formatter writes and reads numbers for a locale and a configuration.  It is configured once: its
options are checked, a locale is agreed on, and the engine prepares for the two.  Before that every
use of it is an error, and after that the configuration never changes.
-/

namespace Numeral

/-- Agrees on a locale for a request, some extension options and a matcher. -/
abbrev Resolver (ε : Type) :=
  Locales → Std.TreeMap String String → LocaleMatcher → Except (FormatError ε) Negotiated

def Database.resolver (db : Database) (ε : Type) : Resolver ε := fun requested extensions matcher =>
  (db.resolve requested extensions matcher).mapError .tag

/-- What a configured formatter is bound to. -/
structure Bound (H : Type) where
  handle : H
  config : Config
  resolved : Resolved

/-- A formatter over an engine and a resolver. -/
structure Formatter (m : Type → Type) (H ε : Type) where
  engine : Engine m H ε
  resolver : Resolver ε
  /-- What the formatter is bound to, once it is configured. -/
  bound : Option (Bound H) := none

namespace Formatter

variable {m : Type → Type} [Monad m] {H ε : Type}

/-- Checks a request and its options, and agrees on a locale.  The matcher is checked first, then
the requested tags, then the other options. -/
def negotiate (resolver : Resolver ε) (requested : Locales) (options : Options) :
    Except (FormatError ε) (Config × Negotiated) := do
  let _ ← options.localeMatcher.mapError .option
  let _ ← (canonicalize requested).mapError .tag
  let config ← options.validate.mapError .option
  let extensions := match config.numberingSystem with
    | some nu => .ofList [("nu", nu)]
    | none => ∅
  let negotiated ← resolver requested extensions config.localeMatcher
  return (config, negotiated)

def isConfigured (f : Formatter m H ε) : Bool := f.bound.isSome

/-- The checked options, once the formatter is configured. -/
def config? (f : Formatter m H ε) : Option Config := f.bound.map (·.config)

/-- What a formatter is bound to when it is configured now. -/
def prepare (f : Formatter m H ε) (requested : Locales) (options : Options) :
    ExceptT (FormatError ε) m (Bound H) := do
  if f.isConfigured then throw .alreadyConfigured
  let (config, negotiated) ← liftExcept (negotiate f.resolver requested options)
  let tag := negotiated.fullTag
  let (handle, reported) ←
    (f.engine.build tag config ⟨tag, negotiated.numberingSystem.getD ""⟩).adapt .engine
  return ⟨handle, config, .ofConfig config reported⟩

def configure (f : Formatter m H ε) (requested : Locales) (options : Options) :
    ExceptT (FormatError ε) m (Formatter m H ε) := do
  return { f with bound := some (← f.prepare requested options) }

/-- What the formatter is bound to, for one of its methods. -/
def boundFor (f : Formatter m H ε) (method : Method) : Except (FormatError ε) (Bound H) :=
  match f.bound with
  | some b => .ok b
  | none => .error (.notConfigured method)

/-- Writes a number.  The engine is never asked for the negative zero. -/
def formatNumber (f : Formatter m H ε) (x : Binary64) : ExceptT (FormatError ε) m String := do
  let b ← liftExcept (f.boundFor .format)
  (f.engine.format b.handle x.unsignedZero).adapt .engine

/-- Writes a value by the number that it converts to. -/
def format (f : Formatter m H ε) (v : Value) : ExceptT (FormatError ε) m String := do
  let _ ← liftExcept (f.boundFor .format)
  match v.toNumber? with
  | some x => f.formatNumber x
  | none => throw (.argument v .number)

/-- Reads a value by the text that it converts to. -/
def parse (f : Formatter m H ε) (v : Value) : ExceptT (FormatError ε) m Binary64 := do
  let b ← liftExcept (f.boundFor .parse)
  match v.toText? with
  | some s => (f.engine.parse b.handle s).adapt .engine
  | none => throw (.argument v .string)

def resolvedOptions (f : Formatter m H ε) : Except (FormatError ε) Resolved :=
  (f.boundFor .resolvedOptions).map (·.resolved)

end Formatter

/-- A formatter that is not configured yet, over a locale database alone. -/
def Database.formatter (db : Database) {m : Type → Type} [Monad m] :
    Formatter m Conventions UnsupportedLocale where
  engine := db.engine
  resolver := db.resolver UnsupportedLocale

/-- The base names of the requested tags that a database supports.  Of the options only the matcher
is read. -/
def Database.supportedLocales (db : Database) (requested : Locales) (options : Options) :
    Except (FormatError UnsupportedLocale) (List String) := do
  let matcher ← options.localeMatcher.mapError .option
  (db.supported requested matcher).mapError .tag

end Numeral
