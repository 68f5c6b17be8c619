import Numeral.Options.Config
import Numeral.Binary64.Basic

/-!
# Engines

An engine writes and reads numbers for a formatter.  It is asked once to prepare for a locale and a
configuration, and its answer goes with every number and text after that.  An engine may fail, and
may have effects.
-/

namespace Numeral

/-- The locale and the numbering system that an engine uses. -/
structure Reported where
  locale : String
  numberingSystem : String
  deriving DecidableEq, Repr

/-- A service that writes and reads numbers, with effects `m`, prepared states `H` and errors
`ε`. -/
structure Engine (m : Type → Type) (H ε : Type) where
  /-- Prepares for a tag and a configuration.  What the engine uses is expected to be what is given,
  and is what it reports. -/
  build (tag : String) (config : Config) (given : Reported) : ExceptT ε m (H × Reported)
  format (handle : H) (x : Binary64) : ExceptT ε m String
  parse (handle : H) (text : String) : ExceptT ε m Binary64

end Numeral
