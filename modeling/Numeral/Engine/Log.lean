import Numeral.Engine.Basic

/-!
# Logged engines

An engine that keeps a record of the calls it receives, and of what came of them.
-/

namespace Numeral

/-- A call of an engine and what came of it. -/
inductive Call (H ε : Type) where
  | build (tag : String) (config : Config) (given : Reported)
    (outcome : Except ε (H × Reported))
  | format (handle : H) (x : Binary64) (outcome : Except ε String)
  | parse (handle : H) (text : String) (outcome : Except ε Binary64)

namespace Engine

variable {m : Type → Type} [Monad m] {H ε α : Type}

/-- Runs a call and adds it to the record. -/
def record (entry : Except ε α → Call H ε) (run : ExceptT ε m α) :
    ExceptT ε (StateT (List (Call H ε)) m) α := ExceptT.mk do
  let outcome ← StateT.lift run.run
  modify (· ++ [entry outcome])
  return outcome

/-- The engine with a record of its calls, in their order. -/
def logged (e : Engine m H ε) : Engine (StateT (List (Call H ε)) m) H ε where
  build tag config given := record (.build tag config given) (e.build tag config given)
  format handle x := record (.format handle x) (e.format handle x)
  parse handle text := record (.parse handle text) (e.parse handle text)

end Engine

end Numeral
