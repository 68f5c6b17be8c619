import Numeral.Formatter.Basic

/-!
# Runs of a formatter

Everything that a formatter can be asked, as requests with answers, and runs of requests one after
the other.  Only a request to configure that succeeds changes the formatter.
-/

namespace Numeral

/-- What a formatter is asked without being changed. -/
inductive Query where
  | format (v : Value)
  | formatNumber (x : Binary64)
  | parse (v : Value)
  | resolvedOptions
  | isConfigured
  | config

/-- What a formatter is asked. -/
inductive Request where
  | configure (requested : Locales) (options : Options)
  | ask (q : Query)

/-- What a formatter answers. -/
inductive Answer where
  | configured
  | text (s : String)
  | number (x : Binary64)
  | resolved (r : Resolved)
  | state (configured : Bool)
  | config (c : Option Config)

namespace Formatter

variable {m : Type → Type} [Monad m] {H ε : Type}

def answer (f : Formatter m H ε) : Query → ExceptT (FormatError ε) m Answer
  | .format v => return .text (← f.format v)
  | .formatNumber x => return .text (← f.formatNumber x)
  | .parse v => return .number (← f.parse v)
  | .resolvedOptions => return .resolved (← liftExcept f.resolvedOptions)
  | .isConfigured => return .state f.isConfigured
  | .config => return .config f.config?

/-- The answer to a request, and the formatter after it. -/
def step (f : Formatter m H ε) (r : Request) :
    m (Except (FormatError ε) Answer × Formatter m H ε) :=
  match r with
  | .configure requested options => do
    match ← (f.configure requested options).run with
    | .ok f' => return (.ok .configured, f')
    | .error e => return (.error e, f)
  | .ask q => do return (← (f.answer q).run, f)

/-- The answers to requests one after the other, and the formatter after them. -/
def run (f : Formatter m H ε) :
    List Request → m (List (Except (FormatError ε) Answer) × Formatter m H ε)
  | [] => return ([], f)
  | r :: rs => do
    let (a, f) ← f.step r
    let (as, f) ← f.run rs
    return (a :: as, f)

end Formatter

end Numeral
