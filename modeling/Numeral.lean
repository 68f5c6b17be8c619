import Numeral.Binary64.Basic
import Numeral.Binary64.Nearest
import Numeral.Binary64.Shortest
import Numeral.Binary64.Text
import Numeral.Conventions.Affixes
import Numeral.Conventions.Basic
import Numeral.Conventions.Reading
import Numeral.Conventions.Writing
import Numeral.Decimal.Basic
import Numeral.Decimal.Digits
import Numeral.Decimal.Literal
import Numeral.Decimal.Rounding
import Numeral.Engine.Basic
import Numeral.Engine.Log
import Numeral.Engine.Standard
import Numeral.Formatter.Basic
import Numeral.Formatter.Error
import Numeral.Formatter.Resolved
import Numeral.Formatter.Run
import Numeral.Locale.Database
import Numeral.Locale.Extension
import Numeral.Locale.Identifier
import Numeral.Locale.Load
import Numeral.Locale.Malformation
import Numeral.Locale.Negotiation
import Numeral.Locale.Settings
import Numeral.Locale.Standard
import Numeral.Locale.Subtag
import Numeral.Locale.Tag
import Numeral.NumberingSystem
import Numeral.Options.Basic
import Numeral.Options.Config
import Numeral.Options.Keyword
import Numeral.Options.Validation
import Numeral.Power
import Numeral.Proofs.Binary64.Decimal
import Numeral.Proofs.Binary64.Nearest
import Numeral.Proofs.Binary64.Rational
import Numeral.Proofs.Conventions.Accepted
import Numeral.Proofs.Conventions.Agreement
import Numeral.Proofs.Conventions.Build
import Numeral.Proofs.Conventions.FractionBounds
import Numeral.Proofs.Conventions.Grammar
import Numeral.Proofs.Conventions.Grouping
import Numeral.Proofs.Conventions.Legible
import Numeral.Proofs.Conventions.NativeDigits
import Numeral.Proofs.Conventions.Percent
import Numeral.Proofs.Conventions.Recognition
import Numeral.Proofs.Conventions.RoundTrip
import Numeral.Proofs.Conventions.Scanning
import Numeral.Proofs.Conventions.Shape
import Numeral.Proofs.Conventions.Standard
import Numeral.Proofs.Conventions.Symbols
import Numeral.Proofs.Decimal.Coherence
import Numeral.Proofs.Decimal.Digits
import Numeral.Proofs.Decimal.Grammar
import Numeral.Proofs.Decimal.Literal
import Numeral.Proofs.Decimal.Normal
import Numeral.Proofs.Decimal.Parts
import Numeral.Proofs.Decimal.Rounding
import Numeral.Proofs.Decimal.SignificantBounds
import Numeral.Proofs.Formatter.Calls
import Numeral.Proofs.Formatter.Database
import Numeral.Proofs.Formatter.Fallback
import Numeral.Proofs.Formatter.FixedPoint
import Numeral.Proofs.Formatter.LifeCycle
import Numeral.Proofs.Formatter.NumberingSystem
import Numeral.Proofs.Formatter.Numbers
import Numeral.Proofs.Formatter.Screening
import Numeral.Proofs.Locale.Acceptance
import Numeral.Proofs.Locale.Canonicalization
import Numeral.Proofs.Locale.Database
import Numeral.Proofs.Locale.Edits
import Numeral.Proofs.Locale.Entries
import Numeral.Proofs.Locale.Extension
import Numeral.Proofs.Locale.Faults
import Numeral.Proofs.Locale.FirstMatch
import Numeral.Proofs.Locale.Identifier
import Numeral.Proofs.Locale.Keyword
import Numeral.Proofs.Locale.Lookup
import Numeral.Proofs.Locale.Negotiation
import Numeral.Proofs.Locale.Spelling
import Numeral.Proofs.Locale.Supported
import Numeral.Proofs.Locale.Tag
import Numeral.Proofs.NumberingSystem
import Numeral.Proofs.Options.Bounds
import Numeral.Proofs.Options.Faults
import Numeral.Proofs.Options.Rules
import Numeral.Proofs.Options.Validity
import Numeral.Proofs.Outcome
import Numeral.Proofs.Text.Span
import Numeral.Proofs.Toml.Table
import Numeral.Proofs.Value.Coercion
import Numeral.Proofs.Value.RoundTrip
import Numeral.Proofs.Value.Text
import Numeral.Text.Radix
import Numeral.Text.WhiteSpace
import Numeral.Toml.Datetime
import Numeral.Toml.Document
import Numeral.Toml.Node
import Numeral.Toml.Number
import Numeral.Toml.Scanner
import Numeral.Toml.Text
import Numeral.Toml.Value
import Numeral.Value.Basic
import Numeral.Value.Coercion
import Numeral.Value.Text
