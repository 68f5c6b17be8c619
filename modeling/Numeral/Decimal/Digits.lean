/-!
# Digit lists

Natural numbers as lists of decimal digits, most significant first.  Zero has no digits.
-/

namespace Numeral.Decimal

/-- The digits of `n`, most significant first; zero has none. -/
def digitsOf (n : Nat) : List Nat :=
  if n = 0 then [] else digitsOf (n / 10) ++ [n % 10]

def ofDigits (ds : List Nat) : Nat :=
  ds.foldl (fun n d => 10 * n + d) 0

/-- The number of decimal digits of `n`; zero has none. -/
def digitCount (n : Nat) : Nat :=
  if n = 0 then 0 else digitCount (n / 10) + 1

def trimZeros (ds : List Nat) : List Nat :=
  (ds.reverse.dropWhile (· == 0)).reverse

/-- The digits of the next number, as many as before, and whether a one is carried out of the first
of them. -/
def increment : List Nat → Bool × List Nat
  | [] => (true, [])
  | d :: ds =>
    match increment ds with
    | (false, ds) => (false, d :: ds)
    | (true, ds) => if d = 9 then (true, 0 :: ds) else (false, (d + 1) :: ds)

/-- A digit list with zeros added at the front up to a length. -/
def padLeft (n : Nat) (ds : List Nat) : List Nat :=
  List.replicate (n - ds.length) 0 ++ ds

/-- A digit list with zeros added at the end up to a length. -/
def padRight (n : Nat) (ds : List Nat) : List Nat :=
  ds ++ List.replicate (n - ds.length) 0

def digitText (ds : List Nat) : List Char :=
  ds.map Nat.digitChar

def digitValue (c : Char) : Nat :=
  c.toNat - '0'.toNat

def readDigits (cs : List Char) : Nat :=
  ofDigits (cs.map digitValue)

/-- The decimal digits of a number as text; zero is written `0`. -/
def natText (n : Nat) : List Char :=
  if n = 0 then ['0'] else digitText (digitsOf n)

/-! ## Digits and the number that they denote -/

@[simp]
theorem ofDigits_concat (ds : List Nat) (d : Nat) :
    ofDigits (ds ++ [d]) = 10 * ofDigits ds + d := by
  simp [ofDigits]

@[simp]
theorem ofDigits_digitsOf (n : Nat) : ofDigits (digitsOf n) = n := by
  fun_induction digitsOf n with
  | case1 => rfl
  | case2 n _ ih =>
    rw [ofDigits_concat, ih]
    omega

theorem lt_ten_of_mem_digitsOf {n d : Nat} (h : d ∈ digitsOf n) : d < 10 := by
  fun_induction digitsOf n with
  | case1 => simp at h
  | case2 n _ ih =>
    rw [List.mem_append, List.mem_singleton] at h
    rcases h with h | rfl
    · exact ih h
    · omega

theorem length_digitsOf (n : Nat) : (digitsOf n).length = digitCount n := by
  fun_induction digitsOf n with
  | case1 => simp [digitCount]
  | case2 n h ih =>
    rw [List.length_append, ih, List.length_singleton, digitCount.eq_def n, if_neg h]

theorem le_length_padLeft (n : Nat) (ds : List Nat) : n ≤ (padLeft n ds).length := by
  rw [padLeft, List.length_append, List.length_replicate]
  omega

theorem le_length_padRight (n : Nat) (ds : List Nat) : n ≤ (padRight n ds).length := by
  rw [padRight, List.length_append, List.length_replicate]
  omega

end Numeral.Decimal
