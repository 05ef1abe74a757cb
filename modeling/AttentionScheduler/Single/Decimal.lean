import AttentionScheduler.Single.Rounding

/-!
Decimal text with a fixed number of places: the exact value, rounded once, a tie to the even digit.
-/

namespace AttentionScheduler.Single

def padded (width k : Nat) : String :=
  let digits := toString k
  String.ofList (List.replicate (width - digits.length) '0') ++ digits

def placed (places k : Nat) : String :=
  if places = 0 then toString k
  else
    let unit := Nat.pow 10 places
    toString (k / unit) ++ "." ++ padded places (k % unit)

/-- A minus sign stands before every number whose sign bit is set, zero included. -/
def fixed (places : Nat) : Single → String
  | nan => "NaN"
  | num s m =>
    (if s then "-" else "") ++
      (if m = Magnitude.infinity then "inf"
      else placed places (roundDiv (m.units * Nat.pow 10 places) (1 <<< 149)))

end AttentionScheduler.Single
