/-!
# Durations

Lengths of time in whole nanoseconds and the text that names them: a number
with as few decimals as needed in the largest unit that does not exceed it.
-/

namespace GuestGate.Text

/-- The decimals of `part / 10 ^ places`, without trailing zeros and with the
point in front, or nothing for a whole number. -/
def decimals (part places : Nat) : String :=
  if part = 0 then ""
  else
    let digits := (Nat.toDigits 10 part)
    let padded := List.replicate (places - digits.length) '0' ++ digits
    "." ++ String.ofList (padded.reverse.dropWhile (· == '0')).reverse

/-- A length of time as text: seconds, milliseconds, microseconds or
nanoseconds. -/
def durationText (nanos : Nat) : String :=
  if 1000000000 ≤ nanos then
    toString (nanos / 1000000000) ++ decimals (nanos % 1000000000) 9 ++ "s"
  else if 1000000 ≤ nanos then
    toString (nanos / 1000000) ++ decimals (nanos % 1000000) 6 ++ "ms"
  else if 1000 ≤ nanos then
    toString (nanos / 1000) ++ decimals (nanos % 1000) 3 ++ "µs"
  else
    toString nanos ++ "ns"

end GuestGate.Text
