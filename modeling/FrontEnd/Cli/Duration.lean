/-
Durations as the command line shows them.

A duration is shown in the largest unit of which it has at least one, with as many places
as it needs.
-/

namespace FrontEnd.Duration

/-- The `digits` decimal places of `n`, without the zeros at the end. -/
def places (digits n : Nat) : List Char :=
  let written := Nat.toDigits 10 n
  let padded := List.replicate (digits - written.length) '0' ++ written
  (padded.reverse.dropWhile (· = '0')).reverse

/-- A duration in a unit of `size` nanoseconds, which is a one with `digits` zeros. -/
def inUnit (nanoseconds size digits : Nat) (unit : String) : String :=
  let whole := toString (nanoseconds / size)
  match places digits (nanoseconds % size) with
  | [] => whole ++ unit
  | fraction => whole ++ "." ++ String.ofList fraction ++ unit

/-- The shown form of a number of nanoseconds. -/
def text (nanoseconds : Nat) : String :=
  if 1000000000 ≤ nanoseconds then inUnit nanoseconds 1000000000 9 "s"
  else if 1000000 ≤ nanoseconds then inUnit nanoseconds 1000000 6 "ms"
  else if 1000 ≤ nanoseconds then inUnit nanoseconds 1000 3 "µs"
  else inUnit nanoseconds 1 0 "ns"

end FrontEnd.Duration
