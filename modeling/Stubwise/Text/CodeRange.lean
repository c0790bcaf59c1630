namespace Stubwise.Text

abbrev CodeRanges := Array (Nat × Nat)

/-- The ranges from `next` on, from their runs: how many code points stand before each range,
and how many are in it. -/
def CodeRanges.runsFrom (next : Nat) : List Nat → List (Nat × Nat)
  | gap :: count :: runs =>
    (next + gap, next + gap + count - 1) :: runsFrom (next + gap + count) runs
  | _ => []

def CodeRanges.ofRuns (runs : List Nat) : CodeRanges :=
  (runsFrom 0 runs).toArray

def CodeRanges.containsFrom (ranges : CodeRanges) (code low high : Nat) : Bool :=
  if low < high then
    let middle := low + (high - low) / 2
    match ranges[middle]? with
    | none => false
    | some (first, last) =>
      if code < first then ranges.containsFrom code low middle
      else if last < code then ranges.containsFrom code (middle + 1) high
      else true
  else false
termination_by high - low

def CodeRanges.contains (ranges : CodeRanges) (code : Nat) : Bool :=
  ranges.containsFrom code 0 ranges.size

end Stubwise.Text
