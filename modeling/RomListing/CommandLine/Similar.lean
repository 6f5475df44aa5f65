import RomListing.Text.Basic

/-!
# Similar names

How much two names have in common: the longest run of letters that is in both, and what
the parts before it and behind it have in common in their turn.
-/

namespace RomListing.CommandLine.Similar

def commonStart : Text → Text → Nat
  | a :: as, b :: bs => if a = b then commonStart as bs + 1 else 0
  | _, _ => 0

/-- A run that is in two texts: its length and its places in them. -/
structure Run where
  length : Nat
  first : Nat
  second : Nat

def Run.longer (r s : Run) : Run := if r.length < s.length then s else r

/-- The longest common run. Of several the one that starts first in the first text is taken,
and of these the one that starts first in the second. -/
def longestRun (as bs : Text) : Run :=
  (List.range as.length).foldl (fun r i =>
    (List.range bs.length).foldl (fun r j =>
      r.longer ⟨commonStart (as.drop i) (bs.drop j), i, j⟩) r) ⟨0, 0, 0⟩

/-- How many letters of two texts match, for a first text of at most the given length. -/
def matchCount : Nat → Text → Text → Nat
  | 0, _, _ => 0
  | fuel + 1, as, bs =>
    let r := longestRun as bs
    if r.length = 0 then 0
    else
      matchCount fuel (as.take r.first) (bs.take r.second) + r.length
        + matchCount fuel (as.drop (r.first + r.length)) (bs.drop (r.second + r.length))

structure Candidate where
  name : String
  matching : Nat
  total : Nat

def candidate (word : Text) (name : String) : Candidate :=
  let letters : Text := name
  { name := name
    matching := matchCount letters.length letters word
    total := letters.length + word.length }

/-- Whether three fifths of the letters match. -/
def Candidate.isClose (c : Candidate) : Bool := 3 * c.total ≤ 10 * c.matching

/-- Whether the first one matches better. Of two that match alike the later name counts as
better. -/
def Candidate.isBetter (c d : Candidate) : Bool :=
  let m := c.matching * d.total
  let n := d.matching * c.total
  n < m || (m == n && d.name < c.name)

def closest (names : List String) (word : Text) : List String :=
  let close := (names.map (candidate word)).filter Candidate.isClose
  ((close.mergeSort Candidate.isBetter).take 3).map Candidate.name

example : (candidate "--byte" "--no-bytes").isClose = true := by decide +kernel

example : (candidate "--byte" "--end").isClose = false := by decide +kernel

end RomListing.CommandLine.Similar
