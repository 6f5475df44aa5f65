import RomListing.Pass
import RomListing.Spectrum.Conventions
import RomListing.Z88.Conventions

/-!
# Machines

The machines whose conventions are known, by name.
-/

namespace RomListing

inductive Machine where
  | spectrum (pages : Spectrum.Pages)
  | z88

namespace Machine

def byName : List (String × Machine) :=
  [("SPECTRUM48", .spectrum .spectrum48), ("SPECTRUM128", .spectrum .spectrum128),
    ("SPECTRUMP3", .spectrum .spectrumP3), ("SPECTRUMNEXT", .spectrum .spectrumNext),
    ("Z88", .z88)]

def run (machine : Option Machine) (job : Job) (first last : Int) :
    Option Output × List Notice :=
  match machine with
  | none => result (job.run .absent () first last)
  | some (.spectrum pages) => result (job.run (Spectrum.extension pages) {} first last)
  | some .z88 => result (job.run Z88.extension () first last)
where
  result {σ : Type} (r : Report σ) : Option Output × List Notice := (r.output, r.notices)

end Machine

end RomListing
