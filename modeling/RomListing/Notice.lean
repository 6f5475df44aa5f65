import RomListing.Numeral
import RomListing.Region
import RomListing.Text.Basic

/-!
# Notices

What a run tells about itself while it works. Only warnings are shown unless more is
asked for.
-/

namespace RomListing

inductive Notice.Level where
  | debug
  | warning
  deriving DecidableEq, Repr

def Notice.Level.name : Notice.Level → String
  | .debug => "DEBUG"
  | .warning => "WARNING"

inductive Notice where
  /-- Nothing of the requested range is in the image. -/
  | outside
  /-- A part of a region is about to be listed. -/
  | part (r : Region)
  /-- An extension took over at the place without reading a byte. -/
  | idle (place : Int)
  /-- The reading of the bytes that follow has changed. -/
  | mode (before after : String)
  /-- All is set up, for a machine if one is named. -/
  | built (cpu : String) (machine : Option Text)
  deriving DecidableEq

namespace Notice

def level : Notice → Level
  | .idle _ => .warning
  | _ => .debug

def channel : Notice → String
  | .mode .. => "retro_disasm.machines.spectrum"
  | .built .. => "retro_disasm.config.builder"
  | _ => "retro_disasm.core.engine"

def message : Notice → Text
  | .outside => "Requested range is outside of the buffer"
  | .part r =>
    r.kind.name ++ " section " ++ Numeral.hex4 r.first ++ "-" ++ Numeral.hex4 r.last
  | .idle place =>
    "Custom disassembler handled " ++ Numeral.hex4 place ++ " without consuming bytes"
  | .mode before after => "Spectrum mode " ++ before ++ " -> " ++ after
  | .built cpu machine => "Built " ++ cpu ++ " engine (machine: " ++ machine.getD ("none" : String) ++ ")"

end Notice

end RomListing
