import RomListing.Text.Basic
import RomListing.Text.Utf8

/-!
# Paths

A path leads from a directory by steps between slashes. Its bytes are its UTF-8 form; the
halves from U+DC80 to U+DCFF stand for single bytes from 0x80 on, other halves for none.
-/

namespace RomListing.CommandLine.Path

def slash : Letter := .char '/'

def letterBytes? : Letter → Option (List UInt8)
  | .char c => some (Text.encodeUtf8 c)
  | .half n => if 0x480 ≤ n.val ∧ n.val < 0x500 then some [(n.val - 0x400).toUInt8] else none

/-- The bytes of a path, none if a letter has none. -/
def bytes? (path : Text) : Option (List UInt8) := (path.mapM letterBytes?).map List.flatten

def byteCount (path : Text) : Nat := (path.filterMap letterBytes?).flatten.length

def shown (path : Text) : Text :=
  match bytes? path with
  | some bytes => Text.ofChars (Text.mendUtf8 bytes)
  | none => path

def steps (path : Text) : List Text :=
  (Text.split slash path).filter fun step => !step.isEmpty && step != "."

/-- Where a path starts. Two slashes are a root of their own, more of them are one. -/
def root (path : Text) : Text :=
  match (path.takeWhile (· == slash)).length with
  | 0 => ""
  | 2 => "//"
  | _ => "/"

def ofSteps (root : Text) (steps : List Text) : Text :=
  let path := root ++ Text.join [slash] steps
  if path.isEmpty then "." else path

def normal (path : Text) : Text := ofSteps (root path) (steps path)

/-- The steps of a path, each one with the path that it starts from. -/
def leads (path : Text) : List (Text × Text) :=
  (steps path).mapIdx fun n step => (ofSteps (root path) ((steps path).take n), step)

example : normal "./a//b/." = "a/b" := by decide

example : shown [.half 0x4C3, .half 0x4A9] = "é" := by decide

end RomListing.CommandLine.Path
