import RomListing.Cursor
import RomListing.Notice
import RomListing.Output

/-!
# Extensions

An extension knows the calling conventions of a machine. It is asked before every
instruction whether it reads the bytes there itself, is shown every instruction that it
left alone, and may list a custom region as a whole. It carries a state of its own.
-/

namespace RomListing

/-- What an extension did with the bytes at a cursor. -/
structure Step (σ : Type) where
  handled : Bool
  state : σ
  cursor : Cursor
  items : List Item := []
  references : List Reference := []
  notices : List Notice := []

/-- What an extension makes of an instruction that it was shown. -/
structure Verdict (σ : Type) where
  state : σ
  remark : Option Text := none
  notices : List Notice := []

structure Extension (σ : Type) where
  /-- A code region starts. -/
  enter : Region → σ → σ × List Notice
  /-- An instruction is about to be read at the cursor. -/
  before : Setting → Cursor → σ → Step σ
  /-- An instruction was read. -/
  after : Setting → Item → σ → Verdict σ
  /-- A custom region is to be listed, with the cursor at its start. -/
  custom : Setting → Region → Cursor → σ → Step σ

def Extension.absent : Extension Unit where
  enter _ u := (u, [])
  before _ c u := { handled := false, state := u, cursor := c }
  after _ _ u := { state := u }
  custom _ _ c u := { handled := false, state := u, cursor := c }

end RomListing
