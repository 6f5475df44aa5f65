import RomListing.Proofs.Extended.Decoding
import RomListing.Proofs.Machine.Rows

/-! # Conventions without the Spectrum Next

What an extension makes of the bytes has nothing to do with the instructions that are recognised.
No machine asks for the option.
-/

namespace RomListing

/-- The extension does the same whether or not the instructions of the Spectrum Next are
recognised. -/
structure Extension.Unaware {σ : Type} (ext : Extension σ) : Prop where
  before : ∀ s next c st, ext.before (s.allow next) c st = ext.before s c st
  after : ∀ s next item st, ext.after (s.allow next) item st = ext.after s item st
  custom : ∀ s next r c st, ext.custom (s.allow next) r c st = ext.custom s r c st

theorem Extension.absent_unaware : Extension.absent.Unaware where
  before _ _ _ _ := rfl
  after _ _ _ _ := rfl
  custom _ _ _ _ _ := rfl

variable (s : Setting) (next : Bool)

theorem Cursor.fetchMany_allow (n : Nat) (c : Cursor) :
    c.fetchMany (s.allow next) n = c.fetchMany s n := by
  induction n generalizing c with
  | zero => rfl
  | succ n ih =>
      have hfetch : c.fetch (s.allow next) = c.fetch s := rfl
      simp only [fetchMany, hfetch, ih]

/-! ## Z88 -/

namespace Z88

theorem readString_allow (fuel : Nat) (c : Cursor) :
    readString (s.allow next) fuel c = readString s fuel c := by
  induction fuel generalizing c with
  | zero => rfl
  | succ fuel ih =>
      have hfetch : c.fetch (s.allow next) = c.fetch s := rfl
      simp only [readString, hfetch, ih]

theorem systemCall_allow (c : Cursor) : systemCall (s.allow next) c = systemCall s c := by
  have hstring (after : Cursor) : inlineString (s.allow next) c after = inlineString s c after := by
    unfold inlineString
    rw [readString_allow]
    rfl
  unfold systemCall
  simp only [hstring]
  rfl

theorem extension_unaware : extension.Unaware where
  before s next c u := by
    show Z88.before (s.allow next) c u = Z88.before s c u
    unfold Z88.before
    rw [systemCall_allow]
    rfl
  after _ _ _ _ := rfl
  custom _ _ _ _ _ := rfl

end Z88

/-! ## Spectrum -/

namespace Spectrum

theorem Calculator.entry_allow (pending : Nat) (c : Cursor) :
    Calculator.entry (s.allow next) pending c = Calculator.entry s pending c := by
  have hliteral : literal (s.allow next) pending c = literal s pending c := by
    unfold literal
    simp only [Cursor.fetchMany_allow]
    rfl
  unfold entry
  rw [hliteral]
  rfl

theorem entries_allow (last : Int) (fuel pending : Nat) (c : Cursor) :
    entries (s.allow next) last fuel pending c = entries s last fuel pending c := by
  induction fuel generalizing pending c with
  | zero => rfl
  | succ fuel ih =>
      have hpeek : c.peek (s.allow next) 0 = c.peek s 0 := rfl
      simp only [entries, hpeek, Calculator.entry_allow, ih]

theorem extension_unaware (pages : Pages) : (extension pages).Unaware where
  before s next c st := by
    show Spectrum.before (s.allow next) c st = Spectrum.before s c st
    unfold Spectrum.before calculatorEntry
    rw [Calculator.entry_allow]
    rfl
  after _ _ _ _ := rfl
  custom s next r c st := by
    show Spectrum.custom (s.allow next) r c st = Spectrum.custom s r c st
    unfold Spectrum.custom
    rw [entries_allow]

end Spectrum

theorem Machine.extension_unaware (machine : Option Machine) : (extension machine).Unaware := by
  match machine with
  | none => exact Extension.absent_unaware
  | some .z88 => exact Z88.extension_unaware
  | some (.spectrum pages) => exact Spectrum.extension_unaware pages

end RomListing
