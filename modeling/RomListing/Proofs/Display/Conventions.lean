import RomListing.Proofs.Display.Decoding
import RomListing.Proofs.Machine.Rows

/-! # Conventions in other words

What a machine's conventions make of the bytes does not depend on how numbers and labels are
written. The Z88 never looks at it. The calculator writes its bytes in the numerals of the listing,
and an operation without a name in its remark, which is there all the same.
-/

namespace RomListing

/-! ## Extensions -/

def Step.outline {σ : Type} (x : Step σ) : Step σ := { x with items := x.items.map Item.outline }

def Verdict.outline {σ : Type} (v : Verdict σ) : Verdict σ :=
  { v with remark := v.remark.map fun _ => [] }

/-- How numbers and labels are written decides about nothing that the extension does, the wording
apart, and the wording of an item not about the verdict on it. -/
structure Extension.Rewordable {σ : Type} (ext : Extension σ) : Prop where
  before : ∀ s decimal bareLabels c st,
    (ext.before (s.display decimal bareLabels) c st).outline = (ext.before s c st).outline
  after : ∀ s decimal bareLabels {item item'} st, item'.outline = item.outline →
    (ext.after (s.display decimal bareLabels) item' st).outline = (ext.after s item st).outline
  custom : ∀ s decimal bareLabels r c st,
    (ext.custom (s.display decimal bareLabels) r c st).outline = (ext.custom s r c st).outline

theorem Extension.absent_rewordable : Extension.absent.Rewordable where
  before _ _ _ _ _ := rfl
  after _ _ _ _ _ _ _ := rfl
  custom _ _ _ _ _ _ := rfl

/-! ## Z88 -/

namespace Z88

variable (s : Setting) (decimal bareLabels : Bool) (c : Cursor)

theorem readString_display (fuel : Nat) :
    readString (s.display decimal bareLabels) fuel c = readString s fuel c := by
  induction fuel generalizing c with
  | zero => rfl
  | succ fuel ih => simp only [readString, Cursor.fetch_display, ih]

theorem inlineString_display (after : Cursor) :
    inlineString (s.display decimal bareLabels) c after = inlineString s c after := by
  unfold inlineString
  rw [readString_display]
  rfl

theorem systemCall_display :
    systemCall (s.display decimal bareLabels) c = systemCall s c := by
  unfold systemCall
  simp only [inlineString_display]
  rfl

theorem before_display (u : Unit) :
    before (s.display decimal bareLabels) c u = before s c u := by
  unfold before
  rw [systemCall_display]
  rfl

theorem extension_rewordable : extension.Rewordable where
  before s decimal bareLabels c u := congrArg Step.outline (before_display s decimal bareLabels c u)
  after _ _ _ _ _ _ _ := rfl
  custom _ _ _ _ _ _ := rfl

end Z88

/-! ## Spectrum -/

namespace Spectrum

variable (s : Setting) (decimal bareLabels : Bool)

namespace Calculator

def Entry.outline (e : Entry) : Entry := { e with item := e.item.outline }

theorem Entry.outline_eq_iff {x y : Entry} : y.outline = x.outline ↔
    y.item.outline = x.item.outline ∧ y.goesOn = x.goesOn ∧ y.pending = x.pending ∧
      y.references = x.references ∧ y.cursor = x.cursor := by
  simp only [outline, Entry.mk.injEq]

theorem literal_display (pending : Nat) (c : Cursor) :
    (literal (s.display decimal bareLabels) pending c).outline = (literal s pending c).outline := by
  unfold literal
  simp only [Cursor.fetch_display, Cursor.fetchMany_display, Setting.shownAddress_display,
    Entry.outline, Item.outline]

theorem jump_display (code : UInt8) (c after : Cursor) :
    (jump (s.display decimal bareLabels) code c after).outline = (jump s code c after).outline := by
  unfold jump
  simp only [Cursor.fetch_display, Setting.shownAddress_display, Entry.outline, Item.outline]

/-- A remark that spells out an unknown operation is there with any display. -/
theorem entry_display (pending : Nat) (c : Cursor) :
    (entry (s.display decimal bareLabels) pending c).outline = (entry s pending c).outline := by
  unfold entry
  split
  · exact literal_display s decimal bareLabels pending c
  · dsimp only
    rw [Cursor.fetch_display]
    split
    · exact jump_display s decimal bareLabels _ c _
    · simp only [Setting.shownAddress_display, Entry.outline, Item.outline, Option.map_some]

end Calculator

theorem calculatorEntry_display (c : Cursor) (st : State) :
    (calculatorEntry (s.display decimal bareLabels) c st).outline =
      (calculatorEntry s c st).outline := by
  obtain ⟨hitem, hgoesOn, hpending, hreferences, hcursor⟩ := Calculator.Entry.outline_eq_iff.1
    (Calculator.entry_display s decimal bareLabels st.pending c)
  unfold calculatorEntry
  simp only [Step.outline, List.map_cons, List.map_nil, hitem, hgoesOn, hpending, hreferences,
    hcursor]

theorem before_display (c : Cursor) (st : State) :
    (before (s.display decimal bareLabels) c st).outline = (before s c st).outline := by
  unfold before
  rw [Cursor.peek_display]
  -- error codes and the addresses of routines are written in hexadecimal with any display
  split
  · rfl
  · split
    · rfl
    · rfl
    · exact calculatorEntry_display s decimal bareLabels c st
    · rfl

def Entries.outline (e : Entries) : Entries := { e with items := e.items.map Item.outline }

theorem Entries.outline_eq_iff {x y : Entries} : y.outline = x.outline ↔
    y.items.map Item.outline = x.items.map Item.outline ∧ y.references = x.references ∧
      y.pending = x.pending ∧ y.cursor = x.cursor := by
  simp only [outline, Entries.mk.injEq]

theorem entries_display (last : Int) (fuel pending : Nat) (c : Cursor) :
    (entries (s.display decimal bareLabels) last fuel pending c).outline =
      (entries s last fuel pending c).outline := by
  induction fuel generalizing pending c with
  | zero => rfl
  | succ fuel ih =>
      obtain ⟨hitem, -, hpending, hreferences, hcursor⟩ := Calculator.Entry.outline_eq_iff.1
        (Calculator.entry_display s decimal bareLabels pending c)
      obtain ⟨hrest, hmore, hleft, hend⟩ := Entries.outline_eq_iff.1
        (ih (Calculator.entry s pending c).pending (Calculator.entry s pending c).cursor)
      unfold entries
      rw [Cursor.peek_display]
      split
      · simp only [hpending, hcursor]
        simp only [Entries.outline, List.map_cons, hitem, hreferences, hrest, hmore, hleft, hend]
      · rfl

theorem after_display (pages : Pages) {item item' : Item} (h : item'.outline = item.outline)
    (st : State) :
    after pages (s.display decimal bareLabels) item' st = after pages s item st := by
  have haddress : item'.address = item.address := (congrArg Item.address h :)
  have hopcodes : item'.opcodes = item.opcodes := (congrArg Item.opcodes h :)
  unfold after
  rw [haddress, hopcodes]
  rfl

theorem custom_display (r : Region) (c : Cursor) (st : State) :
    (custom (s.display decimal bareLabels) r c st).outline = (custom s r c st).outline := by
  obtain ⟨hitems, hreferences, hpending, hcursor⟩ := Entries.outline_eq_iff.1
    (entries_display s decimal bareLabels r.last r.length 0 c)
  simp only [custom, Step.outline, hitems, hreferences, hpending, hcursor]

theorem extension_rewordable (pages : Pages) : (extension pages).Rewordable where
  before s decimal bareLabels c st := before_display s decimal bareLabels c st
  after s decimal bareLabels _ _ st h :=
    congrArg Verdict.outline (after_display s decimal bareLabels pages h st)
  custom s decimal bareLabels r c st := custom_display s decimal bareLabels r c st

end Spectrum

theorem Machine.extension_rewordable (machine : Option Machine) :
    (extension machine).Rewordable := by
  match machine with
  | none => exact Extension.absent_rewordable
  | some .z88 => exact Z88.extension_rewordable
  | some (.spectrum pages) => exact Spectrum.extension_rewordable pages

end RomListing
