import RomListing.Machine
import RomListing.Proofs.Pass.Orderly
import RomListing.Proofs.Spectrum.Refinement

/-! # The machines list rows

Every convention of a machine reads its bytes one after another and lists all that it was given, the
zeros in place of missing bytes too. The text after a call of the Z88 alone stops before a byte that
is not there.
-/

namespace RomListing

/-! ## Items of fetched bytes -/

/-- The item lists the `n` bytes from the cursor on, and `d` is the cursor behind them. -/
structure Cursor.Shows (s : Setting) (c : Cursor) (n : Nat) (item : Item) (d : Cursor) : Prop where
  opcodes : item.opcodes = (c.fetchMany s n).1
  cursor : d = (c.fetchMany s n).2
  address : item.address = s.shownAddress c.offset
  plain : item.hasLabel = false
  silent : item.hasLabelSymbol = false
  stands : item.continuation = false

theorem Cursor.fetchMany_bytes {s : Setting} {c : Cursor} (hbase : s.image.base ≤ c.offset)
    (n : Nat) : (c.fetchMany s n).1 = s.image.slice c.offset n := by
  have hbytes := (Reads.refl s c).fetchMany_bytes hbase n
  rwa [Int.natCast_zero, Int.add_zero] at hbytes

/-- A byte that is there is read, and the cursor moves on. -/
theorem Cursor.fetch_cases (s : Setting) {c : Cursor} (ho : c.overflow = false) :
    ((c.fetch s).2.overflow = true ∧ (c.fetch s).2.offset = c.offset) ∨
      ((c.fetch s).2.overflow = false ∧ (c.fetch s).2.offset = c.offset + 1 ∧
        c.offset ≤ s.image.last) := by
  unfold fetch
  cases hb : s.image.byte? c.offset with
  | none => exact .inl ⟨rfl, rfl⟩
  | some b => exact .inr ⟨ho, rfl, (Image.byte?_isSome_iff.1 (Option.isSome_of_mem hb)).2⟩

theorem Item.NamesLabel.of_silent {item : Item} (h : item.hasLabelSymbol = false) (o : Options) :
    item.NamesLabel o := by
  intro hsymbol
  rw [h] at hsymbol
  cases hsymbol

theorem Cursor.Shows.row {s : Setting} {c d : Cursor} {n longest : Nat} {item : Item}
    (h : c.Shows s n item d) (hbase : s.image.base ≤ c.offset)
    (hlast : c.offset ≤ s.image.last) (hpos : 0 < n) (hle : n ≤ longest) :
    Row s longest c.offset [item] d.offset := by
  have hoffset : d.offset = c.offset + s.image.available c.offset n := by
    rw [h.cursor]
    exact (c.fetchMany_reads s n).offset
  have havailable := Image.available_eq_min hbase n
  refine ⟨⟨item, [], rfl, h.stands, by simp⟩, ?_, ?_⟩
  · intro i hi
    rw [List.mem_singleton.1 hi]
    exact ⟨h.address, h.plain, .of_silent h.silent s.options⟩
  · refine ⟨n, hpos, ?_, by omega, .inr ⟨hle, item, rfl⟩⟩
    rw [List.flatMap_singleton, h.opcodes, fetchMany_bytes hbase]

/-! ## Z88 -/

namespace Z88

variable {s : Setting} {c : Cursor}

theorem callItem_shows {n : Nat} {opcodes : List UInt8} (text : String)
    (h : opcodes = (c.fetchMany s n).1) :
    c.Shows s n (callItem s c opcodes text) (c.fetchMany s n).2 :=
  ⟨h, rfl, rfl, rfl, rfl, rfl⟩

/-- A text is made of bytes that are there. -/
theorem readString_bytes (fuel : Nat) (hlast : c.offset ≤ s.image.last + 1)
    (ho : c.overflow = false) :
    ∃ n : Nat, (readString s fuel c).1 = s.image.slice c.offset n ∧
      (readString s fuel c).2.offset = c.offset + n ∧ c.offset + n ≤ s.image.last + 1 := by
  induction fuel generalizing c with
  | zero => exact ⟨0, rfl, (Int.add_zero _).symm, by omega⟩
  | succ fuel ih =>
      have hbyte : (c.fetch s).1 = s.image.byteAt c.offset := c.fetch_byte s
      unfold readString
      dsimp only
      rcases c.fetch_cases s ho with ⟨hover, hstays⟩ | ⟨hover, hmoves, hin⟩
      · rw [if_pos hover]
        exact ⟨0, rfl, hstays.trans (Int.add_zero _).symm, by omega⟩
      · rw [if_neg (by simp [hover])]
        split
        · refine ⟨1, ?_, hmoves, by omega⟩
          rw [hbyte]
          rfl
        · obtain ⟨n, hbytes, hstop, hend⟩ := ih (c := (c.fetch s).2) (by omega) hover
          refine ⟨n + 1, ?_, by dsimp only; omega, by omega⟩
          rw [hbytes, hbyte, hmoves]
          rfl

/-- The bytes of a text are a row with the two bytes of the call before them. -/
theorem inlineString_row (hbase : s.image.base ≤ c.offset) (ho : c.overflow = false)
    {call : Item} (hcall : c.Shows s 2 call (c.fetchMany s 2).2)
    (hpresent : c.offset + 1 ≤ s.image.last) :
    let x := inlineString s c (c.fetchMany s 2).2
    Row s 4 c.offset (call :: x.1) x.2.offset := by
  intro x
  have hreads := c.fetchMany_reads s 2
  have havailable : s.image.available c.offset 2 = 2 := Image.available_eq_self hbase (by omega)
  have hoffset : (c.fetchMany s 2).2.offset = c.offset + 2 := by
    rw [hreads.offset, havailable]
    rfl
  have hover : (c.fetchMany s 2).2.overflow = false := by
    rw [hreads.overflow, havailable, ho]
    rfl
  obtain ⟨n, hbytes, hstop, hend⟩ :=
    readString_bytes (s := s) (s.image.bytes.size + 1) (c := (c.fetchMany s 2).2) (by omega) hover
  have hitems : (∀ item ∈ x.1, item.continuation = true ∧ item.address = s.shownAddress c.offset ∧
      item.hasLabel = false ∧ item.hasLabelSymbol = false) ∧
      x.1.flatMap Item.opcodes = s.image.slice (c.offset + 2) n ∧
      x.2.offset = c.offset + 2 + n := by
    rw [hoffset] at hbytes hstop
    simp only [x, inlineString]
    split
    · rename_i hempty
      rw [List.isEmpty_iff.1 hempty] at hbytes
      exact ⟨by simp, hbytes, hstop⟩
    · refine ⟨?_, ?_, hstop⟩
      · intro item hi
        rw [List.mem_singleton.1 hi]
        exact ⟨rfl, rfl, rfl, rfl⟩
      · rw [List.flatMap_singleton]
        exact hbytes
  obtain ⟨hrest, hrestbytes, hend'⟩ := hitems
  have hplace : c.offset + (2 + n : Nat) = c.offset + 2 + n := by omega
  refine ⟨⟨call, x.1, rfl, hcall.stands, fun item hi => (hrest item hi).1⟩, ?_, ?_⟩
  · intro item hi
    rcases List.mem_cons.1 hi with rfl | hi
    · exact ⟨hcall.address, hcall.plain, .of_silent hcall.silent s.options⟩
    · obtain ⟨-, haddress, hplain, hsilent⟩ := hrest item hi
      exact ⟨haddress, hplain, .of_silent hsilent s.options⟩
  · refine ⟨2 + n, by omega, ?_, ?_, .inl ?_⟩
    · rw [List.flatMap_cons, hcall.opcodes, Cursor.fetchMany_bytes hbase, hrestbytes,
        Image.slice_add]
      rfl
    · omega
    · omega

theorem systemCall_row (hbase : s.image.base ≤ c.offset) (hlast : c.offset ≤ s.image.last)
    (ho : c.overflow = false) (hfirst : (c.fetch s).1 = 0xE7) :
    (systemCall s c).handled = true ∧
      Row s 4 c.offset (systemCall s c).items (systemCall s c).cursor.offset := by
  have hcall (text : String) : c.Shows s 2 (callItem s c [0xE7, ((c.fetch s).2.fetch s).1] text)
      (c.fetchMany s 2).2 := callItem_shows text (hfirst ▸ rfl)
  unfold systemCall
  dsimp only
  split
  · have hwide : [0xE7, ((c.fetch s).2.fetch s).1, (((c.fetch s).2.fetch s).2.fetch s).1] =
        (c.fetchMany s 3).1 := hfirst ▸ rfl
    exact ⟨rfl, (callItem_shows _ hwide).row hbase hlast (by decide) (by decide)⟩
  split
  · rename_i hcode
    refine ⟨rfl, inlineString_row hbase ho (hcall _) (Int.not_lt.1 fun hmissing => ?_)⟩
    -- the code would be read as 0 if it were missing
    have hzero : ((c.fetch s).2.fetch s).1 = s.image.byteAt (c.offset + 1) :=
      (c.fetch_reads s).fetch_byte hbase
    rw [Image.byteAt_of_last_lt hmissing, hcode] at hzero
    cases hzero
  · exact ⟨rfl, (hcall _).row hbase hlast (by decide) (by decide)⟩

theorem extension_orderly : extension.Orderly 4 where
  custom _ _ _ _ _ := .inl rfl
  before {s c} st hbase hlast ho := by
    have hbeyond : (c.peek s 0).beyond = false := by
      simpa [Cursor.peek] using Image.byte?_isSome_iff.2 ⟨hbase, hlast⟩
    have hfirst : (c.fetch s).1 = (c.peek s 0).value := by
      rw [c.fetch_byte]
      simp [Cursor.peek]
    have hone {n : Nat} {opcodes : List UInt8} (text : String)
        (hshows : opcodes = (c.fetchMany s n).1) (hpos : 0 < n) (hle : n ≤ 4) :
        Row s 4 c.offset [callItem s c opcodes text] (c.fetchMany s n).2.offset :=
      (callItem_shows text hshows).row hbase hlast hpos hle
    simp only [extension, before, hbeyond, Bool.false_eq_true, if_false]
    rw [← hfirst]
    split
    · exact .inr ⟨rfl, hone (n := 2) _ (‹_› ▸ rfl) (by decide) (by decide)⟩
    split
    · exact .inr (systemCall_row hbase hlast ho ‹_›)
    split
    · exact .inr ⟨rfl, hone (n := 4) _ (‹_› ▸ rfl) (by decide) (by decide)⟩
    split
    · exact .inr ⟨rfl, hone (n := 1) _ (‹_› ▸ rfl) (by decide) (by decide)⟩
    · exact .inl rfl

end Z88

/-! ## Spectrum -/

namespace Spectrum

open Calculator (entry literal literalRest)

variable {s : Setting} {c : Cursor}

namespace Calculator

theorem literalRest_le (first : UInt8) : literalRest first ≤ 5 := by
  have hquarter : (first / 0x40).toNat ≤ 3 := by
    have hlt := first.toNat_lt
    rw [UInt8.toNat_div, show (0x40 : UInt8).toNat = 0x40 from rfl]
    omega
  unfold literalRest
  split <;> omega

theorem entry_shows (s : Setting) (pending : Nat) (c : Cursor) :
    ∃ n, 0 < n ∧ n ≤ 6 ∧ c.Shows s n (entry s pending c).item (entry s pending c).cursor := by
  unfold entry
  split
  · have hle := literalRest_le (c.fetch s).1
    exact ⟨literalRest (c.fetch s).1 + 1, by omega, by omega, rfl, rfl, rfl, rfl, rfl, rfl⟩
  · dsimp only
    split
    · exact ⟨2, by decide, by decide, rfl, rfl, rfl, rfl, rfl, rfl⟩
    · exact ⟨1, by decide, by decide, rfl, rfl, rfl, rfl, rfl, rfl⟩

theorem entry_row (pending : Nat) (hbase : s.image.base ≤ c.offset)
    (hlast : c.offset ≤ s.image.last) :
    Row s 6 c.offset [(entry s pending c).item] (entry s pending c).cursor.offset := by
  obtain ⟨n, hpos, hle, hshows⟩ := entry_shows s pending c
  exact hshows.row hbase hlast hpos hle

end Calculator

theorem entries_rows {last : Int} (hfit : last ≤ s.image.last) (fuel pending : Nat)
    (hbase : s.image.base ≤ c.offset) :
    Rows s 6 last c.offset (entries s last fuel pending c).items
      (entries s last fuel pending c).cursor.offset := by
  induction fuel generalizing pending c with
  | zero => exact .nil c.offset
  | succ fuel ih =>
      unfold entries
      dsimp only
      split
      · rename_i hgoes
        have hin := Int.le_trans hgoes.1 hfit
        have hrow := Calculator.entry_row pending hbase hin
        have hnext := Int.le_trans hbase (Int.le_of_lt (hrow.lt hin))
        exact .cons hgoes.1 hrow (ih (entry s pending c).pending hnext)
      · exact .nil c.offset

theorem errorCode_shows (s : Setting) (c : Cursor) :
    c.Shows s 1 (errorCode s c).1 (errorCode s c).2 := ⟨rfl, rfl, rfl, rfl, rfl, rfl⟩

theorem routineAddress_shows (s : Setting) (c : Cursor) :
    c.Shows s 2 (routineAddress s c).1 (routineAddress s c).2 := ⟨rfl, rfl, rfl, rfl, rfl, rfl⟩

theorem extension_orderly (pages : Pages) : (extension pages).Orderly 6 where
  custom {s r c} st hbase hlast hoffset _ := by
    have hrows := entries_rows (c := c) hlast r.length 0 (by omega)
    rw [hoffset] at hrows
    exact .inr ⟨rfl, hrows⟩
  before {s c} st hbase hlast _ := by
    have hbefore : (extension pages).before s c st = _ :=
      before_inside (Image.byte?_isSome_iff.2 ⟨hbase, hlast⟩) st
    dsimp only
    rw [hbefore]
    split
    · exact .inl rfl
    · exact .inr ⟨rfl, (errorCode_shows s c).row hbase hlast (by decide) (by decide)⟩
    · exact .inr ⟨rfl, Calculator.entry_row st.pending hbase hlast⟩
    · exact .inr ⟨rfl, (routineAddress_shows s c).row hbase hlast (by decide) (by decide)⟩

end Spectrum

/-! ## Machines -/

namespace Machine

def State : Option Machine → Type
  | none | some .z88 => Unit
  | some (.spectrum _) => Spectrum.State

def extension : (machine : Option Machine) → Extension (State machine)
  | none => .absent
  | some .z88 => Z88.extension
  | some (.spectrum pages) => Spectrum.extension pages

def fresh : (machine : Option Machine) → State machine
  | none | some .z88 => ()
  | some (.spectrum _) => ({} : Spectrum.State)

def longest : Option Machine → Nat
  | none => 0
  | some .z88 => 4
  | some (.spectrum _) => 6

theorem run_output (machine : Option Machine) (job : Job) (first last : Int) :
    (run machine job first last).1 =
      (job.run (extension machine) (fresh machine) first last).output := by
  match machine with
  | none | some .z88 | some (.spectrum _) => rfl

theorem extension_orderly (machine : Option Machine) :
    (extension machine).Orderly (longest machine) := by
  match machine with
  | none => exact Extension.absent_orderly 0
  | some .z88 => exact Z88.extension_orderly
  | some (.spectrum pages) => exact Spectrum.extension_orderly pages

end Machine

end RomListing
