import RomListing.Machine
import RomListing.Proofs.Relocation.Decoding

/-! # What an extension may depend on

An extension sees the bytes of a region and the addresses that they are shown at. It is local if
it depends on nothing else: not on the places themselves, not on what earlier regions left in the
cursor, and not on the state that it was left in. Entering a code region and listing a custom one
set whatever is looked at later. All machines are local.
-/

namespace RomListing

structure Step.Meets {σ : Type} (k : Int) (x y : Step σ) : Prop where
  handled : y.handled = x.handled
  state : y.state = x.state
  cursor : x.cursor.Meets k y.cursor
  items : y.items = x.items
  references : y.references = x.references

structure Extension.Local {σ : Type} (ext : Extension σ) : Prop where
  /-- The state in which a code region starts is always the same. -/
  enter : ∀ r r' st st', (ext.enter r' st').1 = (ext.enter r st).1
  before : ∀ {s k c c'} st, s.options.Repeats k → c.Meets k c' →
    (ext.before s c st).Meets k (ext.before (s.move k) c' st)
  after : ∀ s k item st, ext.after (s.move k) item st = ext.after s item st
  /-- How a custom region is listed does not depend on the state. -/
  custom : ∀ {s k c c' r r'} st st', s.options.Repeats k → c.Meets k c' → r.Meets k r' →
    let x := ext.custom s r c st
    let y := ext.custom (s.move k) r' c' st'
    y.handled = x.handled ∧ y.items = x.items ∧ y.references = x.references

theorem Extension.absent_local : Extension.absent.Local where
  enter _ _ _ _ := rfl
  before _ _ hc := ⟨rfl, rfl, hc, rfl, rfl⟩
  after _ _ _ _ := rfl
  custom _ _ _ _ _ := ⟨rfl, rfl, rfl⟩

/-! ## Z88 -/

namespace Z88

variable {s : Setting} {k : Int} {c c' : Cursor}

theorem callItem_meets (hr : s.options.Repeats k) (h : c.Meets k c') (opcodes : List UInt8)
    (text : String) : callItem (s.move k) c' opcodes text = callItem s c opcodes text := by
  unfold callItem
  rw [h.shownAddress, h.offset, Setting.move_options, hr]

theorem readString_meets (h : c.Meets k c') (s : Setting) (fuel : Nat) :
    (readString (s.move k) fuel c').1 = (readString s fuel c).1 ∧
      (readString s fuel c).2.Meets k (readString (s.move k) fuel c').2 := by
  induction fuel generalizing c c' with
  | zero => exact ⟨rfl, h⟩
  | succ fuel ih =>
      obtain ⟨hbyte, hafter⟩ := h.fetch s
      obtain ⟨hrest, hend⟩ := ih hafter
      simp only [readString, hbyte, hafter.overflow]
      split
      · exact ⟨rfl, hafter⟩
      · split
        · exact ⟨rfl, hafter⟩
        · exact ⟨congrArg ((c.fetch s).1 :: ·) hrest, hend⟩

theorem handled_meets (h : c.Meets k c') (items : List Item) :
    (handled c items).Meets k (handled c' items) := ⟨rfl, rfl, h, rfl, rfl⟩

theorem floatCall_meets (hr : s.options.Repeats k) (h : c.Meets k c') :
    (floatCall s c).Meets k (floatCall (s.move k) c') := by
  obtain ⟨-, hcode⟩ := h.fetch s
  obtain ⟨hbyte, hend⟩ := hcode.fetch s
  simp only [floatCall, hbyte, callItem_meets hr h]
  exact handled_meets hend _

theorem inlineString_meets (hr : s.options.Repeats k) (h : c.Meets k c') {d d' : Cursor}
    (hd : d.Meets k d') :
    (inlineString (s.move k) c' d').1 = (inlineString s c d).1 ∧
      (inlineString s c d).2.Meets k (inlineString (s.move k) c' d').2 := by
  obtain ⟨hbytes, hend⟩ := readString_meets hd s (s.image.bytes.size + 1)
  simp only [inlineString, Setting.move_bytes, hbytes, callItem_meets hr h]
  split
  · exact ⟨rfl, hend⟩
  · exact ⟨rfl, hend⟩

theorem systemCall_meets (hr : s.options.Repeats k) (h : c.Meets k c') :
    (systemCall s c).Meets k (systemCall (s.move k) c') := by
  obtain ⟨-, hcode⟩ := h.fetch s
  obtain ⟨hbyte, hafter⟩ := hcode.fetch s
  simp only [systemCall, hbyte, callItem_meets hr h]
  split
  · obtain ⟨hhigh, hend⟩ := hafter.fetch s
    rw [hhigh]
    exact handled_meets hend _
  · split
    · obtain ⟨hitems, hend⟩ := inlineString_meets hr h hafter
      rw [hitems]
      exact handled_meets hend _
    · exact handled_meets hafter _

theorem farCall_meets (hr : s.options.Repeats k) (h : c.Meets k c') :
    (farCall s c).Meets k (farCall (s.move k) c') := by
  obtain ⟨-, hlow⟩ := h.fetch s
  obtain ⟨hbyte, hmiddle⟩ := hlow.fetch s
  obtain ⟨hbyte', hhigh⟩ := hmiddle.fetch s
  obtain ⟨hbyte'', hend⟩ := hhigh.fetch s
  simp only [farCall, hbyte, hbyte', hbyte'', callItem_meets hr h]
  exact handled_meets hend _

theorem memoryBinding_meets (hr : s.options.Repeats k) (h : c.Meets k c') :
    (memoryBinding s c).Meets k (memoryBinding (s.move k) c') := by
  simp only [memoryBinding, callItem_meets hr h]
  exact handled_meets (h.fetch s).2 _

theorem extension_local : extension.Local where
  enter _ _ _ _ := rfl
  before {s k c c'} st hr h := by
    obtain ⟨hbeyond, hvalue⟩ := h.peek s
    simp only [extension, before, hbeyond, hvalue]
    split
    · exact ⟨rfl, rfl, h, rfl, rfl⟩
    · split
      · exact floatCall_meets hr h
      · split
        · exact systemCall_meets hr h
        · split
          · exact farCall_meets hr h
          · split
            · exact memoryBinding_meets hr h
            · exact ⟨rfl, rfl, h, rfl, rfl⟩
  after _ _ _ _ := rfl
  custom _ _ _ _ _ := ⟨rfl, rfl, rfl⟩

end Z88

/-! ## Spectrum -/

namespace Spectrum

namespace Calculator

variable {k : Int} {c c' : Cursor}

theorem byteList_move (s : Setting) (k : Int) (bytes : List UInt8) :
    byteList (s.move k) bytes = byteList s bytes := rfl

theorem operationRemark_move (s : Setting) (k : Int) (code : UInt8) :
    operationRemark (s.move k) code = operationRemark s code := rfl

structure Entry.Meets (k : Int) (x y : Entry) : Prop where
  item : y.item = x.item
  goesOn : y.goesOn = x.goesOn
  pending : y.pending = x.pending
  references : y.references = x.references
  cursor : x.cursor.Meets k y.cursor

theorem literal_meets (h : c.Meets k c') (s : Setting) (pending : Nat) :
    (literal s pending c).Meets k (literal (s.move k) pending c') := by
  obtain ⟨hfirst, hafter⟩ := h.fetch s
  obtain ⟨hrest, hend⟩ := hafter.fetchMany s (literalRest (c.fetch s).1)
  refine ⟨?_, rfl, rfl, rfl, ?_⟩
  · simp only [literal, hfirst, hrest, h.shownAddress, byteList_move]
  · simp only [literal, hfirst]
    exact hend

theorem jump_meets (h : c.Meets k c') (s : Setting) (code : UInt8) {d d' : Cursor}
    (hd : d.Meets k d') : (jump s code c d).Meets k (jump (s.move k) code c' d') := by
  obtain ⟨hdistance, hend⟩ := hd.fetch s
  have htarget : (s.move k).shownAddress
      ((d'.fetch (s.move k)).2.offset - 1 + signedByte (d.fetch s).1.toNat) =
        s.shownAddress ((d.fetch s).2.offset - 1 + signedByte (d.fetch s).1.toNat) := by
    rw [hend.offset, ← Setting.shownAddress_move k _ s]
    refine congrArg (s.move k).shownAddress ?_
    omega
  refine ⟨?_, rfl, rfl, ?_, hend⟩
  · simp only [jump, hdistance, htarget, h.shownAddress, byteList_move]
  · simp only [jump, hdistance, htarget, h.shownAddress]

theorem entry_meets (h : c.Meets k c') (s : Setting) (pending : Nat) :
    (entry s pending c).Meets k (entry (s.move k) pending c') := by
  obtain ⟨hcode, hafter⟩ := h.fetch s
  unfold entry
  split
  · exact literal_meets h s pending
  · dsimp only
    rw [hcode]
    split
    · exact jump_meets h s _ hafter
    · refine ⟨?_, rfl, rfl, rfl, hafter⟩
      simp only [h.shownAddress, byteList_move, operationRemark_move]

end Calculator

variable {s : Setting} {k : Int} {c c' : Cursor}

theorem errorCode_meets (h : c.Meets k c') (s : Setting) :
    (errorCode (s.move k) c').1 = (errorCode s c).1 ∧
      (errorCode s c).2.Meets k (errorCode (s.move k) c').2 := by
  obtain ⟨hbyte, hend⟩ := h.fetch s
  refine ⟨?_, hend⟩
  simp only [errorCode, hbyte, h.shownAddress]

theorem routineAddress_meets (h : c.Meets k c') (s : Setting) :
    (routineAddress (s.move k) c').1 = (routineAddress s c).1 ∧
      (routineAddress s c).2.Meets k (routineAddress (s.move k) c').2 := by
  obtain ⟨hlow, hafter⟩ := h.fetch s
  obtain ⟨hhigh, hend⟩ := hafter.fetch s
  refine ⟨?_, hend⟩
  simp only [routineAddress, hlow, hhigh, h.shownAddress]

theorem single_meets (st : State) {x y : Item × Cursor} (hitem : y.1 = x.1)
    (hcursor : x.2.Meets k y.2) : (single st x).Meets k (single st y) := by
  refine ⟨rfl, rfl, hcursor, ?_, rfl⟩
  simp only [single, hitem]

theorem calculatorEntry_meets (h : c.Meets k c') (s : Setting) (st : State) :
    (calculatorEntry s c st).Meets k (calculatorEntry (s.move k) c' st) := by
  have he := Calculator.entry_meets h s st.pending
  refine ⟨rfl, ?_, he.cursor, ?_, he.references⟩
  · simp only [calculatorEntry, he.pending, he.goesOn]
  · simp only [calculatorEntry, he.item]

theorem before_meets (h : c.Meets k c') (s : Setting) (st : State) :
    (before s c st).Meets k (before (s.move k) c' st) := by
  obtain ⟨hbeyond, -⟩ := h.peek s
  unfold before
  rw [hbeyond]
  split
  · exact ⟨rfl, rfl, h, rfl, rfl⟩
  · split
    · exact ⟨rfl, rfl, h, rfl, rfl⟩
    · have := errorCode_meets h s
      exact single_meets st this.1 this.2
    · exact calculatorEntry_meets h s st
    · have := routineAddress_meets h s
      exact single_meets st this.1 this.2

theorem entries_meets (h : c.Meets k c') (s : Setting) (last : Int) (fuel pending : Nat) :
    (entries (s.move k) (last + k) fuel pending c').items =
        (entries s last fuel pending c).items ∧
      (entries (s.move k) (last + k) fuel pending c').references =
        (entries s last fuel pending c).references := by
  induction fuel generalizing pending c c' with
  | zero => exact ⟨rfl, rfl⟩
  | succ fuel ih =>
      have he := Calculator.entry_meets h s pending
      obtain ⟨hitems, hreferences⟩ := ih he.cursor (Calculator.entry s pending c).pending
      have hplace : c'.offset ≤ last + k ↔ c.offset ≤ last := by
        rw [h.offset]
        omega
      have hgoes : c'.offset ≤ last + k ∧ (c'.peek (s.move k) 0).beyond = false ↔
          c.offset ≤ last ∧ (c.peek s 0).beyond = false := by
        rw [hplace, (h.peek s).1]
      simp only [entries, hgoes]
      split
      · simp only [he.item, he.references, he.pending, hitems, hreferences, and_self]
      · exact ⟨rfl, rfl⟩

theorem extension_local (pages : Pages) : (extension pages).Local where
  enter _ _ _ _ := rfl
  before st _ h := before_meets h _ st
  after _ _ _ _ := rfl
  custom {s k c c' r r'} st st' _ hc hm := by
    obtain ⟨hitems, hreferences⟩ := entries_meets hc s r.last r.length 0
    simp only [extension, custom, hm.last, hm.length]
    exact ⟨trivial, hitems, hreferences⟩

end Spectrum

end RomListing
