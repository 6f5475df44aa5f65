import RomListing.Proofs.Decoding
import RomListing.Proofs.Pattern.Numbers
import RomListing.Proofs.Pattern.Weave

/-! # What operands tell of their bytes

Two instructions with the same selector and at the same address write the same for a letter that
reads no byte of its own. For the other letters the bytes can be told from what is written, and
letter by letter from the whole text.
-/

namespace RomListing

/-! ## Cursors -/

namespace Cursor

def TakeAlike (c d c' d' : Cursor) : Prop :=
  ∃ bytes, d.taken.toList = c.taken.toList ++ bytes ∧ d'.taken.toList = c'.taken.toList ++ bytes

theorem TakeAlike.refl (c c' : Cursor) : TakeAlike c c c' c' := ⟨[], by simp, by simp⟩

theorem TakeAlike.trans {c d e c' d' e' : Cursor} (h : TakeAlike c d c' d')
    (h' : TakeAlike d e d' e') : TakeAlike c e c' e' := by
  obtain ⟨bytes, hd, hd'⟩ := h
  obtain ⟨more, he, he'⟩ := h'
  exact ⟨bytes ++ more, by rw [he, hd, List.append_assoc], by rw [he', hd', List.append_assoc]⟩

/-- Cursors behind the selectors of instructions that differ in their operands alone. -/
structure Kin (s s' : Setting) (c c' : Cursor) : Prop where
  options : s'.options = s.options
  start : s'.shownAddress c'.opStart = s.shownAddress c.opStart
  opcode : c'.opcode = c.opcode
  index : c'.index = c.index
  displacement : (c.displacement = none ∧ c'.displacement = none) ∨ ∃ b b' : UInt8,
    c.displacement = some (b.toNat : Int) ∧ c'.displacement = some (b'.toNat : Int)

variable {s s' : Setting} {c c' : Cursor}

theorem fetch_kept (s : Setting) (c : Cursor) : (c.fetch s).2 = { c with
    offset := (c.fetch s).2.offset
    taken := (c.fetch s).2.taken
    overflow := (c.fetch s).2.overflow } := by
  unfold fetch
  cases s.image.byte? c.offset <;> rfl

/-- While no byte is missing, cursors that read the same byte take it. -/
theorem TakeAlike.fetch (ho : (c.fetch s).2.overflow = false)
    (ho' : (c'.fetch s').2.overflow = false) (h : (c.fetch s).1 = (c'.fetch s').1) :
    TakeAlike c (c.fetch s).2 c' (c'.fetch s').2 :=
  ⟨[(c.fetch s).1], (fetch_taken ho).2, h ▸ (fetch_taken ho').2⟩

theorem fetch_opcode (s : Setting) (c : Cursor) : (c.fetch s).2.opcode = c.opcode := by
  rw [fetch_kept]

theorem fetch_index (s : Setting) (c : Cursor) : (c.fetch s).2.index = c.index := by
  rw [fetch_kept]

theorem fetch_displacement (s : Setting) (c : Cursor) :
    (c.fetch s).2.displacement = c.displacement := by
  rw [fetch_kept]

theorem Kin.fetch (h : Kin s s' c c') : Kin s s' (c.fetch s).2 (c'.fetch s').2 := by
  rw [fetch_kept s c, fetch_kept s' c']
  exact ⟨h.options, h.start, h.opcode, h.index, h.displacement⟩

end Cursor

open Cursor (Kin TakeAlike)

/-! ## Forms -/

def Operand.wordValue (w : UInt8 × UInt8) : Nat := w.1.toNat + 0x100 * w.2.toNat

theorem Operand.wordValue_inj {v w : UInt8 × UInt8} (h : wordValue v = wordValue w) : v = w := by
  have := v.1.toNat_lt
  have := w.1.toNat_lt
  unfold wordValue at h
  exact Prod.ext (UInt8.toNat_inj.1 (by omega)) (UInt8.toNat_inj.1 (by omega))

/-- Different operands are written differently, and without a character that closes them. -/
structure Operand.Faithful {α : Type} (closes : Letter → Bool) (form : α → String) : Prop where
  unclosed : ∀ a, ∀ l ∈ Text.ofString (form a), closes l = false
  inj : ∀ a b, form a = form b → a = b

namespace Operand.Faithful

variable {α : Type} {closes : Letter → Bool} {form : α → String} {o : Options}

theorem comp {β : Type} (h : Faithful closes form) {f : β → α} (hf : ∀ a b, f a = f b → a = b) :
    Faithful closes fun b => form (f b) where
  unclosed b := h.unclosed (f b)
  inj a b hab := hf a b (h.inj _ _ hab)

theorem unclosed_of_subset (hcloses : ∀ x ∈ Options.symbols, closes (.char x) = false)
    {text : String} (h : text.toList ⊆ Options.symbols) :
    ∀ l ∈ Text.ofString text, closes l = false := by
  intro l hl
  obtain ⟨x, hx, rfl⟩ := List.mem_map.1 hl
  exact hcloses x (h hx)

section

variable (hcloses : ∀ x ∈ Options.symbols, closes (.char x) = false)
include hcloses

theorem byte : Faithful closes fun b : UInt8 => o.byteText b.toNat where
  unclosed b := unclosed_of_subset hcloses (o.byteText_subset b.toNat)
  inj _ _ h := UInt8.toNat_inj.1 (Options.byteText_inj h)

theorem word : Faithful closes fun w : UInt8 × UInt8 => o.wordText (wordValue w) where
  unclosed w := unclosed_of_subset hcloses (o.wordText_subset (wordValue w))
  inj _ _ h := wordValue_inj (Options.wordText_inj h)

theorem absolute : Faithful closes fun w : UInt8 × UInt8 => o.labelName (wrap (wordValue w)) where
  unclosed w := unclosed_of_subset hcloses (o.labelName_subset (wrap (wordValue w)))
  inj v w h := by
    have hlt (w : UInt8 × UInt8) : wordValue w < 0x10000 := by
      have := w.1.toNat_lt
      have := w.2.toNat_lt
      unfold wordValue
      omega
    have hwrap := Options.labelName_inj (wrap_nonneg _) (wrap_nonneg _) h
    have := hlt v
    have := hlt w
    rw [wrap_of_lt (by omega) (by omega), wrap_of_lt (by omega) (by omega)] at hwrap
    exact wordValue_inj (Int.ofNat_inj.1 hwrap)

/-- All distances lead from an address to different ones. -/
theorem relative (start : Int) : Faithful closes fun b : UInt8 =>
    o.labelName (wrap (start + 2 + signedByte b.toNat)) where
  unclosed b := unclosed_of_subset hcloses (o.labelName_subset _)
  inj b b' h := by
    have hwrap := Options.labelName_inj (wrap_nonneg _) (wrap_nonneg _) h
    have := b.toNat_lt
    have := b'.toNat_lt
    simp only [wrap, signedByte] at hwrap
    exact UInt8.toNat_inj.1 (by omega)

end

end Operand.Faithful

/-! ## Letters -/

/-- What the theory of operands uses of a letter: whether what is written for it depends on the
operands of the instruction, and whether it shows the displacement. -/
structure Alphabet.Tells (varies shows : Bool) (closes : Letter → Bool) (s s' : Setting)
    (c c' : Cursor) (x x' : Replacement × Cursor) : Prop where
  kin : Kin s s' x.2 x'.2
  kept : x.2.displacement = c.displacement ∧ x'.2.displacement = c'.displacement
  same : varies = false → x.1.text = x'.1.text
  unclosed : varies = true →
    (∀ l ∈ x.1.text, closes l = false) ∧ ∀ l ∈ x'.1.text, closes l = false
  tells : x.2.overflow = false → x'.2.overflow = false → x.1.text = x'.1.text →
    TakeAlike c x.2 c' x'.2 ∧ (shows = true → c.displacement = c'.displacement)

namespace Operand

open Alphabet (Tells)

variable {s s' : Setting} {c c' : Cursor} {closes : Letter → Bool} {r r' : Replacement}
  (h : Kin s s' c c')
include h

theorem tells_same (htext : r.text = r'.text) :
    Tells false false closes s s' c c' (r, c) (r', c') where
  kin := h
  kept := ⟨rfl, rfl⟩
  same _ := htext
  unclosed := nofun
  tells _ _ _ := ⟨.refl c c', nofun⟩

/-- A letter that reads a byte. -/
theorem tells_byte {form : UInt8 → String} (hform : Faithful closes form)
    (hr : r.text = Text.ofString (form (c.fetch s).1))
    (hr' : r'.text = Text.ofString (form (c'.fetch s').1)) :
    Tells true false closes s s' c c' (r, (c.fetch s).2) (r', (c'.fetch s').2) where
  kin := h.fetch
  kept := ⟨c.fetch_displacement s, c'.fetch_displacement s'⟩
  same := nofun
  unclosed _ := ⟨hr ▸ hform.unclosed _, hr' ▸ hform.unclosed _⟩
  tells ho ho' htext := by
    have hbyte : (c.fetch s).1 = (c'.fetch s').1 :=
      hform.inj _ _ (Text.ofString_inj (hr.symm.trans (htext.trans hr')))
    exact ⟨.fetch ho ho' hbyte, nofun⟩

/-- A letter that reads two bytes. -/
theorem tells_word {form : UInt8 × UInt8 → String} (hform : Faithful closes form)
    (hr : r.text = Text.ofString (form ((c.fetch s).1, ((c.fetch s).2.fetch s).1)))
    (hr' : r'.text = Text.ofString (form ((c'.fetch s').1, ((c'.fetch s').2.fetch s').1))) :
    Tells true false closes s s' c c' (r, ((c.fetch s).2.fetch s).2)
      (r', ((c'.fetch s').2.fetch s').2) where
  kin := h.fetch.fetch
  kept := by simp only [Cursor.fetch_displacement, and_self]
  same := nofun
  unclosed _ := ⟨hr ▸ hform.unclosed _, hr' ▸ hform.unclosed _⟩
  tells ho ho' htext := by
    have hbytes := hform.inj _ _ (Text.ofString_inj (hr.symm.trans (htext.trans hr')))
    obtain ⟨hfirst, hsecond⟩ := Prod.mk.inj hbytes
    have hbefore := (Cursor.fetch_taken ho).1
    have hbefore' := (Cursor.fetch_taken ho').1
    exact ⟨.trans (.fetch hbefore hbefore' hfirst) (.fetch ho ho' hsecond), nofun⟩

theorem tells_relative (hcloses : ∀ x ∈ Options.symbols, closes (.char x) = false) :
    Tells true false closes s s' c c' (relative s c) (relative s' c') := by
  have hform := Faithful.relative (o := s.options) hcloses (s.shownAddress c.opStart)
  rw [relative_eq, relative_eq]
  exact tells_byte h hform rfl (by rw [h.start, label, h.options])

theorem tells_absolute (hcloses : ∀ x ∈ Options.symbols, closes (.char x) = false) :
    Tells true false closes s s' c c' (absolute s c) (absolute s' c') :=
  tells_word h (.absolute hcloses) rfl (by rw [← h.options]; rfl)

end Operand

end RomListing
