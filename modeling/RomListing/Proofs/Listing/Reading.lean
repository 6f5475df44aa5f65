import Mathlib.Data.List.Basic
import RomListing.Proofs.Listing.Labels
import RomListing.Proofs.Output.Edits
import RomListing.Proofs.Pattern.Operands

/-! # Listings are read back

The line of an item shows the address and the bytes. The column of the bytes grows with them, so
that it does not tell where they end; but the text behind it starts with a letter that is neither a
blank nor a digit, and thus is no pair of digits more. One reader of lines therefore finds the
addresses and the bytes of all items, and skips the lines of labels.
-/

namespace RomListing

/-! ## Numerals -/

namespace Numeral

def isHexDigit (c : Char) : Bool := "0123456789ABCDEF".toList.contains c

def hexNumber? (t : Text) : Option Nat :=
  if t.all (·.is isHexDigit) then Text.Integer.moreDigits 16 0 t.chars else none

theorem isHexDigit_of_mem_hexDigits {n : Nat} {c : Char} (h : c ∈ hexDigits n) :
    isHexDigit c = true := by
  have hdigit : ∀ d < 16, isHexDigit d.digitChar.toUpper = true := by decide
  obtain ⟨b, hb, rfl⟩ := List.mem_map.1 h
  obtain ⟨d, hd, rfl⟩ := exists_digitChar (by decide) hb
  exact hdigit d hd

/-- A numeral has its width, and is read as its number, if there is room for the number. -/
theorem hexNumber?_padded {width n : Nat} (hpos : 0 < width) (hlt : n < Nat.pow 16 width) :
    (Text.ofString (padded hexDigits width n)).length = width ∧
      hexNumber? (Text.ofString (padded hexDigits width n)) = some n := by
  have hform : ∀ d < 16, Text.Integer.digit? 16 d.digitChar.toUpper = some d := by decide
  have htext : Text.ofString (padded hexDigits width n) =
      Text.ofChars ((hexDigits n).leftpad width '0') := by
    unfold Text.ofString padded
    rw [String.toList_ofList]
  have hdigits : ((hexDigits n).leftpad width '0').all isHexDigit = true := by
    refine List.all_eq_true.2 fun c hc => ?_
    rcases List.mem_append.1 hc with hc | hc
    · rw [List.eq_of_mem_replicate hc]
      rfl
    · exact isHexDigit_of_mem_hexDigits hc
  have hread := Text.Integer.moreDigits_toDigits (by decide) hform n
  have hlength : (hexDigits n).length ≤ width := by
    unfold hexDigits
    rw [List.length_map]
    exact (Nat.length_toDigits_le_iff (by decide) hpos).2 hlt
  rw [htext]
  constructor
  · unfold Text.ofChars
    rw [List.length_map, List.length_leftpad]
    omega
  · unfold hexNumber?
    rw [Text.chars_ofChars, Text.Integer.moreDigits_leftpad (by decide), if_pos]
    · exact hread
    · unfold Text.ofChars
      rw [List.all_map]
      exact hdigits

theorem hex2_pair (b : UInt8) : ∃ high low, Text.ofString (hex2 b.toNat) = [high, low] ∧
    hexNumber? [high, low] = some b.toNat := by
  have hnumeral := hexNumber?_padded Nat.two_pos (show b.toNat < Nat.pow 16 2 from b.toNat_lt)
  unfold hex2
  generalize Text.ofString _ = t at *
  match t, hnumeral with
  | [high, low], h => exact ⟨high, low, rfl, h.2⟩

theorem hex4_four {n : Nat} (h : n < 0x10000) : ∃ a b c d,
    Text.ofString (hex4 n) = [a, b, c, d] ∧ hexNumber? [a, b, c, d] = some n := by
  have hnumeral := hexNumber?_padded (Nat.succ_pos 3) (show n < Nat.pow 16 4 from h)
  unfold hex4
  generalize Text.ofString _ = t at *
  match t, hnumeral with
  | [a, b, c, d], h => exact ⟨a, b, c, d, rfl, h.2⟩

end Numeral

open Numeral (hex2 hex4 hexNumber? isHexDigit)

/-! ## Legible texts -/

/-- The text of an item starts with a letter that is neither a blank nor a digit. -/
def Text.Legible (t : Text) : Prop :=
  ∃ c rest, t = .char c :: rest ∧ isBlank c = false ∧ isHexDigit c = false

theorem Text.dropEnd_append_cons {α : Type} {p : α → Bool} {a : α} (h : p a = false)
    (before after : List α) : dropEnd p (before ++ a :: after) = before ++ a :: dropEnd p after := by
  unfold dropEnd
  rw [List.reverse_append, List.reverse_cons, List.append_assoc, List.dropWhile_append]
  split
  · rename_i hempty
    rw [List.isEmpty_iff.1 hempty]
    simp [h]
  · simp

namespace Listing

/-! ## Reading -/

/-- Reads pairs of digits, each with a blank behind it. -/
def readBytes : Text → List UInt8
  | high :: low :: .char ' ' :: rest =>
    match hexNumber? [high, low] with
    | some n => UInt8.ofNat n :: readBytes rest
    | none => []
  | _ => []

def readLine : Text → Option (Int × List UInt8)
  | .char ' ' :: .char ' ' :: a :: b :: c :: d :: .char ' ' :: .char ' ' :: rest =>
    (hexNumber? [a, b, c, d]).map fun (address : Nat) => (address, readBytes rest)
  | _ => none

/-- Reads the addresses and the bytes of a listing. Lines that are not lines of items count for
nothing. -/
def read (lines : List Text) : List (Int × List UInt8) := lines.filterMap readLine

theorem readBytes_of_head {l : Letter} (h : l.is isHexDigit = false) (rest : Text) :
    readBytes (l :: rest) = [] := by
  unfold readBytes
  split
  · rename_i high low rest heq
    cases heq
    simp [hexNumber?, h]
  · rfl

theorem readBytes_cons (b : UInt8) (rest : Text) :
    readBytes (Text.ofString (hex2 b.toNat) ++ .char ' ' :: rest) = b :: readBytes rest := by
  obtain ⟨high, low, hpair, hnumber⟩ := Numeral.hex2_pair b
  rw [hpair]
  show readBytes (high :: low :: .char ' ' :: rest) = _
  rw [readBytes, hnumber]
  dsimp only
  rw [UInt8.ofNat_toNat]

/-- The bytes of an item are read up to what is no digit. -/
theorem readBytes_opcodeText (item : Item) {l : Letter} (h : l.is isHexDigit = false)
    (rest : Text) :
    readBytes (Text.ofString item.opcodeText ++ .char ' ' :: l :: rest) = item.opcodes := by
  unfold Item.opcodeText
  induction item.opcodes with
  | nil => exact readBytes_of_head rfl _
  | cons b bs ih =>
      cases bs with
      | nil =>
          rw [List.map_singleton, String.intercalate_singleton, readBytes_cons,
            readBytes_of_head h]
      | cons next bs =>
          have hmore : (next :: bs).map (fun b => hex2 b.toNat) ≠ [] := List.cons_ne_nil _ _
          rw [List.map_cons, String.intercalate_cons_of_ne_nil hmore,
            Text.ofString_append, Text.ofString_append, List.append_assoc, List.append_assoc]
          exact (readBytes_cons b _).trans (congrArg (b :: ·) ih)

/-- Behind the column of the bytes there is a blank, and then a blank or what follows. -/
theorem exists_column (width : Nat) (text : Text) {l : Letter} (h : l.is isHexDigit = false)
    (rest : Text) : ∃ l' rest', l'.is isHexDigit = false ∧
      column width text ++ .char ' ' :: l :: rest = text ++ .char ' ' :: l' :: rest' := by
  unfold column List.rightpad
  rw [List.append_assoc]
  cases width - text.length with
  | zero => exact ⟨l, rest, h, rfl⟩
  | succ n =>
      -- the blanks that fill the column and the one behind it change places
      refine ⟨.char ' ', List.replicate n (.char ' ') ++ l :: rest, rfl, ?_⟩
      rw [List.append_cons, ← List.replicate_succ', List.replicate_succ, List.replicate_succ]
      rfl

variable {l : Listing} {item : Item}

/-- The line of an item with a legible text does not end before this text. -/
theorem line_of_legible (hbytes : l.showBytes = true) (h : item.text.Legible) :
    ∃ c rest, isHexDigit c = false ∧ l.line item =
      .char ' ' :: .char ' ' :: (Text.ofString (hex4 item.address) ++
        .char ' ' :: .char ' ' :: (column 12 item.opcodeText ++
          .char ' ' :: .char c :: rest)) := by
  obtain ⟨c, tail, htext, hblank, hdigit⟩ := h
  have hstart : ∃ rest, (if (remarks item).isEmpty then item.text
      else column 24 item.text ++ " ; " ++ remarks item) = .char c :: rest := by
    rw [htext]
    split
    · exact ⟨tail, rfl⟩
    · exact ⟨_, rfl⟩
  obtain ⟨rest, hrest⟩ := hstart
  have hkept : Letter.is Text.isBlank (.char c) = false := hblank
  refine ⟨c, Text.dropEnd (·.is Text.isBlank) rest, hdigit, ?_⟩
  unfold line
  dsimp only
  rw [hrest, if_pos hbytes, Text.dropEnd_append_cons hkept]
  simp only [List.append_assoc]
  rfl

/-- The line of an item is read as its address and its bytes. -/
theorem readLine_line (hbytes : l.showBytes = true) (hspace : IsAddress item.address)
    (h : item.text.Legible) : readLine (l.line item) = some (item.address, item.opcodes) := by
  obtain ⟨c, rest, hdigit, hline⟩ := line_of_legible hbytes h
  obtain ⟨next, rest', hnext, hcolumn⟩ :=
    exists_column 12 (item.opcodeText : Text) (l := .char c) hdigit rest
  obtain ⟨n, hn⟩ := Int.eq_ofNat_of_zero_le hspace.1
  obtain ⟨x, y, z, w, hnumeral, hnumber⟩ := Numeral.hex4_four (n := n) (by have := hspace.2; omega)
  rw [hline, hcolumn, hn]
  show readLine (_ :: _ :: (Text.ofString (hex4 n) ++ _)) = _
  rw [hnumeral]
  show readLine (.char ' ' :: .char ' ' :: x :: y :: z :: w :: .char ' ' :: .char ' ' ::
    (Text.ofString item.opcodeText ++ .char ' ' :: next :: rest')) = _
  rw [readLine, hnumber, Option.map_some, readBytes_opcodeText item hnext]

theorem readLine_labelLine (options : Options) (showBytes : Bool) (a : Int) :
    readLine ((ofOptions options showBytes).labelLine a) = none := by
  unfold labelLine
  rw [ofOptions_labelName, Options.labelName, Text.ofString_append]
  unfold Options.labelLead
  split <;> rfl

/-- A listing is read as the addresses and the bytes of the items. -/
theorem read_lines {options : Options} {o : Output}
    (hspace : ∀ item ∈ o.items.toList, IsAddress item.address)
    (h : ∀ item ∈ o.items.toList, item.text.Legible) :
    read ((ofOptions options true).lines o) =
      o.items.toList.map fun item => (item.address, item.opcodes) := by
  let l := ofOptions options true
  have hone (item : Item) (hi : item ∈ o.items.toList) :
      read (l.itemLines o item) = [(item.address, item.opcodes)] := by
    have hline := readLine_line (l := l) rfl (hspace item hi) (h item hi)
    have hlabel : readLine (l.labelName item.address ++ ":") = none :=
      readLine_labelLine options true item.address
    unfold read itemLines
    dsimp only
    split
    · rw [List.filterMap_cons_none hlabel, List.filterMap_cons_some hline, List.filterMap_nil]
    · rw [List.filterMap_cons_some hline, List.filterMap_nil]
  unfold read lines at *
  rw [List.filterMap_flatMap, List.flatMap_congr hone, List.map_eq_flatMap]

end Listing

end RomListing
