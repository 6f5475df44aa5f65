import RomListing.Proofs.Checked.Access
import RomListing.Proofs.Machine.Rows

/-! # Checked conventions

The calculator asks for most: a number is spread over five bytes by position, a jump is named
from the table of operations, and other names are picked from lists by number. What is known of
the bytes was found out elsewhere, when an operation announced a number or was taken for a jump.
-/

namespace RomListing

structure Extension.Twin {σ : Type} (ext : Extension σ) where
  before : Setting → Cursor → σ → Checked (Step σ)
  custom : Setting → Region → Cursor → σ → Checked (Step σ)
  before_eq : ∀ s c st, before s c st = pure (ext.before s c st)
  custom_eq : ∀ s r c st, custom s r c st = pure (ext.custom s r c st)

namespace Spectrum

/-! ## Numbers -/

namespace FiveBytes

def checkedValue (bytes : List UInt8) : Checked BinaryFraction :=
  match ofList bytes with
  | .error error => throw (.number error)
  | .ok n =>
    if n.value.exponent < 1024 then pure n.value else throw (.power n.value.exponent)

/-- The exponent of a compact literal, and the position of the mantissa behind it. -/
def checkedExponent (bytes : List UInt8) : Checked (UInt8 × Nat) := do
  let first ← Checked.get bytes 0
  if first &&& 0x3F = 0 then
    let exponent ← Checked.get bytes 1
    return (exponent, 2)
  else return (first &&& 0x3F, 1)

/-- Spreads a compact literal over five bytes, of which the mantissa takes the last four. -/
def checkedCompact (bytes : List UInt8) : Checked BinaryFraction := do
  let (exponent, start) ← checkedExponent bytes
  let mantissa := (bytes.drop start).take 4
  let spread ← (mantissa.zipIdx 1).foldlM (fun xs (b, i) => Checked.set xs i b)
    [exponent + 0x50, 0, 0, 0, 0]
  checkedValue spread

theorem value_exponent_lt (n : FiveBytes) : n.value.exponent < 1024 := by
  unfold value
  split
  · exact (by decide : (0 : Int) < 1024)
  · have := n.exponent.toNat_lt
    dsimp only
    omega

theorem spread_widen (exponent : UInt8) (rest : List UInt8) :
    ((rest.take 4).zipIdx 1).foldlM (fun xs (b, i) => Checked.set xs i b)
        [exponent + 0x50, 0, 0, 0, 0] >>= checkedValue =
      pure (ofCompact.widen exponent rest).value := by
  have hspread : ((rest.take 4).zipIdx 1).foldlM (fun xs (b, i) => Checked.set xs i b)
      [exponent + 0x50, 0, 0, 0, 0] = pure [exponent + 0x50, rest.getD 0 0, rest.getD 1 0,
        rest.getD 2 0, rest.getD 3 0] := by
    match rest with
    | [] | [_] | [_, _] | [_, _, _] | _ :: _ :: _ :: _ :: _ => rfl
  rw [hspread, pure_bind]
  exact if_pos (value_exponent_lt _)

/-- A literal with a byte behind its first one is a number. -/
theorem checkedCompact_eq (first second : UInt8) (rest : List UInt8) :
    ∃ n, ofCompact (first :: second :: rest) = .ok n ∧
      checkedCompact (first :: second :: rest) = pure n.value := by
  by_cases h : first &&& 0x3F = 0
  · refine ⟨ofCompact.widen second rest, by simp [ofCompact, h], ?_⟩
    simp only [checkedCompact, checkedExponent, Checked.get_zero, Checked.get_one, pure_bind,
      if_pos h]
    exact spread_widen second rest
  · refine ⟨ofCompact.widen (first &&& 0x3F) (second :: rest), by simp [ofCompact, h], ?_⟩
    simp only [checkedCompact, checkedExponent, Checked.get_zero, pure_bind, if_neg h]
    exact spread_widen (first &&& 0x3F) (second :: rest)

example : checkedCompact [0x40] = .error (.position 1 1) := rfl

end FiveBytes

/-! ## Entries of the calculator -/

namespace Calculator

def checkedIndexedOperation (code index : Int) : Checked String := do
  let text := (if code < 0 then none else operations.lookup code.toNat).getD ""
  let names := Text.split '|' text.toList
  let unknown := "(calc code: " ++ Numeral.decimal code ++ "/" ++ Numeral.decimal index ++ ")"
  if 0 ≤ index ∧ index < names.length then
    let name ← Checked.get names index
    return if name.isEmpty then unknown else "(" ++ String.ofList name ++ ")"
  else return unknown

def checkedLiteral (s : Setting) (pending : Nat) (c : Cursor) : Checked Entry := do
  let (first, after) ← c.checkedFetch s
  let (rest, after) ← Cursor.checkedFetchMany s (literalRest first) after
  let bytes := first :: rest
  let value ← FiveBytes.checkedCompact bytes
  return {
    item :=
      { address := s.shownAddress c.offset
        opcodes := bytes
        text := byteList s bytes
        remark := some ("(" ++ value.fixedText 6 ++ ")") }
    goesOn := true
    pending := pending - 1
    cursor := after }

def checkedJump (s : Setting) (code : UInt8) (c after : Cursor) : Checked Entry := do
  let (distance, after) ← after.checkedFetch s
  let address := s.shownAddress c.offset
  let target := s.shownAddress (after.offset - 1 + signedByte distance.toNat)
  let name ← Checked.lookup operations code.toNat
  return {
    item :=
      { address := address
        opcodes := [code, distance]
        text := byteList s [code, distance]
        remark := some ("(" ++ name ++ ": L" ++ Numeral.hex4 target ++ ")") }
    goesOn := code != 0x33
    pending := 0
    references := [⟨target, address⟩]
    cursor := after }

def checkedRemark (s : Setting) (code : UInt8) : Checked String :=
  let n := code.toNat
  if code = 0x34 ∨ code = 0x38 ∨ isSeries code then pure (operationRemark s code)
  else if 0xA0 ≤ n ∧ n ≤ 0xA4 then checkedIndexedOperation 0x3F (n - 0xA0 : Nat)
  else if 0xC0 ≤ n ∧ n ≤ 0xC5 then checkedIndexedOperation 0x40 (n - 0xC0 : Nat)
  else if 0xE0 ≤ n ∧ n ≤ 0xE5 then checkedIndexedOperation 0x41 (n - 0xE0 : Nat)
  else pure (operationRemark s code)

def checkedEntry (s : Setting) (pending : Nat) (c : Cursor) : Checked Entry := do
  if pending ≠ 0 then checkedLiteral s pending c
  else
    let (code, after) ← c.checkedFetch s
    if isJump code then checkedJump s code c after
    else
      let remark ← checkedRemark s code
      return {
        item :=
          { address := s.shownAddress c.offset
            opcodes := [code]
            text := byteList s [code]
            remark := some remark }
        goesOn := code != 0x38
        pending := numbersAfter code
        cursor := after }

variable (s : Setting)

theorem checkedIndexedOperation_eq (code index : Int) :
    checkedIndexedOperation code index = pure (indexedOperation code index) := by
  unfold checkedIndexedOperation indexedOperation
  generalize (if code < 0 then none else operations.lookup code.toNat) = text
  dsimp only
  by_cases hin : 0 ≤ index ∧ index < (Text.split '|' (text.getD "").toList).length
  · have hget := List.getElem?_eq_getElem (l := Text.split '|' (text.getD "").toList)
      (i := index.toNat) (by omega)
    rw [if_pos hin, Checked.get_eq hin.1 hget, pure_bind, if_neg (Int.not_lt.2 hin.1)]
    cases text with
    | none =>
        -- a code without names is read as one name without letters
        obtain rfl : index = 0 := by
          have : index < 1 := hin.2
          omega
        rfl
    | some text =>
        have hsome : (Text.split '|' text.toList)[index.toNat]? = some _ := hget
        rw [Option.map_some, Option.bind_some, hsome]
        cases (Text.split '|' ((some text).getD "").toList)[index.toNat] <;> rfl
  · rw [if_neg hin]
    cases text with
    | none => simp
    | some text =>
        by_cases hlow : index < 0
        · simp [hlow]
        · have hnone : (Text.split '|' text.toList)[index.toNat]? = none := by
            apply List.getElem?_eq_none
            simp only [Option.getD_some] at hin
            omega
          simp [hlow, hnone]

theorem checkedLiteral_eq (pending : Nat) (c : Cursor) :
    checkedLiteral s pending c = pure (literal s pending c) := by
  have hrest : literalRest (c.fetch s).1 = literalRest (c.fetch s).1 - 1 + 1 := by
    unfold literalRest
    omega
  obtain ⟨second, rest, after, hmany⟩ : ∃ second rest after,
      Cursor.fetchMany s (literalRest (c.fetch s).1) (c.fetch s).2 = (second :: rest, after) := by
    rw [hrest]
    exact ⟨_, _, _, rfl⟩
  obtain ⟨n, hmodel, hchecked⟩ := FiveBytes.checkedCompact_eq (c.fetch s).1 second rest
  unfold checkedLiteral literal
  simp only [Cursor.checkedFetch_eq, Cursor.checkedFetchMany_eq, pure_bind, hmany, hchecked, hmodel]
  rfl

theorem exists_operationName {code : UInt8} (h : isJump code = true) :
    ∃ name, operationName code = some name := by
  simp only [isJump, Bool.or_eq_true, beq_iff_eq] at h
  rcases h with (rfl | rfl) | rfl
  · exact ⟨"jump-true", rfl⟩
  · exact ⟨"jump", by decide⟩
  · exact ⟨"dec-jr-nz", by decide⟩

theorem checkedJump_eq {code : UInt8} (h : isJump code = true) (c after : Cursor) :
    checkedJump s code c after = pure (jump s code c after) := by
  obtain ⟨name, hname⟩ := exists_operationName h
  have hlookup : Checked.lookup operations code.toNat = pure name := Checked.lookup_eq hname
  simp only [checkedJump, jump, Cursor.checkedFetch_eq, hlookup, hname, pure_bind]
  rfl

theorem checkedRemark_eq (code : UInt8) :
    checkedRemark s code = pure (operationRemark s code) := by
  unfold checkedRemark
  simp only [checkedIndexedOperation_eq]
  split
  · rfl
  rename_i hplain
  simp only [not_or] at hplain
  obtain ⟨hdata, hend, hseries⟩ := hplain
  by_cases hconstant : 0xA0 ≤ code.toNat ∧ code.toNat ≤ 0xA4
  · rw [if_pos hconstant, operationRemark, if_neg hdata, if_neg hend, if_neg hseries,
      if_pos hconstant]
  by_cases hstore : 0xC0 ≤ code.toNat ∧ code.toNat ≤ 0xC5
  · rw [if_neg hconstant, if_pos hstore, operationRemark, if_neg hdata, if_neg hend,
      if_neg hseries, if_neg hconstant, if_pos hstore]
  by_cases hrecall : 0xE0 ≤ code.toNat ∧ code.toNat ≤ 0xE5
  · rw [if_neg hconstant, if_neg hstore, if_pos hrecall, operationRemark, if_neg hdata,
      if_neg hend, if_neg hseries, if_neg hconstant, if_neg hstore, if_pos hrecall]
  · rw [if_neg hconstant, if_neg hstore, if_neg hrecall]

theorem checkedEntry_eq (pending : Nat) (c : Cursor) :
    checkedEntry s pending c = pure (entry s pending c) := by
  unfold checkedEntry entry
  by_cases hpending : pending = 0
  · rw [if_neg (not_not_intro hpending), if_neg (not_not_intro hpending)]
    simp only [Cursor.checkedFetch_eq, checkedRemark_eq, pure_bind]
    by_cases hjump : isJump (c.fetch s).1 = true
    · rw [if_pos hjump, if_pos hjump, checkedJump_eq s hjump]
    · rw [if_neg hjump, if_neg hjump]
  · rw [if_pos hpending, if_pos hpending, checkedLiteral_eq]

end Calculator

/-! ## The Spectrum -/

def checkedErrorCode (s : Setting) (c : Cursor) : Checked (Item × Cursor) := do
  let (code, after) ← c.checkedFetch s
  let text := "$" ++ Numeral.hex2 code.toNat
  return ({ address := s.shownAddress c.offset
            opcodes := [code]
            text := ".defb " ++ text
            remark := some ("(error code: " ++ text ++ ")") }, after)

def checkedRoutineAddress (s : Setting) (c : Cursor) : Checked (Item × Cursor) := do
  let (low, after) ← c.checkedFetch s
  let (high, after) ← after.checkedFetch s
  let target := low.toNat + 0x100 * high.toNat
  return ({ address := s.shownAddress c.offset
            opcodes := [low, high]
            text := ".defw $" ++ Numeral.hex4 target
            hasSymbol := true
            symbolValue := some target }, after)

def checkedCalculatorEntry (s : Setting) (c : Cursor) (st : State) : Checked (Step State) := do
  let e ← Calculator.checkedEntry s st.pending c
  let st := { st with pending := e.pending }
  let (st, notices) := if e.goesOn then (st, []) else st.switch .idle
  return { handled := true
           state := st
           cursor := e.cursor
           items := [e.item]
           references := e.references
           notices := notices }

def checkedBefore (s : Setting) (c : Cursor) (st : State) : Checked (Step State) := do
  let sight ← c.checkedPeek s 0
  if sight.beyond then return { handled := false, state := st, cursor := c }
  else
    match st.mode with
    | .idle => return { handled := false, state := st, cursor := c }
    | .reportError => return single st (← checkedErrorCode s c)
    | .calculator => checkedCalculatorEntry s c st
    | .rom48Call => return single st (← checkedRoutineAddress s c)

def checkedEntries (s : Setting) (last : Int) : Nat → Nat → Cursor → Checked Entries
  | 0, pending, c => return { pending := pending, cursor := c }
  | fuel + 1, pending, c => do
    let sight ← c.checkedPeek s 0
    if c.offset ≤ last ∧ sight.beyond = false then
      let e ← Calculator.checkedEntry s pending c
      let rest ← checkedEntries s last fuel e.pending e.cursor
      return { rest with
        items := e.item :: rest.items
        references := e.references ++ rest.references }
    else return { pending := pending, cursor := c }

def checkedCustom (s : Setting) (r : Region) (c : Cursor) (st : State) :
    Checked (Step State) := do
  let l ← checkedEntries s r.last r.length 0 c
  return { handled := true
           state := { st with pending := l.pending }
           cursor := l.cursor
           items := l.items
           references := l.references }

section

variable (s : Setting) (c : Cursor)

theorem checkedErrorCode_eq : checkedErrorCode s c = pure (errorCode s c) := by
  rw [checkedErrorCode, Cursor.checkedFetch_eq]
  rfl

theorem checkedRoutineAddress_eq : checkedRoutineAddress s c = pure (routineAddress s c) := by
  simp only [checkedRoutineAddress, Cursor.checkedFetch_eq, pure_bind]
  rfl

theorem checkedCalculatorEntry_eq (st : State) :
    checkedCalculatorEntry s c st = pure (calculatorEntry s c st) := by
  rw [checkedCalculatorEntry, Calculator.checkedEntry_eq]
  rfl

theorem checkedBefore_eq (st : State) : checkedBefore s c st = pure (before s c st) := by
  unfold checkedBefore before
  rw [Cursor.checkedPeek_eq, pure_bind, checkedErrorCode_eq, checkedRoutineAddress_eq,
    checkedCalculatorEntry_eq]
  split
  · rfl
  · cases st.mode <;> rfl

theorem checkedEntries_eq (last : Int) (fuel pending : Nat) :
    checkedEntries s last fuel pending c = pure (entries s last fuel pending c) := by
  induction fuel generalizing pending c with
  | zero => rfl
  | succ fuel ih =>
      rw [checkedEntries, entries, Cursor.checkedPeek_eq, pure_bind]
      split
      · rw [Calculator.checkedEntry_eq, pure_bind, ih, pure_bind]
      · rfl

theorem checkedCustom_eq (r : Region) (st : State) :
    checkedCustom s r c st = pure (custom s r c st) := by
  rw [checkedCustom, checkedEntries_eq]
  rfl

end

def twin (pages : Pages) : (extension pages).Twin where
  before := checkedBefore
  custom := checkedCustom
  before_eq := checkedBefore_eq
  custom_eq s r c st := checkedCustom_eq s c r st

end Spectrum

/-! ## The Z88 -/

namespace Z88

def checkedReadString (s : Setting) : Nat → Cursor → Checked (List UInt8 × Cursor)
  | 0, c => return ([], c)
  | fuel + 1, c => do
    let (b, after) ← c.checkedFetch s
    if after.overflow then return ([], after)
    else if b = 0 then return ([b], after)
    else
      let (bs, after) ← checkedReadString s fuel after
      return (b :: bs, after)

def checkedCallItem (s : Setting) (c : Cursor) (opcodes : List UInt8) (text : String) :
    Checked Item := do
  let partition ← s.options.checkedPartitionAt c.offset
  return { address := s.shownAddress c.offset
           opcodes := opcodes
           text := text
           partition := partition }

def checkedFloatCall (s : Setting) (c : Cursor) : Checked (Step Unit) := do
  let (_, after) ← c.checkedFetch s
  let (code, after) ← after.checkedFetch s
  let item ← checkedCallItem s c [0xDF, code] ("fpp " ++ callName floatCalls code.toNat)
  return handled after [item]

def checkedInlineString (s : Setting) (c after : Cursor) : Checked (List Item × Cursor) := do
  let (bytes, after) ← checkedReadString s (s.image.bytes.size + 1) after
  if bytes.isEmpty then return ([], after)
  else
    let item ← checkedCallItem s c bytes (".defb " ++ stringOperand bytes)
    return ([{ item with continuation := true }], after)

def checkedSystemCall (s : Setting) (c : Cursor) : Checked (Step Unit) := do
  let (_, after) ← c.checkedFetch s
  let (code, after) ← after.checkedFetch s
  if isWide code then
    let (high, after) ← after.checkedFetch s
    let item ← checkedCallItem s c [0xE7, code, high]
      ("oz " ++ callName systemCalls (code.toNat + 0x100 * high.toNat))
    return handled after [item]
  else
    let call ← checkedCallItem s c [0xE7, code] ("oz " ++ callName systemCalls code.toNat)
    if code = 0x93 then
      let (items, after) ← checkedInlineString s c after
      return handled after (call :: items)
    else return handled after [call]

def checkedFarCall (s : Setting) (c : Cursor) : Checked (Step Unit) := do
  let (_, after) ← c.checkedFetch s
  let (low, after) ← after.checkedFetch s
  let (middle, after) ← after.checkedFetch s
  let (high, after) ← after.checkedFetch s
  let target := low.toNat + 0x100 * middle.toNat + 0x10000 * high.toNat
  let item ← checkedCallItem s c [0xEF, low, middle, high]
    ("extcall $" ++ String.ofList (Nat.toDigits 16 target))
  return handled after [item]

def checkedMemoryBinding (s : Setting) (c : Cursor) : Checked (Step Unit) := do
  let (_, after) ← c.checkedFetch s
  let item ← checkedCallItem s c [0xF7] "rst oz_mbp"
  return handled after [item]

def checkedBefore (s : Setting) (c : Cursor) (_ : Unit) : Checked (Step Unit) := do
  let sight ← c.checkedPeek s 0
  if sight.beyond then return { handled := false, state := (), cursor := c }
  else if sight.value = 0xDF then checkedFloatCall s c
  else if sight.value = 0xE7 then checkedSystemCall s c
  else if sight.value = 0xEF then checkedFarCall s c
  else if sight.value = 0xF7 then checkedMemoryBinding s c
  else return { handled := false, state := (), cursor := c }

section

variable (s : Setting) (c : Cursor)

theorem checkedReadString_eq (fuel : Nat) :
    checkedReadString s fuel c = pure (readString s fuel c) := by
  induction fuel generalizing c with
  | zero => rfl
  | succ fuel ih =>
      simp only [checkedReadString, readString, Cursor.checkedFetch_eq, pure_bind, ih]
      split
      · rfl
      · split <;> rfl

theorem checkedCallItem_eq (opcodes : List UInt8) (text : String) :
    checkedCallItem s c opcodes text = pure (callItem s c opcodes text) := by
  rw [checkedCallItem, Options.checkedPartitionAt_eq]
  rfl

theorem checkedFloatCall_eq : checkedFloatCall s c = pure (floatCall s c) := by
  simp only [checkedFloatCall, Cursor.checkedFetch_eq, checkedCallItem_eq, pure_bind]
  rfl

theorem checkedInlineString_eq (after : Cursor) :
    checkedInlineString s c after = pure (inlineString s c after) := by
  simp only [checkedInlineString, inlineString, checkedReadString_eq, checkedCallItem_eq,
    pure_bind]
  split <;> rfl

theorem checkedSystemCall_eq : checkedSystemCall s c = pure (systemCall s c) := by
  simp only [checkedSystemCall, systemCall, Cursor.checkedFetch_eq, checkedCallItem_eq,
    checkedInlineString_eq, pure_bind]
  split
  · rfl
  · split <;> rfl

theorem checkedFarCall_eq : checkedFarCall s c = pure (farCall s c) := by
  simp only [checkedFarCall, Cursor.checkedFetch_eq, checkedCallItem_eq, pure_bind]
  rfl

theorem checkedMemoryBinding_eq : checkedMemoryBinding s c = pure (memoryBinding s c) := by
  simp only [checkedMemoryBinding, Cursor.checkedFetch_eq, checkedCallItem_eq, pure_bind]
  rfl

theorem checkedBefore_eq (u : Unit) : checkedBefore s c u = pure (before s c u) := by
  unfold checkedBefore before
  simp only [Cursor.checkedPeek_eq, checkedFloatCall_eq, checkedSystemCall_eq, checkedFarCall_eq,
    checkedMemoryBinding_eq, pure_bind]
  split
  · rfl
  split
  · rfl
  split
  · rfl
  split
  · rfl
  split <;> rfl

end

def twin : extension.Twin where
  before := checkedBefore
  custom s r c u := pure (extension.custom s r c u)
  before_eq := checkedBefore_eq
  custom_eq _ _ _ _ := rfl

end Z88

/-! ## Machines -/

def Extension.absentTwin : Extension.absent.Twin where
  before s c u := pure (absent.before s c u)
  custom s r c u := pure (absent.custom s r c u)
  before_eq _ _ _ := rfl
  custom_eq _ _ _ _ := rfl

def Machine.twin : (machine : Option Machine) → (extension machine).Twin
  | none => Extension.absentTwin
  | some .z88 => Z88.twin
  | some (.spectrum pages) => Spectrum.twin pages

end RomListing
