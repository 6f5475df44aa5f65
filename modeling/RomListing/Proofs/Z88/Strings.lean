import RomListing.Proofs.Pattern.Numbers
import RomListing.Z88.Conventions

/-! # Reading inline strings

The operand of an inline string shows printable bytes between quotes and the others in hexadecimal. A
quote is printable, so that a run may hold what looks like its own end and a byte behind it: two
strings have the same operand then. All strings without such an end are read back from their operands.
-/

namespace RomListing.Z88

def Printable (b : UInt8) : Prop := 32 ≤ b ∧ b ≤ 127

instance (b : UInt8) : Decidable (Printable b) := inferInstanceAs (Decidable (_ ∧ _))

def char (b : UInt8) : Char := Char.ofNat b.toNat

def digits (b : UInt8) : List Char := (Numeral.hex2 b.toNat).toList

def shown (bytes : List UInt8) : List Char := (stringOperand bytes).toList

/-- What an operand has behind a piece, if the bytes follow it. -/
def behind : List UInt8 → List Char
  | [] => []
  | b :: rest => ',' :: ' ' :: shown (b :: rest)

/-- What an operand has in a run of characters, if the bytes follow there. -/
def inside : List UInt8 → List Char
  | [] => ['"']
  | b :: rest => if Printable b then char b :: inside rest else '"' :: behind (b :: rest)

variable {b : UInt8} {bytes rest : List UInt8}

/-! ## Operands -/

/-- The characters of pieces with a comma and a blank in front of each. -/
def trail (ps : List Piece) : List Char := ps.flatMap fun p => ',' :: ' ' :: p.render.toList

theorem toList_intercalate_cons (p : Piece) (ps : List Piece) :
    (", ".intercalate ((p :: ps).map Piece.render)).toList = p.render.toList ++ trail ps := by
  induction ps generalizing p with
  | nil => simp [trail]
  | cons q ps ih =>
      have hmore : (q :: ps).map Piece.render ≠ [] := List.cons_ne_nil _ _
      rw [List.map_cons, String.intercalate_cons_of_ne_nil hmore, String.toList_append,
        String.toList_append, ih q, List.append_assoc]
      rfl

theorem pieces_eq_nil_iff : pieces bytes = [] ↔ bytes = [] := by
  cases bytes with
  | nil => simp [pieces]
  | cons b rest =>
      simp only [reduceCtorEq, iff_false]
      unfold pieces
      split
      · split <;> exact List.cons_ne_nil _ _
      · exact List.cons_ne_nil _ _

theorem toList_render_text (cs : List Char) :
    (Piece.text cs).render.toList = '"' :: (cs ++ ['"']) := String.toList_ofList

theorem toList_render_code (b : UInt8) : (Piece.code b).render.toList = '$' :: digits b :=
  String.toList_append

theorem behind_eq_trail : behind bytes = trail (pieces bytes) := by
  cases bytes with
  | nil => rfl
  | cons b rest =>
      cases hp : pieces (b :: rest) with
      | nil => exact absurd (pieces_eq_nil_iff.1 hp) (List.cons_ne_nil b rest)
      | cons p ps =>
          show ',' :: ' ' :: (", ".intercalate ((pieces (b :: rest)).map Piece.render)).toList = _
          rw [hp, toList_intercalate_cons]
          rfl

/-- A byte that is shown in hexadecimal, and what is behind it. -/
theorem shown_of_not_printable (h : ¬Printable b) :
    shown (b :: rest) = '$' :: (digits b ++ behind rest) := by
  have hpieces : pieces (b :: rest) = .code b :: pieces rest := if_neg h
  unfold shown stringOperand
  rw [hpieces, toList_intercalate_cons, toList_render_code, behind_eq_trail]
  rfl

theorem pieces_of_printable (h : Printable b) : pieces (b :: rest) =
    match pieces rest with
    | .text cs :: ps => .text (char b :: cs) :: ps
    | ps => .text [char b] :: ps := if_pos h

/-- A run goes on to its end, and then come the other pieces. -/
theorem inside_eq : inside bytes =
    match pieces bytes with
    | .text cs :: ps => cs ++ '"' :: trail ps
    | ps => '"' :: trail ps := by
  induction bytes with
  | nil => rfl
  | cons b rest ih =>
      unfold inside
      by_cases h : Printable b
      · rw [if_pos h, pieces_of_printable h, ih]
        split <;> rfl
      · have hpieces : pieces (b :: rest) = .code b :: pieces rest := if_neg h
        rw [if_neg h, behind_eq_trail, hpieces]

/-- A run of characters, and what is behind it. -/
theorem shown_of_printable (h : Printable b) : shown (b :: rest) = '"' :: inside (b :: rest) := by
  obtain ⟨cs, ps, hpieces⟩ : ∃ cs ps, pieces (b :: rest) = .text cs :: ps := by
    rw [pieces_of_printable h]
    split <;> exact ⟨_, _, rfl⟩
  unfold shown stringOperand
  rw [inside_eq, hpieces, toList_intercalate_cons, toList_render_text]
  simp

/-! ## Reading -/

theorem digits_injective {b b' : UInt8} (h : digits b = digits b') : b = b' := by
  have hread := Numeral.hex_read 2 b.toNat
  have hread' := Numeral.hex_read 2 b'.toNat
  have hsame : Numeral.hex2 b.toNat = Numeral.hex2 b'.toNat := String.toList_inj.1 h
  unfold Numeral.hex2 at hsame
  rw [hsame, hread'] at hread
  exact UInt8.toNat_inj.1 (Option.some.inj hread).symm

def code? (high low : Char) : Option UInt8 :=
  ((List.range 256).map UInt8.ofNat).find? fun b => !decide (Printable b) && digits b == [high, low]

theorem code?_eq_some_iff {high low : Char} :
    code? high low = some b ↔ ¬Printable b ∧ digits b = [high, low] := by
  have hmem (b : UInt8) : b ∈ (List.range 256).map UInt8.ofNat :=
    List.mem_map.2 ⟨b.toNat, List.mem_range.2 b.toNat_lt, UInt8.ofNat_toNat⟩
  unfold code?
  constructor
  · intro h
    simpa using List.find?_some h
  · rintro ⟨hprintable, hdigits⟩
    cases hfind : ((List.range 256).map UInt8.ofNat).find? fun b =>
        !decide (Printable b) && digits b == [high, low] with
    | none =>
        have hnone := List.find?_eq_none.1 hfind b (hmem b)
        simp [hprintable, hdigits] at hnone
    | some b' =>
        have hsome : ¬Printable b' ∧ digits b' = [high, low] := by
          simpa using List.find?_some hfind
        rw [digits_injective (hdigits.trans hsome.2.symm)]

/-- Whether a quote ends a run, by what is behind it: nothing, or a byte in hexadecimal and a comma if
there is more. -/
def ends : List Char → Bool
  | [] => true
  | ',' :: ' ' :: '$' :: high :: low :: rest =>
    (code? high low).isSome && (rest.isEmpty || [',', ' '].isPrefixOf rest)
  | _ => false

/-- Reads an operand, in a run or not. A run ends at the first quote that can be its end. -/
def readChars : Bool → List Char → List UInt8
  | _, [] => []
  | true, '"' :: rest => if ends rest then readChars false rest else 34 :: readChars true rest
  | true, c :: rest => UInt8.ofNat c.toNat :: readChars true rest
  | false, '"' :: rest => readChars true rest
  | false, '$' :: high :: low :: rest => (code? high low).toList ++ readChars false rest
  | false, _ :: rest => readChars false rest

def readOperand (text : String) : List UInt8 := readChars false text.toList

/-! ## What looks like the end of a run -/

def byteOf (c : Char) : UInt8 := UInt8.ofNat c.toNat

/-- The bytes of the end of a run and a byte behind it that is shown in hexadecimal. -/
def imitation (b : UInt8) : List UInt8 :=
  ('"' :: ',' :: ' ' :: '$' :: (digits b ++ [',', ' '])).map byteOf

/-- The bytes hold what looks like the end of a run and a byte behind it. -/
def Misleading (bytes : List UInt8) : Prop := ∃ b, ¬Printable b ∧ imitation b <:+: bytes

theorem Misleading.cons (h : Misleading rest) (b : UInt8) : Misleading (b :: rest) := by
  obtain ⟨b', hb', hinfix⟩ := h
  exact ⟨b', hb', List.infix_cons hinfix⟩

theorem byteOf_char (h : Printable b) : byteOf (char b) = b := by
  have hall : ∀ n < 128, byteOf (Char.ofNat n) = UInt8.ofNat n := by decide
  have hlt : b.toNat < 128 := Nat.lt_succ_of_le h.2
  exact (hall b.toNat hlt).trans UInt8.ofNat_toNat

theorem digits_subset (b : UInt8) : digits b ⊆ Numeral.symbols :=
  Numeral.padded_subset Numeral.hexDigits_subset 2 b.toNat

theorem digits_length (b : UInt8) : (digits b).length = 2 := by
  have hlength : (Nat.toDigits 16 b.toNat).length ≤ 2 :=
    (Nat.length_toDigits_le_iff (by decide) (by decide)).2 b.toNat_lt
  show (String.ofList ((Numeral.hexDigits b.toNat).leftpad 2 '0')).toList.length = 2
  rw [String.toList_ofList, List.length_leftpad, Numeral.hexDigits, List.length_map]
  omega

theorem inside_ne_nil (bytes : List UInt8) : inside bytes ≠ [] := by
  cases bytes with
  | nil => exact List.cons_ne_nil _ _
  | cons b rest =>
      unfold inside
      split <;> exact List.cons_ne_nil _ _

/-- Characters of a run among which there is no quote are bytes. -/
theorem inside_eq_append (cs : List Char) {more : List Char} (h : inside bytes = cs ++ more)
    (hcs : '"' ∉ cs) :
    ∃ rest, bytes = cs.map byteOf ++ rest ∧ inside rest = more := by
  induction cs generalizing bytes with
  | nil => exact ⟨bytes, rfl, h⟩
  | cons c cs ih =>
      rw [List.mem_cons, not_or] at hcs
      cases bytes with
      | nil => exact absurd (List.cons_eq_cons.1 h).1 hcs.1
      | cons b bytes =>
          unfold inside at h
          split at h
          · rename_i hb
            obtain ⟨rfl, htail⟩ := List.cons_eq_cons.1 h
            obtain ⟨rest, rfl, hrest⟩ := ih htail hcs.2
            exact ⟨rest, by rw [List.map_cons, byteOf_char hb, List.cons_append], hrest⟩
          · exact absurd (List.cons_eq_cons.1 h).1 hcs.1

/-- A quote in a run that could be its end begins an imitation. -/
theorem exists_imitation (h : ends (inside bytes) = true) :
    ∃ b, ¬Printable b ∧ imitation b <+: 34 :: bytes := by
  unfold ends at h
  split at h
  · rename_i hnil
    exact absurd hnil (inside_ne_nil bytes)
  · rename_i high low tail heq
    rw [Bool.and_eq_true, Option.isSome_iff_exists, Bool.or_eq_true, List.isEmpty_iff,
      List.isPrefixOf_iff_prefix] at h
    obtain ⟨⟨b, hcode⟩, htail⟩ := h
    obtain ⟨hb, hdigits⟩ := code?_eq_some_iff.1 hcode
    have hquote : '"' ∉ digits b := fun hmem => absurd (digits_subset b hmem) (by decide)
    rw [hdigits] at hquote
    obtain ⟨shorter, rfl, hend⟩ :=
      inside_eq_append [',', ' ', '$', high, low] heq (by simpa using hquote)
    -- a run has its end behind all of its characters
    have hmore : [',', ' '] <+: tail := htail.resolve_left fun hnil =>
      inside_ne_nil shorter (hend.trans hnil)
    obtain ⟨more, rfl⟩ := hmore
    obtain ⟨rest, rfl, -⟩ := inside_eq_append [',', ' '] hend (by decide)
    refine ⟨b, hb, rest, ?_⟩
    unfold imitation
    rw [hdigits]
    rfl
  · cases h

theorem exists_digits (b : UInt8) : ∃ high low, digits b = [high, low] := by
  match digits b, digits_length b with
  | [high, low], _ => exact ⟨high, low, rfl⟩

theorem behind_cons (b : UInt8) (rest : List UInt8) :
    behind (b :: rest) = ',' :: ' ' :: shown (b :: rest) := rfl

/-- The quote behind a run ends it. -/
theorem ends_behind (h : ¬Printable b) : ends (behind (b :: rest)) = true := by
  obtain ⟨high, low, hdigits⟩ := exists_digits b
  have hcode : code? high low = some b := code?_eq_some_iff.2 ⟨h, hdigits⟩
  rw [behind_cons, shown_of_not_printable h, hdigits]
  show ((code? high low).isSome && ((behind rest).isEmpty || [',', ' '].isPrefixOf (behind rest))) =
    true
  rw [hcode]
  cases rest <;> rfl

theorem readChars_behind (b : UInt8) (rest : List UInt8) :
    readChars false (behind (b :: rest)) = readChars false (shown (b :: rest)) := rfl

theorem readChars_code (h : ¬Printable b) :
    readChars false (shown (b :: rest)) = b :: readChars false (behind rest) := by
  obtain ⟨high, low, hdigits⟩ := exists_digits b
  rw [shown_of_not_printable h, hdigits]
  show (code? high low).toList ++ readChars false (behind rest) = _
  rw [code?_eq_some_iff.2 ⟨h, hdigits⟩]
  rfl

/-- A character of a run is read, unless it is a quote that could be the end. -/
theorem readChars_run (h : Printable b) (hquote : b = 34 → ends (inside rest) = false) :
    readChars true (inside (b :: rest)) = b :: readChars true (inside rest) := by
  have hrun : inside (b :: rest) = char b :: inside rest := if_pos h
  rw [hrun]
  by_cases hb : b = 34
  · subst hb
    show readChars true ('"' :: inside rest) = _
    rw [readChars, if_neg (Bool.eq_false_iff.1 (hquote rfl))]
  · have hchar : char b ≠ '"' := fun heq => hb (by
      rw [← byteOf_char h, heq]
      rfl)
    rw [readChars]
    · exact congrArg (· :: readChars true (inside rest)) (byteOf_char h)
    · exact hchar

theorem readChars_end (h : ¬Printable b) :
    readChars true (inside (b :: rest)) = readChars false (shown (b :: rest)) := by
  have hrun : inside (b :: rest) = '"' :: behind (b :: rest) := if_neg h
  rw [hrun, readChars, if_pos (ends_behind h), readChars_behind]

/-- Bytes without an imitation are read from their operand, and from what is left of it in a run and
behind a piece. -/
theorem readChars_eq (h : ¬Misleading bytes) :
    readChars false (shown bytes) = bytes ∧ readChars true (inside bytes) = bytes ∧
      readChars false (behind bytes) = bytes := by
  induction bytes with
  | nil => exact ⟨rfl, rfl, rfl⟩
  | cons b rest ih =>
      obtain ⟨-, hinside, hbehind⟩ := ih fun hrest => h (hrest.cons b)
      rw [readChars_behind]
      by_cases hb : Printable b
      · have hquote : b = 34 → ends (inside rest) = false := by
          rintro rfl
          refine Bool.eq_false_iff.2 fun hends => ?_
          obtain ⟨b', hb', himitation⟩ := exists_imitation hends
          exact h ⟨b', hb', himitation.isInfix⟩
        have hread : readChars true (inside (b :: rest)) = b :: rest := by
          rw [readChars_run hb hquote, hinside]
        have hshown : readChars false (shown (b :: rest)) = b :: rest := by
          rw [shown_of_printable hb]
          exact hread
        exact ⟨hshown, hread, hshown⟩
      · have hshown : readChars false (shown (b :: rest)) = b :: rest := by
          rw [readChars_code hb, hbehind]
        exact ⟨hshown, (readChars_end hb).trans hshown, hshown⟩

theorem readOperand_stringOperand (h : ¬Misleading bytes) :
    readOperand (stringOperand bytes) = bytes := (readChars_eq h).1

/-! ## Operands of two strings -/

theorem inside_append {bytes : List UInt8} (h : ∀ b ∈ bytes, Printable b) (rest : List UInt8) :
    inside (bytes ++ rest) = bytes.map char ++ inside rest := by
  induction bytes with
  | nil => rfl
  | cons b bytes ih =>
      rw [List.forall_mem_cons] at h
      have hrun : inside (b :: bytes ++ rest) = char b :: inside (bytes ++ rest) := if_pos h.1
      rw [hrun, ih h.2]
      rfl

/-- The characters of an imitation, and the bytes that they are. -/
theorem imitation_spec (b : UInt8) : (∀ x ∈ imitation b, Printable x) ∧
    (imitation b).map char = '"' :: ',' :: ' ' :: '$' :: (digits b ++ [',', ' ']) := by
  have hall : ∀ c ∈ '"' :: ',' :: ' ' :: '$' :: Numeral.symbols,
      Printable (byteOf c) ∧ char (byteOf c) = c := by
    have htable : (('"' :: ',' :: ' ' :: '$' :: Numeral.symbols).all fun c =>
        decide (Printable (byteOf c) ∧ char (byteOf c) = c)) = true := by decide
    exact fun c hc => of_decide_eq_true (List.all_eq_true.1 htable c hc)
  have hsubset : '"' :: ',' :: ' ' :: '$' :: (digits b ++ [',', ' ']) ⊆
      '"' :: ',' :: ' ' :: '$' :: Numeral.symbols := by
    intro c hc
    have hdigit : c ∈ digits b → c ∈ Numeral.symbols := (digits_subset b ·)
    simp only [List.mem_cons, List.mem_append, List.not_mem_nil, or_false] at hc ⊢
    grind
  constructor
  · intro x hx
    obtain ⟨c, hc, rfl⟩ := List.mem_map.1 hx
    exact (hall c (hsubset hc)).1
  · unfold imitation
    rw [List.map_map]
    exact (List.map_congr_left fun c hc => (hall c (hsubset hc)).2).trans (List.map_id _)

/-- What comes in front of a run has nothing to do with what is in it. -/
theorem shown_append {p : UInt8} (hp : Printable p) {rest rest' : List UInt8}
    (h : inside rest = inside rest') (bytes : List UInt8) :
    shown (bytes ++ p :: rest) = shown (bytes ++ p :: rest') ∧
      inside (bytes ++ p :: rest) = inside (bytes ++ p :: rest') := by
  have hrun {b : UInt8} {more more' : List UInt8} (hb : Printable b)
      (h : inside more = inside more') : inside (b :: more) = inside (b :: more') := by
    unfold inside
    rw [if_pos hb, if_pos hb, h]
  induction bytes with
  | nil =>
      rw [List.nil_append, List.nil_append, shown_of_printable hp, shown_of_printable hp]
      exact ⟨congrArg _ (hrun hp h), hrun hp h⟩
  | cons b bytes ih =>
      obtain ⟨hshown, hinside⟩ := ih
      rw [List.cons_append, List.cons_append]
      by_cases hb : Printable b
      · rw [shown_of_printable hb, shown_of_printable hb]
        exact ⟨congrArg _ (hrun hb hinside), hrun hb hinside⟩
      · have hbehind : behind (bytes ++ p :: rest) = behind (bytes ++ p :: rest') := by
          cases bytes <;> exact congrArg (',' :: ' ' :: ·) hshown
        have hcode : shown (b :: (bytes ++ p :: rest)) = shown (b :: (bytes ++ p :: rest')) := by
          rw [shown_of_not_printable hb, shown_of_not_printable hb, hbehind]
        refine ⟨hcode, ?_⟩
        unfold inside
        rw [if_neg hb, if_neg hb, behind_cons, behind_cons, hcode]

/-- An imitation in a run, with a quote behind it, is shown like the byte that it imitates. -/
theorem inside_imitation (hb : ¬Printable b) {q : UInt8} (hq : Printable q) (rest : List UInt8) :
    inside (imitation b ++ 34 :: q :: rest) = inside (b :: q :: rest) := by
  obtain ⟨hprintable, hchars⟩ := imitation_spec b
  have hcode : inside (b :: q :: rest) = '"' :: behind (b :: q :: rest) := if_neg hb
  have hquote : inside (34 :: q :: rest) = '"' :: inside (q :: rest) := if_pos (by decide)
  rw [inside_append hprintable, hchars, hcode, behind_cons, shown_of_not_printable hb, behind_cons,
    shown_of_printable hq, hquote]
  simp

/-- Strings that hold no imitation of the end of a run and a byte behind it, which is a quote, a comma,
a blank, a dollar sign, the digits of a byte that is not printable, a comma and a blank, are read back
from their operands, so that different ones have different operands. An imitation between printable
characters, with one more quote behind it, is shown like the byte itself. -/
theorem stringOperand_read_back :
    (∀ bytes, ¬Misleading bytes → readOperand (stringOperand bytes) = bytes) ∧
    (∀ bytes bytes', ¬Misleading bytes → ¬Misleading bytes' → bytes ≠ bytes' →
      stringOperand bytes ≠ stringOperand bytes') ∧
    ∀ (before after : List UInt8) (p b q : UInt8), Printable p → ¬Printable b → Printable q →
      stringOperand (before ++ p :: (imitation b ++ 34 :: q :: after)) =
        stringOperand (before ++ p :: b :: q :: after) := by
  refine ⟨fun bytes h => readOperand_stringOperand h, fun bytes bytes' h h' hne heq => hne ?_,
    fun before after p b q hp hb hq => ?_⟩
  · rw [← readOperand_stringOperand h, heq, readOperand_stringOperand h']
  · exact String.toList_inj.1 (shown_append hp (inside_imitation hb hq after) before).1

/-- A string that begins like an imitation and the lone byte 1 are read back, and the whole imitation
of that byte is not told from it. -/
theorem stringOperand_read_back_begun :
    let begun : List UInt8 := [0x22, 0x2C, 0x20, 0x24, 0x30, 0x31, 0x2C]
    readOperand (stringOperand begun) = begun ∧ stringOperand begun ≠ stringOperand [0x01] ∧
      stringOperand (0x61 :: (imitation 0x01 ++ [0x22, 0x62])) =
        stringOperand [0x61, 0x01, 0x62] := by
  intro begun
  have hshort {bytes : List UInt8} (hlt : bytes.length < 8) : ¬Misleading bytes := by
    rintro ⟨b, -, hinfix⟩
    have hlength : (imitation b).length = 8 := by simp [imitation, digits_length]
    have := hinfix.length_le
    omega
  obtain ⟨hread, hdiffer, himitation⟩ := stringOperand_read_back
  exact ⟨hread begun (hshort (by decide)),
    hdiffer begun [0x01] (hshort (by decide)) (hshort (by decide)) (by decide),
    himitation [] [] 0x61 0x01 0x62 (by decide) (by decide) (by decide)⟩

/-- A byte between two letters, and letters and quotes that look the same. -/
theorem stringOperand_ambiguous :
    let imitating : List UInt8 :=
      [0x61, 0x22, 0x2C, 0x20, 0x24, 0x30, 0x31, 0x2C, 0x20, 0x22, 0x62]
    imitating ≠ [0x61, 0x01, 0x62] ∧
      stringOperand imitating = stringOperand [0x61, 0x01, 0x62] := by decide

end RomListing.Z88
