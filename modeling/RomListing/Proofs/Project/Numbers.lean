import RomListing.Proofs.Pattern.Operands
import RomListing.Proofs.Project.Refusals
import RomListing.Proofs.Text.Integer

/-! # The numbers of a project

A project writes a number as an integer, or as a text: decimal, or hexadecimal behind `0x` or a
dollar sign. The grammar of these texts is stated on its own, and reading accepts it and nothing
else.
-/

namespace RomListing.Project

open Text.Integer
open Yaml (Data Value)

/-! ## The grammar -/

/-- What the text of a number denotes, white space around it left out, and how many decimal
digits it has: of hexadecimal digits there may be any number. Behind the dollar sign white space,
a sign and the mark of the base may stand, behind `0x` nothing of it. -/
inductive Spelling : List Char → Int → Nat → Prop
  | marked {x : Char} {ds : List Char} {n : Nat} (hx : x = 'x' ∨ x = 'X')
      (hdigits : Digits 16 ds n) : Spelling ('0' :: x :: ds) n 0
  | spaced {x : Char} {ds : List Char} {n : Nat} (hx : x = 'x' ∨ x = 'X')
      (hdigits : Digits 16 ds n) : Spelling ('0' :: x :: '_' :: ds) n 0
  | dollar {before body after : List Char} {n : Int}
      (hbefore : ∀ c ∈ before, Text.isMargin c = true)
      (hafter : ∀ c ∈ after, Text.isMargin c = true) (hbody : Literal 16 body n) :
      Spelling ('$' :: (before ++ body ++ after)) n 0
  | decimal {sign ds : List Char} {unit : Int} {n : Nat} (hsign : Sign sign unit)
      (hdigits : Digits 10 ds n) : Spelling (sign ++ ds) (unit * n) (ds.countP (· ≠ '_'))

def core (t : Text) : Text := Text.trim (·.is Text.isBlank) t

/-- What a value denotes as a number: it is an integer or the text of one. -/
inductive IsNumber : Value → Int → Nat → Prop
  | int {n : Int} : IsNumber (.int n) n 0
  | text {t : Text} {cs : List Char} {n : Int} {count : Nat}
      (ht : core t = Text.ofChars cs) (hcs : Spelling cs n count) :
      IsNumber (.text t) n count

/-! ## Texts -/

/-- A text without halves of characters is its characters. -/
theorem ofChars_chars {t : Text} (h : ∀ c ∈ t.chars, c ≠ '\uFFFD') : t = Text.ofChars t.chars := by
  induction t with
  | nil => rfl
  | cons l t ih =>
      cases l with
      | char c => exact congrArg (.char c :: ·) (ih fun d hd => h d (List.mem_cons_of_mem _ hd))
      | half n => exact absurd rfl (h '\uFFFD' List.mem_cons_self)

theorem literal_dollar {t rest : Text} (h : core t = .char '$' :: rest) :
    literal t = (16, rest) := by
  unfold core at h
  rw [literal, h]
  rfl

theorem literal_marked {t rest : Text} {x : Char} (h : core t = .char '0' :: .char x :: rest)
    (hx : x = 'x' ∨ x = 'X') : literal t = (16, core t) := by
  unfold core at *
  rw [literal, h]
  rcases hx with rfl | rfl <;> rfl

/-- Whatever is neither behind a dollar sign nor behind `0x` is decimal. -/
theorem literal_decimal {t : Text} (hdollar : ∀ rest, core t ≠ .char '$' :: rest)
    (hmarked : ∀ x rest, x = 'x' ∨ x = 'X' → core t ≠ .char '0' :: .char x :: rest) :
    literal t = (10, core t) := by
  unfold literal core at *
  split
  · rename_i rest hcore
    exact absurd hcore (hdollar rest)
  · rename_i x rest hcore
    split
    · rename_i hx
      rcases hx with rfl | rfl
      · exact absurd hcore (hmarked 'x' rest (.inl rfl))
      · exact absurd hcore (hmarked 'X' rest (.inr rfl))
    · rw [hcore]
  · rfl

/-- What is left of a text has no margins. -/
theorem bare_chars (t : Text) : Text.Bare Text.isMargin (core t).chars := by
  have hletter {l : Letter} (h : l.is Text.isBlank = false) :
      Text.isMargin l.toChar = false := by
    cases l with
    | char c => exact isMargin_of_not_blank h
    | half n => exact (by decide : Text.isMargin '\uFFFD' = false)
  obtain ⟨hhead, hlast⟩ := Text.trim_bare (·.is Text.isBlank) t
  unfold Text.chars core
  constructor
  · intro c hc
    rw [List.head?_map] at hc
    obtain ⟨l, hl, rfl⟩ := Option.map_eq_some_iff.1 hc
    exact hletter (hhead l hl)
  · intro c hc
    rw [List.getLast?_map] at hc
    obtain ⟨l, hl, rfl⟩ := Option.map_eq_some_iff.1 hc
    exact hletter (hlast l hl)

theorem not_digit_x {x : Char} (hx : x = 'x' ∨ x = 'X') : digit? 16 x = none ∧ x ≠ '_' := by
  rcases hx with rfl | rfl <;> decide

/-- Behind `0x` stand the mark's underscore, if any, and digits. -/
theorem spelling_of_marked {x : Char} {rest : List Char} {n : Int} (hx : x = 'x' ∨ x = 'X')
    (h : Literal 16 ('0' :: x :: rest) n) : Spelling ('0' :: x :: rest) n 0 := by
  generalize hcs : '0' :: x :: rest = cs at h
  obtain ⟨hsign, hmark, hdigits⟩ := h
  cases hsign with
  | plus => cases hcs
  | minus => cases hcs
  | none =>
      rw [Int.one_mul, List.nil_append]
      cases hmark with
      | none =>
          -- then `x` would be a digit or an underscore
          rw [List.nil_append, List.nil_append] at hcs
          obtain ⟨hnone, hne⟩ := not_digit_x hx
          rcases hdigits.mem x (hcs ▸ by simp) with h | ⟨d, hd⟩
          · exact (hne h).elim
          · rw [digit?_eq_some.2 hd] at hnone
            cases hnone
      | plain =>
          cases hcs
          exact .marked hx hdigits
      | spaced =>
          cases hcs
          exact .spaced hx hdigits

/-- A decimal number has no mark. -/
theorem spelling_of_decimal {cs : List Char} {n : Int} (h : Literal 10 cs n) :
    ∃ count, Spelling cs n count := by
  obtain ⟨hsign, hmark, hdigits⟩ := h
  cases hmark with
  | none => exact ⟨_, .decimal hsign hdigits⟩
  | plain _ hx | spaced _ hx => cases hx

/-- Behind a dollar sign stands a literal between its margins. -/
theorem spelling_of_dollar {rest : Text} {n : Int} (h : value? 16 rest.chars = some n) :
    rest = Text.ofChars rest.chars ∧ Spelling ('$' :: rest.chars) n 0 := by
  have hbody := value?_iff.1 h
  obtain ⟨before, after, hchars, hbefore, hafter⟩ :=
    Text.exists_margins Text.isMargin rest.chars
  have hhalf : ∀ c, Text.isMargin c = true → c ≠ '\uFFFD' := by
    rintro c hc rfl
    revert hc
    decide
  constructor
  · refine ofChars_chars ?_
    rw [hchars]
    refine List.forall_mem_append.2 ⟨List.forall_mem_append.2 ⟨?_, ?_⟩, ?_⟩
    · exact fun c hc => hhalf c (hbefore c hc)
    · exact fun c hc => (hbody.apart c hc).2
    · exact fun c hc => hhalf c (hafter c hc)
  · rw [hchars]
    exact .dollar hbefore hafter hbody

/-- A text that is read as a number spells it. -/
theorem exists_spelling {t : Text} {n : Int} (h : integerText? t = some n) :
    ∃ cs count, core t = Text.ofChars cs ∧ Spelling cs n count := by
  have hcore := Text.trim_of_bare (bare_chars t)
  unfold integerText? at h
  by_cases hdollar : ∃ rest, core t = .char '$' :: rest
  · obtain ⟨rest, hrest⟩ := hdollar
    rw [literal_dollar hrest] at h
    obtain ⟨hchars, hspelling⟩ := spelling_of_dollar h
    refine ⟨'$' :: Text.chars rest, 0, ?_, hspelling⟩
    rw [hrest]
    exact congrArg (_ :: ·) hchars
  by_cases hmarked : ∃ x rest, (x = 'x' ∨ x = 'X') ∧ core t = .char '0' :: .char x :: rest
  · obtain ⟨x, rest, hx, hrest⟩ := hmarked
    rw [literal_marked hrest hx] at h
    have hbody := value?_iff.1 h
    rw [hcore] at hbody
    refine ⟨_, 0, ofChars_chars fun c hc => (hbody.apart c hc).2, ?_⟩
    rw [hrest] at hbody ⊢
    exact spelling_of_marked hx hbody
  · rw [literal_decimal (fun rest hrest => hdollar ⟨rest, hrest⟩)
      fun x rest hx hrest => hmarked ⟨x, rest, hx, hrest⟩] at h
    have hbody := value?_iff.1 h
    rw [hcore] at hbody
    obtain ⟨count, hspelling⟩ := spelling_of_decimal hbody
    exact ⟨_, count, ofChars_chars fun c hc => (hbody.apart c hc).2, hspelling⟩

def decimals (t : Text) : Nat :=
  if (literal t).1 = 10 then leadingDigits 10 (dropSign (literal t).2.chars).2 else 0

theorem decimals_of_hexadecimal {t rest : Text} (h : literal t = (16, rest)) : decimals t = 0 := by
  unfold decimals
  rw [h]
  exact if_neg (show ¬16 = 10 by decide)

theorem decimals_of_decimal {t rest : Text} (h : literal t = (10, rest)) :
    decimals t = leadingDigits 10 (dropSign rest.chars).2 := by
  unfold decimals
  rw [h]
  exact if_pos rfl

theorem value?_marked {x : Char} {mark ds : List Char} {n : Nat} (hx : x = 'x' ∨ x = 'X')
    (hmark : mark = ['0', x] ∨ mark = ['0', x, '_']) (hdigits : Digits 16 ds n) :
    value? 16 (mark ++ ds) = some n := by
  have hnothing : ∀ c ∈ ([] : List Char), Text.isMargin c = true := List.forall_mem_nil _
  have hlead : x ∈ leadLetters 16 := by
    rcases hx with rfl | rfl <;> decide
  have hbody : Mark 16 mark := by
    rcases hmark with rfl | rfl
    · exact .plain (by decide) hlead
    · exact .spaced (by decide) hlead
  have hread := (Literal.mk .none hbody hdigits).value? hnothing hnothing
  rwa [Int.one_mul, List.nil_append, List.nil_append, List.append_nil] at hread

theorem mem_of_ofChars {cs : List Char} {c : Char} (h : .char c ∈ Text.ofChars cs) : c ∈ cs := by
  obtain ⟨d, hd, heq⟩ := List.mem_map.1 h
  exact Letter.char.inj heq ▸ hd

/-- A sign and decimal digits are neither behind a dollar sign nor behind `0x`. -/
theorem literal_of_decimal {t : Text} {sign ds : List Char} {unit : Int} {n : Nat}
    (ht : core t = Text.ofChars (sign ++ ds)) (hsign : Sign sign unit)
    (hdigits : Digits 10 ds n) : literal t = (10, Text.ofChars (sign ++ ds)) := by
  have hsigns : ∀ c ∈ sign, c ≠ '$' ∧ c ≠ 'x' ∧ c ≠ 'X' :=
    hsign.forall_mem (by decide) (by decide)
  have hall : ∀ c ∈ sign ++ ds, c ≠ '$' ∧ c ≠ 'x' ∧ c ≠ 'X' := by
    refine List.forall_mem_append.2 ⟨hsigns, fun c hc => ?_⟩
    rcases hdigits.mem c hc with rfl | ⟨d, hd⟩
    · decide
    · have hranges := hd.ranges
      refine ⟨?_, ?_, ?_⟩ <;>
      · rintro rfl
        revert hranges
        decide
  rw [← ht]
  refine literal_decimal (fun rest hrest => ?_) fun x rest hx hrest => ?_
  · have hmem : '$' ∈ sign ++ ds := mem_of_ofChars (by rw [← ht, hrest]; exact List.mem_cons_self)
    exact (hall _ hmem).1 rfl
  · have hmem : x ∈ sign ++ ds := mem_of_ofChars (by rw [← ht, hrest]; simp)
    rcases hx with rfl | rfl
    · exact (hall _ hmem).2.1 rfl
    · exact (hall _ hmem).2.2 rfl

/-- A text that spells a number is read as it, and the digits are counted. -/
theorem integerText?_of_spelling {t : Text} {cs : List Char} {n : Int} {count : Nat}
    (ht : core t = Text.ofChars cs) (h : Spelling cs n count) :
    integerText? t = some n ∧ decimals t = count := by
  have hread {base : Nat} {rest : List Char} (h : literal t = (base, Text.ofChars rest)) :
      integerText? t = value? base rest := by
    unfold integerText?
    rw [h]
    exact congrArg (value? base) (Text.chars_ofChars rest)
  cases h with
  | @marked x ds n hx hdigits =>
      have hliteral := literal_marked ht hx
      rw [ht] at hliteral
      have hvalue : value? 16 (['0', x] ++ ds) = some n := value?_marked hx (.inl rfl) hdigits
      exact ⟨(hread hliteral).trans hvalue, decimals_of_hexadecimal hliteral⟩
  | @spaced x ds n hx hdigits =>
      have hliteral := literal_marked ht hx
      rw [ht] at hliteral
      have hvalue : value? 16 (['0', x, '_'] ++ ds) = some n :=
        value?_marked hx (.inr rfl) hdigits
      exact ⟨(hread hliteral).trans hvalue, decimals_of_hexadecimal hliteral⟩
  | @dollar before body after n hbefore hafter hbody =>
      have hliteral : literal t = (16, Text.ofChars (before ++ body ++ after)) :=
        literal_dollar ht
      exact ⟨(hread hliteral).trans (hbody.value? hbefore hafter),
        decimals_of_hexadecimal hliteral⟩
  | @decimal sign ds unit n hsign hdigits =>
      have hliteral := literal_of_decimal ht hsign hdigits
      have hnothing : ∀ c ∈ ([] : List Char), Text.isMargin c = true := List.forall_mem_nil _
      have hbody := Literal.mk hsign .none hdigits
      have hvalue := hbody.value? hnothing hnothing
      have htrim : Text.trim Text.isMargin (sign ++ ds) = sign ++ ds := by
        have hplain : ∀ c ∈ sign ++ ds, Text.isMargin c = false := fun c hc =>
          isMargin_of_not_blank (hbody.apart c hc).1
        simpa using Text.trim_margins hnothing hnothing hplain
      obtain ⟨c, rest, hhead, hc⟩ := head_ne_sign .none hdigits
      rw [List.nil_append] at hhead
      have hdrop := (dropSign_sign hsign hc (htrim.trans (by rw [hhead]))).1
      rw [decimals_of_decimal hliteral, Text.chars_ofChars, hdrop, ← hhead]
      refine ⟨(hread hliteral).trans ?_, leadingDigits_of_digits hdigits⟩
      rwa [List.nil_append, List.nil_append, List.append_nil] at hvalue

/-! ## Values -/

theorem literal_base (t : Text) : (literal t).1 = 16 ∨ (literal t).1 = 10 := by
  unfold literal
  split
  · exact .inl rfl
  · split
    · exact .inl rfl
    · exact .inr rfl
  · exact .inr rfl

/-- Of the numbers of any length those are read whose decimal digits are not too many. -/
theorem shortIntegerText?_eq_some {t : Text} {n : Int} :
    shortIntegerText? t = some n ↔ integerText? t = some n ∧ decimals t ≤ maxDigits := by
  have hhexadecimal : isUnbounded 16 = true := by decide
  have hdecimal : isUnbounded 10 = false := by decide
  unfold shortIntegerText? integerText? Text.Integer.read decimals
  dsimp only
  rcases literal_base t with hbase | hbase
  · rw [hbase, hhexadecimal]
    cases value? 16 (literal t).2.chars <;> simp [Except.toOption]
  · rw [hbase, hdecimal]
    by_cases hlong : maxDigits < leadingDigits 10 (dropSign (literal t).2.chars).2
    · simp [hlong, Except.toOption]
    · have hshort := Nat.le_of_not_lt hlong
      cases value? 10 (literal t).2.chars <;> simp [hlong, hshort, Except.toOption]

theorem integer_eq_ok {d : Data} {v : Value} {n : Int} : integer d v = .ok n ↔
    v = .int n ∨ ∃ t, v = .text t ∧ shortIntegerText? t = some n := by
  have hrefused {t : Except Error Text} : (do throw (Error.badInteger (← t))) ≠ .ok n := by
    cases t <;> nofun
  unfold integer
  cases v with
  | int m => simp [pure, Except.pure]
  | text t =>
      cases hread : shortIntegerText? t with
      | none => simpa [hread] using hrefused
      | some m => simp [hread, pure, Except.pure]
  | null | bool | float | bytes | date | timestamp | container => simpa using hrefused

/-- A value is read as a number if it denotes it, with decimal digits that are not too many. -/
theorem integer_iff {d : Data} {v : Value} {n : Int} :
    integer d v = .ok n ↔ ∃ count, IsNumber v n count ∧ count ≤ maxDigits := by
  rw [integer_eq_ok]
  constructor
  · rintro (rfl | ⟨t, rfl, ht⟩)
    · exact ⟨0, .int, Nat.zero_le _⟩
    · obtain ⟨hread, hle⟩ := shortIntegerText?_eq_some.1 ht
      obtain ⟨cs, count, hcs, hspelling⟩ := exists_spelling hread
      have hcount := (integerText?_of_spelling hcs hspelling).2
      exact ⟨count, .text hcs hspelling, hcount ▸ hle⟩
  · rintro ⟨count, hnumber, hle⟩
    cases hnumber with
    | int => exact .inl rfl
    | text hcs hspelling =>
        obtain ⟨hread, hcount⟩ := integerText?_of_spelling hcs hspelling
        exact .inr ⟨_, rfl, shortIntegerText?_eq_some.2 ⟨hread, hcount ▸ hle⟩⟩

theorem integerText?_iff {t : Text} {n : Int} : integerText? t = some n ↔
    ∃ cs count, core t = Text.ofChars cs ∧ Spelling cs n count := by
  refine ⟨exists_spelling, ?_⟩
  rintro ⟨cs, count, hcs, hspelling⟩
  exact (integerText?_of_spelling hcs hspelling).1

/-! ## Numerals -/

theorem digits_decimal (n : Nat) : Digits 10 (Numeral.decimalDigits n) n := by
  refine digits_of_moreDigits Nat.toDigits_ne_nil ?_ ?_
  · rintro _ hc rfl
    exact Nat.underscore_not_in_toDigits hc
  · have hread := Numeral.decimal_read 0 n
    simpa [Numeral.padded, List.leftpad] using hread

/-- Zeros in front of a hexadecimal number and the case of its digits do not count. -/
theorem digits_hexadecimal {cs : List Char} {zeros n : Nat}
    (h : cs.map Char.toUpper = List.replicate zeros '0' ++ Numeral.hexDigits n) :
    Digits 16 cs n := by
  have hupper : ∀ c ∈ cs, c.toUpper ≠ '_' := by
    intro c hc hunderscore
    have hmem : '_' ∈ List.replicate zeros '0' ++ Numeral.hexDigits n := by
      rw [← h, ← hunderscore]
      exact List.mem_map_of_mem hc
    rcases List.mem_append.1 hmem with hzero | hdigit
    · exact absurd (List.eq_of_mem_replicate hzero) (by decide)
    · exact absurd (Numeral.hexDigits_subset n hdigit) (by decide)
  refine digits_of_moreDigits ?_ (fun c hc => toUpper_ne_underscore (hupper c hc)) ?_
  · rintro rfl
    have hnil : Numeral.hexDigits n = [] := (List.append_eq_nil_iff.1 h.symm).2
    exact Nat.toDigits_ne_nil (List.map_eq_nil_iff.1 hnil)
  · have hread := Numeral.hex_read (zeros + (Numeral.hexDigits n).length) n
    rw [← moreDigits_toUpper hupper, h]
    simpa [Numeral.padded, List.leftpad] using hread

/-- Nothing is left out of a text without white space. -/
theorem core_of_plain {cs : List Char} (h : ∀ c ∈ cs, Text.isBlank c = false) :
    core (Text.ofChars cs) = Text.ofChars cs := by
  have hnothing : ∀ l ∈ ([] : Text), l.is Text.isBlank = true := List.forall_mem_nil _
  have hplain : ∀ l ∈ Text.ofChars cs, l.is Text.isBlank = false := List.forall_mem_map.2 h
  simpa [core] using Text.trim_margins hnothing hnothing hplain

/-- The text of a number spells it, with as many decimal digits as it has. -/
theorem spelling_decimal (n : Int) : Spelling (Numeral.decimal n).toList n
    (Numeral.decimalDigits n.natAbs).length := by
  have hcount (m : Nat) : (Numeral.decimalDigits m).countP (· ≠ '_') =
      (Numeral.decimalDigits m).length := by
    refine List.countP_eq_length.2 fun c hc => decide_eq_true ?_
    rintro rfl
    exact Nat.underscore_not_in_toDigits hc
  cases n with
  | ofNat m =>
      have hspelling := Spelling.decimal .none (digits_decimal m)
      rw [hcount, Int.one_mul] at hspelling
      simpa [Numeral.decimal, Numeral.padded, List.leftpad] using hspelling
  | negSucc m =>
      have hspelling := Spelling.decimal .minus (digits_decimal (m + 1))
      have hvalue : -((m + 1 : Nat) : Int) = Int.negSucc m := rfl
      rw [hcount, Int.neg_one_mul, hvalue] at hspelling
      simpa [Numeral.decimal, Numeral.padded, List.leftpad] using hspelling

theorem spelling_dollar {ds : List Char} {n : Nat} (h : Digits 16 ds n) :
    Spelling ('$' :: ds) n 0 := by
  have hnothing : ∀ c ∈ ([] : List Char), Text.isMargin c = true := List.forall_mem_nil _
  have hspelling := Spelling.dollar hnothing hnothing (Literal.mk .none .none h)
  simpa using hspelling

/-- A value that denotes a number is read as it, as far as its decimal digits are not too many, and
every other value is refused. Of texts of any length exactly those that spell a number are read.
Numbers are read back from their decimal texts, and from their hexadecimal digits in either case,
with zeros in front or not. -/
theorem integer_accepts (d : Data) :
    (∀ v n, integer d v = .ok n ↔ ∃ count, IsNumber v n count ∧ count ≤ maxDigits) ∧
      (∀ v e, integer d v = .error e → e.isRefusal = true) ∧
      (∀ t n, integerText? t = some n ↔
        ∃ cs count, core t = Text.ofChars cs ∧ Spelling cs n count) ∧
      (∀ n : Int, integerText? (Numeral.decimal n) = some n ∧
        ((Numeral.decimalDigits n.natAbs).length ≤ maxDigits →
          integer d (.text (Numeral.decimal n)) = .ok n)) ∧
      ∀ (cs : List Char) (zeros n : Nat),
        cs.map Char.toUpper = List.replicate zeros '0' ++ Numeral.hexDigits n →
          integer d (.text (Text.ofChars ('$' :: cs))) = .ok n ∧
            ∀ x, x = 'x' ∨ x = 'X' →
              integer d (.text (Text.ofChars ('0' :: x :: cs))) = .ok n := by
  refine ⟨fun v n => integer_iff, fun v e h => ?_, fun t n => integerText?_iff, fun n => ?_,
    fun cs zeros n h => ?_⟩
  · cases hrefusal : e.isRefusal with
    | true => rfl
    | false => exact (not_misuses_integer v ⟨h, hrefusal⟩).elim
  · have hspelling := spelling_decimal n
    have hsymbols : Options.symbols.all fun c => Text.isBlank c = false := by decide
    have hcore : core (Numeral.decimal n) = Text.ofChars (Numeral.decimal n).toList :=
      core_of_plain fun c hc => of_decide_eq_true
        (List.all_eq_true.1 hsymbols c (Options.decimal_subset 0 n hc))
    refine ⟨integerText?_iff.2 ⟨_, _, hcore, hspelling⟩, fun hsmall => ?_⟩
    exact integer_iff.2 ⟨_, .text hcore hspelling, hsmall⟩
  · have hdigits := digits_hexadecimal h
    have hplain := hdigits.plain
    constructor
    · have hcore : core (Text.ofChars ('$' :: cs)) = Text.ofChars ('$' :: cs) :=
        core_of_plain (List.forall_mem_cons.2 ⟨by decide, hplain⟩)
      exact integer_iff.2 ⟨0, .text hcore (spelling_dollar hdigits), Nat.zero_le _⟩
    · intro x hx
      have hblank : Text.isBlank x = false := by
        rcases hx with rfl | rfl <;> decide
      have hcore : core (Text.ofChars ('0' :: x :: cs)) = Text.ofChars ('0' :: x :: cs) :=
        core_of_plain (List.forall_mem_cons.2
          ⟨by decide, List.forall_mem_cons.2 ⟨hblank, hplain⟩⟩)
      exact integer_iff.2 ⟨0, .text hcore (.marked hx hdigits), Nat.zero_le _⟩

example : integerText? " $ -0x_fF " = some (-255) := by decide

example : integerText? "0x__1" = none := by decide

end RomListing.Project
