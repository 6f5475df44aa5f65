import Mathlib.Data.List.TakeWhile
import RomListing.Proofs.Listing.Labels
import RomListing.Proofs.Listing.Numerals

/-! # The grammar of integer literals

What an integer literal is, without saying how one is read: a sign, the mark of the base and
digits, with white space around. Reading accepts these texts and no others, and gives the number
that the digits denote.
-/

namespace RomListing.Text

/-! ## Margins -/

section

variable {α : Type} {p : α → Bool}

/-- What is trimmed away stood around the rest. -/
theorem exists_margins (p : α → Bool) (as : List α) : ∃ before after,
    as = before ++ trim p as ++ after ∧ (∀ a ∈ before, p a = true) ∧
      ∀ a ∈ after, p a = true := by
  have hafter : dropEnd p (as.dropWhile p) ++ ((as.dropWhile p).reverse.takeWhile p).reverse =
      as.dropWhile p := by
    unfold dropEnd
    rw [← List.reverse_append, List.takeWhile_append_dropWhile, List.reverse_reverse]
  refine ⟨as.takeWhile p, ((as.dropWhile p).reverse.takeWhile p).reverse, ?_, ?_, ?_⟩
  · rw [trim, List.append_assoc, hafter, List.takeWhile_append_dropWhile]
  · exact List.all_eq_true.1 List.all_takeWhile
  · exact fun a ha => List.all_eq_true.1 List.all_takeWhile a (List.mem_reverse.1 ha)

theorem dropWhile_margin {before rest : List α} (hbefore : ∀ a ∈ before, p a = true)
    (hrest : ∀ a ∈ rest.head?, p a = false) : (before ++ rest).dropWhile p = rest := by
  rw [List.dropWhile_append_of_pos hbefore]
  cases rest with
  | nil => rfl
  | cons a rest => exact List.dropWhile_cons_of_neg (by simp [hrest a rfl])

/-- Trimming leaves what stands between two margins. -/
theorem trim_margins {before body after : List α} (hbefore : ∀ a ∈ before, p a = true)
    (hafter : ∀ a ∈ after, p a = true) (hbody : ∀ a ∈ body, p a = false) :
    trim p (before ++ body ++ after) = body := by
  unfold trim dropEnd
  cases body with
  | nil =>
      have hall : ∀ a ∈ before ++ [] ++ after, p a = true := by
        rw [List.append_nil]
        exact List.forall_mem_append.2 ⟨hbefore, hafter⟩
      rw [← List.append_nil (before ++ [] ++ after), dropWhile_margin hall (by simp)]
      rfl
  | cons a body =>
      have hfront : (before ++ (a :: body) ++ after).dropWhile p = a :: body ++ after := by
        rw [List.append_assoc]
        exact dropWhile_margin hbefore (by simpa using hbody a (by simp))
      rw [hfront, List.reverse_append, dropWhile_margin (by simpa using hafter),
        List.reverse_reverse]
      intro b hb
      exact hbody b (List.mem_reverse.1 (List.mem_of_mem_head? hb))

/-- Neither the first nor the last element would be trimmed away. -/
def Bare (p : α → Bool) (as : List α) : Prop :=
  (∀ a ∈ as.head?, p a = false) ∧ ∀ a ∈ as.getLast?, p a = false

theorem trim_of_bare {as : List α} (h : Bare p as) : trim p as = as := by
  have hfront : as.dropWhile p = as := dropWhile_margin (List.forall_mem_nil _) h.1
  have hlast : ∀ a ∈ as.reverse.head?, p a = false := by
    rw [List.head?_reverse]
    exact h.2
  have hback : as.reverse.dropWhile p = as.reverse :=
    dropWhile_margin (List.forall_mem_nil _) hlast
  rw [trim, dropEnd, hfront, hback, List.reverse_reverse]

theorem not_head_dropWhile (p : α → Bool) (as : List α) :
    ∀ a ∈ (as.dropWhile p).head?, p a = false := by
  intro a ha
  have hhead := List.head?_dropWhile_not p as
  rw [Option.mem_def.1 ha] at hhead
  exact hhead

theorem trim_bare (p : α → Bool) (as : List α) : Bare p (trim p as) := by
  constructor
  · intro a ha
    refine not_head_dropWhile p as a ?_
    obtain ⟨rest, hrest⟩ := List.head?_eq_some_iff.1 ha
    obtain ⟨tail, htail⟩ := dropEnd_prefix p (as.dropWhile p)
    rw [← htail]
    change dropEnd p (as.dropWhile p) = a :: rest at hrest
    rw [hrest]
    rfl
  · intro a ha
    rw [trim, dropEnd, List.getLast?_reverse] at ha
    exact not_head_dropWhile p _ a ha

end

/-! ## Digits -/

theorem digitZeros_cases : ∀ z ∈ digitZeros, z = 48 ∨ 0x80 ≤ z := by decide

/-- No character is in the runs of two scripts. -/
theorem digitZeros_apart : ∀ z ∈ digitZeros, ∀ z' ∈ digitZeros, z < z' + 10 → z' < z + 10 →
    z = z' := by decide +kernel

/-- A digit counts from the zero of its script. -/
theorem digitValue?_eq_some {c : Char} {d : Nat} :
    digitValue? c = some d ↔ d < 10 ∧ ∃ z ∈ digitZeros, c.toNat = z + d := by
  have hascii : '0' ≤ c ∧ c ≤ '9' ↔ 48 ≤ c.toNat ∧ c.toNat ≤ 57 := Iff.rfl
  unfold digitValue?
  split <;> rename_i hrange <;> rw [hascii] at hrange
  · constructor
    · intro h
      cases h
      exact ⟨by omega, 48, by decide, by omega⟩
    · rintro ⟨hd, z, hz, hc⟩
      rcases digitZeros_cases z hz with rfl | hz
      · rw [hc, Nat.add_sub_cancel_left]
      · omega
  · split
    · refine ⟨nofun, ?_⟩
      rintro ⟨hd, z, hz, hc⟩
      rcases digitZeros_cases z hz with rfl | hz <;> omega
    · rw [Option.map_eq_some_iff]
      constructor
      · rintro ⟨z, hz, rfl⟩
        have hmem := List.mem_of_find?_eq_some hz
        have hrun : z ≤ c.toNat ∧ c.toNat < z + 10 := by simpa using List.find?_some hz
        exact ⟨by omega, z, hmem, by omega⟩
      · rintro ⟨hd, z, hz, hc⟩
        refine ⟨z, ?_, by omega⟩
        cases hfind : digitZeros.find? fun z => z ≤ c.toNat ∧ c.toNat < z + 10 with
        | none =>
            have hout := List.find?_eq_none.1 hfind z hz
            simp only [decide_eq_true_eq] at hout
            omega
        | some z' =>
            have hmem := List.mem_of_find?_eq_some hfind
            have hrun : z' ≤ c.toNat ∧ c.toNat < z' + 10 := by
              simpa using List.find?_some hfind
            rw [digitZeros_apart z hz z' hmem (by omega) (by omega)]

namespace Integer

/-- What a character denotes as a digit: it is a decimal digit of some script, or one of the
letters that go on counting behind nine. -/
def Denotes (base : Nat) (c : Char) (d : Nat) : Prop :=
  d < base ∧ ((d < 10 ∧ ∃ z ∈ digitZeros, c.toNat = z + d) ∨
    ∃ k < 6, d = 10 + k ∧ (c.toNat = 'a'.toNat + k ∨ c.toNat = 'A'.toNat + k))

theorem digit?_eq_some {base : Nat} {c : Char} {d : Nat} :
    digit? base c = some d ↔ Denotes base c d := by
  have hlower : 'a' ≤ c ∧ c ≤ 'f' ↔ 97 ≤ c.toNat ∧ c.toNat ≤ 102 := Iff.rfl
  have hupper : 'A' ≤ c ∧ c ≤ 'F' ↔ 65 ≤ c.toNat ∧ c.toNat ≤ 70 := Iff.rfl
  have ha : 'a'.toNat = 97 := rfl
  have hA : 'A'.toNat = 65 := rfl
  unfold digit? Denotes
  rw [Option.filter_eq_some_iff, decide_eq_true_eq, and_comm, and_congr_right_iff, ha, hA,
    ← digitValue?_eq_some]
  intro hbase
  cases hvalue : digitValue? c with
  | some e =>
      obtain ⟨hd, z, hz, hc⟩ := digitValue?_eq_some.1 hvalue
      have hzeros := digitZeros_cases z hz
      refine ⟨.inl, ?_⟩
      rintro (h | ⟨k, hk, -, hletter⟩)
      · exact h
      · omega
  | none =>
      dsimp only
      split
      · rename_i h
        rw [hlower] at h
        rw [Option.some.injEq]
        refine ⟨fun hd => .inr ⟨c.toNat - 97, by omega, by omega, by omega⟩, ?_⟩
        rintro (hd | ⟨k, hk, rfl, hletter⟩)
        · cases hd
        · omega
      split
      · rename_i h
        rw [hupper] at h
        rw [Option.some.injEq]
        refine ⟨fun hd => .inr ⟨c.toNat - 65, by omega, by omega, by omega⟩, ?_⟩
        rintro (hd | ⟨k, hk, rfl, hletter⟩)
        · cases hd
        · omega
      · rename_i hnotLower hnotUpper
        rw [hlower] at hnotLower
        rw [hupper] at hnotUpper
        refine ⟨nofun, ?_⟩
        rintro (hd | ⟨k, hk, rfl, hletter⟩)
        · cases hd
        · omega

theorem Denotes.ranges {base : Nat} {c : Char} {d : Nat} (h : Denotes base c d) :
    48 ≤ c.toNat ∧ c.toNat ≤ 57 ∨ 65 ≤ c.toNat ∧ c.toNat ≤ 70 ∨
      97 ≤ c.toNat ∧ c.toNat ≤ 102 ∨ 0x80 ≤ c.toNat := by
  have ha : 'a'.toNat = 97 := rfl
  have hA : 'A'.toNat = 65 := rfl
  rcases h.2 with ⟨hd, z, hz, hc⟩ | ⟨k, hk, -, hc⟩
  · have hzeros := digitZeros_cases z hz
    omega
  · omega

/-- No digit is white space, and none stands for half a character. -/
theorem Denotes.apart {base : Nat} {c : Char} {d : Nat} (h : Denotes base c d) :
    isBlank c = false ∧ c ≠ '\uFFFD' := by
  have hdecimal : ∀ z ∈ digitZeros, ∀ d < 10, z + d ∉ 0xFFFD :: blankCodes := by decide +kernel
  have hletters : ∀ k < 6, 97 + k ∉ 0xFFFD :: blankCodes ∧ 65 + k ∉ 0xFFFD :: blankCodes := by
    decide
  have hcode : c.toNat ∉ 0xFFFD :: blankCodes := by
    rcases h.2 with ⟨hd, z, hz, hc⟩ | ⟨k, hk, -, hc | hc⟩
    · rw [hc]
      exact hdecimal z hz d hd
    · rw [hc]
      exact (hletters k hk).1
    · rw [hc]
      exact (hletters k hk).2
  rw [List.mem_cons, not_or] at hcode
  refine ⟨by simpa [isBlank] using hcode.2, ?_⟩
  rintro rfl
  exact hcode.1 rfl

/-- What a run of digits denotes. Between two digits one underscore may stand. -/
inductive Digits (base : Nat) : List Char → Nat → Prop
  | one {c d} (h : Denotes base c d) : Digits base [c] d
  | next {cs n c d} (hs : Digits base cs n) (h : Denotes base c d) :
      Digits base (cs ++ [c]) (n * base + d)
  | spaced {cs n c d} (hs : Digits base cs n) (h : Denotes base c d) :
      Digits base (cs ++ ['_', c]) (n * base + d)

section

variable {base : Nat}

theorem digits_append {cs : List Char} {v : Nat} (h : digits base cs = some v)
    (tail : List Char) : digits base (cs ++ tail) = moreDigits base v tail := by
  cases cs with
  | nil => cases h
  | cons c rest =>
      obtain ⟨d, hd, hrest⟩ := Option.bind_eq_some_iff.1 h
      rw [List.cons_append, digits, hd]
      exact moreDigits_append hrest tail

theorem Digits.of_moreDigits {before cs : List Char} {acc v : Nat} (hs : Digits base before acc)
    (h : moreDigits base acc cs = some v) : Digits base (before ++ cs) v := by
  fun_induction moreDigits base acc cs generalizing before with
  | case1 acc =>
      cases h
      rwa [List.append_nil]
  | case2 acc c rest ih =>
      obtain ⟨d, hd, hrest⟩ := Option.bind_eq_some_iff.1 h
      have hgo := ih d (hs.spaced (digit?_eq_some.1 hd)) hrest
      rwa [List.append_assoc] at hgo
  | case3 acc c rest _ ih =>
      obtain ⟨d, hd, hrest⟩ := Option.bind_eq_some_iff.1 h
      have hgo := ih d (hs.next (digit?_eq_some.1 hd)) hrest
      rwa [List.append_assoc] at hgo

/-- Reading digits accepts the runs of digits, and gives what they denote. -/
theorem digits_iff {cs : List Char} {n : Nat} : digits base cs = some n ↔ Digits base cs n := by
  constructor
  · intro h
    cases cs with
    | nil => cases h
    | cons c rest =>
        obtain ⟨d, hd, hrest⟩ := Option.bind_eq_some_iff.1 h
        exact .of_moreDigits (.one (digit?_eq_some.1 hd)) hrest
  · intro h
    induction h with
    | one h => rw [digits, digit?_eq_some.2 h]; rfl
    | next hs h ih => rw [digits_append ih, moreDigits_cons (digit?_eq_some.2 h)]; rfl
    | spaced hs h ih => rw [digits_append ih, moreDigits, digit?_eq_some.2 h]; rfl

theorem Digits.mem {cs : List Char} {n : Nat} (h : Digits base cs n) :
    ∀ c ∈ cs, c = '_' ∨ ∃ d, Denotes base c d := by
  induction h with
  | one h => simpa using .inr ⟨_, h⟩
  | next hs h ih =>
      intro c hc
      rcases List.mem_append.1 hc with hc | hc
      · exact ih c hc
      · exact .inr ⟨_, List.mem_singleton.1 hc ▸ h⟩
  | spaced hs h ih =>
      intro c hc
      rcases List.mem_append.1 hc with hc | hc
      · exact ih c hc
      · rcases List.mem_cons.1 hc with rfl | hc
        · exact .inl rfl
        · exact .inr ⟨_, List.mem_singleton.1 hc ▸ h⟩

theorem Digits.head {cs : List Char} {n : Nat} (h : Digits base cs n) :
    ∃ c rest d, cs = c :: rest ∧ Denotes base c d := by
  induction h with
  | one h => exact ⟨_, [], _, rfl, h⟩
  | next hs h ih | spaced hs h ih =>
      obtain ⟨c, rest, d, rfl, hc⟩ := ih
      exact ⟨c, _, d, rfl, hc⟩

theorem Digits.plain {ds : List Char} {n : Nat} (h : Digits base ds n) :
    ∀ c ∈ ds, isBlank c = false := by
  intro c hc
  rcases h.mem c hc with rfl | ⟨d, hd⟩
  · decide
  · exact hd.apart.1

end

/-! ## Literals -/

inductive Sign : List Char → Int → Prop
  | none : Sign [] 1
  | plus : Sign ['+'] 1
  | minus : Sign ['-'] (-1)

theorem Sign.forall_mem {P : Char → Prop} {sign : List Char} {unit : Int} (h : Sign sign unit)
    (hplus : P '+') (hminus : P '-') : ∀ c ∈ sign, P c := by
  cases h with
  | none => exact List.forall_mem_nil _
  | plus => exact List.forall_mem_singleton.2 hplus
  | minus => exact List.forall_mem_singleton.2 hminus

/-- The mark of a base: a zero of some script and a letter, and perhaps an underscore. It may be
left out. -/
inductive Mark (base : Nat) : List Char → Prop
  | none : Mark base []
  | plain {z x} (hz : z.toNat ∈ digitZeros) (hx : x ∈ leadLetters base) : Mark base [z, x]
  | spaced {z x} (hz : z.toNat ∈ digitZeros) (hx : x ∈ leadLetters base) : Mark base [z, x, '_']

inductive Literal (base : Nat) : List Char → Int → Prop
  | mk {sign mark ds : List Char} {unit : Int} {n : Nat} (hsign : Sign sign unit)
      (hmark : Mark base mark) (hdigits : Digits base ds n) :
      Literal base (sign ++ (mark ++ ds)) (unit * n)

section

variable {base : Nat}

theorem leadLetter_cases {x : Char} (h : x ∈ leadLetters base) :
    digit? base x = none ∧ isBlank x = false ∧ x ≠ '\uFFFD' ∧ x ≠ '_' := by
  have hall : ∀ base ∈ [2, 8, 16], (leadLetters base).all fun x =>
      digit? base x = none ∧ isBlank x = false ∧ x ≠ '\uFFFD' ∧ x ≠ '_' := by decide
  refine of_decide_eq_true (List.all_eq_true.1 (hall base ?_) x h)
  unfold leadLetters at h
  split at h
  · simp [*]
  split at h
  · simp [*]
  split at h
  · simp [*]
  · cases h

theorem zero_iff {z : Char} : digitValue? z = some 0 ↔ z.toNat ∈ digitZeros := by
  rw [digitValue?_eq_some]
  simp

theorem zero_denotes {z : Char} (h : z.toNat ∈ digitZeros) : Denotes 1 z 0 :=
  ⟨by decide, .inl ⟨by decide, _, h, rfl⟩⟩

theorem dropLead_mark {mark ds : List Char} {n : Nat} (hmark : Mark base mark)
    (hdigits : Digits base ds n) : dropLead base (mark ++ ds) = ds := by
  obtain ⟨c, rest, d, rfl, hc⟩ := hdigits.head
  have hunderscore : c ≠ '_' := ne_underscore_of_digit (digit?_eq_some.2 hc)
  cases hmark with
  | none =>
      cases rest with
      | nil => rfl
      | cons x rest =>
          have hx : (leadLetters base).contains x = false := by
            rw [List.contains_eq_mem, decide_eq_false_iff_not]
            intro hlead
            obtain ⟨hdigit, -, -, hne⟩ := leadLetter_cases hlead
            rcases hdigits.mem x (by simp) with rfl | ⟨e, he⟩
            · exact hne rfl
            · rw [digit?_eq_some.2 he] at hdigit
              cases hdigit
          simp only [List.nil_append, dropLead, hx, Bool.false_eq_true, and_false, if_false]
  | @plain z x hz hx =>
      have hlead : digitValue? z = some 0 ∧ (leadLetters base).contains x = true :=
        ⟨zero_iff.2 hz, by simpa using hx⟩
      simp only [List.cons_append, List.nil_append, dropLead, if_pos hlead]
      split
      · rename_i heq
        cases heq
        exact absurd rfl hunderscore
      · rfl
  | @spaced z x hz hx =>
      have hlead : digitValue? z = some 0 ∧ (leadLetters base).contains x = true :=
        ⟨zero_iff.2 hz, by simpa using hx⟩
      simp only [List.cons_append, List.nil_append, dropLead, if_pos hlead]

/-- What stands before the digits of a number that is read is the mark of its base. -/
theorem unsigned_iff {cs : List Char} {n : Nat} : unsigned base cs = some n ↔
    ∃ mark ds, Mark base mark ∧ Digits base ds n ∧ cs = mark ++ ds := by
  constructor
  · intro h
    have hdigits := digits_iff.1 h
    unfold dropLead at hdigits
    split at hdigits
    · rename_i z x rest
      split at hdigits
      · rename_i hlead
        have hz := zero_iff.1 hlead.1
        have hx : x ∈ leadLetters base := by simpa using hlead.2
        split at hdigits
        · exact ⟨_, _, .spaced hz hx, hdigits, rfl⟩
        · exact ⟨_, _, .plain hz hx, hdigits, rfl⟩
      · exact ⟨[], _, .none, hdigits, rfl⟩
    · exact ⟨[], _, .none, hdigits, rfl⟩
  · rintro ⟨mark, ds, hmark, hdigits, rfl⟩
    rw [unsigned, dropLead_mark hmark hdigits]
    exact digits_iff.2 hdigits

/-- Neither white space nor half a character is in a literal. -/
theorem Literal.apart {cs : List Char} {n : Int} (h : Literal base cs n) :
    ∀ c ∈ cs, isBlank c = false ∧ c ≠ '\uFFFD' := by
  have hunderscore : isBlank '_' = false ∧ '_' ≠ '\uFFFD' := by decide
  obtain ⟨hsign, hmark, hdigits⟩ := h
  have hds : ∀ c ∈ _, isBlank c = false ∧ c ≠ '\uFFFD' := fun c hc => by
    rcases hdigits.mem c hc with rfl | ⟨d, hd⟩
    · exact hunderscore
    · exact hd.apart
  refine List.forall_mem_append.2 ⟨?_, List.forall_mem_append.2 ⟨?_, hds⟩⟩
  · exact hsign.forall_mem (by decide) (by decide)
  · cases hmark with
    | none => exact List.forall_mem_nil _
    | plain hz hx =>
        obtain ⟨-, hblank, hhalf, -⟩ := leadLetter_cases hx
        simpa using ⟨(zero_denotes hz).apart, hblank, hhalf⟩
    | spaced hz hx =>
        obtain ⟨-, hblank, hhalf, -⟩ := leadLetter_cases hx
        simpa using ⟨(zero_denotes hz).apart, ⟨hblank, hhalf⟩, hunderscore.1⟩

theorem isMargin_of_not_blank {c : Char} (h : isBlank c = false) : isMargin c = false := by
  simp [isMargin, h]

/-- Without a sign the first character is a digit. -/
theorem head_ne_sign {mark ds : List Char} {n : Nat} (hmark : Mark base mark)
    (hdigits : Digits base ds n) : ∃ c rest, mark ++ ds = c :: rest ∧ c ≠ '-' ∧ c ≠ '+' := by
  have hdigit {b : Nat} {c : Char} {d : Nat} (h : Denotes b c d) : c ≠ '-' ∧ c ≠ '+' := by
    have hranges := h.ranges
    constructor
    · rintro rfl
      revert hranges
      decide
    · rintro rfl
      revert hranges
      decide
  cases hmark with
  | none =>
      obtain ⟨c, rest, d, rfl, hc⟩ := hdigits.head
      exact ⟨c, rest, rfl, hdigit hc⟩
  | plain hz _ | spaced hz _ => exact ⟨_, _, rfl, hdigit (zero_denotes hz)⟩

def signed (negative : Bool) (n : Nat) : Int := if negative then -(n : Int) else n

theorem value?_eq_some {cs : List Char} {n : Int} : value? base cs = some n ↔
    ∃ v, unsigned base (dropSign cs).2 = some v ∧ signed (dropSign cs).1 v = n := by
  unfold value? signed
  cases hv : unsigned base (dropSign cs).2 <;> simp [hv]

/-- What is dropped is a sign. -/
theorem exists_sign (cs : List Char) : ∃ sign unit, Sign sign unit ∧
    trim isMargin cs = sign ++ (dropSign cs).2 ∧
      ∀ n, signed (dropSign cs).1 n = unit * (n : Int) := by
  unfold dropSign
  split
  · rename_i rest hbody
    exact ⟨_, _, .minus, hbody, fun n => by simp [signed]⟩
  · rename_i rest hbody
    exact ⟨_, _, .plus, hbody, fun n => by simp [signed]⟩
  · exact ⟨_, _, .none, rfl, fun n => by simp [signed]⟩

/-- A sign in front of something else is dropped. -/
theorem dropSign_sign {cs sign rest : List Char} {c : Char} {unit : Int} (hsign : Sign sign unit)
    (hc : c ≠ '-' ∧ c ≠ '+') (hbody : trim isMargin cs = sign ++ c :: rest) :
    (dropSign cs).2 = c :: rest ∧ ∀ n, signed (dropSign cs).1 n = unit * (n : Int) := by
  unfold dropSign
  rw [hbody]
  cases hsign with
  | none =>
      rw [List.nil_append]
      split
      · rename_i heq
        cases heq
        exact absurd rfl hc.1
      · rename_i heq
        cases heq
        exact absurd rfl hc.2
      · exact ⟨rfl, fun n => by simp [signed]⟩
  | plus => exact ⟨rfl, fun n => by simp [signed]⟩
  | minus => exact ⟨rfl, fun n => by simp [signed]⟩

/-- Reading a literal accepts what is one without its margins, and gives what it denotes. -/
theorem value?_iff {cs : List Char} {n : Int} :
    value? base cs = some n ↔ Literal base (trim isMargin cs) n := by
  rw [value?_eq_some]
  constructor
  · rintro ⟨v, hv, rfl⟩
    obtain ⟨sign, unit, hsign, hbody, hunit⟩ := exists_sign cs
    obtain ⟨mark, ds, hmark, hdigits, hrest⟩ := unsigned_iff.1 hv
    rw [hbody, hrest, hunit]
    exact .mk hsign hmark hdigits
  · intro h
    generalize hbody : trim isMargin cs = body at h
    cases h with
    | @mk sign mark ds unit n hsign hmark hdigits =>
        obtain ⟨c, rest, hhead, hc⟩ := head_ne_sign hmark hdigits
        rw [hhead] at hbody
        obtain ⟨hrest, hunit⟩ := dropSign_sign hsign hc hbody
        refine ⟨n, ?_, hunit n⟩
        rw [hrest, ← hhead]
        exact unsigned_iff.2 ⟨mark, ds, hmark, hdigits, rfl⟩

/-- A literal is read between its margins. -/
theorem Literal.value? {before body after : List Char} {n : Int} (h : Literal base body n)
    (hbefore : ∀ c ∈ before, isMargin c = true) (hafter : ∀ c ∈ after, isMargin c = true) :
    value? base (before ++ body ++ after) = some n := by
  have hbody : ∀ c ∈ body, isMargin c = false := fun c hc =>
    isMargin_of_not_blank (h.apart c hc).1
  rw [value?_iff, trim_margins hbefore hafter hbody]
  exact h

/-- All digits of a run count, and no underscore. -/
theorem leadingDigits_of_digits {ds : List Char} {n : Nat} (h : Digits base ds n) :
    leadingDigits base ds = ds.countP (· ≠ '_') := by
  have hall : ∀ c ∈ ds, (isDigit base c || decide (c = '_')) = true := by
    intro c hc
    rcases h.mem c hc with rfl | ⟨d, hd⟩
    · simp
    · simp [isDigit, digit?_eq_some.2 hd]
  have hrun : (ds.takeWhile fun c => isDigit base c || decide (c = '_')) = ds :=
    List.takeWhile_eq_self_iff.2 hall
  have hdigits : (digits base ds).isSome = true := by simp [digits_iff.2 h]
  unfold leadingDigits
  rw [hrun]
  dsimp only
  rw [if_pos hdigits]
  refine List.countP_congr fun c hc => ?_
  rcases h.mem c hc with rfl | ⟨d, hd⟩
  · have hnone : digit? base '_' = none := by
      cases hdigit : digit? base '_' with
      | none => rfl
      | some d => exact absurd rfl (ne_underscore_of_digit hdigit)
    simp [isDigit, hnone]
  · have hsome := digit?_eq_some.2 hd
    simp [isDigit, hsome, ne_underscore_of_digit hsome]

end

/-! ## Numerals -/

section

variable {base : Nat}

theorem digits_of_moreDigits {cs : List Char} {n : Nat} (hne : cs ≠ [])
    (hplain : ∀ c ∈ cs, c ≠ '_') (h : moreDigits base 0 cs = some n) : Digits base cs n := by
  rw [← digits_iff]
  cases cs with
  | nil => exact absurd rfl hne
  | cons c rest =>
      rw [moreDigits] at h
      · rw [digits]
        simpa using h
      · rintro _ _ rfl
        exact absurd rfl (hplain '_' List.mem_cons_self)

/-- The case of a hexadecimal digit does not count. -/
theorem digit?_toUpper (c : Char) : digit? 16 c.toUpper = digit? 16 c := by
  have hletters : ∀ k < 26, digit? 16 (Char.ofNat (97 + k)).toUpper =
      digit? 16 (Char.ofNat (97 + k)) := by decide
  by_cases hlower : 97 ≤ c.toNat ∧ c.toNat ≤ 122
  · have hcode : 97 + (c.toNat - 97) = c.toNat := by omega
    have hsame := hletters (c.toNat - 97) (by omega)
    rwa [hcode, Char.ofNat_toNat] at hsame
  · have hkept : c.toUpper = c := dif_neg hlower
    rw [hkept]

theorem toUpper_ne_underscore {c : Char} (h : c.toUpper ≠ '_') : c ≠ '_' := by
  rintro rfl
  exact h rfl

/-- Hexadecimal digits denote the same in either case. -/
theorem moreDigits_toUpper {cs : List Char} (h : ∀ c ∈ cs, c.toUpper ≠ '_') (acc : Nat) :
    moreDigits 16 acc (cs.map Char.toUpper) = moreDigits 16 acc cs := by
  induction cs generalizing acc with
  | nil => rfl
  | cons c cs ih =>
      have hc := h c List.mem_cons_self
      have hrest (acc : Nat) := ih (fun d hd => h d (List.mem_cons_of_mem _ hd)) acc
      rw [List.map_cons, moreDigits, moreDigits, digit?_toUpper]
      · simp only [hrest]
      · rintro _ _ rfl
        exact absurd rfl (toUpper_ne_underscore hc)
      · rintro _ _ heq
        exact absurd heq hc

end

end Integer

end RomListing.Text
