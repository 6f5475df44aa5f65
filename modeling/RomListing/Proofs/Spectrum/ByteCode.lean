import RomListing.Proofs.Cursor.Reading
import RomListing.Spectrum.Calculator

/-! # The byte code of the calculator as a language

Byte code is made of groups, each an operation with as many numbers after it as it asks for. The
first byte of a number tells how many bytes it has, so that nothing in it is taken for an operation.
The bytes of an image can be read in one way only. What the calculator makes of a place is the token
there.
-/

namespace RomListing.Spectrum.ByteCode

open Calculator (isJump isSeries literalRest entry byteList operationName operationRemark)

def jumps : List UInt8 := [0x00, 0x33, 0x35]

def operands (code : UInt8) : Nat :=
  if code = 0x34 then 1
  else if code = 0x86 then 6
  else if code = 0x88 then 8
  else if code = 0x8C then 12
  else 0

def numberSize (first : UInt8) : Nat :=
  2 + first.toNat / 64 + if first.toNat % 64 = 0 then 1 else 0

inductive Token where
  | operation (code : UInt8) (plain : code ∉ jumps)
  | jump (code distance : UInt8) (jumps : code ∈ jumps)
  | number (first : UInt8) (rest : List UInt8) (sized : rest.length + 1 = numberSize first)

namespace Token

def bytes : Token → List UInt8
  | operation code _ => [code]
  | jump code distance _ => [code, distance]
  | number first rest _ => first :: rest

/-- How many numbers the token asks for. A number asks for nothing; it is asked for. -/
def asks : Token → Option Nat
  | operation code _ => some (operands code)
  | jump _ _ _ => some 0
  | number _ _ _ => none

theorem bytes_pos (t : Token) : 0 < t.bytes.length := by
  cases t <;> exact Nat.succ_pos _

end Token

inductive Program : List Token → Prop where
  | nil : Program []
  | group {head : Token} {numbers rest : List Token} : head.asks = some numbers.length →
      (∀ t ∈ numbers, t.asks = none) → Program rest → Program (head :: (numbers ++ rest))

def size (ts : List Token) : Nat := (ts.flatMap Token.bytes).length

@[simp] theorem size_nil : size [] = 0 := rfl

@[simp] theorem size_cons (t : Token) (ts : List Token) :
    size (t :: ts) = t.bytes.length + size ts := by
  simp [size]

@[simp] theorem size_append (ts us : List Token) : size (ts ++ us) = size ts + size us := by
  simp [size]

/-- The bytes of the image from `a` on are those of the tokens. -/
def Spells (m : Image) (a : Int) (ts : List Token) : Prop :=
  ts.flatMap Token.bytes = m.slice a (size ts)

/-- The tokens are a reading of the image from `first` on, up to some place behind `last`. -/
structure Reading (m : Image) (first last : Int) (ts : List Token) : Prop where
  program : Program ts
  spells : Spells m first ts
  reaches : last < first + size ts

/-- The tokens that start at `last` or before, with their places; the first one is at `a`. -/
def upTo (last : Int) : Int → List Token → List (Int × Token)
  | _, [] => []
  | a, t :: ts => if a ≤ last then (a, t) :: upTo last (a + t.bytes.length) ts else []

variable {m : Image} {a last : Int} {n : Nat} {t : Token} {ts us : List Token}

theorem upTo_of_lt (h : last < a) (ts : List Token) : upTo last a ts = [] := by
  cases ts with
  | nil => rfl
  | cons t ts => exact if_neg (by omega)

/-- Only the last one of the tokens may end behind `last`. -/
theorem upTo_ends {before after : List (Int × Token)} {x : Int × Token}
    (h : upTo last a ts = before ++ x :: after) (hafter : after ≠ []) :
    x.1 + x.2.bytes.length ≤ last := by
  induction ts generalizing a before with
  | nil => simp [upTo] at h
  | cons t ts ih =>
      by_cases hle : a ≤ last
      · rw [upTo, if_pos hle] at h
        cases before with
        | cons y before => exact ih (List.cons_eq_cons.1 h).2
        | nil =>
            obtain ⟨rfl, hrest⟩ := List.cons_eq_cons.1 h
            refine Int.not_lt.1 fun hlt => hafter ?_
            rw [← hrest]
            exact upTo_of_lt hlt ts
      · rw [upTo_of_lt (by omega)] at h
        simp at h

theorem spells_cons : Spells m a (t :: ts) ↔
    t.bytes = m.slice a t.bytes.length ∧ Spells m (a + t.bytes.length) ts := by
  unfold Spells
  rw [List.flatMap_cons, size_cons, Image.slice_add]
  constructor
  · exact fun h => List.append_inj h (by simp)
  · rintro ⟨hfirst, hrest⟩
    rw [← hfirst, hrest]

theorem Spells.append (h : Spells m a ts) (h' : Spells m (a + size ts) us) :
    Spells m a (ts ++ us) := by
  unfold Spells
  rw [List.flatMap_append, h, h', size_append, Image.slice_add]

/-! ## One way to read -/

/-- The token at a place, if so many numbers are due there. -/
def read (m : Image) (due : Nat) (a : Int) : Token :=
  let code := m.byteAt a
  if due = 0 then
    if h : code ∈ jumps then .jump code (m.byteAt (a + 1)) h else .operation code h
  else
    .number code (m.slice (a + 1) (numberSize code - 1)) <| by
      rw [Image.slice_length]
      unfold numberSize
      omega

theorem read_bytes (m : Image) (due : Nat) (a : Int) :
    (read m due a).bytes = m.slice a (read m due a).bytes.length := by
  unfold read
  dsimp only
  split
  · split <;> rfl
  · simp only [Token.bytes, List.length_cons, Image.slice_length]
    rfl

theorem read_asks (m : Image) (due : Nat) (a : Int) :
    (read m due a).asks = none ↔ due ≠ 0 := by
  unfold read
  dsimp only
  split
  · split <;> simp [Token.asks, *]
  · simp [Token.asks, *]

/-- What is due and the bytes tell the token. -/
theorem eq_read (hbytes : t.bytes = m.slice a t.bytes.length) (hasks : t.asks = none ↔ n ≠ 0) :
    t = read m n a := by
  have hzero (hsome : t.asks ≠ none) : n = 0 :=
    Decidable.of_not_not fun hdue => hsome (hasks.2 hdue)
  have hfirst {b : UInt8} {bs : List UInt8} {n : Nat} (h : b :: bs = m.slice a (n + 1)) :
      b = m.byteAt a ∧ bs = m.slice (a + 1) n := List.cons_eq_cons.1 h
  unfold read
  dsimp only
  cases t with
  | operation code hplain =>
      obtain rfl := hzero nofun
      obtain ⟨rfl, -⟩ := hfirst hbytes
      rw [if_pos rfl, dif_neg hplain]
  | jump code distance hjump =>
      obtain rfl := hzero nofun
      obtain ⟨rfl, hrest⟩ := hfirst hbytes
      obtain ⟨rfl, -⟩ := List.cons_eq_cons.1 hrest
      rw [if_pos rfl, dif_pos hjump]
  | number first rest hsized =>
      obtain ⟨rfl, hrest⟩ := hfirst hbytes
      have hlength : rest.length = numberSize (m.byteAt a) - 1 := by omega
      rw [if_neg (hasks.1 rfl)]
      congr 1
      rw [hrest, hlength]

/-- Tokens that start with so many numbers and go on with groups. -/
def Due (n : Nat) (ts : List Token) : Prop :=
  ∃ numbers rest, ts = numbers ++ rest ∧ numbers.length = n ∧ (∀ t ∈ numbers, t.asks = none) ∧
    Program rest

theorem Program.due_zero (h : Program ts) : Due 0 ts := ⟨[], ts, rfl, rfl, by simp, h⟩

/-- A number is one less that is due; an operation has all due that it asks for. -/
theorem Due.cons (h : Due n (t :: ts)) :
    (t.asks = none ↔ n ≠ 0) ∧ Due (t.asks.getD (n - 1)) ts := by
  obtain ⟨numbers, rest, hsplit, rfl, hnumbers, hrest⟩ := h
  cases numbers with
  | cons number numbers =>
      obtain ⟨rfl, rfl⟩ := List.cons_eq_cons.1 hsplit
      have hnone : t.asks = none := hnumbers t List.mem_cons_self
      rw [hnone]
      refine ⟨by simp, numbers, rest, rfl, rfl, ?_, hrest⟩
      exact fun t ht => hnumbers t (List.mem_cons_of_mem _ ht)
  | nil =>
      obtain rfl : t :: ts = rest := hsplit
      cases hrest with
      | group hasks hnumbers hrest =>
          rw [hasks]
          exact ⟨by simp, _, _, rfl, rfl, hnumbers, hrest⟩

theorem Due.head_eq_read (h : Due n (t :: ts)) (hspells : Spells m a (t :: ts)) :
    t = read m n a := eq_read (spells_cons.1 hspells).1 h.cons.1

/-- What tokens that are due at a place can be read as there up to `last` is one thing only. -/
theorem Due.upTo_eq (h : Due n ts) (h' : Due n us) (hts : Spells m a ts)
    (hus : Spells m a us) (hreach : last < a + size ts) (hreach' : last < a + size us) :
    upTo last a ts = upTo last a us := by
  induction ts generalizing a n us with
  | nil =>
      have hlt : last < a := by simpa using hreach
      rw [upTo_of_lt hlt, upTo_of_lt hlt]
  | cons t ts ih =>
      by_cases hle : a ≤ last
      · cases us with
        | nil => exact absurd hle (by simpa using hreach')
        | cons u us =>
            obtain rfl : t = u := (h.head_eq_read hts).trans (h'.head_eq_read hus).symm
            rw [size_cons] at hreach hreach'
            rw [upTo, upTo, if_pos hle, if_pos hle,
              ih h.cons.2 h'.cons.2 (spells_cons.1 hts).2 (spells_cons.1 hus).2 (by omega) (by omega)]
      · rw [upTo_of_lt (by omega), upTo_of_lt (by omega)]

theorem Reading.upTo_eq {first : Int} (h : Reading m first last ts)
    (h' : Reading m first last us) : upTo last first ts = upTo last first us :=
  h.program.due_zero.upTo_eq h'.program.due_zero h.spells h'.spells h.reaches h'.reaches

/-! ## A way to read -/

theorem exists_numbers (m : Image) (n : Nat) (a : Int) : ∃ numbers : List Token,
    numbers.length = n ∧ (∀ t ∈ numbers, t.asks = none) ∧ Spells m a numbers := by
  induction n generalizing a with
  | zero => exact ⟨[], rfl, by simp, rfl⟩
  | succ n ih =>
      obtain ⟨numbers, rfl, hnumbers, hspells⟩ := ih (a + (read m 1 a).bytes.length)
      have hasks : (read m 1 a).asks = none := (read_asks m 1 a).2 Nat.one_ne_zero
      exact ⟨read m 1 a :: numbers, rfl, List.forall_mem_cons.2 ⟨hasks, hnumbers⟩,
        spells_cons.2 ⟨read_bytes m 1 a, hspells⟩⟩

/-- Every byte string is byte code, read on as far as is asked for. -/
theorem exists_reading (m : Image) (first last : Int) : ∃ ts, Reading m first last ts := by
  by_cases hlt : last < first
  · exact ⟨[], .nil, rfl, by simpa using hlt⟩
  · have hsome : (read m 0 first).asks ≠ none := fun hnone => (read_asks m 0 first).1 hnone rfl
    obtain ⟨n, hasks⟩ := Option.ne_none_iff_exists'.1 hsome
    obtain ⟨numbers, rfl, hnumbers, hspells⟩ := exists_numbers m n (first + (read m 0 first).bytes.length)
    have hpos := (read m 0 first).bytes_pos
    obtain ⟨rest, hrest⟩ :=
      exists_reading m (first + (read m 0 first).bytes.length + size numbers) last
    have hreaches := hrest.reaches
    refine ⟨read m 0 first :: (numbers ++ rest), .group hasks hnumbers hrest.program, ?_, ?_⟩
    · exact spells_cons.2 ⟨read_bytes m 0 first, hspells.append hrest.spells⟩
    · rw [size_cons, size_append]
      omega
  termination_by (last + 1 - first).toNat
  decreasing_by omega

/-! ## What tokens show -/

/-- Where a jump leads to. The distance counts from its own byte; where the image ends before it,
from the code. -/
def target (s : Setting) (place : Int) (distance : UInt8) : Int :=
  s.shownAddress
    (if place + 1 ≤ s.image.last then place + 1 + signedByte distance.toNat else place)

namespace Token

variable (s : Setting) (place : Int)

def remark : Token → Option Text
  | operation code _ => some (operationRemark s code)
  | jump code distance _ =>
      some ("(" ++ (operationName code).getD "" ++ ": L" ++
        Numeral.hex4 (target s place distance) ++ ")")
  | number first rest _ =>
      (FiveBytes.ofCompact (first :: rest)).toOption.map fun n => "(" ++ n.value.fixedText 6 ++ ")"

def item (t : Token) : Item :=
  { address := s.shownAddress place
    opcodes := t.bytes
    text := byteList s t.bytes
    remark := t.remark s place }

def references : Token → List Reference
  | jump _ distance _ => [⟨target s place distance, s.shownAddress place⟩]
  | operation _ _ | number _ _ _ => []

end Token

/-! ## Single entries -/

theorem isJump_iff (code : UInt8) : isJump code = true ↔ code ∈ jumps := by
  simp [isJump, jumps, or_assoc]

theorem numbersAfter_eq (code : UInt8) : Calculator.numbersAfter code = operands code := by
  have hseries : isSeries code = true ↔ code = 0x86 ∨ code = 0x88 ∨ code = 0x8C := by
    simp [isSeries, or_assoc]
  unfold Calculator.numbersAfter operands
  simp only [hseries]
  by_cases hseries : code = 0x86 ∨ code = 0x88 ∨ code = 0x8C
  · rcases hseries with rfl | rfl | rfl <;> rfl
  · rw [if_neg hseries, if_neg fun h => hseries (.inl h), if_neg fun h => hseries (.inr (.inl h)),
      if_neg fun h => hseries (.inr (.inr h))]

theorem literalRest_eq (first : UInt8) : literalRest first = numberSize first - 1 := by
  have hlow : first &&& 0x3F = 0 ↔ first.toNat % 64 = 0 := by
    rw [← UInt8.toNat_inj, UInt8.toNat_and]
    show first.toNat &&& (2 ^ 6 - 1) = 0 ↔ _
    rw [Nat.and_two_pow_sub_one_eq_mod]
  have hhigh : (first / 0x40).toNat = first.toNat / 64 := UInt8.toNat_div first 0x40
  unfold literalRest numberSize
  rw [hhigh]
  simp only [hlow]
  omega

variable {s : Setting} {c : Cursor}

/-- A distance that is missing is 0, and then the jump seems to lead to its own code. -/
theorem jump_target (hbase : s.image.base ≤ c.offset) (hlast : c.offset ≤ s.image.last) :
    let after := ((c.fetch s).2.fetch s).2
    let distance := s.image.byteAt (c.offset + 1)
    s.shownAddress (after.offset - 1 + signedByte distance.toNat) =
      target s c.offset distance := by
  have hreads : c.Reads s 2 ((c.fetch s).2.fetch s).2 :=
    (c.fetch_reads s).trans (Cursor.fetch_reads s _)
  have hoffset := hreads.offset
  have havailable := Image.available_eq_min hbase 2
  unfold target
  dsimp only
  congr 1
  split
  · omega
  · have hzero : signedByte (s.image.byteAt (c.offset + 1)).toNat = 0 := by
      rw [Image.byteAt_of_last_lt (by omega)]
      decide
    omega

/-- The token at a place and what comes after it, as an entry. -/
structure Shows (s : Setting) (due : Nat) (c : Cursor) (t : Token) (e : Calculator.Entry) :
    Prop where
  item : e.item = t.item s c.offset
  references : e.references = t.references s c.offset
  pending : e.pending = t.asks.getD (due - 1)
  reads : c.Reads s t.bytes.length e.cursor

theorem jump_shows (hbase : s.image.base ≤ c.offset) (hlast : c.offset ≤ s.image.last)
    (due : Nat) (code : UInt8) (h : code ∈ jumps) :
    Shows s due c (.jump code (s.image.byteAt (c.offset + 1)) h)
      (Calculator.jump s code c (c.fetch s).2) := by
  have hdistance : ((c.fetch s).2.fetch s).1 = s.image.byteAt (c.offset + 1) :=
    (c.fetch_reads s).fetch_byte hbase
  unfold Calculator.jump
  dsimp only
  rw [hdistance, jump_target hbase hlast]
  exact ⟨rfl, rfl, rfl, (c.fetch_reads s).trans (Cursor.fetch_reads s _)⟩

theorem literal_shows (hbase : s.image.base ≤ c.offset) (due : Nat) {rest : List UInt8}
    (hrest : rest = s.image.slice (c.offset + 1) (numberSize (s.image.byteAt c.offset) - 1))
    (h : rest.length + 1 = numberSize (s.image.byteAt c.offset)) :
    Shows s due c (.number (s.image.byteAt c.offset) rest h) (Calculator.literal s due c) := by
  have hcode : (c.fetch s).1 = s.image.byteAt c.offset := c.fetch_byte s
  have hcount : literalRest (c.fetch s).1 = rest.length := by
    rw [literalRest_eq, hcode, ← h, Nat.add_sub_cancel]
  have hbytes : ((c.fetch s).2.fetchMany s rest.length).1 = rest := by
    have hlength : rest.length = numberSize (s.image.byteAt c.offset) - 1 := by omega
    rw [(c.fetch_reads s).fetchMany_bytes hbase, hlength]
    exact hrest.symm
  have hreads := (c.fetch_reads s).trans (Cursor.fetchMany_reads s rest.length (c.fetch s).2)
  rw [Nat.add_comm] at hreads
  unfold Calculator.literal
  dsimp only
  rw [hcount, hbytes, hcode]
  exact ⟨rfl, rfl, rfl, hreads⟩

/-- An entry is the token at its place, and then as many numbers are due as the token says. -/
theorem entry_shows (due : Nat) (hbase : s.image.base ≤ c.offset)
    (hlast : c.offset ≤ s.image.last) :
    Shows s due c (read s.image due c.offset) (entry s due c) := by
  have hcode : (c.fetch s).1 = s.image.byteAt c.offset := c.fetch_byte s
  unfold entry read
  dsimp only
  by_cases hdue : due = 0
  · rw [if_pos hdue, if_neg (Decidable.not_not.2 hdue), hcode]
    by_cases hjump : isJump (s.image.byteAt c.offset) = true
    · rw [if_pos hjump, dif_pos ((isJump_iff _).1 hjump)]
      exact jump_shows hbase hlast due _ _
    · rw [if_neg hjump, dif_neg fun h => hjump ((isJump_iff _).2 h)]
      exact ⟨rfl, rfl, numbersAfter_eq _, c.fetch_reads s⟩
  · rw [if_neg hdue, if_pos hdue]
    exact literal_shows hbase due rfl _

end RomListing.Spectrum.ByteCode
