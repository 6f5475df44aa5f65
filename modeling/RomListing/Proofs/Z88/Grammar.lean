import RomListing.Proofs.Pass.Contiguous
import RomListing.Z88.Conventions

/-! # The grammar of code under the conventions of the Z88

Code is a row of phrases. The byte at a place tells what stands there: a call with so many bytes, one
of them with a text behind it, or else an instruction. The parser goes by places and by the bytes of
the image alone; bytes that the image does not have are 0.
-/

namespace RomListing.Z88

/-! ## Texts -/

/-- The text from a place on: up to the first zero, which is part of it, or to the end of the
image. -/
def storedText (m : Image) (place : Int) : List UInt8 :=
  let bytes := m.slice place (m.last + 1 - place).toNat
  bytes.takeWhile (· ≠ 0) ++ (bytes.dropWhile (· ≠ 0)).take 1

section

variable {m : Image} {place : Int}

theorem storedText_of_last_lt (h : m.last < place) : storedText m place = [] := by
  have hnone : (m.last + 1 - place).toNat = 0 := by omega
  rw [storedText, hnone]
  rfl

theorem storedText_of_le (h : place ≤ m.last) : storedText m place =
    m.byteAt place :: if m.byteAt place = 0 then [] else storedText m (place + 1) := by
  have hone : (m.last + 1 - place).toNat = (m.last + 1 - (place + 1)).toNat + 1 := by omega
  unfold storedText
  rw [hone, Image.slice]
  by_cases hzero : m.byteAt place = 0 <;> simp [hzero]

theorem storedText_slice (h : place ≤ m.last + 1) :
    storedText m place = m.slice place (storedText m place).length ∧
      place + (storedText m place).length ≤ m.last + 1 := by
  let n := (m.last + 1 - place).toNat
  have hstarts : storedText m place <+: m.slice place n := by
    have hsplit := List.takeWhile_append_dropWhile (p := (· ≠ 0)) (l := m.slice place n)
    conv_rhs => rw [← hsplit]
    exact (List.prefix_append_right_inj _).2 (List.take_prefix 1 _)
  have hle : (storedText m place).length ≤ n := by simpa using hstarts.length_le
  obtain ⟨k, hk⟩ := Nat.exists_eq_add_of_le hle
  have htake := List.prefix_iff_eq_take.1 hstarts
  rw [hk, Image.slice_add, List.take_left' (Image.slice_length ..)] at htake
  exact ⟨htake, by omega⟩

end

/-! ## Phrases -/

section

variable (s : Setting) (place : Int)

def call (n : Nat) (text : String) : Item :=
  { address := s.shownAddress place
    opcodes := s.image.slice place n
    text := text
    partition := s.options.partitionAt place }

/-- The text that a call at a place has behind it. An empty one is not listed. -/
def continuation (bytes : List UInt8) : List Item :=
  if bytes = [] then []
  else
    [{ address := s.shownAddress place
       opcodes := bytes
       text := (".defb " ++ stringOperand bytes : String)
       partition := s.options.partitionAt place
       continuation := true }]

def phrase (q : Processor) : List Item :=
  let first := s.image.byteAt place
  let second := s.image.byteAt (place + 1)
  let third := s.image.byteAt (place + 2)
  if first = 0xDF then [call s place 2 ("fpp " ++ callName floatCalls second.toNat)]
  else if first = 0xE7 then
    if second ∈ [0x06, 0x09, 0x0C] then
      [call s place 3 ("oz " ++ callName systemCalls (second.toNat + 0x100 * third.toNat))]
    else
      call s place 2 ("oz " ++ callName systemCalls second.toNat) ::
        if second = 0x93 then continuation s place (storedText s.image (place + 2)) else []
  else if first = 0xEF then
    let fourth := s.image.byteAt (place + 3)
    let target := second.toNat + 0x100 * third.toNat + 0x10000 * fourth.toNat
    [call s place 4 ("extcall $" ++ String.ofList (Nat.toDigits 16 target))]
  else if first = 0xF7 then [call s place 1 "rst oz_mbp"]
  else [(q.instructionSet.decode s { offset := place }).item]

end

/-- What an item is that the image cuts off: a call that has bytes behind its first one. -/
def IsLongCall (item : Item) : Prop :=
  item.continuation = false ∧ item.opcodes.head? ∈ [some 0xDF, some 0xE7, some 0xEF]

/-- Items that list the bytes from `first` on up to behind `last`, none left out and none twice. They
go on behind the end of the image only if it cuts off a call, which is the last of them. -/
structure Gapless (s : Setting) (first last : Int) (items : List Item) : Prop where
  bytes : items.flatMap Item.opcodes = s.image.slice first (byteCount items)
  reaches : last < first + byteCount items
  inside : first + byteCount items ≤ s.image.last + 1 ∨
    ∃ before cut, items = before ++ [cut] ∧ IsLongCall cut ∧ first + byteCount before ≤ last

variable {s : Setting} {place last : Int} {q : Processor}

theorem Gapless.mono {first last' : Int} {items : List Item} (h : Gapless s first last items)
    (hle : last ≤ last') (hreach : last' < first + byteCount items) :
    Gapless s first last' items := by
  refine ⟨h.bytes, hreach, h.inside.imp id ?_⟩
  rintro ⟨before, cut, hsplit, hcut, hstart⟩
  exact ⟨before, cut, hsplit, hcut, by omega⟩

/-- Where items end others may go on. -/
theorem Gapless.append {first last' : Int} {items more : List Item}
    (h : Gapless s first last' items) (h' : Gapless s (first + byteCount items) last more) :
    Gapless s first last (items ++ more) := by
  have hreaches := h'.reaches
  refine ⟨?_, ?_, ?_⟩
  · rw [List.flatMap_append, h.bytes, h'.bytes, byteCount_append, Image.slice_add]
  · rw [byteCount_append]
    omega
  · rcases h'.inside with hinside | ⟨before, cut, rfl, hcut, hstart⟩
    · rw [byteCount_append]
      exact .inl (by omega)
    · refine .inr ⟨items ++ before, cut, (List.append_assoc ..).symm, hcut, ?_⟩
      rw [byteCount_append]
      omega

theorem call_opcodes_length (n : Nat) (text : String) : (call s place n text).opcodes.length = n :=
  Image.slice_length ..

theorem continuation_opcodes (s : Setting) (place : Int) (bytes : List UInt8) :
    (continuation s place bytes).flatMap Item.opcodes = bytes := by
  unfold continuation
  split <;> simp [*]

/-- A call alone. -/
theorem call_gapless {n : Nat} {text : String} (hpos : 0 < n)
    (h : n = 1 ∨ s.image.byteAt place ∈ [0xDF, 0xE7, 0xEF]) (hlast : place ≤ s.image.last) :
    Gapless s place place [call s place n text] := by
  have hcount : byteCount [call s place n text] = n := by simp [call_opcodes_length]
  refine ⟨?_, ?_, ?_⟩
  · rw [hcount]
    exact List.append_nil _
  · omega
  · rcases h with rfl | hlong
    · exact .inl (by omega)
    · obtain ⟨k, rfl⟩ := Nat.exists_eq_succ_of_ne_zero (Nat.ne_of_gt hpos)
      refine .inr ⟨[], _, rfl, ⟨rfl, ?_⟩, by simp⟩
      simpa [call, Image.slice] using hlong

/-- A call with a text behind it, all of it in the image. -/
theorem text_gapless {text : String} (hin : place + 2 ≤ s.image.last + 1) :
    Gapless s place place
      (call s place 2 text :: continuation s place (storedText s.image (place + 2))) := by
  obtain ⟨hslice, hend⟩ := storedText_slice hin
  have hbytes := continuation_opcodes s place (storedText s.image (place + 2))
  have hcount : byteCount
      (call s place 2 text :: continuation s place (storedText s.image (place + 2))) =
        2 + (storedText s.image (place + 2)).length := by
    rw [byteCount_cons, call_opcodes_length, byteCount, hbytes]
  refine ⟨?_, by omega, .inl (by omega)⟩
  rw [hcount, List.flatMap_cons, hbytes, Image.slice_add]
  exact congrArg (s.image.slice place 2 ++ ·) hslice

theorem phrase_gapless (q : Processor) (hbase : s.image.base ≤ place)
    (hlast : place ≤ s.image.last) : Gapless s place place (phrase s place q) := by
  unfold phrase
  dsimp only
  by_cases hfloat : s.image.byteAt place = 0xDF
  · rw [if_pos hfloat]
    exact call_gapless (by decide) (.inr (by simp [hfloat])) hlast
  rw [if_neg hfloat]
  by_cases hsystem : s.image.byteAt place = 0xE7
  · have hlong : s.image.byteAt place ∈ [0xDF, 0xE7, 0xEF] := by simp [hsystem]
    rw [if_pos hsystem]
    split
    · exact call_gapless (by decide) (.inr hlong) hlast
    split
    · rename_i hcode
      refine text_gapless (Int.not_lt.1 fun hmissing => ?_)
      -- the code would be read as 0 if it were missing
      rw [Image.byteAt_of_last_lt (by omega)] at hcode
      cases hcode
    · exact call_gapless (by decide) (.inr hlong) hlast
  rw [if_neg hsystem]
  by_cases hfar : s.image.byteAt place = 0xEF
  · rw [if_pos hfar]
    exact call_gapless (by decide) (.inr (by simp [hfar])) hlast
  rw [if_neg hfar]
  split
  · exact call_gapless (by decide) (.inl rfl) hlast
  · have hlies := q.sound.decode_liesAt hbase hlast
    have hpos := hlies.sized.1
    have hinside := hlies.inside
    refine ⟨?_, ?_, .inl ?_⟩
    · simpa using hlies.bytes
    · rw [byteCount_cons]
      omega
    · rw [byteCount_cons]
      exact hinside

theorem byteCount_phrase_pos (q : Processor) (hin : (s.image.byte? place).isSome = true) :
    0 < byteCount (phrase s place q) := by
  obtain ⟨hbase, hlast⟩ := Image.byte?_isSome_iff.1 hin
  have hreaches := (phrase_gapless q hbase hlast).reaches
  omega

/-! ## Listings -/

/-- The phrases from a place on, as far as they start at `last` or before. -/
def listing (s : Setting) (last : Int) (q : Processor) (place : Int) : List Item :=
  if place ≤ last ∧ (s.image.byte? place).isSome = true then
    phrase s place q ++ listing s last q (place + byteCount (phrase s place q))
  else []
  termination_by (last + 1 - place).toNat
  decreasing_by
    rename_i hin
    have hpos := byteCount_phrase_pos q hin.2
    omega

/-- Phrases stand one behind the other. -/
theorem listing_gapless (hfit : last ≤ s.image.last) (hbase : s.image.base ≤ place)
    (hle : place ≤ last) : Gapless s place last (listing s last q place) := by
  fun_induction listing s last q place with
  | case1 place hin ih =>
      have hphrase := phrase_gapless q hbase (Int.le_trans hle hfit)
      by_cases hgoes : place + byteCount (phrase s place q) ≤ last
      · exact hphrase.append (ih (by omega) hgoes)
      · have hnil : listing s last q (place + byteCount (phrase s place q)) = [] := by
          rw [listing, if_neg fun h => hgoes h.1]
        rw [hnil, List.append_nil]
        exact hphrase.mono hle (by omega)
  | case2 place hout =>
      exact absurd ⟨hle, Image.byte?_isSome_iff.2 ⟨hbase, Int.le_trans hle hfit⟩⟩ hout

/-- What a part lists: code its phrases, and any other what it lists without an extension. -/
def lines (q : Processor) (s : Setting) (r : Region) : List Item :=
  match r.kind with
  | .code => listing s r.last q r.first
  | .bytes | .words | .gap | .custom => q.instructionSet.lines s r

end RomListing.Z88
