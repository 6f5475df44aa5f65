import RomListing.Proofs.Decoding

/-! # Images that agree

Two images that agree on a stretch read alike for a cursor that stays on it. Whether it does is
known in the end only, from where it stopped: a byte that was missing leaves its mark, and cursors
never go back. So the facts here go from the last cursor to the first one: as long as nothing was
missing and the last cursor has not passed the end of the stretch, every byte that was asked for
is one on which the images agree.
-/

namespace RomListing

/-- The settings differ in their images alone, and not on the places from `start` up to `stop`. -/
structure Setting.Agrees (s s' : Setting) (start stop : Int) : Prop where
  options : s'.options = s.options
  addressOffset : s'.addressOffset = s.addressOffset
  byte? : ∀ a, start ≤ a → a < stop → s'.image.byte? a = s.image.byte? a

/-- No byte was missing so far, and none from `stop` on was read. -/
structure Cursor.Within (stop : Int) (c : Cursor) : Prop where
  complete : c.overflow = false
  offset_le : c.offset ≤ stop

namespace Cursor

variable {s : Setting} {c c' : Cursor} {n : Nat} {stop : Int}

theorem Reads.within (h : Reads s c n c') (hw : c'.Within stop) : c.Within stop :=
  ⟨h.complete hw.complete, Int.le_trans h.offset_le hw.offset_le⟩

/-- Whoever reads at all reads the first byte. -/
theorem Reads.first_within (h : Reads s c n c') (hn : 0 < n) (hw : c'.Within stop) :
    (c.fetch s).2.Within stop := by
  have hfirst := fetch_reads s c
  have hcomplete := hw.complete
  have hle := hw.offset_le
  rw [h.overflow, Bool.or_eq_false_iff, decide_eq_false_iff_not] at hcomplete
  rw [h.offset] at hle
  have hone : s.image.available c.offset 1 = 1 := by
    unfold Image.available at hcomplete ⊢
    split at hcomplete <;> split <;> omega
  constructor
  · rw [hfirst.overflow, hone, hcomplete.1]
    rfl
  · rw [hfirst.offset, hone]
    omega

end Cursor

namespace Setting.Agrees

variable {s s' : Setting} {start stop : Int} (h : s.Agrees s' start stop)

include h

theorem mono {start' stop' : Int} (hstart : start ≤ start') (hstop : stop' ≤ stop) :
    s.Agrees s' start' stop' where
  options := h.options
  addressOffset := h.addressOffset
  byte? a ha ha' := h.byte? a (Int.le_trans hstart ha) (Int.lt_of_lt_of_le ha' hstop)

theorem shownAddress (place : Int) : s'.shownAddress place = s.shownAddress place := by
  unfold Setting.shownAddress
  rw [h.addressOffset]

/-! ## Reading -/

variable {c : Cursor} (hc : start ≤ c.offset)

include hc

theorem fetch (hw : (c.fetch s).2.Within stop) : c.fetch s' = c.fetch s := by
  obtain ⟨hcomplete, hle⟩ := hw
  unfold Cursor.fetch at hcomplete hle ⊢
  cases hb : s.image.byte? c.offset with
  | none =>
      rw [hb] at hcomplete
      cases hcomplete
  | some b =>
      rw [hb] at hle
      dsimp only at hle
      rw [h.byte? c.offset hc (by omega), hb]

theorem fetchWord (hw : (c.fetchWord s).2.Within stop) : c.fetchWord s' = c.fetchWord s := by
  have hreads := c.fetch_reads s
  have hlow := h.fetch hc (((c.fetch s).2.fetch_reads s).within hw)
  have hhigh := h.fetch (Int.le_trans hc hreads.offset_le) hw
  unfold Cursor.fetchWord
  rw [hlow]
  dsimp only
  rw [hhigh]

/-! ## Operands -/

theorem byte {form : Int → String} (hw : (Operand.byte s form c).2.Within stop) :
    Operand.byte s' form c = Operand.byte s form c := by
  unfold Operand.byte
  rw [h.fetch hc hw]

theorem word {form : Int → String} (hw : (Operand.word s form c).2.Within stop) :
    Operand.word s' form c = Operand.word s form c := by
  unfold Operand.word
  rw [h.fetchWord hc hw]

omit hc in
theorem label (c : Cursor) (address : Int) :
    Operand.label s' c address = Operand.label s c address := by
  unfold Operand.label
  rw [h.options, h.shownAddress]

theorem absolute (hw : (Operand.absolute s c).2.Within stop) :
    Operand.absolute s' c = Operand.absolute s c := by
  unfold Operand.absolute
  rw [h.fetchWord hc hw]
  simp only [h.label]

theorem relative (hw : (Operand.relative s c).2.Within stop) :
    Operand.relative s' c = Operand.relative s c := by
  unfold Operand.relative
  rw [h.fetch hc hw]
  simp only [h.label, h.addressOffset]

end Setting.Agrees

/-! ## Instructions -/

/-- Selecting and expanding look at no byte but those that they take. -/
structure InstructionSet.Local (cpu : InstructionSet) : Prop where
  select : ∀ {s s' : Setting} {start stop : Int}, s.Agrees s' start stop → ∀ {c : Cursor},
    start ≤ c.offset → (cpu.select s c).cursor.Within stop → cpu.select s' c = cpu.select s c
  expand : ∀ {s s' : Setting} {start stop : Int}, s.Agrees s' start stop →
    ∀ {letter : Letter} {c : Cursor}, start ≤ c.offset →
      (cpu.expand s letter c).2.Within stop → cpu.expand s' letter c = cpu.expand s letter c

namespace Pattern

variable {a : Alphabet} {s : Setting} {e e' : Expander}

theorem expandFrom_reads (h : a.Describes s e) (fuel : Nat) (item : Item) (c : Cursor) :
    ∃ n, c.Reads s n (expandFrom e fuel item c).cursor := by
  induction fuel generalizing item c with
  | zero => exact ⟨0, .refl s c⟩
  | succ fuel ih =>
      unfold expandFrom
      split
      · exact ⟨0, .refl s c⟩
      · rename_i before letter after _
        obtain ⟨n, hn⟩ := ih (fill item before after (e letter c).1) (e letter c).2
        exact ⟨_, (h.acts letter c).reads.trans hn⟩

theorem expandFrom_local (h : a.Describes s e) {start stop : Int}
    (hlocal : ∀ letter c, start ≤ c.offset → (e letter c).2.Within stop →
      e' letter c = e letter c) (fuel : Nat) (item : Item) {c : Cursor} (hc : start ≤ c.offset)
    (hw : (expandFrom e fuel item c).cursor.Within stop) :
    expandFrom e' fuel item c = expandFrom e fuel item c := by
  induction fuel generalizing item c with
  | zero => rfl
  | succ fuel ih =>
      unfold expandFrom at hw ⊢
      split at hw
      · rfl
      · rename_i before letter after _
        have hreads := (h.acts letter c).reads
        obtain ⟨n, hrest⟩ :=
          expandFrom_reads h fuel (fill item before after (e letter c).1) (e letter c).2
        have hletter := hlocal letter c hc (hrest.within hw)
        have hlater := ih (fill item before after (e letter c).1)
          (Int.le_trans hc hreads.offset_le) hw
        simp only [hletter, hlater]

end Pattern

namespace InstructionSet

variable {cpu : InstructionSet} {a : Alphabet} {longest : Nat} {s s' : Setting} {c : Cursor}

/-- What selects a pattern is read before the operands. -/
theorem Sound.operands_read (h : cpu.Sound a longest) (s : Setting) (c : Cursor) :
    ∃ n, (cpu.select s c.begin).cursor.Reads s n (cpu.decode s c).cursor := by
  obtain ⟨x, hx, hdecode⟩ := h.decode_follows s c
  have hoperands := (h.describes s).replacements_reads
    (Pattern.marks (cpu.select s c.begin).pattern.text) (cpu.select s c.begin).cursor
  rw [← hx.cursor] at hoperands
  rw [hdecode]
  exact ⟨_, hoperands⟩

/-- An instruction of which no byte was missing is the same in every image with its bytes. -/
theorem Sound.decode_local (h : cpu.Sound a longest) (hl : cpu.Local) {start stop : Int}
    (hagrees : s.Agrees s' start stop) (hc : start ≤ c.offset)
    (hw : (cpu.decode s c).cursor.Within stop) : cpu.decode s' c = cpu.decode s c := by
  obtain ⟨n, -, -, hreads, -⟩ := h.selects s c.begin
  obtain ⟨k, hoperands⟩ := h.operands_read s c
  have hselect := hl.select (c := c.begin) hagrees hc (hoperands.within hw)
  have hbehind : start ≤ (cpu.select s c.begin).cursor.offset := Int.le_trans hc hreads.offset_le
  unfold decode at hw ⊢
  dsimp only at hw ⊢
  simp only [hselect, InstructionSet.shownAddress, hagrees.options, hagrees.addressOffset] at hw ⊢
  by_cases hempty : (cpu.select s c.begin).pattern.text.isEmpty
  · simp only [hempty, if_true]
  · simp only [hempty, if_false, Bool.false_eq_true] at hw ⊢
    unfold Pattern.expand at hw ⊢
    rw [Pattern.expandFrom_local (h.describes s)
      (fun letter c hc hw => hl.expand hagrees hc hw) Pattern.maxMarks _ hbehind hw]

/-- The bytes that an instruction takes begin at the cursor and end where the next one is read. -/
theorem Sound.decode_offset (h : cpu.Sound a longest) (s : Setting) (c : Cursor) :
    (cpu.decode s c).cursor.offset = c.offset + (cpu.decode s c).item.opcodes.length := by
  obtain ⟨n, -, -, hreads⟩ := h.decode_reads s c
  have htaken := congrArg List.length hreads.taken
  rw [List.length_append, Image.slice_length] at htaken
  rw [Sound.decode_opcodes, htaken, hreads.offset]
  simp [Cursor.begin]

end InstructionSet

end RomListing
