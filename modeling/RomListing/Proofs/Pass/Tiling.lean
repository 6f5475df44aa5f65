import RomListing.Proofs.MemoryMap.LastWriter
import RomListing.Proofs.Pass.Lines

/-! # The items of a part tile it

The items of a part stand one behind the other from its first address on, and together they
reach its last one. An instruction may stick out behind the end of a code part; data lines
end with theirs.
-/

namespace RomListing

/-- The place in the image that an item stands at. -/
def Setting.place (s : Setting) (item : Item) : Int := wrap (item.address - s.addressOffset)

theorem Setting.place_of_shown {s : Setting} {item : Item} {place : Int}
    (h : item.address = s.shownAddress place) (hpos : 0 ≤ place) (hlt : place < 0x10000) :
    s.place item = place := by
  unfold Setting.place
  rw [h, Setting.shownAddress, Int.sub_eq_add_neg, wrap_wrap_add, Int.add_neg_cancel_right]
  exact wrap_of_lt hpos hlt

/-- How many addresses an item of the part stands for. -/
def Region.stretch (p : Region) (item : Item) : Nat :=
  if p.kind = .gap then p.length else item.opcodes.length

theorem Region.stretch_of_ne {p : Region} (h : p.kind ≠ .gap) (item : Item) :
    p.stretch item = item.opcodes.length := if_neg h

/-! ## Chains -/

/-- Items of the part that stand one behind the other from `a` up to before `b`. -/
inductive Chain (s : Setting) (p : Region) : Int → List Item → Int → Prop where
  | nil (a : Int) : Chain s p a [] a
  | cons {a b : Int} {item : Item} {items : List Item} : s.place item = a →
      0 < p.stretch item → Chain s p (a + p.stretch item) items b → Chain s p a (item :: items) b

namespace Chain

variable {s : Setting} {p : Region} {a b c : Int} {items more : List Item}

theorem append (h : Chain s p a items b) (h' : Chain s p b more c) :
    Chain s p a (items ++ more) c := by
  induction h with
  | nil a => exact h'
  | cons hplace hpos _ ih => exact cons hplace hpos (ih h')

theorem le (h : Chain s p a items b) : a ≤ b := by
  induction h with
  | nil a => exact Int.le_refl a
  | cons _ _ _ ih => omega

theorem within (h : Chain s p a items b) :
    ∀ item ∈ items, a ≤ s.place item ∧ s.place item + p.stretch item ≤ b := by
  induction h with
  | nil a => simp
  | cons hplace hpos hrest ih =>
      intro item hi
      rcases List.mem_cons.1 hi with rfl | hi
      · have := hrest.le
        omega
      · have := ih item hi
        omega

theorem pairwise (h : Chain s p a items b) :
    items.Pairwise fun i j =>
      s.place i < s.place j ∧ s.place i + p.stretch i ≤ s.place j := by
  induction h with
  | nil a => exact .nil
  | cons hplace hpos hrest ih =>
      refine List.pairwise_cons.2 ⟨?_, ih⟩
      intro item hi
      have := hrest.within item hi
      omega

theorem covers (h : Chain s p a items b) {x : Int} (ha : a ≤ x) (hb : x < b) :
    ∃ item ∈ items, s.place item ≤ x ∧ x < s.place item + p.stretch item := by
  induction h with
  | nil a => omega
  | @cons a b item items hplace hpos hrest ih =>
      by_cases hx : x < a + p.stretch item
      · exact ⟨item, by simp, by omega, by omega⟩
      · obtain ⟨i, hi, hcover⟩ := ih (by omega) hb
        exact ⟨i, List.mem_cons_of_mem _ hi, hcover⟩

/-- Rows of items, each from one cut to the next. -/
theorem rows (row : Nat → Item) (cut : Nat → Nat) {n : Nat} (hzero : cut 0 = 0)
    (h : ∀ i < n, s.place (row i) = a + cut i ∧ 0 < p.stretch (row i) ∧
      cut (i + 1) = cut i + p.stretch (row i)) :
    Chain s p a ((List.range n).map row) (a + cut n) := by
  induction n with
  | zero =>
      rw [hzero, Int.natCast_zero, Int.add_zero]
      exact nil a
  | succ n ih =>
      rw [List.range_succ, List.map_append]
      obtain ⟨hplace, hpos, hcut⟩ := h n (by omega)
      refine (ih fun i hi => h i (by omega)).append (cons hplace hpos ?_)
      rw [hcut, Int.natCast_add, ← Int.add_assoc]
      exact nil _

end Chain

/-! ## The forms of items -/

namespace InstructionSet

/-- The items that a part may have at one of its places: what its kind asks for. -/
inductive Form (cpu : InstructionSet) (s : Setting) (p : Region) (place : Int) : Item → Prop where
  | instruction : p.kind = .code → Form cpu s p place (cpu.decode s { offset := place }).item
  | byteLine {n : Nat} : p.kind = .bytes ∨ p.kind = .custom → 0 < n → n ≤ 8 →
      Form cpu s p place (cpu.byteLine s place n)
  | wordLine {n : Nat} : p.kind = .words → 0 < n → n ≤ 4 →
      Form cpu s p place (cpu.wordLine s place n)
  | oddByte : p.kind = .words → p.length % 2 = 1 → place = p.last →
      Form cpu s p place (cpu.byteLine s place 1)
  | gap : p.kind = .gap → place = p.first → Form cpu s p place (cpu.gapLine s p)

theorem Form.of_code {cpu : InstructionSet} {s : Setting} {p : Region} {place : Int} {item : Item}
    (h : cpu.Form s p place item) (hk : p.kind = .code) :
    item = (cpu.decode s { offset := place }).item := by
  cases h with
  | instruction => rfl
  | byteLine h | wordLine h | oddByte h | gap h => simp [hk] at h

theorem Form.of_gap {cpu : InstructionSet} {s : Setting} {p : Region} {place : Int} {item : Item}
    (h : cpu.Form s p place item) (hk : p.kind = .gap) : item = cpu.gapLine s p := by
  cases h with
  | gap => rfl
  | instruction h | byteLine h | wordLine h | oddByte h => simp [hk] at h

/-- How far items of the part may stick out behind its end. -/
def overhang (longest : Nat) (p : Region) : Nat := if p.kind = .code then longest - 1 else 0

/-- The items tile the part: they stand one behind the other from its first address to its
last or as far behind it as the kind allows, and they start in it. -/
structure Tiles (cpu : InstructionSet) (longest : Nat) (s : Setting) (p : Region)
    (items : List Item) : Prop where
  chain : ∃ stop, Chain s p p.first items stop ∧ p.last < stop ∧
    stop ≤ p.last + 1 + overhang longest p
  starts : ∀ item ∈ items, s.place item ≤ p.last ∧ cpu.Form s p (s.place item) item

variable {cpu : InstructionSet} {a : Alphabet} {longest : Nat} {s : Setting} {p : Region}

/-- An item that stands for an address behind its part is the last instruction of a code part. -/
theorem Tiles.sticks_out {items : List Item} (h : cpu.Tiles longest s p items) {item : Item}
    (hi : item ∈ items) {x : Int} (hx : x < s.place item + p.stretch item) (hlast : p.last < x) :
    p.kind = .code ∧ x < p.last + longest ∧ ∀ i ∈ items, s.place i ≤ s.place item := by
  obtain ⟨stop, hchain, -, hstop⟩ := h.chain
  have hwithin := hchain.within item hi
  have hcode : p.kind = .code := by
    by_cases hk : p.kind = .code
    · exact hk
    · rw [overhang, if_neg hk] at hstop
      omega
  rw [overhang, if_pos hcode] at hstop
  refine ⟨hcode, by omega, ?_⟩
  intro i hmem
  have hstart := (h.starts i hmem).1
  rcases eq_or_of_pairwise hchain.pairwise hmem hi with rfl | hr | hr
  · exact Int.le_refl _
  · omega
  · omega

/-! ## Instructions -/

/-- An instruction in the image has bytes. The cursor stops behind them, and at the end of
the image if they were not all there. -/
theorem Sound.decode_within (h : cpu.Sound a longest) {place : Int}
    (hbase : s.image.base ≤ place) (hlast : place ≤ s.image.last) :
    let d := cpu.decode s { offset := place }
    0 < d.item.opcodes.length ∧ d.item.opcodes.length ≤ longest ∧
      d.cursor.offset = place + d.item.opcodes.length ∧
      (d.cursor.overflow = true → s.image.last < d.cursor.offset) := by
  intro d
  obtain ⟨n, hpos, hle, hreads⟩ := h.decode_reads s { offset := place }
  have hbytes : d.item.opcodes.length = s.image.available place n := by
    have htaken := congrArg List.length hreads.taken
    rw [List.length_append, Image.slice_length] at htaken
    exact htaken.trans (Nat.zero_add _)
  have hoffset : d.cursor.offset = place + s.image.available place n := hreads.offset
  have hover : d.cursor.overflow = decide (s.image.available place n < n) := hreads.overflow
  have havailable := Image.available_eq_min hbase n
  refine ⟨by omega, by omega, by omega, ?_⟩
  intro hend
  rw [hover, decide_eq_true_eq] at hend
  omega

/-- The invariant of a walk: what is left of the part is tiled from the current place on, and
there is fuel for every address left. -/
theorem Sound.walk_tiles (h : cpu.Sound a longest) (hk : p.kind = .code)
    (hpos : 0 ≤ s.image.base) (hlast : p.last ≤ s.image.last) (fuel : Nat) (place : Int)
    (hbase : s.image.base ≤ place) (hle : place ≤ p.last) (hfuel : p.last < place + fuel) :
    (∃ stop, Chain s p place (cpu.walk s p.last fuel place) stop ∧ p.last < stop ∧
        stop ≤ p.last + longest) ∧
      ∀ item ∈ cpu.walk s p.last fuel place,
        s.place item ≤ p.last ∧ cpu.Form s p (s.place item) item := by
  induction fuel generalizing place with
  | zero => omega
  | succ fuel ih =>
      have hlt := p.last_lt
      obtain ⟨hbytes, hlong, hoffset, hover⟩ :=
        h.decode_within (s := s) hbase (Int.le_trans hle hlast)
      have hplace : s.place (cpu.decode s { offset := place }).item = place :=
        Setting.place_of_shown (h.decode_frame s _).1 (by omega) (by omega)
      have hstretch := p.stretch_of_ne (by simp [hk]) (cpu.decode s { offset := place }).item
      have hform : cpu.Form s p (s.place (cpu.decode s { offset := place }).item)
          (cpu.decode s { offset := place }).item := by
        rw [hplace]
        exact .instruction hk
      unfold walk
      rw [if_pos hle]
      dsimp only
      generalize cpu.decode s { offset := place } = d at *
      generalize hrest : (if d.cursor.overflow = true then []
        else cpu.walk s p.last fuel d.cursor.offset) = rest
      have tail : (∃ stop, Chain s p d.cursor.offset rest stop ∧ p.last < stop ∧
          stop ≤ p.last + longest) ∧
          ∀ item ∈ rest, s.place item ≤ p.last ∧ cpu.Form s p (s.place item) item := by
        by_cases hend : p.last < d.cursor.offset
        · have hnil : rest = [] := by
            rw [← hrest, walk_of_lt hend, ite_self]
          rw [hnil]
          exact ⟨⟨d.cursor.offset, .nil _, hend, by omega⟩, by simp⟩
        · -- an image that ended here would have ended the part
          rw [if_neg fun ho => hend (by have := hover ho; omega)] at hrest
          rw [← hrest]
          exact ih d.cursor.offset (by omega) (by omega) (by omega)
      obtain ⟨⟨stop, hchain, hreach, hstop⟩, hitems⟩ := tail
      refine ⟨⟨stop, .cons hplace (by omega) ?_, hreach, hstop⟩, ?_⟩
      · rwa [hstretch, ← hoffset]
      · intro item hi
        rcases List.mem_cons.1 hi with rfl | hi
        · exact ⟨by omega, hform⟩
        · exact hitems item hi

theorem Sound.tiles_code (h : cpu.Sound a longest) (hk : p.kind = .code)
    (hpos : 0 ≤ s.image.base) (hbase : s.image.base ≤ p.first) (hlast : p.last ≤ s.image.last) :
    cpu.Tiles longest s p (cpu.walk s p.last p.length p.first) := by
  have hp := p.first_le_last
  have hlength : p.length = p.last - p.first + 1 := rfl
  obtain ⟨hchain, hitems⟩ := h.walk_tiles hk hpos hlast p.length p.first hbase (by omega) (by omega)
  obtain ⟨stop, hchain, hreach, hstop⟩ := hchain
  refine ⟨⟨stop, hchain, hreach, ?_⟩, hitems⟩
  rw [overhang, if_pos hk]
  omega

/-! ## Data lines -/

@[simp] theorem byteLine_length (place : Int) (n : Nat) :
    (cpu.byteLine s place n).opcodes.length = n := by
  simp [byteLine, dataItem]

@[simp] theorem wordLine_length (place : Int) (n : Nat) :
    (cpu.wordLine s place n).opcodes.length = 2 * n := by
  simp [wordLine, dataItem, List.length_flatMap, Function.comp_def, List.map_const',
    Nat.mul_comm]

theorem Sound.place_dataItem (h : cpu.Sound a longest) {place : Int} (hpos : 0 ≤ place)
    (hlt : place < 0x10000) (bytes : List UInt8) (text : String) :
    s.place (cpu.dataItem s place bytes text) = place :=
  Setting.place_of_shown (h.shownAddress_fold s place) hpos hlt

theorem Sound.tiles_bytes (h : cpu.Sound a longest) (hk : p.kind = .bytes ∨ p.kind = .custom) :
    cpu.Tiles longest s p (cpu.byteLines s p) := by
  have hlt := p.last_lt
  have hp := p.first_le_last
  have hlength : p.length = p.last - p.first + 1 := rfl
  have hgap : p.kind ≠ .gap := by rcases hk with hk | hk <;> simp [hk]
  have hplace {i : Nat} (hi : i < (p.length + 7) / 8) :
      s.place (cpu.byteLine s (p.first + 8 * i : Nat) (min 8 (p.length - 8 * i))) =
        (p.first + 8 * i : Nat) := h.place_dataItem (by omega) (by omega) _ _
  have hchain := Chain.rows (s := s) (p := p) (a := p.first) (n := (p.length + 7) / 8)
    (fun i => cpu.byteLine s (p.first + 8 * i : Nat) (min 8 (p.length - 8 * i)))
    (fun i => min (8 * i) p.length) (Nat.zero_min _) ?_
  · refine ⟨⟨_, hchain, by omega, by omega⟩, ?_⟩
    intro item hi
    obtain ⟨i, hrow, rfl⟩ := List.mem_map.1 hi
    have hrow := List.mem_range.1 hrow
    rw [hplace hrow]
    exact ⟨by omega, .byteLine hk (by omega) (by omega)⟩
  · intro i hi
    simp only [hplace hi, p.stretch_of_ne hgap, byteLine_length]
    omega

theorem Sound.tiles_words (h : cpu.Sound a longest) (hk : p.kind = .words) :
    cpu.Tiles longest s p (cpu.wordLines s p) := by
  have hlt := p.last_lt
  have hp := p.first_le_last
  have hlength : p.length = p.last - p.first + 1 := rfl
  have hgap : p.kind ≠ .gap := by simp [hk]
  have hplace {i : Nat} (hi : i < (p.length + 6) / 8) :
      s.place (cpu.wordLine s (p.first + 8 * i : Nat) (min 4 ((p.length - 8 * i) / 2))) =
        (p.first + 8 * i : Nat) := h.place_dataItem (by omega) (by omega) _ _
  have hwords := Chain.rows (s := s) (p := p) (a := p.first) (n := (p.length + 6) / 8)
    (fun i => cpu.wordLine s (p.first + 8 * i : Nat) (min 4 ((p.length - 8 * i) / 2)))
    (fun i => min (8 * i) (2 * (p.length / 2))) (Nat.zero_min _) ?_
  · have hstarts : ∀ item ∈ (List.range ((p.length + 6) / 8)).map (fun i =>
        cpu.wordLine s (p.first + 8 * i : Nat) (min 4 ((p.length - 8 * i) / 2))),
        s.place item ≤ p.last ∧ cpu.Form s p (s.place item) item := by
      intro item hi
      obtain ⟨i, hrow, rfl⟩ := List.mem_map.1 hi
      have hrow := List.mem_range.1 hrow
      rw [hplace hrow]
      exact ⟨by omega, .wordLine hk (by omega) (by omega)⟩
    unfold wordLines
    dsimp only
    split
    · -- the byte that is left over stands alone
      have hodd : s.place (cpu.byteLine s p.last 1) = p.last :=
        h.place_dataItem (by omega) (by omega) _ _
      have hone : p.stretch (cpu.byteLine s p.last 1) = 1 := by
        rw [p.stretch_of_ne hgap, byteLine_length]
      refine ⟨⟨_, hwords.append (.cons ?_ ?_ (.nil _)), ?_, ?_⟩, ?_⟩
      · rw [hodd]
        omega
      · omega
      · omega
      · omega
      · intro item hi
        rcases List.mem_append.1 hi with hi | hi
        · exact hstarts item hi
        · rw [List.mem_singleton] at hi
          rw [hi, hodd]
          exact ⟨Int.le_refl _, .oddByte hk ‹_› rfl⟩
    · exact ⟨⟨_, hwords, by omega, by omega⟩, hstarts⟩
  · intro i hi
    simp only [hplace hi, p.stretch_of_ne hgap, wordLine_length]
    omega

theorem Sound.place_gapLine (h : cpu.Sound a longest) (s : Setting) (p : Region) :
    s.place (cpu.gapLine s p) = p.first := by
  have hlt := p.last_lt
  have hp := p.first_le_last
  exact h.place_dataItem (by omega) (by omega) _ _

theorem Sound.tiles_gap (h : cpu.Sound a longest) (hk : p.kind = .gap) :
    cpu.Tiles longest s p [cpu.gapLine s p] := by
  have hp := p.first_le_last
  have hlength : p.length = p.last - p.first + 1 := rfl
  have hstretch : p.stretch (cpu.gapLine s p) = p.length := if_pos hk
  refine ⟨⟨_, .cons (h.place_gapLine s p) (by omega) (.nil _), by omega, by omega⟩, ?_⟩
  intro item hi
  rw [List.mem_singleton] at hi
  rw [hi, h.place_gapLine]
  exact ⟨by omega, .gap hk rfl⟩

theorem Sound.lines_tile (h : cpu.Sound a longest) (hpos : 0 ≤ s.image.base)
    (hbase : s.image.base ≤ p.first) (hlast : p.last ≤ s.image.last) :
    cpu.Tiles longest s p (cpu.lines s p) := by
  unfold lines
  cases hk : p.kind with
  | code => exact h.tiles_code hk hpos hbase hlast
  | bytes => exact h.tiles_bytes (.inl hk)
  | words => exact h.tiles_words hk
  | gap => exact h.tiles_gap hk
  | custom => exact h.tiles_bytes (.inr hk)

end InstructionSet

end RomListing
