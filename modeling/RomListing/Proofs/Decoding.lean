import RomListing.InstructionSet
import RomListing.Proofs.Pattern.Operands

/-! # Reading one instruction

What an instruction set promises is stated once, for its selection and its alphabet. From it
follow the facts about a decoded instruction that the rest of the theory uses: the bytes that
it takes, the labels that it uses, and that nothing left over in the cursor counts.
-/

namespace RomListing

theorem Options.partitionAt_wrap (o : Options) (a : Int) :
    o.partitionAt (wrap a) = o.partitionAt a := by
  unfold partitionAt
  rw [wrap_wrap]

/-! ## Patterns and their alphabet -/

def Pattern.letters (text : String) : List Letter := marks (cut '|' (Text.ofString text)).1

/-- The bytes that a run of letters asks for. -/
def Alphabet.demand (a : Alphabet) : List Letter → Nat
  | [] => 0
  | l :: ls => a.bytes l + a.demand ls

/-- The letters ask for at most `room` bytes, none of their marks is left over, and one that
uses a label stands alone. -/
def Alphabet.allows (a : Alphabet) (room : Nat) (ls : List Letter) : Bool :=
  decide (a.demand ls ≤ room) && decide (ls.length ≤ Pattern.maxMarks) &&
    (ls.all (!a.isLabel ·) || decide (ls.length = 1))

theorem Alphabet.allows_iff {a : Alphabet} {room : Nat} {ls : List Letter} :
    a.allows room ls = true ↔ a.demand ls ≤ room ∧ ls.length ≤ Pattern.maxMarks ∧
      ((∀ l ∈ ls, a.isLabel l = false) ∨ ∃ l, ls = [l]) := by
  simp [allows, List.length_eq_one_iff, and_assoc]

theorem Alphabet.allows_nil (a : Alphabet) (room : Nat) : a.allows room [] = true := by
  simp [allows, demand]

/-- The text has a timing that can be read, and its letters fit into `room` bytes. -/
def Alphabet.fits (a : Alphabet) (room : Nat) (text : String) : Bool :=
  a.allows room (Pattern.letters text) && Pattern.timed text

theorem Alphabet.fits_iff {a : Alphabet} {room : Nat} {text : String} : a.fits room text = true ↔
    a.allows room (Pattern.letters text) = true ∧ Pattern.timed text = true :=
  Bool.and_eq_true_iff

theorem Alphabet.fits_mono {a : Alphabet} {room room' : Nat} {text : String}
    (h : a.fits room text = true) (hle : room ≤ room') : a.fits room' text = true := by
  rw [fits_iff, allows_iff] at h ⊢
  exact ⟨⟨by omega, h.1.2⟩, h.2⟩

theorem mem_of_lookup {table : List (Nat × String)} {n : Nat} {text : String}
    (h : table.lookup n = some text) : (n, text) ∈ table := by
  obtain ⟨before, after, rfl, -⟩ := List.lookup_eq_some_iff.1 h
  simp

/-- What holds of all texts in a table holds of the one that is looked up. -/
theorem forall_lookup {P : String → Prop} {table : List (Nat × String)} (h : ∀ e ∈ table, P e.2)
    {n : Nat} {text : String} (hl : table.lookup n = some text) : P text :=
  h (n, text) (mem_of_lookup hl)

private theorem ok_of_bind {ε α β : Type} {x : Except ε α} {f : α → Except ε β} {b : β}
    (h : x >>= f = .ok b) : ∃ a, x = .ok a ∧ f a = .ok b := by
  cases x with
  | error e => cases h
  | ok a => exact ⟨a, rfl, h⟩

theorem parse_text {text : String} {timing : Int} {p : Pattern}
    (h : Pattern.parse text timing = .ok p) :
    p.text = (Pattern.cut '|' (Text.ofString text)).1 := by
  unfold Pattern.parse at h
  split at h
  · rename_i before hcut
    cases h
    rw [hcut]
  · rename_i before rest hcut
    obtain ⟨t, -, h⟩ := ok_of_bind h
    rw [hcut]
    dsimp only at h
    split at h
    all_goals
      obtain ⟨alt, -, h⟩ := ok_of_bind h
      cases h
      rfl

def Selection.Fits (x : Selection) (a : Alphabet) (room : Nat) : Prop :=
  ∀ text, x.text = some text → a.fits room text = true

/-- The marks of a selected pattern are the letters of its text. Without a text that can be read
there are none. -/
theorem Selection.marks_pattern (x : Selection) : Pattern.marks x.pattern.text = [] ∨
    ∃ text, x.text = some text ∧ Pattern.marks x.pattern.text = Pattern.letters text := by
  unfold Selection.pattern
  split
  · rename_i p hp
    obtain ⟨t, ht, hp⟩ := Option.map_eq_some_iff.1 hp
    obtain ⟨text, hx, ht⟩ := Option.bind_eq_some_iff.1 ht
    cases ht
    exact .inr ⟨text, hx, by rw [Pattern.letters, ← parse_text hp]⟩
  · exact .inl rfl

/-- The pattern of a selected text whose timing can be read ends at the first bar. -/
theorem Selection.Fits.pattern_text {a : Alphabet} {room : Nat} {x : Selection}
    (h : x.Fits a room) :
    x.pattern.text = x.text.elim [] fun text => (Pattern.cut '|' (Text.ofString text)).1 := by
  unfold Selection.pattern
  cases hx : x.text with
  | none => rfl
  | some text =>
      obtain ⟨p, hp⟩ := Pattern.exists_parse (Alphabet.fits_iff.1 (h text hx)).2 x.timing
      simp [hp, parse_text hp]

/-- What holds of the letters of a selected text holds of its pattern. -/
theorem Selection.Fits.allows {a : Alphabet} {room : Nat} {x : Selection} (h : x.Fits a room) :
    a.allows room (Pattern.marks x.pattern.text) = true := by
  rcases x.marks_pattern with hnone | ⟨text, hx, hmarks⟩
  · rw [hnone]
    exact a.allows_nil room
  · rw [hmarks]
    exact (Alphabet.fits_iff.1 (h text hx)).1

theorem Selection.Fits.timed {a : Alphabet} {room : Nat} {x : Selection} (h : x.Fits a room)
    {text : String} (hx : x.text = some text) : Pattern.timed text = true :=
  (Alphabet.fits_iff.1 (h text hx)).2

/-! ## Replacements of a run of letters -/

namespace Alphabet

variable {a : Alphabet} {s : Setting} {e : Expander}

theorem Describes.caretFree (h : a.Describes s e) : e.CaretFree := fun l c => (h.acts l c).caretFree

theorem Describes.replacements_reads (h : a.Describes s e) (ls : List Letter) (c : Cursor) :
    c.Reads s (a.demand ls) (e.replacements ls c).2 := by
  induction ls generalizing c with
  | nil => exact .refl s c
  | cons l ls ih => exact (h.acts l c).reads.trans (ih (e l c).2)

theorem Describes.replacements_silent (h : a.Describes s e) {ls : List Letter}
    (hl : ∀ l ∈ ls, a.isLabel l = false) (c : Cursor) :
    ∀ r ∈ (e.replacements ls c).1, r.reference = none ∧ r.isLabel = false := by
  induction ls generalizing c with
  | nil => simp [Expander.replacements]
  | cons l ls ih =>
      intro r hr
      rcases List.mem_cons.1 hr with rfl | hr
      · exact (h.acts l c).silent (hl l (by simp))
      · exact ih (fun l' h' => hl l' (by simp [h'])) (e l c).2 r hr

end Alphabet

/-! ## Instruction sets -/

/-- What the theory of listings uses of an instruction set: the addresses have sixteen bits,
the alphabet describes the expander, and selecting a pattern reads at least one byte and
leaves room for the operands in `longest` bytes. The last field says that a selection begins
anew: only the overflow mark lives on. -/
structure InstructionSet.Sound (cpu : InstructionSet) (a : Alphabet) (longest : Nat) : Prop where
  mask : cpu.addressMask = 0xFFFF
  describes : ∀ s, a.Describes s (cpu.expand s)
  selects : ∀ s c, ∃ n, 0 < n ∧ n ≤ longest ∧ c.Reads s n (cpu.select s c).cursor ∧
    (cpu.select s c).Fits a (longest - n)
  anew : ∀ s (c : Cursor), cpu.select s c.begin =
    let x := cpu.select s (Cursor.begin { offset := c.offset })
    { x with cursor := x.cursor.spill c.overflow }

/-- The use of a label that an item shows: its symbol, at its address. -/
def Item.uses (item : Item) : List Reference :=
  if item.hasLabelSymbol then item.symbolValue.toList.map fun v => ⟨v, item.address⟩ else []

/-- A view of an item that one replacement does not change is not changed by any number of them. -/
theorem foldl_note_view {β : Type} (g : Item → β) (hg : ∀ item r, g (item.note r) = g item)
    (rs : List Replacement) (item : Item) : g (rs.foldl Item.note item) = g item := by
  induction rs generalizing item with
  | nil => rfl
  | cons r rs ih => exact (ih (item.note r)).trans (hg item r)

theorem foldl_note_silent {rs : List Replacement} (h : ∀ r ∈ rs, r.isLabel = false)
    (item : Item) : (rs.foldl Item.note item).hasLabelSymbol = item.hasLabelSymbol := by
  induction rs generalizing item with
  | nil => rfl
  | cons r rs ih =>
      have hr := h r (by simp)
      rw [List.foldl_cons, ih (fun r' h' => h r' (by simp [h'])) (item.note r)]
      simp [Item.note, hr]

/-- A run of letters of which one that uses a label stands alone refers to what the item then
shows. -/
theorem Alphabet.Describes.run_uses {a : Alphabet} {s : Setting} {e : Expander}
    (h : a.Describes s e) {ls : List Letter}
    (hl : (∀ l ∈ ls, a.isLabel l = false) ∨ ∃ l, ls = [l]) (c : Cursor) {item : Item}
    (hsymbol : item.hasLabelSymbol = false) (haddress : item.address = s.shownAddress c.opStart) :
    let rs := (e.replacements ls c).1
    let noted := rs.foldl Item.note item
    rs.flatMap (fun r => r.reference.toList) = noted.uses ∧
      (noted.hasLabelSymbol = true → noted.symbolValue.isSome = true) := by
  intro rs noted
  have silent (hs : ∀ l ∈ ls, a.isLabel l = false) :
      rs.flatMap (fun r => r.reference.toList) = noted.uses ∧ noted.hasLabelSymbol = false := by
    have hrs := h.replacements_silent hs c
    have hnoted : noted.hasLabelSymbol = false :=
      (foldl_note_silent (fun r hr => (hrs r hr).2) item).trans hsymbol
    refine ⟨?_, hnoted⟩
    rw [Item.uses, if_neg (by simp [hnoted]), List.flatMap_eq_nil_iff]
    intro r hr
    rw [(hrs r hr).1]
    rfl
  rcases hl with hs | ⟨l, rfl⟩
  · exact ⟨(silent hs).1, by simp [(silent hs).2]⟩
  · cases hlabel : a.isLabel l with
    | false =>
        have hs := silent (by simpa using hlabel)
        exact ⟨hs.1, by simp [hs.2]⟩
    | true =>
        obtain ⟨target, his, hnamed, href⟩ := (h.acts l c).refers hlabel
        have hone : rs = [(e l c).1] := rfl
        have hnoted : noted = item.note (e l c).1 := rfl
        simp [hone, hnoted, Item.uses, Item.note, his, hnamed, href, haddress]

namespace InstructionSet

variable {cpu : InstructionSet} {a : Alphabet} {longest : Nat}

/-- The item of an instruction before its marks are replaced. -/
def draft (cpu : InstructionSet) (s : Setting) (c : Cursor) : Item :=
  let pattern := (cpu.select s c.begin).pattern
  { address := cpu.shownAddress s (fold cpu.addressMask c.offset)
    text := if pattern.text.isEmpty then cpu.undefinedText else pattern.text
    partition := s.options.partitionAt (fold cpu.addressMask c.offset)
    timing := pattern.timing
    altTiming := pattern.altTiming }

/-- The selected pattern with its marks replaced. The text of an undefined opcode has no marks. -/
def expansion (cpu : InstructionSet) (s : Setting) (c : Cursor) : Expansion :=
  let selection := cpu.select s c.begin
  if selection.pattern.text.isEmpty then { item := cpu.draft s c, cursor := selection.cursor }
  else Pattern.expand (cpu.expand s) (cpu.draft s c) selection.cursor

theorem decode_eq (cpu : InstructionSet) (s : Setting) (c : Cursor) : cpu.decode s c =
    let x := cpu.expansion s c
    ⟨{ x.item with opcodes := x.cursor.taken.toList }, x.references, x.cursor⟩ := by
  unfold decode expansion
  dsimp only
  by_cases hempty : (cpu.select s c.begin).pattern.text.isEmpty
  · simp only [draft, hempty, if_true]
  · simp only [draft, hempty, if_false, Bool.false_eq_true]

/-- A pattern that is there is the text of the item before its marks are replaced. -/
theorem draft_text (cpu : InstructionSet) {s : Setting} {c : Cursor}
    (h : ¬(cpu.select s c.begin).pattern.text.isEmpty) :
    (cpu.draft s c).text = (cpu.select s c.begin).pattern.text := if_neg h

/-- Nothing is replaced in the text of an undefined opcode. In a pattern all marks are. -/
theorem Sound.expansion_cases (h : cpu.Sound a longest) (s : Setting) (c : Cursor) :
    let x := cpu.select s c.begin
    (x.pattern.text = [] ∧ cpu.expansion s c = { item := cpu.draft s c, cursor := x.cursor }) ∨
      ((cpu.draft s c).text = x.pattern.text ∧
        (Pattern.marks x.pattern.text).take Pattern.maxMarks = Pattern.marks x.pattern.text ∧
        cpu.expansion s c = Pattern.expand (cpu.expand s) (cpu.draft s c) x.cursor) := by
  intro x
  obtain ⟨n, -, -, -, hfits⟩ := h.selects s c.begin
  have hmarks := (Alphabet.allows_iff.1 hfits.allows).2.1
  by_cases hempty : x.pattern.text.isEmpty
  · exact .inl ⟨List.isEmpty_iff.1 hempty, if_pos hempty⟩
  · exact .inr ⟨cpu.draft_text hempty, List.take_of_length_le hmarks, if_neg hempty⟩

/-- Decoding is one walk over the marks of the selected pattern. -/
theorem Sound.expansion_follows (h : cpu.Sound a longest) (s : Setting) (c : Cursor) :
    Pattern.Follows (cpu.expand s) (Pattern.marks (cpu.select s c.begin).pattern.text)
      (cpu.draft s c) (cpu.select s c.begin).cursor (cpu.expansion s c) := by
  obtain ⟨hempty, hx⟩ | ⟨hdraft, hmarks, hx⟩ := h.expansion_cases s c
  · rw [hempty, hx]
    exact ⟨rfl, rfl, rfl, rfl⟩
  · have hgo := Pattern.expand_follows (h.describes s).caretFree (cpu.draft s c)
      (cpu.select s c.begin).cursor
    rwa [hdraft, hmarks, ← hx] at hgo

theorem Sound.decode_follows (h : cpu.Sound a longest) (s : Setting) (c : Cursor) :
    ∃ x : Expansion,
      Pattern.Follows (cpu.expand s) (Pattern.marks (cpu.select s c.begin).pattern.text)
        (cpu.draft s c) (cpu.select s c.begin).cursor x ∧
      cpu.decode s c =
        ⟨{ x.item with opcodes := x.cursor.taken.toList }, x.references, x.cursor⟩ :=
  ⟨cpu.expansion s c, h.expansion_follows s c, cpu.decode_eq s c⟩

/-- Without marks the bytes that select a pattern are all that an instruction takes. -/
theorem Sound.decode_unmarked (h : cpu.Sound a longest) (s : Setting) (c : Cursor)
    (hmarks : Pattern.marks (cpu.select s c.begin).pattern.text = []) :
    (cpu.decode s c).cursor = (cpu.select s c.begin).cursor := by
  obtain ⟨x, hx, hdecode⟩ := h.decode_follows s c
  rw [hdecode]
  show x.cursor = _
  rw [hx.cursor, hmarks]
  rfl

/-- An instruction takes at least one byte and at most `longest`, all of them asked for one
after another from its start on. -/
theorem Sound.decode_reads (h : cpu.Sound a longest) (s : Setting) (c : Cursor) :
    ∃ n, 0 < n ∧ n ≤ longest ∧ c.begin.Reads s n (cpu.decode s c).cursor := by
  obtain ⟨n, hpos, hle, hreads, hfits⟩ := h.selects s c.begin
  obtain ⟨x, hx, hdecode⟩ := h.decode_follows s c
  have hroom := (Alphabet.allows_iff.1 hfits.allows).1
  have hoperands := (h.describes s).replacements_reads
    (Pattern.marks (cpu.select s c.begin).pattern.text) (cpu.select s c.begin).cursor
  rw [← hx.cursor] at hoperands
  rw [hdecode]
  exact ⟨_, by omega, by omega, hreads.trans hoperands⟩

theorem Sound.decode_opcodes (cpu : InstructionSet) (s : Setting) (c : Cursor) :
    (cpu.decode s c).item.opcodes = (cpu.decode s c).cursor.taken.toList := rfl

theorem Sound.shownAddress_fold (h : cpu.Sound a longest) (s : Setting) (place : Int) :
    cpu.shownAddress s (fold cpu.addressMask place) = s.shownAddress place := by
  unfold InstructionSet.shownAddress Setting.shownAddress
  rw [h.mask, fold_eq_wrap, fold_eq_wrap, wrap_wrap_add]

theorem Sound.decode_frame (h : cpu.Sound a longest) (s : Setting) (c : Cursor) :
    (cpu.decode s c).item.address = s.shownAddress c.offset ∧
      (cpu.decode s c).item.hasLabel = false := by
  rw [cpu.decode_eq]
  show (cpu.expansion s c).item.address = _ ∧ (cpu.expansion s c).item.hasLabel = _
  rw [(h.expansion_follows s c).item]
  constructor
  · exact (foldl_note_view Item.address (fun _ _ => rfl) _ _).trans
      (h.shownAddress_fold s c.offset)
  · exact foldl_note_view Item.hasLabel (fun _ _ => rfl) _ _

/-- An instruction stands for itself. -/
theorem Sound.decode_continuation (h : cpu.Sound a longest) (s : Setting) (c : Cursor) :
    (cpu.decode s c).item.continuation = false := by
  rw [cpu.decode_eq]
  show (cpu.expansion s c).item.continuation = false
  rw [(h.expansion_follows s c).item]
  exact foldl_note_view Item.continuation (fun _ _ => rfl) _ (cpu.draft s c)

/-- An instruction refers to the label that its item shows, and to no other: the pattern has
one letter that uses a label, or none. -/
theorem Sound.decode_references (h : cpu.Sound a longest) (s : Setting) (c : Cursor) :
    (cpu.decode s c).references = (cpu.decode s c).item.uses ∧
      ((cpu.decode s c).item.hasLabelSymbol = true →
        (cpu.decode s c).item.symbolValue.isSome = true) := by
  obtain ⟨n, -, -, hreads, hfits⟩ := h.selects s c.begin
  obtain ⟨x, hx, hdecode⟩ := h.decode_follows s c
  have hletters := (Alphabet.allows_iff.1 hfits.allows).2.2
  have hstart : (cpu.draft s c).address =
      s.shownAddress (cpu.select s c.begin).cursor.opStart := by
    rw [hreads.opStart]
    exact h.shownAddress_fold s c.offset
  have hfresh : (cpu.draft s c).hasLabelSymbol = false := rfl
  have hrun := (h.describes s).run_uses hletters _ hfresh hstart
  rw [hdecode]
  show x.references = Item.uses { x.item with opcodes := _ } ∧
    (x.item.hasLabelSymbol = true → x.item.symbolValue.isSome = true)
  rw [hx.references, hx.item]
  exact hrun

theorem Sound.partitionAt_fold (h : cpu.Sound a longest) (o : Options) (place : Int) :
    o.partitionAt (fold cpu.addressMask place) = o.partitionAt place := by
  rw [h.mask, fold_eq_wrap, Options.partitionAt_wrap]

/-- A view of the cursor in which the same pattern is selected and the same replacements are made
is a view of the whole instruction: what differs is which bytes are shown. -/
theorem Sound.decode_view (h : cpu.Sound a longest) {s s' : Setting} {c c' : Cursor}
    {f : Cursor → Cursor}
    (hselect : cpu.select s' c'.begin =
      { cpu.select s c.begin with cursor := f (cpu.select s c.begin).cursor })
    (hexpand : ∀ letter d, cpu.expand s' letter (f d) =
      ((cpu.expand s letter d).1, f (cpu.expand s letter d).2))
    (haddress : s'.shownAddress c'.offset = s.shownAddress c.offset)
    (hpart : s'.options.partitionAt c'.offset = s.options.partitionAt c.offset) :
    cpu.decode s' c' =
      let d := cpu.decode s c
      ⟨{ d.item with opcodes := (f d.cursor).taken.toList }, d.references, f d.cursor⟩ := by
  have hpattern : (cpu.select s' c'.begin).pattern = (cpu.select s c.begin).pattern := by
    rw [hselect]
    rfl
  unfold decode
  dsimp only
  rw [hpattern, h.shownAddress_fold, h.shownAddress_fold, h.partitionAt_fold, h.partitionAt_fold,
    haddress, hpart, hselect]
  split
  · rfl
  · simp only [Pattern.expand, Pattern.expandFrom_view hexpand]

/-- Only the place of the cursor counts for what is decoded there, and the overflow mark is
handed on. -/
theorem Sound.decode_anew (h : cpu.Sound a longest) (s : Setting) (c : Cursor) :
    cpu.decode s c =
      let d := cpu.decode s { offset := c.offset }
      { d with cursor := d.cursor.spill c.overflow } :=
  h.decode_view (h.anew s c) (fun letter => (h.describes s).spill letter c.overflow) rfl rfl

/-- As long as no byte was missing, the place of the cursor is all that counts. -/
theorem Sound.decode_place (h : cpu.Sound a longest) (s : Setting) {c : Cursor}
    (ho : c.overflow = false) : cpu.decode s c = cpu.decode s { offset := c.offset } := by
  rw [h.decode_anew, ho]
  simp [Cursor.spill]

end InstructionSet

end RomListing
