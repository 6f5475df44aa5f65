import RomListing.Proofs.Pass.Tiling
import RomListing.Proofs.Tokens

/-! # Rows of items

A step over code lists an item where it starts, and perhaps more items that continue it. Such a row
shows the bytes from the start of the step to its end, where the next row starts. Only at the end of
the image a row of one item may show more: it asked for bytes that the image does not have, and
shows zeros for them.
-/

namespace RomListing

theorem Setting.shownAddress_inj {s : Setting} {a b : Int} (ha : 0 ≤ a) (ha' : a < 0x10000)
    (hb : 0 ≤ b) (hb' : b < 0x10000) (h : s.shownAddress a = s.shownAddress b) : a = b := by
  unfold Setting.shownAddress wrap at h
  omega

/-! ## Lists of items over a stretch of places -/

/-- The items stand at places of the stretch. Those that continue no other have addresses of their
own, and every item has one of them at its address. Items that use a label name it. -/
structure Listed (s : Setting) (low high : Int) (items : List Item) : Prop where
  placed : ∀ item ∈ items, ∃ place, low ≤ place ∧ place < high ∧
    item.address = s.shownAddress place
  apart : items.Pairwise fun item later =>
    item.continuation = false → later.continuation = false → item.address ≠ later.address
  led : ∀ item ∈ items, ∃ first ∈ items,
    first.continuation = false ∧ first.address = item.address
  named : ∀ item ∈ items, item.NamesLabel s.options

namespace Listed

variable {s : Setting} {low middle high : Int} {items more : List Item}

theorem nil (s : Setting) (low high : Int) : Listed s low high [] := by
  constructor <;> simp

theorem mono (h : Listed s low high items) {low' high' : Int} (hlow : low' ≤ low)
    (hhigh : high ≤ high') : Listed s low' high' items := by
  refine ⟨fun item hi => ?_, h.apart, h.led, h.named⟩
  obtain ⟨place, hle, hlt, haddress⟩ := h.placed item hi
  exact ⟨place, by omega, by omega, haddress⟩

/-- Items over two stretches of the address space, one behind the other. -/
theorem append (h : Listed s low middle items) (h' : Listed s middle high more) (hlow : 0 ≤ low)
    (hle : low ≤ middle) (hle' : middle ≤ high) (hhigh : high ≤ 0x10000) :
    Listed s low high (items ++ more) := by
  have hfirst := h.mono (Int.le_refl low) hle'
  have hsecond := h'.mono hle (Int.le_refl high)
  refine ⟨?_, List.pairwise_append.2 ⟨h.apart, h'.apart, ?_⟩, ?_, ?_⟩
  · exact List.forall_mem_append.2 ⟨hfirst.placed, hsecond.placed⟩
  · intro item hi later hl _ _ hsame
    obtain ⟨x, hx, hx', hitem⟩ := h.placed item hi
    obtain ⟨y, hy, hy', hlater⟩ := h'.placed later hl
    rw [hitem, hlater] at hsame
    have hxy := Setting.shownAddress_inj (by omega) (by omega) (by omega) (by omega) hsame
    omega
  · intro item hi
    rcases List.mem_append.1 hi with hi | hi
    · obtain ⟨first, hf, hfirst⟩ := h.led item hi
      exact ⟨first, List.mem_append_left more hf, hfirst⟩
    · obtain ⟨first, hf, hfirst⟩ := h'.led item hi
      exact ⟨first, List.mem_append_right items hf, hfirst⟩
  · exact List.forall_mem_append.2 ⟨h.named, h'.named⟩

/-- What is kept of the items decides. -/
theorem map_iff {f : Item → Item} (hf : ∀ item, (f item).address = item.address ∧
      (f item).continuation = item.continuation ∧
      ((f item).NamesLabel s.options ↔ item.NamesLabel s.options)) :
    Listed s low high (items.map f) ↔ Listed s low high items := by
  have haddress (item : Item) : (f item).address = item.address := (hf item).1
  have hcontinuation (item : Item) : (f item).continuation = item.continuation := (hf item).2.1
  have hplaced : (∀ item ∈ items.map f, ∃ place, low ≤ place ∧ place < high ∧
        item.address = s.shownAddress place) ↔
      ∀ item ∈ items, ∃ place, low ≤ place ∧ place < high ∧
        item.address = s.shownAddress place := by
    simp [haddress]
  have hfirst (a : Int) : (∃ first ∈ items.map f, first.continuation = false ∧
        first.address = a) ↔ ∃ first ∈ items, first.continuation = false ∧ first.address = a := by
    constructor
    · rintro ⟨_, hmem, hfirst⟩
      obtain ⟨first, hi, rfl⟩ := List.mem_map.1 hmem
      exact ⟨first, hi, hcontinuation first ▸ hfirst.1, haddress first ▸ hfirst.2⟩
    · rintro ⟨first, hi, hfirst⟩
      exact ⟨f first, List.mem_map_of_mem hi, (hcontinuation first).trans hfirst.1,
        (haddress first).trans hfirst.2⟩
  have hled : (∀ item ∈ items.map f, ∃ first ∈ items.map f,
        first.continuation = false ∧ first.address = item.address) ↔
      ∀ item ∈ items, ∃ first ∈ items,
        first.continuation = false ∧ first.address = item.address := by
    rw [List.forall_mem_map]
    simp only [hfirst, haddress]
  have hnamed : (∀ item ∈ items.map f, item.NamesLabel s.options) ↔
      ∀ item ∈ items, item.NamesLabel s.options := by
    simp [(hf _).2.2]
  constructor
  · rintro ⟨hp, hapart, hl, hn⟩
    rw [List.pairwise_map] at hapart
    simp only [haddress, hcontinuation] at hapart
    exact ⟨hplaced.1 hp, hapart, hled.1 hl, hnamed.1 hn⟩
  · rintro ⟨hp, hapart, hl, hn⟩
    refine ⟨hplaced.2 hp, ?_, hled.2 hl, hnamed.2 hn⟩
    rw [List.pairwise_map]
    simpa only [haddress, hcontinuation] using hapart

end Listed

/-! ## Rows -/

/-- What a step from `a` to `b` lists. Its items show the bytes from `a` on, and those of a step
that stays in the image end at `b`. -/
structure Row (s : Setting) (longest : Nat) (a : Int) (items : List Item) (b : Int) : Prop where
  leads : ∃ first rest, items = first :: rest ∧ first.continuation = false ∧
    ∀ item ∈ rest, item.continuation = true
  shown : ∀ item ∈ items, item.address = s.shownAddress a ∧ item.hasLabel = false ∧
    item.NamesLabel s.options
  bytes : ∃ n : Nat, 0 < n ∧ items.flatMap Item.opcodes = s.image.slice a n ∧
    b = min (a + n) (s.image.last + 1) ∧
    (a + n ≤ s.image.last + 1 ∨ n ≤ longest ∧ ∃ item, items = [item])

/-- Rows from `a` to `b`, each of which starts at `last` or before. -/
inductive Rows (s : Setting) (longest : Nat) (last : Int) : Int → List Item → Int → Prop where
  | nil (a : Int) : Rows s longest last a [] a
  | cons {a b c : Int} {items more : List Item} : a ≤ last → Row s longest a items b →
      Rows s longest last b more c → Rows s longest last a (items ++ more) c

variable {s : Setting} {longest : Nat} {last a b c : Int} {items more : List Item}

theorem Row.lt (h : Row s longest a items b) (ha : a ≤ s.image.last) : a < b := by
  obtain ⟨n, hpos, -, hstop, -⟩ := h.bytes
  omega

theorem Row.listed (h : Row s longest a items b) : Listed s a (a + 1) items := by
  obtain ⟨first, rest, rfl, hfirst, hrest⟩ := h.leads
  have haddress {item : Item} (hi : item ∈ first :: rest) : item.address = s.shownAddress a :=
    (h.shown item hi).1
  refine ⟨?_, ?_, ?_, fun item hi => (h.shown item hi).2.2⟩
  · exact fun item hi => ⟨a, Int.le_refl a, by omega, haddress hi⟩
  · -- only the first item continues no other
    refine List.pairwise_cons.2 ⟨?_, List.pairwise_iff_forall_sublist.2 ?_⟩
    · intro later hl _ hlater
      rw [hrest later hl] at hlater
      cases hlater
    · intro item later hsub hitem
      rw [hrest item (hsub.subset List.mem_cons_self)] at hitem
      cases hitem
  · exact fun item hi =>
      ⟨first, List.mem_cons_self, hfirst, (haddress List.mem_cons_self).trans (haddress hi).symm⟩

namespace Rows

theorem of_lt (h : Rows s longest last a items b) (ha : last < a) : items = [] ∧ b = a := by
  cases h with
  | nil => exact ⟨rfl, rfl⟩
  | cons hle => omega

theorem plain (h : Rows s longest last a items b) : ∀ item ∈ items, item.hasLabel = false := by
  induction h with
  | nil => simp
  | cons _ hrow _ ih => exact List.forall_mem_append.2 ⟨fun item hi => (hrow.shown item hi).2.1, ih⟩

theorem listed (h : Rows s longest last a items b) (hfit : last ≤ s.image.last) (ha : 0 ≤ a)
    (hlast : last < 0x10000) : Listed s a (last + 1) items := by
  induction h with
  | nil a => exact .nil s a (last + 1)
  | cons hle hrow hrest ih =>
      have hlt := hrow.lt (Int.le_trans hle hfit)
      have hmore := (ih (by omega)).mono (Int.add_one_le_of_lt hlt) (Int.le_refl _)
      exact hrow.listed.append hmore ha (by omega) (by omega) (by omega)

/-- Rows show the bytes from where they start to where they stop. If they show more, then zeros
that the last item put in place of bytes behind the end of the image. -/
theorem bytes (h : Rows s longest last a items b) (hfit : last ≤ s.image.last)
    (ha : a ≤ s.image.last + 1) :
    ∃ n : Nat, items.flatMap Item.opcodes = s.image.slice a n ∧
      b = min (a + n) (s.image.last + 1) ∧
      (a + n ≤ s.image.last + 1 ∨ ∃ before cut place, items = before ++ [cut] ∧ place ≤ last ∧
        cut.address = s.shownAddress place ∧ place + cut.opcodes.length = a + n ∧
        cut.opcodes.length ≤ longest) := by
  induction h with
  | nil a => exact ⟨0, rfl, by omega, .inl (by omega)⟩
  | @cons a b c items more hle hrow hrest ih =>
      obtain ⟨n, hpos, hbytes, hstop, hin⟩ := hrow.bytes
      by_cases hinside : a + n ≤ s.image.last + 1
      · obtain rfl : b = a + n := by omega
        obtain ⟨k, hmore, hend, hcut⟩ := ih hinside
        have hplace : a + (n + k : Nat) = a + n + k := by
          rw [Int.natCast_add, Int.add_assoc]
        rw [← hplace] at hend
        refine ⟨n + k, ?_, hend, ?_⟩
        · rw [List.flatMap_append, hbytes, hmore, Image.slice_add]
        · rw [hplace]
          rcases hcut with hcut | ⟨before, cut, place, rfl, hcut⟩
          · exact .inl hcut
          · exact .inr ⟨items ++ before, cut, place, (List.append_assoc ..).symm, hcut⟩
      · -- behind the image no row starts
        obtain ⟨hlong, cut, rfl⟩ := hin.resolve_left hinside
        obtain ⟨rfl, rfl⟩ := hrest.of_lt (by omega)
        have hlength := congrArg List.length hbytes
        rw [List.flatMap_singleton, Image.slice_length] at hlength
        refine ⟨n, by rw [List.append_nil, hbytes], hstop, .inr ?_⟩
        refine ⟨[], cut, a, rfl, hle, (hrow.shown cut List.mem_cons_self).1, ?_, ?_⟩
        · rw [hlength]
        · omega

end Rows

/-! ## Instructions and data lines -/

namespace InstructionSet

variable {cpu : InstructionSet} {alphabet : Alphabet} {p : Region}

/-- An instruction is a row, whatever remark is put to it. -/
theorem Sound.decode_row (h : cpu.Sound alphabet longest)
    (hn : (cpu.expand s).NamesLabels s.options) {place : Int} (hbase : s.image.base ≤ place)
    (hlast : place ≤ s.image.last) (remark : Option Text) (longest' : Nat) :
    let d := cpu.decode s { offset := place }
    Row s longest' place [{ d.item with remark := remark }] d.cursor.offset := by
  intro d
  obtain ⟨hpos, -, hstop, -⟩ : 0 < d.item.opcodes.length ∧ _ ∧
    d.cursor.offset = place + d.item.opcodes.length ∧ _ := h.decode_within (s := s) hbase hlast
  obtain ⟨n, -, -, hreads⟩ := h.decode_reads s { offset := place }
  have hframe := h.decode_frame s { offset := place }
  have htaken : d.item.opcodes = s.image.slice place (s.image.available place n) :=
    hreads.taken
  have hlength : d.item.opcodes.length = s.image.available place n := by
    rw [htaken, Image.slice_length]
  have havailable := Image.available_eq_min hbase n
  refine ⟨⟨_, [], rfl, h.decode_continuation s _, by simp⟩, ?_, ?_⟩
  · intro item hi
    rw [List.mem_singleton.1 hi]
    exact ⟨hframe.1, hframe.2, h.decode_namesLabel hn { offset := place }⟩
  · refine ⟨d.item.opcodes.length, hpos, ?_, ?_, .inl ?_⟩
    · rw [List.flatMap_singleton, hlength, htaken]
    · omega
    · omega

theorem Sound.lines_listed (h : cpu.Sound alphabet longest) (hk : p.kind ≠ .code)
    (hpos : 0 ≤ s.image.base) (hbase : s.image.base ≤ p.first) (hlast : p.last ≤ s.image.last) :
    Listed s p.first (p.last + 1) (cpu.lines s p) := by
  obtain ⟨⟨stop, hchain, -, -⟩, hstarts⟩ := h.lines_tile hpos hbase hlast
  have hdata : ∀ item ∈ cpu.lines s p, _ := isData_lines hk
  have hplaced : ∀ item ∈ cpu.lines s p, item.address = s.shownAddress (s.place item) ∧
      item.continuation = false := by
    intro item hi
    have hline (place : Int) (bytes : List UInt8) (text : String) :
        (cpu.dataItem s place bytes text).address = s.shownAddress place :=
      h.shownAddress_fold s place
    have hplace := (hchain.within item hi).1
    have hform := (hstarts item hi).2
    generalize s.place item = place at *
    cases hform with
    | instruction hcode => exact absurd hcode hk
    | byteLine | wordLine | oddByte => exact ⟨hline _ _ _, rfl⟩
    | gap _ hfirst => exact ⟨hfirst ▸ hline _ _ _, rfl⟩
  refine ⟨?_, ?_, ?_, ?_⟩
  · intro item hi
    have hin := (hchain.within item hi).1
    have hstart := (hstarts item hi).1
    exact ⟨s.place item, hin, by omega, (hplaced item hi).1⟩
  · refine hchain.pairwise.imp_of_mem ?_
    intro item later hi hl hlt _ _ hsame
    have hlt := hlt.1
    unfold Setting.place at hlt
    rw [hsame] at hlt
    omega
  · exact fun item hi => ⟨item, hi, (hplaced item hi).2, rfl⟩
  · intro item hi hsymbol
    rw [(hdata item hi).2] at hsymbol
    cases hsymbol

end InstructionSet

end RomListing
