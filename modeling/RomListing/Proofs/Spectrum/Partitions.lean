import RomListing.Proofs.Machine.Items
import RomListing.Proofs.Pass.Orderly
import RomListing.Proofs.Pass.Partitions
import RomListing.Proofs.Spectrum.Refinement

/-! # Partitions under the conventions of the Spectrum ROMs

The extension names no partition for what it lists itself: the payloads of phrases, and custom
regions. An item of a code region names its partition exactly if a phrase starts where it stands.
-/

namespace RomListing.Spectrum

/-! ## Where phrases start -/

section

variable (s : Setting) (last : Int) (q : Processor) (pages : Pages)

def phraseStop (place : Int) : Int :=
  let d := q.instructionSet.decode s { offset := place }
  (payload s last (payload? pages s.options d.item) d.cursor.offset).stop

/-- A phrase starts at the second place, if phrases are read from the first one on. -/
inductive PhraseAt : Int → Int → Prop where
  | here {place : Int} : place ≤ last → PhraseAt place place
  | later {place x : Int} : place ≤ last → PhraseAt (phraseStop s last q pages place) x →
      PhraseAt place x

/-- What stands at the place is listed by the extension: it is part of a custom region, or of a
payload. -/
def InPayload (r : Region) (x : Int) : Prop :=
  r.kind = .custom ∨ r.kind = .code ∧ ¬PhraseAt s r.last q pages r.first x

end

variable {s : Setting} {last : Int} {q : Processor} {pages : Pages} {place x : Int}

theorem le_phraseStop (place : Int) : place ≤ phraseStop s last q pages place := by
  obtain ⟨n, -, -, hreads⟩ := q.sound.decode_reads s { offset := place }
  have hle : place ≤ (q.instructionSet.decode s { offset := place }).cursor.offset :=
    hreads.offset_le
  exact Int.le_trans hle (le_payload_stop s last _ _)

theorem PhraseAt.le (h : PhraseAt s last q pages place x) : place ≤ x := by
  induction h with
  | here _ => exact Int.le_refl _
  | later _ _ ih => exact Int.le_trans (le_phraseStop _) ih

theorem phraseAt_iff (h : place ≤ last) : PhraseAt s last q pages place x ↔
    x = place ∨ PhraseAt s last q pages (phraseStop s last q pages place) x := by
  constructor
  · rintro (_ | ⟨-, hlater⟩)
    · exact .inl rfl
    · exact .inr hlater
  · rintro (rfl | hlater)
    · exact .here h
    · exact .later h hlater

/-! ## What the extension lists -/

/-- The item is listed by the extension at a place of the part, from `low` up to before `high`. -/
def PayloadWithin (s : Setting) (last low high : Int) (item : Item) : Prop :=
  ∃ x, low ≤ x ∧ x < high ∧ x ≤ last ∧ IsPayload s x item

theorem PayloadWithin.mono {low high low' high' : Int} {item : Item}
    (h : PayloadWithin s last low high item) (hlow : low' ≤ low) (hhigh : high ≤ high') :
    PayloadWithin s last low' high' item := by
  obtain ⟨x, hx, hx', hlast, hitem⟩ := h
  exact ⟨x, by omega, by omega, hlast, hitem⟩

/-- An item that has a byte in the image ends behind the place where it starts. -/
theorem IsPayload.within {item : Item} (h : IsPayload s place item)
    (hin : (s.image.byte? place).isSome = true) (hle : place ≤ last) {size : Nat}
    (hpos : 0 < size) : ∀ item' ∈ (Passage.single s place size item).items,
      PayloadWithin s last place (Passage.single s place size item).stop item' :=
  List.forall_mem_singleton.2 ⟨place, Int.le_refl _, lt_single_stop hin hpos item, hle, h⟩

theorem isPayload_errorItem : IsPayload s place (errorItem s place) :=
  ⟨rfl, rfl, ".defb ", by decide, _, rfl⟩

theorem isPayload_routineItem : IsPayload s place (routineItem s place) :=
  ⟨rfl, rfl, ".defw $", by decide, _, rfl⟩

theorem token_within (due : Nat) (hin : (s.image.byte? place).isSome = true) (hle : place ≤ last) :
    ∀ item ∈ (token s due place).items,
      PayloadWithin s last place (token s due place).stop item := by
  have hitem (t : ByteCode.Token) : IsPayload s place (t.item s place) :=
    ⟨rfl, rfl, Calculator.byteList_lead _⟩
  exact (hitem _).within hin hle (ByteCode.Token.bytes_pos _)

section

variable (hfit : last ≤ s.image.last)
include hfit

theorem numbers_within (n : Nat) (hbase : s.image.base ≤ place) :
    ∀ item ∈ (numbers s last n place).items,
      PayloadWithin s last place (numbers s last n place).stop item := by
  induction n generalizing place with
  | zero => exact List.forall_mem_nil _
  | succ n ih =>
      unfold numbers
      split
      · have hin := Image.byte?_isSome_iff.2 ⟨hbase, Int.le_trans ‹_› hfit⟩
        have hle : place ≤ (token s (n + 1) place).stop := le_single_stop s place _ _
        have hstop := le_numbers_stop s last n (token s (n + 1) place).stop
        refine List.forall_mem_append.2 ⟨fun item hi => ?_, fun item hi => ?_⟩
        · exact (token_within (n + 1) hin ‹_› item hi).mono (Int.le_refl _) hstop
        · exact (ih (Int.le_trans hbase hle) item hi).mono hle (Int.le_refl _)
      · exact List.forall_mem_nil _

theorem program_within (hbase : s.image.base ≤ place) :
    ∀ item ∈ (program s last place).items,
      PayloadWithin s last place (program s last place).stop item := by
  fun_induction program s last place with
  | case1 place hin operation code hend => exact token_within 0 hin.2 hin.1
  | case2 place hin operation code hend literals rest ih =>
      have hoperation : place ≤ operation.stop := le_single_stop s place _ _
      have hliterals : operation.stop ≤ literals.stop := le_numbers_stop ..
      have hrest : literals.stop ≤ rest.stop := le_program_stop ..
      have hnumbers : ∀ item ∈ literals.items,
          PayloadWithin s last operation.stop literals.stop item :=
        numbers_within hfit _ (Int.le_trans hbase hoperation)
      have hmore := ih (by omega)
      refine List.forall_mem_append.2 ⟨fun item hi => ?_,
        List.forall_mem_append.2 ⟨fun item hi => ?_, fun item hi => ?_⟩⟩
      · exact (token_within 0 hin.2 hin.1 item hi).mono (Int.le_refl _)
          (Int.le_trans hliterals hrest)
      · exact (hnumbers item hi).mono hoperation hrest
      · exact (hmore item hi).mono (Int.le_trans hoperation hliterals) (Int.le_refl _)
  | case3 place hin => exact List.forall_mem_nil _

theorem payload_within (kind : Option Payload) (hbase : s.image.base ≤ place) :
    ∀ item ∈ (payload s last kind place).items,
      PayloadWithin s last place (payload s last kind place).stop item := by
  unfold payload
  split
  · have hin := Image.byte?_isSome_iff.2 ⟨hbase, Int.le_trans ‹_› hfit⟩
    split
    · exact List.forall_mem_nil _
    · exact isPayload_errorItem.within hin ‹_› Nat.one_pos
    · exact program_within hfit hbase
    · exact isPayload_routineItem.within hin ‹_› Nat.two_pos
  · exact List.forall_mem_nil _

end

/-! ## What a part lists -/

/-- The item stands at a place of the part, and names the partition of the place unless the place is
in what the extension lists. -/
structure Placed (s : Setting) (low last : Int) (payload : Int → Prop) (item : Item) (x : Int) :
    Prop where
  low : low ≤ x
  last : x ≤ last
  address : item.address = s.shownAddress x
  unnamed : payload x → item.partition = none
  named : ¬payload x → item.partition = s.options.partitionAt x

theorem phrases_placed (hfit : last ≤ s.image.last) (hbase : s.image.base ≤ place) :
    ∀ item ∈ phrases s last q pages place, ∃ x,
      Placed s place last (fun x => ¬PhraseAt s last q pages place x) item x := by
  fun_induction phrases s last q pages place with
  | case1 place hin d kind follow ih =>
      obtain ⟨n, hpos, -, hreads⟩ := q.sound.decode_reads s { offset := place }
      have hlt : place < d.cursor.offset := hreads.offset_lt hpos hin.2
      have hstop : d.cursor.offset ≤ follow.stop := le_payload_stop ..
      have hnext : phraseStop s last q pages place = follow.stop := rfl
      have hpayload : ∀ item ∈ follow.items,
          PayloadWithin s last d.cursor.offset follow.stop item :=
        payload_within hfit kind (by omega)
      refine List.forall_mem_append.2 ⟨List.forall_mem_cons.2 ⟨?_, fun item hi => ?_⟩,
        fun item hi => ?_⟩
      · refine ⟨place, Int.le_refl _, hin.1, (q.sound.decode_frame s _).1, ?_, fun _ => ?_⟩
        · exact fun hnot => absurd (.here hin.1) hnot
        · exact q.sound.decode_partition s _
      · obtain ⟨x, hx, hx', hlast, hitem⟩ := hpayload item hi
        have hnot : ¬PhraseAt s last q pages place x := by
          rw [phraseAt_iff hin.1, hnext]
          rintro (rfl | hlater)
          · omega
          · have := hlater.le
            omega
        exact ⟨x, by omega, hlast, hitem.address, fun _ => hitem.partition,
          fun h => absurd hnot h⟩
      · obtain ⟨x, hplaced⟩ := ih (by omega) item hi
        have hx := hplaced.low
        have hsame : PhraseAt s last q pages place x ↔
            PhraseAt s last q pages follow.stop x := by
          rw [phraseAt_iff hin.1, hnext, or_iff_right (by omega)]
        exact ⟨x, by omega, hplaced.last, hplaced.address,
          fun hnot => hplaced.unnamed (mt hsame.2 hnot),
          fun hnot => hplaced.named fun h => hnot (mt hsame.1 h)⟩
  | case2 place hout => exact List.forall_mem_nil _

/-- Whatever its kind, a part lists items at places of its own, and of these the ones in payloads
name no partition and the others theirs. -/
theorem lines_placed {r : Region} (hpos : 0 ≤ s.image.base) (hbase : s.image.base ≤ r.first)
    (hlast : r.last ≤ s.image.last) : ∀ item ∈ lines q pages s r,
      Placed s r.first r.last (InPayload s q pages r) item (s.place item) := by
  have hlt := r.last_lt
  have hplace {payload : Int → Prop} {item : Item} {x : Int}
      (h : Placed s r.first r.last payload item x) : s.place item = x := by
    have hlow := h.low
    have hlast := h.last
    exact s.place_of_shown h.address (by omega) (by omega)
  intro item hi
  unfold lines at hi
  cases hk : r.kind with
  | code =>
      rw [hk] at hi
      obtain ⟨x, hplaced⟩ := phrases_placed hlast hbase item hi
      have hiff : InPayload s q pages r x ↔ ¬PhraseAt s r.last q pages r.first x := by
        simp [InPayload, hk]
      rw [hplace hplaced]
      exact ⟨hplaced.low, hplaced.last, hplaced.address, hplaced.unnamed ∘ hiff.1,
        fun h => hplaced.named (mt hiff.2 h)⟩
  | custom =>
      rw [hk] at hi
      obtain ⟨x, hx, hx', hitem⟩ := isPayload_entries r.last r.length 0 _ item hi
      have hplaced : Placed s r.first r.last (InPayload s q pages r) item x :=
        ⟨hx, hx', hitem.address, fun _ => hitem.partition, fun h => absurd (.inl hk) h⟩
      rw [hplace hplaced]
      exact hplaced
  | bytes | words | gap =>
      rw [hk] at hi
      have hcode : r.kind ≠ .code := by simp [hk]
      have hnot : ∀ x, ¬InPayload s q pages r x := by simp [InPayload, hk]
      have hlisted := q.sound.lines_listed hcode hpos hbase hlast
      obtain ⟨x, hx, hx', haddress⟩ := hlisted.placed item hi
      have hnames := q.sound.lines_namePartitions hcode item hi
      have hx'' : s.place item = x := s.place_of_shown haddress (by omega) (by omega)
      exact ⟨by omega, by omega, hx'' ▸ haddress, fun h => absurd h (hnot _), fun _ => hnames⟩

end RomListing.Spectrum
