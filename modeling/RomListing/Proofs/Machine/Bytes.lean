import RomListing.Proofs.Machine.Rows

/-! # The bytes of a part

What a part of code lists, and what an extension lists of a custom region, are the bytes from its
start up to the place where the cursor stops. Only the conventions of a machine go further: what is
cut short by the end of the image is listed with zeros for the bytes that are missing, where the
processor lists the bytes that it could read.
-/

namespace RomListing

/-- The items list the bytes from `a` up to before `stop`, and then `missing` zeros that are no
bytes of the image. The zeros belong to the last item, which starts in the part that ends at `last`
and is cut short by the end of the image. -/
structure ListsBytes (s : Setting) (longest : Nat) (last a stop : Int) (items : List Item)
    (missing : Nat) : Prop where
  start : a ≤ stop
  within : stop ≤ s.image.last + 1
  bytes : items.flatMap Item.opcodes =
    s.image.slice a (stop - a).toNat ++ List.replicate missing 0
  cut : missing ≠ 0 → stop = s.image.last + 1 ∧ ∃ before cut place, items = before ++ [cut] ∧
    place ≤ last ∧ cut.address = s.shownAddress place ∧
    place + cut.opcodes.length = stop + missing ∧ cut.opcodes.length ≤ longest

theorem Rows.listsBytes {s : Setting} {longest : Nat} {last a b : Int} {items : List Item}
    (h : Rows s longest last a items b) (hfit : last ≤ s.image.last)
    (ha : a ≤ s.image.last + 1) : ∃ missing, ListsBytes s longest last a b items missing := by
  obtain ⟨n, hbytes, hstop, hcut⟩ := h.bytes hfit ha
  refine ⟨n - (b - a).toNat, by omega, by omega, ?_, ?_⟩
  · have hsplit : n = (b - a).toNat + (n - (b - a).toNat) := by clear hcut; omega
    rw [hbytes, hsplit, Image.slice_add, ← hsplit]
    refine congrArg (s.image.slice a (b - a).toNat ++ ·) ?_
    by_cases hinside : a + n ≤ s.image.last + 1
    · have hnone : n - (b - a).toNat = 0 := by clear hcut; omega
      rw [hnone]
      rfl
    · exact Image.slice_of_last_lt (by clear hcut; omega) _
  · intro hmissing
    rcases hcut with hinside | ⟨before, cut, place, hitems, hle, haddress, hend, hlong⟩
    · omega
    · exact ⟨by omega, before, cut, place, hitems, hle, haddress, by omega, hlong⟩

namespace ListsBytes

variable {s : Setting} {longest : Nat} {last a stop : Int} {items : List Item} {missing : Nat}

theorem exact_iff (h : ListsBytes s longest last a stop items missing) :
    items.flatMap Item.opcodes = s.image.slice a (stop - a).toNat ↔ missing = 0 := by
  rw [h.bytes]
  simp

/-- What starts well before the end of the image is not cut short. -/
theorem exact_of_room (h : ListsBytes s longest last a stop items missing)
    (hroom : last + longest ≤ s.image.last + 1) : missing = 0 := by
  by_contra hmissing
  obtain ⟨hstop, before, cut, place, -, hle, -, hend, hlong⟩ := h.cut hmissing
  omega

end ListsBytes

/-- The part is read step by step: it is code, or a custom region that the extension lists. -/
def Pass.ReadsPart {σ : Type} (job : Job) (ext : Extension σ) (p : Pass σ) (r : Region) : Prop :=
  r.kind = .code ∨
    r.kind = .custom ∧ (ext.custom job.setting r (p.seek r).cursor p.state).handled = true

theorem Pass.part_rows {σ : Type} {job : Job} {ext : Extension σ} {alphabet : Alphabet}
    {width longest : Nat} (h : job.cpu.Sound alphabet width)
    (hn : (job.cpu.expand job.setting).NamesLabels job.setting.options)
    (hx : ext.Orderly longest) {p : Pass σ} {r : Region}
    (hbase : job.setting.image.base ≤ r.first) (hlast : r.last ≤ job.setting.image.last)
    (hreads : p.ReadsPart job ext r) :
    ∃ items, (p.part job ext r).output.lines = p.output.lines ++ items ∧
      Rows job.setting longest r.last r.first items (p.part job ext r).cursor.offset := by
  have grown {q : Pass σ} {o : Output} {items : List Item} (happends : p.output.Appends items o)
      (hfixup : q.output = o.fixup)
      (hrows : Rows job.setting longest r.last r.first items q.cursor.offset) :
      ∃ items, q.output.lines = p.output.lines ++ items ∧
        Rows job.setting longest r.last r.first items q.cursor.offset := by
    refine ⟨items, ?_, hrows⟩
    rw [hfixup, Output.lines_fixup, happends.lines hrows.plain]
  unfold part
  dsimp only
  rcases hreads with hk | ⟨hk, hhandled⟩
  · rw [hk]
    obtain ⟨items, o, happends, hfixup, hrows⟩ :=
      codePart_rows h hn hx (p.note [.part r]) hbase hlast
    exact grown happends hfixup hrows
  · rw [hk]
    obtain ⟨items, o, happends, hfixup, hrows⟩ :=
      customPart_rows hx (p.note [.part r]) hbase hlast hhandled
    exact grown happends hfixup hrows

namespace Machine

/-- In a run, what a part of code lists, and what the conventions of the machine list of a custom
part, are the bytes from the start of the part to the place where the cursor stops, which lies in
the image or right behind it. That is all if no zeros were put in place of missing bytes. There may
be some if the last item starts less than `longest machine` bytes before the end of the image. -/
theorem run_lists_bytes (q : Processor) (machine : Option Machine) (map : MemoryMap) (s : Setting)
    (first last : Int) (hbase : 0 ≤ s.image.base) {window : Region}
    (hwindow : Job.window ⟨q.instructionSet, map, s⟩ first last = some window)
    {before after : List Region} {r : Region}
    (hparts : Job.parts ⟨q.instructionSet, map, s⟩ window = before ++ r :: after) :
    let job : Job := ⟨q.instructionSet, map, s⟩
    let p := before.foldl (Pass.part job (extension machine))
      { cursor := { offset := 0 }, state := fresh machine }
    let done := p.part job (extension machine) r
    p.ReadsPart job (extension machine) r → ∃ items missing,
      done.output.lines = p.output.lines ++ items ∧
      ListsBytes s (longest machine) r.last r.first done.cursor.offset items missing ∧
      (items.flatMap Item.opcodes = s.image.slice r.first (done.cursor.offset - r.first).toNat ↔
        missing = 0) ∧
      (r.last + longest machine ≤ s.image.last + 1 → missing = 0) := by
  intro job p done hreads
  have hsound : job.cpu.Sound q.alphabet q.longest := q.sound
  have hmem : r ∈ job.parts window := by simp [job, hparts]
  have hfit := Job.parts_fit hsound.mask hbase hwindow r hmem
  have hle := r.first_le_last
  obtain ⟨items, hlines, hrows⟩ := Pass.part_rows hsound (q.namesLabels s)
    (extension_orderly machine) hfit.1 hfit.2 hreads
  have hlast : (r.last : Int) ≤ s.image.last := hfit.2
  obtain ⟨missing, hlists⟩ := hrows.listsBytes hlast (by omega)
  exact ⟨items, missing, hlines, hlists, hlists.exact_iff, hlists.exact_of_room⟩

/-- The call at the end of the image is listed with a code, though there is none. -/
theorem run_lists_bytes_missing_code :
    let s : Setting := { image := { bytes := #[0x00, 0xDF] } }
    let r : Region := .span 0 1 .code
    let done := Pass.part ⟨Processor.z80.instructionSet, .ofList [r], s⟩ (extension (some .z88))
      { cursor := { offset := 0 }, state := fresh (some .z88) } r
    ∃ missing, done.output.lines.map Item.opcodes = [[0x00], [0xDF, 0x00]] ∧
      ListsBytes s 4 r.last r.first done.cursor.offset done.output.lines missing ∧
      missing ≠ 0 := by
  intro s r done
  let job : Job := ⟨Processor.z80.instructionSet, .ofList [r], s⟩
  have hopcodes : done.output.lines.map Item.opcodes = [[0x00], [0xDF, 0x00]] := by decide +kernel
  have hread : s.image.slice r.first (done.cursor.offset - r.first).toNat = [0x00, 0xDF] := by
    decide +kernel
  have hwindow : job.window 0 0xFFFF = some r := by decide +kernel
  have hparts : job.parts r = [] ++ r :: [] := by decide +kernel
  have hlisted := run_lists_bytes .z80 (some .z88) (.ofList [r]) s 0 0xFFFF (by decide) hwindow
    hparts (.inl rfl)
  rw [List.foldl_nil] at hlisted
  obtain ⟨items, missing, hlines, hlists, hexact, -⟩ := hlisted
  obtain rfl : done.output.lines = items := hlines
  refine ⟨missing, hopcodes, hlists, fun hnone => ?_⟩
  have hbytes : done.output.lines.flatMap Item.opcodes = _ := hexact.2 hnone
  rw [List.flatMap_def, hopcodes, hread] at hbytes
  exact absurd hbytes (by decide)

/-- A call at the end of the image lists more than the bytes up to the place where the cursor
stops. -/
theorem run_lists_bytes_not_exact :
    let s : Setting := { image := { bytes := #[0xDF] } }
    let r : Region := .span 0 0 .code
    let job : Job := ⟨Processor.z80.instructionSet, .ofList [r], s⟩
    let done := Pass.part job (extension (some .z88))
      { cursor := { offset := 0 }, state := fresh (some .z88) } r
    job.window 0 0xFFFF = some r ∧ job.parts r = [r] ∧ done.cursor.offset = 1 ∧
      done.output.lines.flatMap Item.opcodes = [0xDF, 0x00] ∧
      done.output.lines.flatMap Item.opcodes ≠
        s.image.slice r.first (done.cursor.offset - r.first).toNat := by
  decide +kernel

end Machine

end RomListing
