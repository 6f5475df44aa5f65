import RomListing.Proofs.Machine.Rows
import RomListing.Proofs.Spectrum.ByteCode

/-! # Custom regions hold byte code

The extension lists a custom region entry by entry and counts the numbers that are still due. What
it lists are the tokens of the byte code that starts with the region, as far as they start in it.
Jumps make labels, numbers and other operations make none.
-/

namespace RomListing.Spectrum

namespace ByteCode

open Calculator (entry)

variable {s : Setting} {c : Cursor}

/-! ## Regions -/

theorem entries_of_lt {last : Int} (h : last < c.offset) (s : Setting) (fuel due : Nat) :
    entries s last fuel due c = { pending := due, cursor := c } := by
  cases fuel with
  | zero => rfl
  | succ fuel => exact if_neg (by omega)

/-- The invariant of the entries of a region: from the current place on they are the tokens of any
reading that starts with the numbers which are due. -/
theorem entries_follow {last : Int} (hfit : last ≤ s.image.last) (fuel due : Nat)
    {ts : List Token} (hbase : s.image.base ≤ c.offset) (hfuel : last < c.offset + fuel)
    (hdue : Due due ts) (hspells : Spells s.image c.offset ts)
    (hreach : last < c.offset + size ts) :
    let shown := upTo last c.offset ts
    (entries s last fuel due c).items = shown.map (fun x => x.2.item s x.1) ∧
      (entries s last fuel due c).references = shown.flatMap fun x => x.2.references s x.1 := by
  induction fuel generalizing due c ts with
  | zero =>
      rw [upTo_of_lt (by omega)]
      exact ⟨rfl, rfl⟩
  | succ fuel ih =>
      by_cases hle : c.offset ≤ last
      · cases ts with
        | nil => exact absurd hle (by simpa using hreach)
        | cons t ts =>
            obtain ⟨-, hdue'⟩ := hdue.cons
            obtain ⟨-, hspells'⟩ := spells_cons.1 hspells
            have hshows := entry_shows due hbase (Int.le_trans hle hfit)
            rw [← hdue.head_eq_read hspells] at hshows
            rw [size_cons] at hreach
            have hpos := t.bytes_pos
            have hbeyond : (c.peek s 0).beyond = false := by
              simpa [Cursor.peek] using Image.byte?_isSome_iff.2 ⟨hbase, Int.le_trans hle hfit⟩
            have hrest : let rest := upTo last (c.offset + t.bytes.length) ts
                (entries s last fuel (entry s due c).pending (entry s due c).cursor).items =
                    rest.map (fun x => x.2.item s x.1) ∧
                  (entries s last fuel (entry s due c).pending
                      (entry s due c).cursor).references =
                    rest.flatMap fun x => x.2.references s x.1 := by
              have hoffset := hshows.reads.offset
              have havailable := Image.available_eq_min hbase t.bytes.length
              by_cases hwhole : c.offset + t.bytes.length ≤ s.image.last + 1
              · obtain hoffset : (entry s due c).cursor.offset = c.offset + t.bytes.length := by
                  omega
                rw [hshows.pending, ← hoffset]
                rw [← hoffset] at hspells'
                exact ih _ (by omega) (by omega) hdue' hspells' (by omega)
              · -- behind a token that is cut off there is nothing
                rw [entries_of_lt (by omega), upTo_of_lt (by omega)]
                exact ⟨rfl, rfl⟩
            rw [upTo, if_pos hle]
            unfold entries
            rw [if_pos ⟨hle, hbeyond⟩]
            dsimp only
            rw [hshows.item, hshows.references, hrest.1, hrest.2]
            exact ⟨rfl, rfl⟩
      · rw [upTo_of_lt (by omega), entries_of_lt (by omega)]
        exact ⟨rfl, rfl⟩

end ByteCode

open ByteCode

variable {job : Job} {pages : Pages}

theorem customPart_labels (p : Pass State) (r : Region) :
    (p.customPart job (extension pages) r).output.labels =
      (p.output.refer
        (entries job.setting r.last r.length 0 (p.seek r).cursor).references).labels := by
  let l := entries job.setting r.last r.length 0 (p.seek r).cursor
  have hadded : (p.output.addAll l.items).labels = p.output.labels :=
    p.output.labels_addAll l.items
  calc (p.customPart job (extension pages) r).output.labels
    _ = ((p.output.addAll l.items).refer l.references).labels := Output.labels_fixup _
    _ = (p.output.refer l.references).labels := by
      rw [Output.labels_refer, Output.labels_refer, hadded]

theorem customPart_follows (p : Pass State) {r : Region} (hbase : job.setting.image.base ≤ r.first)
    (hlast : r.last ≤ job.setting.image.last) {ts : List Token}
    (h : Reading job.setting.image r.first r.last ts) :
    let shown := upTo r.last r.first ts
    let done := p.customPart job (extension pages) r
    done.output.lines =
        p.output.lines ++ shown.map (fun x => x.2.item job.setting x.1) ∧
      done.output.labels =
        (p.output.refer (shown.flatMap fun x => x.2.references job.setting x.1)).labels := by
  have hlength : r.length = r.last - r.first + 1 := rfl
  have hle := r.first_le_last
  have hentries {c : Cursor} (hc : c.offset = r.first) :
      let shown := upTo r.last r.first ts
      (entries job.setting r.last r.length 0 c).items =
          shown.map (fun x => x.2.item job.setting x.1) ∧
        (entries job.setting r.last r.length 0 c).references =
          shown.flatMap fun x => x.2.references job.setting x.1 := by
    obtain ⟨hprogram, hspells, hreaches⟩ := h
    rw [← hc] at hbase hspells hreaches ⊢
    exact entries_follow hlast r.length 0 hbase (by omega) hprogram.due_zero hspells hreaches
  dsimp only
  rw [customPart_lines, customPart_labels, (hentries rfl).1,
    (hentries (c := (p.seek r).cursor) rfl).2]
  exact ⟨rfl, rfl⟩

/-- In a run, a custom part lists the tokens of the byte code that starts with it, as far as they
start in it; there is one way only to read the image so. Only the last token may reach behind the
part, and with it behind the image. Each jump makes the label it leads to, and nothing else makes
one. -/
theorem run_lists_byteCode (q : Processor) (pages : Pages) (map : MemoryMap) (s : Setting)
    (first last : Int) (hbase : 0 ≤ s.image.base) {window : Region}
    (hwindow : Job.window ⟨q.instructionSet, map, s⟩ first last = some window)
    {before after : List Region} {r : Region}
    (hparts : Job.parts ⟨q.instructionSet, map, s⟩ window = before ++ r :: after)
    (hkind : r.kind = .custom) :
    let job : Job := ⟨q.instructionSet, map, s⟩
    let p := before.foldl (Pass.part job (extension pages)) { cursor := { offset := 0 }, state := {} }
    let done := p.part job (extension pages) r
    ∃ shown : List (Int × Token), (∃ ts, Reading s.image r.first r.last ts) ∧
      (∀ ts, Reading s.image r.first r.last ts → upTo r.last r.first ts = shown) ∧
      (∀ (earlier later : List (Int × Token)) x, shown = earlier ++ x :: later → later ≠ [] →
        x.1 + x.2.bytes.length ≤ r.last) ∧
      done.output.lines = p.output.lines ++ shown.map (fun x => x.2.item s x.1) ∧
      done.output.labels = (p.output.refer (shown.flatMap fun x => x.2.references s x.1)).labels := by
  intro job p done
  have hmem : r ∈ job.parts window := by simp [job, hparts]
  have hfit := Job.parts_fit q.sound.mask hbase hwindow r hmem
  obtain ⟨ts, hts⟩ := exists_reading s.image r.first r.last
  have hdone : done = (p.note [.part r]).customPart job (extension pages) r := by
    simp only [done, Pass.part, hkind]
  obtain ⟨hlines, hlabels⟩ := customPart_follows (p.note [.part r]) hfit.1 hfit.2 hts
  rw [← hdone] at hlines hlabels
  refine ⟨_, ⟨ts, hts⟩, fun us hus => hus.upTo_eq hts, ?_, hlines, hlabels⟩
  exact fun earlier later x => upTo_ends

/-- The codes of `end-calc` and `jump` in a number, a jump back, and a series that the image cuts
off. -/
theorem run_lists_byteCode_cut_series :
    let s : Setting :=
      { image := { bytes := #[0x34, 0x38, 0x33, 0x33, 0xFD, 0x86, 0x40, 0x01, 0x02, 0x03, 0x80] } }
    let r : Region := .span 0 10 .custom
    let job : Job := ⟨Processor.z80.instructionSet, .ofList [r], s⟩
    let done := Pass.part job (extension .spectrum48) { cursor := { offset := 0 }, state := {} } r
    done.output.lines.map Item.opcodes = [[0x34], [0x38, 0x33], [0x33, 0xFD], [0x86],
        [0x40, 0x01, 0x02, 0x03], [0x80, 0, 0, 0, 0]] ∧
      done.output.labels = [⟨1, [3]⟩] ∧
      ∃ ts, Reading s.image r.first r.last ts ∧
        done.output.lines = (upTo r.last r.first ts).map fun x => x.2.item s x.1 := by
  intro s r job done
  have hopcodes : done.output.lines.map Item.opcodes = [[0x34], [0x38, 0x33], [0x33, 0xFD], [0x86],
      [0x40, 0x01, 0x02, 0x03], [0x80, 0, 0, 0, 0]] := by decide +kernel
  have hlabels : done.output.labels = [⟨1, [3]⟩] := by decide +kernel
  have hwindow : job.window 0 0xFFFF = some (.span 0 10 .code) := by decide +kernel
  have hparts : job.parts (.span 0 10 .code) = [] ++ r :: [] := by decide +kernel
  obtain ⟨shown, ⟨ts, hts⟩, hunique, -, hlines, -⟩ := run_lists_byteCode .z80 .spectrum48
    (.ofList [r]) s 0 0xFFFF (by decide) hwindow hparts rfl
  refine ⟨hopcodes, hlabels, ts, hts, ?_⟩
  rw [hunique ts hts]
  exact hlines

end RomListing.Spectrum
