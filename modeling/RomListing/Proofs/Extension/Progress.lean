import RomListing.Proofs.Extension.Reading

/-! # Passes end under any extension

No part of a pass can keep it from going on: not a script that takes over without reading, not one
that asks for more bytes than there are, and not a loop inside an extension.
-/

namespace RomListing

/-- What a pass may be extended by: a script, the conventions of a machine, or nothing. -/
inductive Plugin where
  | script (script : Script)
  | machine (machine : Option Machine)

namespace Plugin

def State : Plugin → Type
  | script _ => Script.Journal
  | machine m => Machine.State m

def extension : (plugin : Plugin) → Extension plugin.State
  | script x => x.extension
  | machine m => Machine.extension m

theorem extension_reading (plugin : Plugin) : plugin.extension.Reading := by
  cases plugin with
  | script x => exact x.extension_reading
  | machine m => exact Machine.extension_reading m

/-- An extension that lists a custom region in the image reads to the end of it. -/
theorem custom_reads_on (plugin : Plugin) {s : Setting} {r : Region} {c : Cursor}
    (st : plugin.State) (hbase : s.image.base ≤ r.first) (hlast : r.last ≤ s.image.last)
    (hc : c.offset = r.first) (hhandled : (plugin.extension.custom s r c st).handled = true) :
    r.last < (plugin.extension.custom s r c st).cursor.offset := by
  have hle := r.first_le_last
  have hleft : (r.last : Int) + 1 ≤ c.offset + r.length := by
    unfold Region.length
    omega
  match plugin, st with
  | script x, journal =>
      change (x.customRegion s r c journal).handled = true at hhandled
      change r.last < (x.customRegion s r c journal).cursor.offset
      unfold Script.customRegion at hhandled ⊢
      dsimp only at hhandled ⊢
      split at hhandled
      · rename_i hcustom
        rw [if_pos hcustom]
        exact (Script.dump_ends hlast (hc ▸ hbase) hleft).stopped
      · cases hhandled
  | machine none, _ | machine (some .z88), _ => cases hhandled
  | machine (some (.spectrum _)), _ =>
      exact (Spectrum.entries_ends hlast (hc ▸ hbase) hleft 0).stopped

end Plugin

def Pass.entered {σ : Type} (ext : Extension σ) (r : Region) (p : Pass σ) : Pass σ :=
  (({ p with state := (ext.enter r p.state).1 } : Pass σ).note (ext.enter r p.state).2).seek r

/-- Wherever a pass with any extension comes to a part of its window, reading it as code takes at
most one step for each of its addresses. Each step moves the cursor, the last one behind the part.
A step warns if the extension takes over but reads nothing, and then the instruction there is read;
no other step warns. An extension that lists the part as a custom region reads to its end as well,
and the loops of the extensions stop by themselves: those over custom regions within as many rounds
as there are addresses, and that over a text, wherever it starts, with a zero or where a byte is
missing. -/
theorem Job.parts_end (q : Processor) (plugin : Plugin) (map : MemoryMap) (s : Setting)
    (first last : Int) (hbase : 0 ≤ s.image.base) {window r : Region}
    (hwindow : (Job.mk q.instructionSet map s).window first last = some window)
    (hr : r ∈ (Job.mk q.instructionSet map s).parts window) (p : Pass plugin.State) :
    let job : Job := ⟨q.instructionSet, map, s⟩
    let ext := plugin.extension
    (∃ n ≤ r.length, Pass.Finishes job ext r.last (p.entered ext r) n ∧
      p.codePart job ext r = ((Pass.codeStep job ext)^[n] (p.entered ext r)).fixup) ∧
    ((ext.custom s r (p.seek r).cursor p.state).handled = true →
      r.last < (ext.custom s r (p.seek r).cursor p.state).cursor.offset) ∧
    (∀ c : Cursor, c.offset = r.first →
      EndsWithin (fun fuel => Script.dump s r.last fuel c) (fun x => r.last < x.2.offset) r.length ∧
      ∀ pending, EndsWithin (fun fuel => Spectrum.entries s r.last fuel pending c)
        (fun x => r.last < x.cursor.offset) r.length) ∧
    ∀ c, EndsWithin (fun fuel => Z88.readString s fuel c)
      (fun x => x.2.overflow = true ∨ x.1.getLast? = some 0) (s.image.bytes.size + 1) := by
  intro job ext
  obtain ⟨hfirst, hlast⟩ : s.image.base ≤ r.first ∧ r.last ≤ s.image.last :=
    parts_fit q.sound.mask hbase hwindow r hr
  have hle := r.first_le_last
  have hlength : (r.last : Int) + 1 ≤ r.first + r.length := by
    unfold Region.length
    omega
  refine ⟨?_, ?_, fun c hc => ⟨?_, fun pending => ?_⟩, Z88.readString_ends s⟩
  · have hsound : job.cpu.Sound q.alphabet q.longest := q.sound
    obtain ⟨n, hn, hfinishes⟩ := Pass.codeLoop_finishes hsound plugin.extension_reading hlast
      (p := p.entered ext r) hfirst nofun hlength
    exact ⟨n, hn, hfinishes, congrArg Pass.fixup (hfinishes.result r.length hn)⟩
  · exact plugin.custom_reads_on p.state hfirst hlast rfl
  · exact Script.dump_ends hlast (hc ▸ hfirst) (hc ▸ hlength)
  · exact Spectrum.entries_ends hlast (hc ▸ hfirst) (hc ▸ hlength) pending

/-- A script that takes over at a zero without reading it, and asks for nine bytes where two are
left: the pass warns once, reads the zero itself and stops behind the image. -/
theorem Job.parts_end_idle_and_greedy :
    let script : Script := { claims := [(0x00, 0), (0x3E, 9)], label := some 1 }
    let s : Setting := { image := { bytes := #[0x00, 0x3E, 0x05], base := 4 } }
    let map := MemoryMap.ofList [.span 0 9 .code]
    let job : Job := ⟨Processor.z80.instructionSet, map, s⟩
    let part : Region := .span 4 6 .code
    let p : Pass (Plugin.script script).State := { cursor := { offset := 0 }, state := #[] }
    0 ≤ s.image.base ∧ job.window 0 9 = some part ∧ part ∈ job.parts part ∧
      (∃ n ≤ part.length,
        Pass.Finishes job script.extension part.last (p.entered script.extension part) n) ∧
      (job.run script.extension #[] 0 9).notices.filter (·.level = .warning) = [.idle 4] ∧
      (p.codePart job script.extension part).cursor.offset = 7 := by
  intro script s map job part p
  have hwindow : job.window 0 9 = some part := by decide +kernel
  have hpart : part ∈ job.parts part := by decide +kernel
  have hbase : 0 ≤ s.image.base := by decide
  obtain ⟨⟨n, hn, hfinishes, -⟩, -⟩ :=
    parts_end .z80 (.script script) map s 0 9 hbase hwindow hpart p
  exact ⟨hbase, hwindow, hpart, ⟨n, hn, hfinishes⟩, by decide +kernel, by decide +kernel⟩

end RomListing
