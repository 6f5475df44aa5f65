import RomListing.Pass
import RomListing.Proofs.Output.Growth

/-! # The items of a pass without an extension

Without an extension the items of a part depend on the part alone: they are `cpu.lines s r`,
whatever was listed before. A pass appends the lines of its parts one after another.
-/

namespace RomListing

namespace InstructionSet

/-- The instructions from `place` on, up to the first that reaches `last` or the end of the
image. -/
def walk (cpu : InstructionSet) (s : Setting) (last : Int) : Nat → Int → List Item
  | 0, _ => []
  | fuel + 1, place =>
    if place ≤ last then
      let d := cpu.decode s { offset := place }
      d.item :: if d.cursor.overflow then [] else walk cpu s last fuel d.cursor.offset
    else []

def lines (cpu : InstructionSet) (s : Setting) (r : Region) : List Item :=
  match r.kind with
  | .code => cpu.walk s r.last r.length r.first
  | .bytes | .custom => cpu.byteLines s r
  | .words => cpu.wordLines s r
  | .gap => [cpu.gapLine s r]

variable {cpu : InstructionSet} {a : Alphabet} {longest : Nat} {s : Setting}

theorem walk_of_lt {last place : Int} (h : last < place) (fuel : Nat) :
    cpu.walk s last fuel place = [] := by
  cases fuel with
  | zero => rfl
  | succ fuel => exact if_neg (by omega)

theorem walk_succ {last place : Int} (h : place ≤ last) (fuel : Nat) :
    cpu.walk s last (fuel + 1) place =
      let d := cpu.decode s { offset := place }
      d.item :: if d.cursor.overflow then [] else cpu.walk s last fuel d.cursor.offset := if_pos h

/-! ## Data lines -/

/-- The item lists data: it is not flagged and names no label. -/
def IsData (item : Item) : Prop := item.hasLabel = false ∧ item.hasLabelSymbol = false

theorem IsData.uses {item : Item} (h : IsData item) : item.uses = [] := if_neg (by simp [h.2])

theorem isData_dataItem (place : Int) (bytes : List UInt8) (text : String) :
    IsData (cpu.dataItem s place bytes text) := ⟨rfl, rfl⟩

section

variable {P : Item → Prop} (hP : ∀ place bytes text, P (cpu.dataItem s place bytes text))
include hP

/-- What holds of every data item holds of the lines of a region. -/
theorem forall_mem_byteLines (r : Region) : ∀ item ∈ cpu.byteLines s r, P item := by
  intro item h
  obtain ⟨i, -, rfl⟩ := List.mem_map.1 h
  exact hP _ _ _

theorem forall_mem_wordLines (r : Region) : ∀ item ∈ cpu.wordLines s r, P item := by
  have words : ∀ item ∈ (List.range ((r.length + 6) / 8)).map (fun i =>
      cpu.wordLine s (r.first + 8 * i : Nat) (min 4 ((r.length - 8 * i) / 2))), P item := by
    intro item h
    obtain ⟨i, -, rfl⟩ := List.mem_map.1 h
    exact hP _ _ _
  intro item h
  unfold wordLines at h
  dsimp only at h
  split at h
  · rcases List.mem_append.1 h with h | h
    · exact words item h
    · rw [List.mem_singleton] at h
      exact h ▸ hP _ _ _
  · exact words item h

theorem forall_mem_lines {r : Region} (hk : r.kind ≠ .code) :
    ∀ item ∈ cpu.lines s r, P item := by
  unfold lines
  split
  · contradiction
  · exact forall_mem_byteLines hP r
  · exact forall_mem_byteLines hP r
  · exact forall_mem_wordLines hP r
  · intro item h
    rw [List.mem_singleton] at h
    exact h ▸ hP _ _ _

end

theorem isData_byteLines (r : Region) : ∀ item ∈ cpu.byteLines s r, IsData item :=
  forall_mem_byteLines isData_dataItem r

theorem isData_lines {r : Region} (hk : r.kind ≠ .code) : ∀ item ∈ cpu.lines s r, IsData item :=
  forall_mem_lines isData_dataItem hk

/-! ## Instructions -/

theorem mem_walk {last place : Int} {fuel : Nat} {item : Item}
    (h : item ∈ cpu.walk s last fuel place) :
    ∃ place', item = (cpu.decode s { offset := place' }).item := by
  induction fuel generalizing place with
  | zero => cases h
  | succ fuel ih =>
      unfold walk at h
      dsimp only at h
      split at h
      · rcases List.mem_cons.1 h with rfl | h
        · exact ⟨place, rfl⟩
        · split at h
          · cases h
          · exact ih h
      · cases h

theorem Sound.lines_symbol (h : cpu.Sound a longest) {r : Region} {item : Item}
    (hi : item ∈ cpu.lines s r) (hl : item.hasLabelSymbol = true) :
    item.symbolValue.isSome = true := by
  by_cases hk : r.kind = .code
  · unfold lines at hi
    rw [hk] at hi
    obtain ⟨place, rfl⟩ := mem_walk hi
    exact (h.decode_references s _).2 hl
  · have := (isData_lines hk item hi).2
    rw [this] at hl
    cases hl

end InstructionSet

namespace Pass

open InstructionSet

variable {job : Job} {a : Alphabet} {longest : Nat}

/-! ## Code -/

/-- One step adds the instruction at the cursor, whatever the registers of the cursor hold. -/
theorem codeStep_extends (h : job.cpu.Sound a longest) (p : Pass Unit)
    (ho : p.cursor.overflow = false) :
    let d := job.cpu.decode job.setting { offset := p.cursor.offset }
    p.output.Extends [d.item] (p.codeStep job .absent).output ∧
      (p.codeStep job .absent).cursor = d.cursor := by
  intro d
  have hanew : job.cpu.decode job.setting p.cursor = d := h.decode_place job.setting ho
  have hcursor : (p.codeStep job .absent).cursor = (job.cpu.decode job.setting p.cursor).cursor :=
    rfl
  have houtput : (p.codeStep job .absent).output =
      (p.output.refer (job.cpu.decode job.setting p.cursor).references).add
        (job.cpu.decode job.setting p.cursor).item := rfl
  rw [houtput, hcursor, hanew, (h.decode_references job.setting _).1]
  exact ⟨p.output.extends_refer_add (h.decode_frame job.setting _).2, rfl⟩

theorem codeLoop_extends (h : job.cpu.Sound a longest) (last : Int) (fuel : Nat) (p : Pass Unit)
    (ho : p.cursor.overflow = false) :
    p.output.Extends (job.cpu.walk job.setting last fuel p.cursor.offset)
      (codeLoop job .absent last fuel p).output := by
  induction fuel generalizing p with
  | zero => exact .refl p.output
  | succ fuel ih =>
      obtain ⟨hstep, hcursor⟩ := codeStep_extends h p ho
      unfold codeLoop walk
      by_cases hle : p.cursor.offset ≤ last
      · rw [if_pos hle, if_pos ⟨hle, ho⟩]
        refine hstep.trans ?_
        rw [← hcursor]
        cases hover : (p.codeStep job .absent).cursor.overflow with
        | true =>
            -- the mark stops the loop, whatever fuel is left
            cases fuel with
            | zero => exact .refl _
            | succ fuel =>
                rw [codeLoop, if_neg (by simp [hover])]
                exact .refl _
        | false => exact ih _ hover
      · rw [if_neg hle, if_neg fun hand => hle hand.1]
        exact .refl p.output

/-! ## Parts -/

theorem part_extends (h : job.cpu.Sound a longest) (p : Pass Unit) (r : Region) :
    p.output.Extends (job.cpu.lines job.setting r) (p.part job .absent r).output := by
  have data (items : List Item) (hitems : ∀ item ∈ items, IsData item) :
      p.output.Extends items ((p.note [.part r]).addLines items).output :=
    p.output.extends_addAll fun item hi => ⟨(hitems item hi).1, (hitems item hi).uses⟩
  have hdata : r.kind ≠ .code → ∀ item ∈ job.cpu.lines job.setting r, IsData item :=
    isData_lines
  unfold part
  unfold lines at hdata ⊢
  cases hk : r.kind with
  | code => exact (codeLoop_extends h r.last r.length ((p.note [.part r]).seek r) rfl).fixup
  | bytes | words | gap | custom =>
      rw [hk] at hdata
      exact data _ (hdata nofun)

theorem parts_extend (h : job.cpu.Sound a longest) (rs : List Region) (p : Pass Unit) :
    p.output.Extends (rs.flatMap (job.cpu.lines job.setting))
      (rs.foldl (part job .absent) p).output := by
  induction rs generalizing p with
  | nil => exact .refl p.output
  | cons r rs ih => exact (part_extends h p r).trans (ih (p.part job .absent r))

end Pass

namespace Job

section

variable {σ : Type}

def listing (job : Job) (ext : Extension σ) (state : σ) (window : Region) : Output :=
  ((job.parts window).foldl (Pass.part job ext)
    { cursor := { offset := 0 }, state := state }).output.fixup

theorem run_output (job : Job) (ext : Extension σ) (state : σ) (first last : Int) :
    (job.run ext state first last).output =
      if job.setting.image.bytes.isEmpty then none
      else (job.window first last).map (job.listing ext state) := by
  unfold run
  split
  · rfl
  · cases job.window first last <;> rfl

/-- There is an output exactly if there is a window in an image that is not empty. -/
theorem run_isSome (job : Job) (ext : Extension σ) (state : σ) (first last : Int) :
    (job.run ext state first last).output.isSome =
      (!job.setting.image.bytes.isEmpty && (job.window first last).isSome) := by
  rw [run_output]
  cases job.setting.image.bytes.isEmpty <;> simp

end

variable {job : Job} {a : Alphabet} {longest : Nat} {first last : Int}

/-- A run that gives an output gives the lines of the parts, and their cross-reference. -/
theorem run_extends (h : job.cpu.Sound a longest) {o : Output}
    (ho : (job.run .absent () first last).output = some o) :
    ∃ window, job.window first last = some window ∧
      Output.Extends {} ((job.parts window).flatMap (job.cpu.lines job.setting)) o := by
  unfold run at ho
  split at ho
  · cases ho
  · split at ho
    · cases ho
    · rename_i window hwindow
      cases ho
      exact ⟨window, hwindow, (Pass.parts_extend h (job.parts window)
        { cursor := { offset := 0 }, state := () }).fixup⟩

/-- The lines of a run without an extension tell its labels. -/
theorem run_labels (h : job.cpu.Sound a longest) {o : Output}
    (ho : (job.run .absent () first last).output = some o) :
    o.labels = (o.lines.flatMap Item.uses).foldl
      (fun labels r => Output.noteLabel r.target (some r.source) labels) [] := by
  obtain ⟨_, -, hextends⟩ := run_extends h ho
  rw [hextends.lines]
  exact hextends.labels

end Job

end RomListing
