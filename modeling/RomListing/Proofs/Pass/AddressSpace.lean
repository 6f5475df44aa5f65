import RomListing.Proofs.Machine.Items
import RomListing.Proofs.Machine.Rows
import RomListing.Proofs.Output.Edits
import RomListing.Proofs.Pass.Everywhere
import RomListing.Proofs.Processor

/-! # Passes in the address space

What an instruction refers to is folded into the address space, and so is what a machine lists
and refers to, wherever the cursor stands. So no step of a pass leaves the address space, whatever
image, offset and range are given.
-/

namespace RomListing

variable {σ : Type}

/-! ## Instructions -/

/-- Whatever a letter stands for refers to an address from an address. -/
def Expander.InSpace (e : Expander) : Prop :=
  ∀ letter c, ∀ r ∈ (e letter c).1.reference, r.InSpace

theorem Operand.label_inSpace (s : Setting) (c : Cursor) (address : Int) :
    ∀ r ∈ (label s c address).reference, r.InSpace := by
  rintro r ⟨⟩
  exact ⟨isAddress_wrap address, s.isAddress_shownAddress c.opStart⟩

theorem Pattern.expandFrom_inSpace {e : Expander} (h : e.InSpace) (fuel : Nat) (item : Item)
    (c : Cursor) : ∀ r ∈ (expandFrom e fuel item c).references, r.InSpace := by
  induction fuel generalizing item c with
  | zero => exact List.forall_mem_nil _
  | succ fuel ih =>
      unfold expandFrom
      split
      · exact List.forall_mem_nil _
      · rename_i before letter after _
        refine List.forall_mem_append.2 ⟨fun r hr => ?_, ih _ _⟩
        exact h letter c r (Option.mem_toList.1 hr)

theorem InstructionSet.decode_inSpace {cpu : InstructionSet} {s : Setting}
    (h : (cpu.expand s).InSpace) (c : Cursor) :
    ∀ r ∈ (cpu.decode s c).references, r.InSpace := by
  rw [cpu.decode_eq]
  show ∀ r ∈ (cpu.expansion s c).references, r.InSpace
  unfold InstructionSet.expansion
  dsimp only
  split
  · exact List.forall_mem_nil _
  · exact Pattern.expandFrom_inSpace h _ _ _

theorem Processor.expand_inSpace (q : Processor) (s : Setting) :
    (q.instructionSet.expand s).InSpace := by
  intro letter c
  cases q with
  | z80 =>
      show ∀ r ∈ (Z80.expand s letter c).1.reference, r.InSpace
      unfold Z80.expand
      split
      case h_2 | h_4 => exact Operand.label_inSpace s _ _
      all_goals exact nofun
  | mos6502 =>
      show ∀ r ∈ (Mos6502.expand s letter c).1.reference, r.InSpace
      unfold Mos6502.expand
      dsimp only
      split
      case h_11 | h_12 => exact Operand.label_inSpace s _ _
      all_goals exact nofun

/-! ## Extensions -/

def Step.InSpace (x : Step σ) : Prop :=
  (∀ item ∈ x.items, IsAddress item.address) ∧ ∀ r ∈ x.references, r.InSpace

structure Extension.InSpace (ext : Extension σ) : Prop where
  before : ∀ s c st, (ext.before s c st).InSpace
  custom : ∀ s r c st, (ext.custom s r c st).InSpace

theorem Step.inSpace_declined (st : σ) (c : Cursor) :
    Step.InSpace { handled := false, state := st, cursor := c } :=
  ⟨List.forall_mem_nil _, List.forall_mem_nil _⟩

namespace Z88

variable (s : Setting) (c : Cursor)

theorem IsCall.isAddress {s : Setting} {c : Cursor} {item : Item} (h : IsCall s c item) :
    IsAddress item.address := by
  obtain ⟨opcodes, lead, -, more, continuation, rfl⟩ := h
  exact s.isAddress_shownAddress c.offset

theorem systemCall_references : (systemCall s c).references = [] := by
  unfold systemCall
  dsimp only
  split
  · rfl
  · split <;> rfl

theorem before_inSpace (u : Unit) : (before s c u).InSpace := by
  have hreferences : (before s c u).references = [] := by
    unfold before
    dsimp only
    split
    · rfl
    split
    · rfl
    split
    · exact systemCall_references s c
    split
    · rfl
    split <;> rfl
  exact ⟨fun item hi => (isCall_before u item hi).isAddress,
    hreferences ▸ List.forall_mem_nil _⟩

end Z88

namespace Spectrum

variable (s : Setting)

theorem IsPayload.isAddress {s : Setting} {place : Int} {item : Item}
    (h : IsPayload s place item) : IsAddress item.address :=
  h.address ▸ s.isAddress_shownAddress place

theorem Calculator.entry_references (pending : Nat) (c : Cursor) :
    ∀ r ∈ (entry s pending c).references, r.InSpace := by
  unfold entry
  split
  · exact List.forall_mem_nil _
  · dsimp only
    split
    · exact List.forall_mem_singleton.2
        ⟨s.isAddress_shownAddress _, s.isAddress_shownAddress c.offset⟩
    · exact List.forall_mem_nil _

theorem before_inSpace (c : Cursor) (st : State) : (before s c st).InSpace := by
  refine ⟨fun item hi => (isPayload_before c st item hi).isAddress, ?_⟩
  unfold before
  split
  · exact List.forall_mem_nil _
  · split
    · exact List.forall_mem_nil _
    · exact List.forall_mem_nil _
    · exact Calculator.entry_references s st.pending c
    · exact List.forall_mem_nil _

theorem entries_references (last : Int) (fuel pending : Nat) (c : Cursor) :
    ∀ r ∈ (entries s last fuel pending c).references, r.InSpace := by
  induction fuel generalizing pending c with
  | zero => exact List.forall_mem_nil _
  | succ fuel ih =>
      unfold entries
      split
      · exact List.forall_mem_append.2 ⟨Calculator.entry_references s pending c, ih _ _⟩
      · exact List.forall_mem_nil _

theorem custom_inSpace (r : Region) (c : Cursor) (st : State) : (custom s r c st).InSpace := by
  refine ⟨fun item hi => ?_, entries_references s r.last r.length 0 c⟩
  obtain ⟨place, -, -, hitem⟩ := isPayload_entries r.last r.length 0 c item hi
  exact hitem.isAddress

end Spectrum

theorem Machine.extension_inSpace (machine : Option Machine) : (extension machine).InSpace := by
  match machine with
  | none => exact ⟨fun _ c u => Step.inSpace_declined u c, fun _ _ c u => Step.inSpace_declined u c⟩
  | some .z88 => exact ⟨Z88.before_inSpace, fun _ _ c u => Step.inSpace_declined u c⟩
  | some (.spectrum _) => exact ⟨Spectrum.before_inSpace, Spectrum.custom_inSpace⟩

/-! ## Passes -/

section

variable {job : Job} {ext : Extension σ} {a : Alphabet} {longest : Nat}

/-- A label that is referred to in the address space is in the address space. -/
theorem Label.All.inSpace {l : Label} (h : l.All Reference.InSpace) : l.InSpace := by
  obtain ⟨first, hfirst⟩ := List.exists_mem_of_ne_nil _ h.1
  exact ⟨(h.2 first hfirst).1, fun a ha => (h.2 a ha).2⟩

theorem Job.everywhere_inSpace (hsound : job.cpu.Sound a longest)
    (he : (job.cpu.expand job.setting).InSpace) (hx : ext.InSpace) :
    job.Everywhere ext (IsAddress ·.address) Reference.InSpace where
  plain h := h
  instruction c st := by
    show IsAddress (job.cpu.decode job.setting c).item.address
    rw [(hsound.decode_frame job.setting c).1]
    exact job.setting.isAddress_shownAddress c.offset
  references := InstructionSet.decode_inSpace he
  data := by
    refine InstructionSet.forall_mem_lines fun place bytes text => ?_
    show IsAddress (job.cpu.shownAddress job.setting (fold job.cpu.addressMask place))
    rw [hsound.shownAddress_fold]
    exact job.setting.isAddress_shownAddress place
  before := hx.before job.setting
  custom := hx.custom job.setting

theorem Job.run_inSpace (hsound : job.cpu.Sound a longest)
    (he : (job.cpu.expand job.setting).InSpace) (hx : ext.InSpace) {state : σ} {first last : Int}
    {o : Output} (ho : (job.run ext state first last).output = some o) : o.InSpace := by
  have hall := (job.everywhere_inSpace hsound he hx).run ho
  exact ⟨hall.lines, fun l hl => (hall.labels l hl).inSpace⟩

end

end RomListing
