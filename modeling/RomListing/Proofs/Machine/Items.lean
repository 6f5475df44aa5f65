import RomListing.Machine
import RomListing.Proofs.Spectrum.Grammar

/-! # The items of the machines' own

What the machines list themselves has one form each. The Z88 lists calls of the system, and a text
that continues its call; the Spectrum lists bytes without a partition.
-/

namespace RomListing

namespace Z88

def callLeads : List String := ["fpp ", "oz ", ".defb ", "extcall $", "rst oz_mbp"]

/-- The item is a call at the cursor, or continues one. -/
def IsCall (s : Setting) (c : Cursor) (item : Item) : Prop :=
  ∃ opcodes, ∃ lead ∈ callLeads, ∃ more continuation,
    item = { callItem s c opcodes (lead ++ more) with continuation := continuation }

variable {s : Setting} {c : Cursor}

theorem isCall_callItem (opcodes : List UInt8) {lead : String} (h : lead ∈ callLeads)
    (more : String) : IsCall s c (callItem s c opcodes (lead ++ more)) :=
  ⟨opcodes, lead, h, more, false, rfl⟩

theorem isCall_inlineString (after : Cursor) :
    ∀ item ∈ (inlineString s c after).1, IsCall s c item := by
  unfold inlineString
  dsimp only
  split
  · exact List.forall_mem_nil _
  · exact List.forall_mem_singleton.2 ⟨_, ".defb ", by decide, _, true, rfl⟩

theorem isCall_systemCall : ∀ item ∈ (systemCall s c).items, IsCall s c item := by
  have hcall (opcodes : List UInt8) (name : String) :
      IsCall s c (callItem s c opcodes ("oz " ++ name)) := isCall_callItem _ (by decide) _
  unfold systemCall
  dsimp only
  split
  · exact List.forall_mem_singleton.2 (hcall _ _)
  · split
    · exact List.forall_mem_cons.2 ⟨hcall _ _, isCall_inlineString _⟩
    · exact List.forall_mem_singleton.2 (hcall _ _)

theorem isCall_before (u : Unit) : ∀ item ∈ (before s c u).items, IsCall s c item := by
  unfold before
  dsimp only
  split
  · exact List.forall_mem_nil _
  split
  · exact List.forall_mem_singleton.2 (isCall_callItem _ (by decide) _)
  split
  · exact isCall_systemCall
  split
  · exact List.forall_mem_singleton.2 (isCall_callItem _ (by decide) _)
  split
  · exact List.forall_mem_singleton.2 ⟨_, "rst oz_mbp", by decide, "", false, rfl⟩
  · exact List.forall_mem_nil _

end Z88

namespace Spectrum

def payloadLeads : List String := [".defb ", ".defw $"]

/-- The item lists bytes at the place, and names no partition. -/
structure IsPayload (s : Setting) (place : Int) (item : Item) : Prop where
  address : item.address = s.shownAddress place
  partition : item.partition = none
  text : ∃ lead ∈ payloadLeads, ∃ more : Text, item.text = Text.ofString lead ++ more

variable {s : Setting}

theorem isPayload_errorCode (c : Cursor) : IsPayload s c.offset (errorCode s c).1 :=
  ⟨rfl, rfl, ".defb ", by decide, _, rfl⟩

theorem isPayload_routineAddress (c : Cursor) : IsPayload s c.offset (routineAddress s c).1 :=
  ⟨rfl, rfl, ".defw $", by decide, _, rfl⟩

theorem Calculator.byteList_lead (bytes : List UInt8) : ∃ lead ∈ payloadLeads, ∃ more : Text,
    Text.ofString (byteList s bytes) = Text.ofString lead ++ more :=
  ⟨".defb ", by decide, _, Text.ofString_append ..⟩

theorem Calculator.isPayload_entry (pending : Nat) (c : Cursor) :
    IsPayload s c.offset (entry s pending c).item := by
  unfold entry
  split
  · exact ⟨rfl, rfl, byteList_lead _⟩
  · dsimp only
    split <;> exact ⟨rfl, rfl, byteList_lead _⟩

theorem isPayload_before (c : Cursor) (st : State) :
    ∀ item ∈ (before s c st).items, IsPayload s c.offset item := by
  unfold before
  split
  · exact List.forall_mem_nil _
  · split
    · exact List.forall_mem_nil _
    · exact List.forall_mem_singleton.2 (isPayload_errorCode c)
    · exact List.forall_mem_singleton.2 (Calculator.isPayload_entry st.pending c)
    · exact List.forall_mem_singleton.2 (isPayload_routineAddress c)

/-- The entries of a custom region stand from its start to its last place. -/
theorem isPayload_entries (last : Int) (fuel pending : Nat) (c : Cursor) :
    ∀ item ∈ (entries s last fuel pending c).items,
      ∃ place, c.offset ≤ place ∧ place ≤ last ∧ IsPayload s place item := by
  induction fuel generalizing pending c with
  | zero => exact List.forall_mem_nil _
  | succ fuel ih =>
      unfold entries
      split
      · rename_i hgoes
        have hentry := Calculator.isPayload_entry (s := s) pending c
        obtain ⟨n, -, hreads⟩ := Calculator.entry_reads s pending c
        refine List.forall_mem_cons.2 ⟨⟨_, Int.le_refl _, hgoes.1, hentry⟩, fun item hi => ?_⟩
        obtain ⟨place, hle, hlast, hitem⟩ := ih _ _ item hi
        exact ⟨place, Int.le_trans hreads.offset_le hle, hlast, hitem⟩
      · exact List.forall_mem_nil _

end Spectrum

end RomListing
