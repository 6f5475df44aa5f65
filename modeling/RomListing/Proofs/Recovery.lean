import Mathlib.Logic.Function.Basic
import RomListing.Proofs.Mos6502.Wording
import RomListing.Proofs.Z80.Wording

/-! # Operands are recovered from texts

Which bytes of an instruction are its operands depends on the bytes alone. Of two instructions with
the same selector at the same address the texts differ where the operands do, so that the operands
can be recovered from the text.
-/

namespace RomListing

namespace Processor

def wording : Processor → Wording
  | z80 => Z80.wording
  | mos6502 => Mos6502.wording

theorem words (q : Processor) : q.instructionSet.Words q.wording := by
  cases q with
  | z80 => exact Z80.words
  | mos6502 => exact Mos6502.words

/-- The prefixes and the opcode among the bytes of an instruction. -/
def selector (q : Processor) (bytes : List UInt8) : List UInt8 := (q.wording.parts bytes).1

/-- The other bytes of an instruction: immediate bytes and words, displacements and distances. -/
def operands (q : Processor) (bytes : List UInt8) : List UInt8 := (q.wording.parts bytes).2

/-- Every byte of an instruction is one of the two. -/
theorem selector_operands_perm (q : Processor) (bytes : List UInt8) :
    (q.selector bytes ++ q.operands bytes).Perm bytes := by
  cases q with
  | z80 => exact Z80.parts_perm bytes
  | mos6502 => exact .of_eq (List.take_append_drop 1 bytes)

def Complete (q : Processor) (s : Setting) (c : Cursor) : Prop :=
  (q.instructionSet.decode s { offset := c.offset }).cursor.overflow = false

/-- What is known of an instruction without its operands. -/
def known (q : Processor) (s : Setting) (c : Cursor) : Int × Options × List UInt8 × Text :=
  let item := (q.instructionSet.decode s c).item
  (item.address, s.options, q.selector item.opcodes, item.text)

theorem operands_of_known (q : Processor) {s s' : Setting} {c c' : Cursor} (ho : q.Complete s c)
    (ho' : q.Complete s' c') (h : q.known s c = q.known s' c') :
    q.operands (q.instructionSet.decode s c).item.opcodes =
      q.operands (q.instructionSet.decode s' c').item.opcodes := by
  have hitem (s : Setting) (c : Cursor) : (q.instructionSet.decode s c).item =
      (q.instructionSet.decode s { offset := c.offset }).item := by
    rw [q.sound.decode_anew s c]
  simp only [known, Prod.mk.injEq] at h
  obtain ⟨haddress, hoptions, hselector, htext⟩ := h
  rw [(q.sound.decode_frame s c).1, (q.sound.decode_frame s' c').1] at haddress
  rw [hitem s c, hitem s' c'] at hselector htext ⊢
  exact congrArg Prod.snd
    (q.words.decode_parts q.sound hoptions.symm haddress.symm ho ho' hselector htext)

/-- Of two instructions with the same selector at the same address, of neither of which a byte is
missing, the texts differ if an operand does. So the operands are a function of the address, the
options, the selector and the text. -/
theorem decode_text_tells_operands (q : Processor) :
    (∀ (s s' : Setting) (c c' : Cursor), q.Complete s c → q.Complete s' c' →
      s'.options = s.options →
        let item := (q.instructionSet.decode s c).item
        let item' := (q.instructionSet.decode s' c').item
        item'.address = item.address → q.selector item'.opcodes = q.selector item.opcodes →
          q.operands item'.opcodes ≠ q.operands item.opcodes → item'.text ≠ item.text) ∧
      ∃ recover : Int → Options → List UInt8 → Text → List UInt8,
        ∀ (s : Setting) (c : Cursor), q.Complete s c →
          let item := (q.instructionSet.decode s c).item
          recover item.address s.options (q.selector item.opcodes) item.text =
            q.operands item.opcodes := by
  refine ⟨?_, ?_⟩
  · intro s s' c c' ho ho' hoptions item item' haddress hselector hoperands htext
    refine hoperands (q.operands_of_known ho' ho ?_)
    show (item'.address, s'.options, q.selector item'.opcodes, item'.text) =
      (item.address, s.options, q.selector item.opcodes, item.text)
    rw [haddress, hoptions, hselector, htext]
  · let Place := { x : Setting × Cursor // q.Complete x.1 x.2 }
    let known (x : Place) := q.known x.1.1 x.1.2
    let found (x : Place) := q.operands (q.instructionSet.decode x.1.1 x.1.2).item.opcodes
    have hfactors : Function.FactorsThrough found known := fun x y h =>
      q.operands_of_known x.2 y.2 h
    refine ⟨fun address o selector text =>
      Function.extend known found (fun _ => []) (address, o, selector, text), fun s c ho => ?_⟩
    exact hfactors.extend_apply _ (⟨(s, c), ho⟩ : Place)

/-- A displacement of 0 is not written, and told from one that is. -/
theorem decode_text_tells_zero_displacement :
    let s : Setting := { image := { bytes := #[0xDD, 0x36, 0x00, 0x05] } }
    let s' : Setting := { image := { bytes := #[0xDD, 0x36, 0x05, 0x05] } }
    let item := (z80.instructionSet.decode s { offset := 0 }).item
    let item' := (z80.instructionSet.decode s' { offset := 0 }).item
    item.text = Text.ofString "ld (ix),$05" ∧ z80.selector item.opcodes = [0xDD, 0x36] ∧
      z80.operands item.opcodes = [0x00, 0x05] ∧ item'.text ≠ item.text ∧
      ∃ recover : Int → Options → List UInt8 → Text → List UInt8,
        recover 0 {} [0xDD, 0x36] (Text.ofString "ld (ix),$05") = [0x00, 0x05] := by
  intro s s' item item'
  have hcomplete : z80.Complete s { offset := 0 } := by
    unfold Complete
    decide +kernel
  have hcomplete' : z80.Complete s' { offset := 0 } := by
    unfold Complete
    decide +kernel
  have hitem : item.address = 0 ∧ item.text = Text.ofString "ld (ix),$05" ∧
      z80.selector item.opcodes = [0xDD, 0x36] ∧ z80.operands item.opcodes = [0x00, 0x05] := by
    decide +kernel
  have hitem' : item'.address = 0 ∧ z80.selector item'.opcodes = [0xDD, 0x36] ∧
      z80.operands item'.opcodes = [0x05, 0x05] := by
    decide +kernel
  obtain ⟨haddress, htext, hselector, hoperands⟩ := hitem
  obtain ⟨haddress', hselector', hoperands'⟩ := hitem'
  obtain ⟨hdiffer, recover, hrecover⟩ := decode_text_tells_operands z80
  refine ⟨htext, hselector, hoperands, ?_, recover, ?_⟩
  · refine hdiffer s s' _ _ hcomplete hcomplete' rfl (haddress'.trans haddress.symm)
      (hselector'.trans hselector.symm) ?_
    show z80.operands item'.opcodes ≠ z80.operands item.opcodes
    rw [hoperands, hoperands']
    decide
  · have hback := hrecover s _ hcomplete
    change recover item.address {} (z80.selector item.opcodes) item.text =
      z80.operands item.opcodes at hback
    rwa [haddress, hselector, htext, hoperands] at hback

end Processor

end RomListing
