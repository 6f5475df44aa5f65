import RomListing.Proofs.Pass.Everywhere
import RomListing.Proofs.Pass.Tiling
import RomListing.Proofs.Relocation.Decoding

/-! # The partitions of instructions and data lines

An item that stands for a place of the image names the partition of the place, however the
addresses are moved that it shows.
-/

namespace RomListing

def Item.NamesPartition (item : Item) (s : Setting) : Prop :=
  item.partition = s.options.partitionAt (s.place item)

variable {s : Setting} {item : Item} {place : Int}

theorem Setting.place_of_shownAddress (h : item.address = s.shownAddress place) :
    s.place item = wrap place := by
  unfold Setting.place
  rw [h, Setting.shownAddress, Int.sub_eq_add_neg, wrap_wrap_add, Int.add_neg_cancel_right]

theorem Item.namesPartition_of_shown (h : item.address = s.shownAddress place)
    (hp : item.partition = s.options.partitionAt place) : item.NamesPartition s := by
  unfold NamesPartition
  rw [hp, s.place_of_shownAddress h, Options.partitionAt_wrap]

namespace InstructionSet

variable {cpu : InstructionSet} {a : Alphabet} {longest : Nat}

theorem Sound.decode_partition (h : cpu.Sound a longest) (s : Setting) (c : Cursor) :
    (cpu.decode s c).item.partition = s.options.partitionAt c.offset := by
  rw [cpu.decode_eq]
  show (cpu.expansion s c).item.partition = _
  rw [(h.expansion_follows s c).item]
  exact (foldl_note_view Item.partition (fun _ _ => rfl) _ _).trans
    (h.partitionAt_fold s.options c.offset)

theorem Sound.decode_namesPartition (h : cpu.Sound a longest) (c : Cursor)
    (remark : Option Text) :
    Item.NamesPartition { (cpu.decode s c).item with remark := remark } s :=
  Item.namesPartition_of_shown (h.decode_frame s c).1 (h.decode_partition s c)

theorem Sound.dataItem_namesPartition (h : cpu.Sound a longest) (place : Int)
    (bytes : List UInt8) (text : String) : (cpu.dataItem s place bytes text).NamesPartition s :=
  Item.namesPartition_of_shown (h.shownAddress_fold s place) (h.partitionAt_fold s.options place)

theorem Sound.lines_namePartitions (h : cpu.Sound a longest) {r : Region} (hk : r.kind ≠ .code) :
    ∀ item ∈ cpu.lines s r, item.NamesPartition s :=
  forall_mem_lines h.dataItem_namesPartition hk

end InstructionSet

end RomListing
