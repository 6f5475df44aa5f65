import RomListing.Proofs.Output.Edits
import RomListing.Proofs.Pass.Lines

/-! # What holds of everything that is listed

A pass lists instructions, data lines and what its extension makes of the image. What holds of all
of these, wherever the cursor stands, holds of every item of an output, and what holds of all
references holds of the labels.
-/

namespace RomListing

variable {σ : Type} {P : Item → Prop} {R : Reference → Prop}

/-! ## Outputs -/

/-- The label is referred to, and only by references with the property. -/
def Label.All (R : Reference → Prop) (l : Label) : Prop :=
  l.references ≠ [] ∧ ∀ a ∈ l.references, R ⟨l.address, a⟩

/-- One property holds of all items, flags apart, and one of all references. -/
structure Output.All (P : Item → Prop) (R : Reference → Prop) (o : Output) : Prop where
  lines : ∀ item ∈ o.lines, P item
  labels : ∀ l ∈ o.labels, l.All R

namespace Output

theorem all_empty : All P R {} := ⟨List.forall_mem_nil _, List.forall_mem_nil _⟩

variable {o : Output}

theorem All.addAll (h : o.All P R) {items : List Item} (hi : ∀ item ∈ items, P item.plain) :
    (o.addAll items).All P R where
  lines := by
    rw [lines_addAll]
    exact List.forall_mem_append.2 ⟨h.lines, List.forall_mem_map.2 hi⟩
  labels := by
    rw [labels_addAll]
    exact h.labels

theorem all_noteLabel {r : Reference} (hr : R r) {labels : List Label}
    (h : ∀ l ∈ labels, l.All R) : ∀ l ∈ noteLabel r.target (some r.source) labels, l.All R := by
  induction labels with
  | nil =>
      rw [noteLabel, List.forall_mem_singleton]
      exact ⟨List.cons_ne_nil _ _, List.forall_mem_singleton.2 hr⟩
  | cons first rest ih =>
      obtain ⟨hfirst, hrest⟩ := List.forall_mem_cons.1 h
      unfold noteLabel
      split
      · rename_i htarget
        have hsource : R ⟨first.address, r.source⟩ := htarget ▸ hr
        refine List.forall_mem_cons.2 ⟨⟨List.concat_ne_nil _ _, ?_⟩, hrest⟩
        exact List.forall_mem_append.2 ⟨hfirst.2, List.forall_mem_singleton.2 hsource⟩
      · exact List.forall_mem_cons.2 ⟨hfirst, ih hrest⟩

theorem All.refer (h : o.All P R) {rs : List Reference} (hrs : ∀ r ∈ rs, R r) :
    (o.refer rs).All P R := by
  unfold Output.refer
  induction rs generalizing o with
  | nil => exact h
  | cons r rs ih =>
      obtain ⟨hr, hrs⟩ := List.forall_mem_cons.1 hrs
      exact ih ⟨h.lines, all_noteLabel hr h.labels⟩ hrs

theorem All.fixup (h : o.All P R) : o.fixup.All P R where
  lines := by
    rw [lines_fixup]
    exact h.lines
  labels := by
    rw [labels_fixup]
    exact h.labels

end Output

/-! ## Passes -/

def Step.All (P : Item → Prop) (R : Reference → Prop) (x : Step σ) : Prop :=
  (∀ item ∈ x.items, P item) ∧ ∀ r ∈ x.references, R r

theorem Step.All.of_items {x : Step σ} (h : ∀ item ∈ x.items, P item) :
    x.All P fun _ => True := ⟨h, fun _ _ => trivial⟩

/-- One property holds of the instructions of a job, with the remarks that the extension puts to
them, of its data lines and of the items of the extension, and one of all references. Label flags do
not count. -/
structure Job.Everywhere (job : Job) (ext : Extension σ) (P : Item → Prop)
    (R : Reference → Prop) : Prop where
  plain : ∀ {item}, P item → P item.plain
  instruction : ∀ c st, let item := (job.cpu.decode job.setting c).item
    P { item with remark := (ext.after job.setting item st).remark <|> item.remark }
  references : ∀ c, ∀ r ∈ (job.cpu.decode job.setting c).references, R r
  data : ∀ {r}, r.kind ≠ .code → ∀ item ∈ job.cpu.lines job.setting r, P item
  before : ∀ c st, (ext.before job.setting c st).All P R
  custom : ∀ r c st, (ext.custom job.setting r c st).All P R

namespace Pass

variable {job : Job} {ext : Extension σ} {p : Pass σ}

theorem all_decodeStep (h : job.Everywhere ext P R) (hp : p.output.All P R) :
    (p.decodeStep job ext).output.All P R := by
  let d := job.cpu.decode job.setting p.cursor
  let shown : Item :=
    { d.item with remark := (ext.after job.setting d.item p.state).remark <|> d.item.remark }
  have hshown : ∀ item ∈ [shown], P item.plain :=
    List.forall_mem_singleton.2 (h.plain (h.instruction p.cursor p.state))
  exact (hp.refer (h.references p.cursor)).addAll hshown

theorem all_absorb (h : job.Everywhere ext P R) (hp : p.output.All P R) {x : Step σ}
    (hx : x.All P R) : (p.absorb x).output.All P R :=
  (hp.addAll fun item hi => h.plain (hx.1 item hi)).refer hx.2

theorem all_codeStep (h : job.Everywhere ext P R) (hp : p.output.All P R) :
    (p.codeStep job ext).output.All P R := by
  have habsorb := all_absorb (p := { p with started := p.started + 1 }) h hp
    (h.before p.cursor p.state)
  unfold codeStep
  dsimp only
  split
  · split
    · exact all_decodeStep h habsorb
    · exact habsorb
  · exact all_decodeStep h habsorb

theorem all_codeLoop (h : job.Everywhere ext P R) (last : Int) (fuel : Nat)
    (hp : p.output.All P R) : (codeLoop job ext last fuel p).output.All P R := by
  induction fuel generalizing p with
  | zero => exact hp
  | succ fuel ih =>
      unfold codeLoop
      split
      · exact ih (all_codeStep h hp)
      · exact hp

theorem all_part (h : job.Everywhere ext P R) (hp : p.output.All P R) (r : Region) :
    (p.part job ext r).output.All P R := by
  have hdata (hk : r.kind ≠ .code) : ∀ item ∈ job.cpu.lines job.setting r, P item.plain :=
    fun item hi => h.plain (h.data hk item hi)
  unfold InstructionSet.lines at hdata
  unfold part
  dsimp only
  cases hk : r.kind with
  | code =>
      let entered : Pass σ := { p.note [.part r] with state := (ext.enter r p.state).1 }
      let sought := (entered.note (ext.enter r p.state).2).seek r
      have hsought : sought.output.All P R := hp
      exact (all_codeLoop h r.last r.length hsought).fixup
  | bytes | words | gap =>
      rw [hk] at hdata
      exact hp.addAll (hdata nofun)
  | custom =>
      rw [hk] at hdata
      let start : Pass σ := (p.note [.part r]).seek r
      have habsorb := all_absorb (p := start) h hp (h.custom r start.cursor start.state)
      unfold customPart
      dsimp only
      split
      · exact habsorb.fixup
      · exact habsorb.addAll (hdata nofun)

theorem all_parts (h : job.Everywhere ext P R) (hp : p.output.All P R) (rs : List Region) :
    (rs.foldl (part job ext) p).output.All P R := by
  induction rs generalizing p with
  | nil => exact hp
  | cons r rs ih => exact ih (all_part h hp r)

end Pass

theorem Job.Everywhere.run {job : Job} {ext : Extension σ} (h : job.Everywhere ext P R) {state : σ}
    {first last : Int} {o : Output} (ho : (job.run ext state first last).output = some o) :
    o.All P R := by
  rw [Job.run_output] at ho
  split at ho
  · cases ho
  · obtain ⟨window, -, rfl⟩ := Option.map_eq_some_iff.1 ho
    exact (Pass.all_parts h Output.all_empty (job.parts window)).fixup

end RomListing
