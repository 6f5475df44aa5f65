import RomListing.Proofs.Output.Flags
import RomListing.Proofs.Pass.Coverage
import RomListing.Proofs.Pass.CrossReference
import RomListing.Proofs.Pass.Rows
import RomListing.Proofs.Pass.Steps

/-! # Passes list rows

An orderly extension takes a step by listing one row, and a custom region by listing rows. Then all
that a pass lists is in order: every part puts items at places of its own behind those of the parts
before it, so that nothing listed later stands at an address that was listed before.
-/

namespace RomListing

/-- The extension either declines or lists rows of bytes of the image, up to where it stops. -/
structure Extension.Orderly {σ : Type} (ext : Extension σ) (longest : Nat) : Prop where
  before : ∀ {s : Setting} {c : Cursor} (st : σ), s.image.base ≤ c.offset →
    c.offset ≤ s.image.last → c.overflow = false →
      let x := ext.before s c st
      x = { handled := false, state := st, cursor := c } ∨
        x.handled = true ∧ Row s longest c.offset x.items x.cursor.offset
  custom : ∀ {s : Setting} {r : Region} {c : Cursor} (st : σ), s.image.base ≤ r.first →
    r.last ≤ s.image.last → c.offset = r.first → c.overflow = false →
      let x := ext.custom s r c st
      x = { handled := false, state := st, cursor := c } ∨
        x.handled = true ∧ Rows s longest r.last r.first x.items x.cursor.offset

theorem Extension.absent_orderly (longest : Nat) : Extension.absent.Orderly longest where
  before _ _ _ _ := .inl rfl
  custom _ _ _ _ _ := .inl rfl

namespace Pass

variable {σ : Type} {job : Job} {ext : Extension σ} {alphabet : Alphabet} {longest : Nat}
  {p : Pass σ} {r : Region}

theorem appends_absorb (p : Pass σ) (x : Step σ) :
    p.output.Appends x.items (p.absorb x).output := by
  have hadd := p.output.appends_addAll x.items
  have happends := hadd.trans ((p.output.addAll x.items).appends_refer x.references)
  rwa [List.append_nil] at happends

section

variable {width : Nat} (h : job.cpu.Sound alphabet width)
  (hn : (job.cpu.expand job.setting).NamesLabels job.setting.options) (hx : ext.Orderly longest)
include h hn hx

/-! ## Steps -/

theorem codeStep_row (hbase : job.setting.image.base ≤ p.cursor.offset)
    (hlast : p.cursor.offset ≤ job.setting.image.last) (ho : p.cursor.overflow = false) :
    ∃ items, p.output.Appends items (p.codeStep job ext).output ∧
      Row job.setting longest p.cursor.offset items (p.codeStep job ext).cursor.offset := by
  rcases hx.before p.state hbase hlast ho with hdeclined | ⟨hhandled, hrow⟩
  · have hdecode := h.decode_place job.setting ho
    let d := job.cpu.decode job.setting p.cursor
    let v := ext.after job.setting d.item p.state
    rw [codeStep_of_declined hdeclined]
    refine ⟨[{ d.item with remark := v.remark <|> d.item.remark }], ?_, ?_⟩
    · have hrefer := p.output.appends_refer d.references
      exact hrefer.trans ((p.output.refer d.references).appends_addAll [_])
    · have hrow := h.decode_row hn hbase hlast (v.remark <|> d.item.remark) longest
      rw [← hdecode] at hrow
      exact hrow
  · rw [codeStep_handled hhandled (hrow.lt hlast)]
    exact ⟨_, appends_absorb _ _, hrow⟩

/-- Reading on lists rows, each of which starts in the part. -/
theorem codeLoop_rows {last : Int} (hfit : last ≤ job.setting.image.last) (fuel : Nat)
    (hbase : job.setting.image.base ≤ p.cursor.offset) :
    ∃ items, p.output.Appends items (codeLoop job ext last fuel p).output ∧
      Rows job.setting longest last p.cursor.offset items
        (codeLoop job ext last fuel p).cursor.offset := by
  induction fuel generalizing p with
  | zero => exact ⟨[], .refl p.output, .nil _⟩
  | succ fuel ih =>
      unfold codeLoop
      split
      · rename_i hgoes
        have hin := Int.le_trans hgoes.1 hfit
        obtain ⟨items, happends, hrow⟩ := codeStep_row h hn hx hbase hin hgoes.2
        have hnext := Int.le_trans hbase (Int.le_of_lt (hrow.lt hin))
        obtain ⟨more, hmore, hrows⟩ := ih hnext
        exact ⟨items ++ more, happends.trans hmore, .cons hgoes.1 hrow hrows⟩
      · exact ⟨[], .refl p.output, .nil _⟩

/-! ## Parts -/

theorem codePart_rows (p : Pass σ) (hbase : job.setting.image.base ≤ r.first)
    (hlast : r.last ≤ job.setting.image.last) :
    ∃ items grown, p.output.Appends items grown ∧
      (p.codePart job ext r).output = grown.fixup ∧
      Rows job.setting longest r.last r.first items (p.codePart job ext r).cursor.offset := by
  let entered : Pass σ := { p with state := (ext.enter r p.state).1 }
  let start : Pass σ := (entered.note (ext.enter r p.state).2).seek r
  obtain ⟨items, happends, hrows⟩ := codeLoop_rows (p := start) h hn hx hlast r.length hbase
  exact ⟨items, _, happends, rfl, hrows⟩

omit h hn in
theorem customPart_rows (p : Pass σ) (hbase : job.setting.image.base ≤ r.first)
    (hlast : r.last ≤ job.setting.image.last)
    (hhandled : (ext.custom job.setting r (p.seek r).cursor p.state).handled = true) :
    ∃ items grown, p.output.Appends items grown ∧
      (p.customPart job ext r).output = grown.fixup ∧
      Rows job.setting longest r.last r.first items (p.customPart job ext r).cursor.offset := by
  have hpart : p.customPart job ext r =
      ((p.seek r).absorb (ext.custom job.setting r (p.seek r).cursor p.state)).fixup := by
    unfold customPart
    exact if_pos hhandled
  rw [hpart]
  rcases hx.custom (c := (p.seek r).cursor) p.state hbase hlast rfl rfl with hdeclined | ⟨-, hrows⟩
  · rw [hdeclined] at hhandled
    cases hhandled
  · exact ⟨_, _, appends_absorb (p.seek r) _, rfl, hrows⟩

/-- Whatever its kind, a part puts items at places of its own behind those that are there. -/
theorem part_listed (p : Pass σ) (hpos : 0 ≤ job.setting.image.base)
    (hbase : job.setting.image.base ≤ r.first) (hlast : r.last ≤ job.setting.image.last) :
    ∃ items grown, p.output.Appends items grown ∧
      ((p.part job ext r).output = grown ∨ (p.part job ext r).output = grown.fixup) ∧
      (∀ item ∈ items, item.hasLabel = false) ∧
      Listed job.setting r.first (r.last + 1) items := by
  have hlt := r.last_lt
  have rows {items : List Item} {stop : Int}
      (hrows : Rows job.setting longest r.last r.first items stop) :
      (∀ item ∈ items, item.hasLabel = false) ∧ Listed job.setting r.first (r.last + 1) items :=
    ⟨hrows.plain, hrows.listed hlast (by omega) (by omega)⟩
  have data (hk : r.kind ≠ .code) :
      (∀ item ∈ job.cpu.lines job.setting r, item.hasLabel = false) ∧
        Listed job.setting r.first (r.last + 1) (job.cpu.lines job.setting r) :=
    ⟨fun item hi => (InstructionSet.isData_lines hk item hi).1,
      h.lines_listed hk hpos hbase hlast⟩
  unfold part
  unfold InstructionSet.lines at data
  dsimp only
  cases hk : r.kind with
  | code =>
      obtain ⟨items, grown, happends, hgrown, hrows⟩ :=
        codePart_rows h hn hx (p.note [.part r]) hbase hlast
      exact ⟨items, grown, happends, .inr hgrown, rows hrows⟩
  | bytes | words | gap =>
      rw [hk] at data
      exact ⟨_, _, p.output.appends_addAll _, .inl rfl, data nofun⟩
  | custom =>
      let start : Pass σ := (p.note [.part r]).seek r
      cases hhandled : (ext.custom job.setting r start.cursor p.state).handled with
      | true =>
          obtain ⟨items, grown, happends, hgrown, hrows⟩ :=
            customPart_rows hx (p.note [.part r]) hbase hlast hhandled
          exact ⟨items, grown, happends, .inr hgrown, rows hrows⟩
      | false =>
          -- the region is listed as bytes behind whatever the extension left, which is nothing
          rw [hk] at data
          rcases hx.custom (c := start.cursor) p.state hbase hlast rfl rfl with
            hdeclined | ⟨htrue, -⟩
          · have hpart : ((p.note [.part r]).customPart job ext r).output =
                p.output.addAll (job.cpu.byteLines job.setting r) := by
              unfold customPart
              dsimp only
              rw [show ext.custom job.setting r ((p.note [.part r]).seek r).cursor
                ((p.note [.part r]).seek r).state = _ from hdeclined]
              rfl
            rw [hpart]
            exact ⟨_, _, p.output.appends_addAll _, .inl rfl, data nofun⟩
          · rw [htrue] at hhandled
            cases hhandled

end

end Pass

/-! ## Runs -/

/-- The output is in order up to before the place `bound`. -/
structure Output.Sheet (s : Setting) (bound : Int) (o : Output) : Prop where
  settled : o.Settled
  listed : Listed s 0 bound o.lines

theorem Output.sheet_empty (s : Setting) (bound : Int) : Sheet s bound {} :=
  ⟨settled_empty, .nil s 0 bound⟩

theorem Output.Sheet.fixup {s : Setting} {bound : Int} {o : Output} (h : o.Sheet s bound) :
    o.fixup.Sheet s bound :=
  ⟨h.settled.fixup, o.lines_fixup ▸ h.listed⟩

/-- Items listed behind all others leave an output in order. -/
theorem Output.Sheet.appends {s : Setting} {bound low high : Int} {o o' : Output}
    {items : List Item} (h : o.Sheet s bound) (ha : o.Appends items o')
    (hplain : ∀ item ∈ items, item.hasLabel = false) (hl : Listed s low high items)
    (hlow : 0 ≤ low) (hbound : bound ≤ low) (hle : low ≤ high) (hhigh : high ≤ 0x10000) :
    o'.Sheet s high := by
  have hold := h.listed.mono (Int.le_refl 0) hbound
  have hlisted : Listed s 0 high o'.lines := by
    rw [ha.lines hplain]
    exact hold.append hl (Int.le_refl 0) hlow hle hhigh
  refine ⟨h.settled.appends ha hplain ?_, hlisted⟩
  intro old hmem item hi hsame
  obtain ⟨x, hx, hx', hitem⟩ := hl.placed item hi
  obtain ⟨y, hy, hy', hplace⟩ := hold.placed old.plain (List.mem_map_of_mem hmem)
  rw [Item.plain_address] at hplace
  rw [hitem, hplace] at hsame
  have hxy := Setting.shownAddress_inj (by omega) (by omega) (by omega) (by omega) hsame
  omega

namespace Job

variable {σ : Type} {job : Job} {ext : Extension σ} {alphabet : Alphabet} {width longest : Nat}

theorem parts_sheet (h : job.cpu.Sound alphabet width)
    (hn : (job.cpu.expand job.setting).NamesLabels job.setting.options)
    (hx : ext.Orderly longest) (hpos : 0 ≤ job.setting.image.base) {rs : List Region}
    (hascend : rs.Pairwise Region.Before)
    (hfit : ∀ r ∈ rs, job.setting.image.base ≤ r.first ∧ r.last ≤ job.setting.image.last)
    {bound : Int} (hbound : ∀ r ∈ rs, bound ≤ r.first) (hspace : bound ≤ 0x10000) {p : Pass σ}
    (hp : p.output.Sheet job.setting bound) :
    (rs.foldl (Pass.part job ext) p).output.Sheet job.setting 0x10000 := by
  induction rs generalizing p bound with
  | nil => exact ⟨hp.settled, hp.listed.mono (Int.le_refl 0) hspace⟩
  | cons r rs ih =>
      rw [List.pairwise_cons] at hascend
      rw [List.forall_mem_cons] at hfit hbound
      have hlt := r.last_lt
      have hle := r.first_le_last
      obtain ⟨items, grown, happends, hpart, hplain, hlisted⟩ :=
        p.part_listed h hn hx hpos hfit.1.1 hfit.1.2
      have hgrown : grown.Sheet job.setting (r.last + 1) :=
        hp.appends happends hplain hlisted (by omega) hbound.1 (by omega) (by omega)
      have hnext : (p.part job ext r).output.Sheet job.setting (r.last + 1) := by
        rcases hpart with hpart | hpart
        · exact hpart ▸ hgrown
        · exact hpart ▸ hgrown.fixup
      refine ih hascend.2 hfit.2 ?_ (by omega) hnext
      intro t ht
      have hbefore := hascend.1 t ht
      unfold Region.Before at hbefore
      omega

theorem parts_fit {first last : Int} (hmask : job.cpu.addressMask = 0xFFFF)
    (hpos : 0 ≤ job.setting.image.base) {window : Region}
    (hwindow : job.window first last = some window) :
    ∀ r ∈ job.parts window,
      job.setting.image.base ≤ r.first ∧ r.last ≤ job.setting.image.last := by
  have hrange := (window_isSome hmask first last).1 (Option.isSome_of_mem hwindow)
  obtain ⟨window', hwindow', hfirst, hlast⟩ := window_eq_some hmask hpos hrange
  obtain rfl : window = window' := Option.some.inj (hwindow.symm.trans hwindow')
  intro r hr
  have hbounds := part_bounds hr
  omega

/-- The output of a run has the flags that it should have, and its items are in order. -/
theorem run_sheet (h : job.cpu.Sound alphabet width)
    (hn : (job.cpu.expand job.setting).NamesLabels job.setting.options)
    (hx : ext.Orderly longest) (hpos : 0 ≤ job.setting.image.base) {state : σ}
    {first last : Int} {o : Output} (ho : (job.run ext state first last).output = some o) :
    o.Flagged ∧ Listed job.setting 0 0x10000 o.lines := by
  rw [run_output] at ho
  split at ho
  · cases ho
  obtain ⟨window, hwindow, rfl⟩ := Option.map_eq_some_iff.1 ho
  have hfirst : ∀ r ∈ job.parts window, (0 : Int) ≤ r.first :=
    fun r _ => Int.natCast_nonneg r.first
  have hsheet := parts_sheet h hn hx hpos (job.parts_ascend window)
    (parts_fit h.mask hpos hwindow) hfirst (by decide)
    (p := { cursor := { offset := 0 }, state := state }) (Output.sheet_empty job.setting 0)
  exact ⟨hsheet.settled.flagged_fixup, hsheet.fixup.listed⟩

end Job

end RomListing
