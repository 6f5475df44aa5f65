import RomListing.Extension.Scripted
import RomListing.Proofs.Machine.Rows
import RomListing.Proofs.Pass.Progress

/-! # The extensions read bytes

Scripts and machines alike do nothing to a cursor but to read from it, and their own loops end: the
text after a call of the Z88 and the custom regions that are not listed as bytes.
-/

namespace RomListing

/-! ## Loops that stop by themselves -/

namespace EndsWithin

variable {α β : Type} {loop : Nat → α} {stopped : α → Prop} {x : α}

theorem of_stopped (hloop : ∀ fuel, loop fuel = x) (hx : stopped x) (bound : Nat) :
    EndsWithin loop stopped bound :=
  ⟨fun fuel _ => (hloop fuel).trans (hloop bound).symm, (hloop bound).symm ▸ hx⟩

/-- One round is enough. -/
theorem of_first (hloop : ∀ fuel, loop (fuel + 1) = x) (hx : stopped x) (bound : Nat) :
    EndsWithin loop stopped (bound + 1) := by
  refine ⟨fun fuel hfuel => ?_, (hloop bound).symm ▸ hx⟩
  obtain ⟨fuel, rfl⟩ := Nat.exists_eq_add_of_le' (Nat.le_trans (Nat.succ_pos bound) hfuel)
  exact (hloop fuel).trans (hloop bound).symm

/-- A round, and what the rest of the loop makes of it. -/
theorem succ {rest : Nat → β} {stopped' : β → Prop} {bound : Nat} (f : β → α)
    (hloop : ∀ fuel, loop (fuel + 1) = f (rest fuel)) (hrest : EndsWithin rest stopped' bound)
    (hstopped : ∀ y, stopped' y → stopped (f y)) : EndsWithin loop stopped (bound + 1) := by
  refine ⟨fun fuel hfuel => ?_, hloop bound ▸ hstopped _ hrest.stopped⟩
  obtain ⟨fuel, rfl⟩ := Nat.exists_eq_add_of_le' (Nat.le_trans (Nat.succ_pos bound) hfuel)
  rw [hloop, hloop, hrest.stays fuel (Nat.le_of_succ_le_succ hfuel)]

end EndsWithin

theorem Cursor.beyond_eq_false {s : Setting} {c : Cursor} :
    (c.peek s 0).beyond = false ↔ s.image.base ≤ c.offset ∧ c.offset ≤ s.image.last := by
  rw [← Image.byte?_isSome_iff]
  simp [peek]

/-! ## Scripts -/

namespace Script

variable (script : Script) (s : Setting)

/-- How many bytes the script takes at a place, if it takes over there. -/
def claimAt (place : Int) : Option Nat :=
  (s.image.byte? place).bind fun b => script.claims.lookup (b.toNat : Int)

theorem claimAt_inside {place : Int} (hin : s.image.base ≤ place ∧ place ≤ s.image.last) :
    script.claimAt s place = script.claims.lookup ((s.image.byteAt place).toNat : Int) := by
  obtain ⟨b, hb⟩ := Option.isSome_iff_exists.1 (Image.byte?_isSome_iff.2 hin)
  simp [claimAt, Image.byteAt, hb]

variable {script s}

theorem before_of_none {c : Cursor} (h : script.claimAt s c.offset = none) (journal : Journal) :
    script.extension.before s c journal =
      { handled := false, state := journal.push (.before (c.peek s 0)), cursor := c } := by
  unfold claimAt at h
  simp only [extension, before, Cursor.peek, Image.byteAt, Int.add_zero]
  cases hb : s.image.byte? c.offset with
  | none => simp
  | some b =>
      rw [hb, Option.bind_some] at h
      simp [h]

/-- Where the script takes over it lists the bytes that it reads, if it reads any. -/
theorem before_of_some {c : Cursor} {n : Nat} (h : script.claimAt s c.offset = some n)
    (journal : Journal) : script.extension.before s c journal =
      { handled := true
        state := journal.push (.before (c.peek s 0))
        cursor := (c.fetchMany s n).2
        items := if n = 0 then [] else
          [{ address := s.shownAddress c.offset
             opcodes := (c.fetchMany s n).1
             text := "claimed" }]
        references := if n = 0 then [] else
          (script.label.map fun l => ⟨wrap l, s.shownAddress c.offset⟩).toList } := by
  unfold claimAt at h
  obtain ⟨b, hb, hlookup⟩ := Option.bind_eq_some_iff.1 h
  simp only [extension, before, claim, Cursor.peek, Image.byteAt, Int.add_zero, hb,
    Option.isNone_some, Option.getD_some, Bool.false_eq_true, if_false, hlookup]
  split <;> rfl

theorem extension_reading (script : Script) : script.extension.Reading where
  before_reads s c journal := by
    cases hclaim : script.claimAt s c.offset with
    | none => exact ⟨0, before_of_none hclaim journal ▸ .refl s c⟩
    | some n => exact ⟨n, before_of_some hclaim journal ▸ c.fetchMany_reads s n⟩
  before_declined s c journal hdeclined := by
    cases hclaim : script.claimAt s c.offset with
    | none => rw [before_of_none hclaim]
    | some n =>
        rw [before_of_some hclaim] at hdeclined
        cases hdeclined
  before_idle {s c} journal hbase hlast hhandled hstays := by
    cases hclaim : script.claimAt s c.offset with
    | none =>
        rw [before_of_none hclaim] at hhandled
        cases hhandled
    | some n =>
        rw [before_of_some hclaim] at hstays ⊢
        -- had the script asked for a byte, it would have got one
        have hn : n = 0 := by
          by_contra hn
          have hlt := (c.fetchMany_reads s n).offset_lt (Nat.pos_of_ne_zero hn)
            (Image.byte?_isSome_iff.2 ⟨hbase, hlast⟩)
          exact absurd hstays (Int.ne_of_gt hlt)
        exact ⟨if_pos hn, if_pos hn⟩
  before_quiet s c journal := by
    cases hclaim : script.claimAt s c.offset with
    | none => simp [before_of_none hclaim]
    | some n => simp [before_of_some hclaim]
  after_quiet := by simp [extension]

/-- The bytes of a custom region are read one by one up to its end. -/
theorem dump_ends {last : Int} (hfit : last ≤ s.image.last) {left : Nat} {c : Cursor}
    (hbase : s.image.base ≤ c.offset) (hleft : last + 1 ≤ c.offset + left) :
    EndsWithin (fun fuel => dump s last fuel c) (fun x => last < x.2.offset) left := by
  induction left generalizing c with
  | zero => 
    refine .of_stopped (x := ([], c)) (fun fuel => ?_) (by dsimp only; omega) 0
    cases fuel with
    | zero => rfl
    | succ fuel => rw [dump, if_neg (by omega)]
  | succ left ih =>
      by_cases hin : c.offset ≤ last
      · have hgoes : c.offset ≤ last ∧ (c.peek s 0).beyond = false :=
          ⟨hin, Cursor.beyond_eq_false.2 ⟨hbase, Int.le_trans hin hfit⟩⟩
        have hlt := (c.fetch_reads s).offset_lt Nat.one_pos
          (Image.byte?_isSome_iff.2 ⟨hbase, Int.le_trans hin hfit⟩)
        refine .succ (fun x => ((c.fetch s).1 :: x.1, x.2)) (fun fuel => ?_)
          (ih (c := (c.fetch s).2) (by omega) (by omega)) (fun x hx => hx)
        rw [dump, if_pos hgoes]
      · refine .of_first (x := ([], c)) (fun fuel => ?_) (by dsimp only; omega) left
        rw [dump, if_neg fun hgoes => hin hgoes.1]

end Script

/-! ## Z88 -/

namespace Z88

variable {s : Setting} {c : Cursor}

theorem readString_reads (fuel : Nat) (c : Cursor) : ∃ n, c.Reads s n (readString s fuel c).2 := by
  induction fuel generalizing c with
  | zero => exact ⟨0, .refl s c⟩
  | succ fuel ih =>
      unfold readString
      dsimp only
      split
      · exact ⟨1, c.fetch_reads s⟩
      split
      · exact ⟨1, c.fetch_reads s⟩
      · obtain ⟨n, hreads⟩ := ih (c.fetch s).2
        exact ⟨1 + n, (c.fetch_reads s).trans hreads⟩

/-- A text ends with a zero or where a byte is missing. Every round reads a byte, so that one round
more than there are bytes is enough, wherever the text starts. -/
theorem readString_ends (s : Setting) (c : Cursor) :
    EndsWithin (fun fuel => readString s fuel c)
      (fun x => x.2.overflow = true ∨ x.1.getLast? = some 0) (s.image.bytes.size + 1) := by
  suffices h : ∀ left : Nat, c.offset < s.image.base ∨ s.image.last < c.offset + left →
      EndsWithin (fun fuel => readString s fuel c)
        (fun x => x.2.overflow = true ∨ x.1.getLast? = some 0) (left + 1) by
    refine h s.image.bytes.size ?_
    unfold Image.last
    omega
  intro left hleft
  -- the measure is the number of bytes that are left
  induction left generalizing c with
  | zero =>
      have hnone : s.image.byte? c.offset = none := by
        rw [← Option.not_isSome_iff_eq_none, Image.byte?_isSome_iff]
        omega
      refine .of_first (x := ([], { c with overflow := true })) (fun fuel => ?_) (.inl rfl) 0
      simp [readString, Cursor.fetch, hnone]
  | succ left ih =>
      let after := (c.fetch s).2
      cases hover : after.overflow with
      | true =>
          refine .of_first (x := ([], after)) (fun fuel => ?_) (.inl hover) _
          rw [readString]
          exact if_pos hover
      | false =>
          obtain ⟨hoffset, hbase⟩ : after.offset = c.offset + 1 ∧ s.image.base ≤ c.offset := by
            simp only [after, Cursor.fetch] at hover ⊢
            cases hb : s.image.byte? c.offset with
            | none => simp [hb] at hover
            | some b => exact ⟨rfl, (Image.byte?_isSome_iff.1 (Option.isSome_of_mem hb)).1⟩
          have hgoes : ¬after.overflow = true := Bool.eq_false_iff.1 hover
          by_cases hzero : (c.fetch s).1 = 0
          · refine .of_first (x := ([0], after)) (fun fuel => ?_) (.inr rfl) _
            rw [readString]
            dsimp only
            rw [if_neg hgoes, if_pos hzero, hzero]
          · refine .succ (fun x => ((c.fetch s).1 :: x.1, x.2)) (fun fuel => ?_)
              (ih after (by omega)) ?_
            · rw [readString]
              dsimp only
              rw [if_neg hgoes, if_neg hzero]
            · rintro x (hend | hend)
              · exact .inl hend
              · refine .inr ?_
                rw [List.getLast?_cons, hend]
                rfl

theorem inlineString_reads (s : Setting) (c after : Cursor) :
    ∃ n, after.Reads s n (inlineString s c after).2 := by
  unfold inlineString
  dsimp only
  split <;> exact readString_reads _ after

theorem systemCall_reads (s : Setting) (c : Cursor) :
    ∃ n, 0 < n ∧ c.Reads s n (systemCall s c).cursor := by
  have hcall := c.fetchMany_reads s 2
  unfold systemCall
  dsimp only
  split
  · exact ⟨3, by decide, c.fetchMany_reads s 3⟩
  split
  · obtain ⟨n, hreads⟩ := inlineString_reads s c (c.fetchMany s 2).2
    exact ⟨2 + n, by omega, hcall.trans hreads⟩
  · exact ⟨2, by decide, hcall⟩

/-- Where the machine takes over it reads a byte; elsewhere it does nothing at all. -/
theorem before_cases (s : Setting) (c : Cursor) :
    before s c () = { handled := false, state := (), cursor := c } ∨
      (∃ n, 0 < n ∧ c.Reads s n (before s c ()).cursor) ∧ (before s c ()).handled = true ∧
        ∀ notice ∈ (before s c ()).notices, notice.level ≠ .warning := by
  unfold before
  dsimp only
  split
  · exact .inl rfl
  split
  · exact .inr ⟨⟨2, by decide, c.fetchMany_reads s 2⟩, rfl, nofun⟩
  split
  · refine .inr ⟨systemCall_reads s c, ?_⟩
    unfold systemCall
    dsimp only
    split
    · exact ⟨rfl, nofun⟩
    split <;> exact ⟨rfl, nofun⟩
  split
  · exact .inr ⟨⟨4, by decide, c.fetchMany_reads s 4⟩, rfl, nofun⟩
  split
  · exact .inr ⟨⟨1, by decide, c.fetchMany_reads s 1⟩, rfl, nofun⟩
  · exact .inl rfl

end Z88

/-! ## Spectrum -/

namespace Spectrum

variable {s : Setting}

theorem switch_quiet (st : State) (mode : Mode) :
    ∀ notice ∈ (st.switch mode).2, notice.level ≠ .warning := by
  unfold State.switch
  split <;> simp [Notice.level]

/-- Where the conventions hold bytes to be read one is read; elsewhere nothing happens. -/
theorem before_cases (s : Setting) (c : Cursor) (st : State) :
    before s c st = { handled := false, state := st, cursor := c } ∨
      (∃ n, 0 < n ∧ c.Reads s n (before s c st).cursor) ∧ (before s c st).handled = true ∧
        ∀ notice ∈ (before s c st).notices, notice.level ≠ .warning := by
  unfold before
  split
  · exact .inl rfl
  · cases st.mode with
    | idle => exact .inl rfl
    | reportError =>
        exact .inr ⟨⟨1, by decide, errorCode_reads s c⟩, rfl, switch_quiet st .idle⟩
    | calculator =>
        refine .inr ⟨Calculator.entry_reads s st.pending c, rfl, ?_⟩
        unfold calculatorEntry
        dsimp only
        split
        · simp
        · exact switch_quiet _ .idle
    | rom48Call =>
        exact .inr ⟨⟨2, by decide, routineAddress_reads s c⟩, rfl, switch_quiet st .idle⟩

theorem after_quiet (pages : Pages) (s : Setting) (item : Item) (st : State) :
    ∀ notice ∈ (after pages s item st).notices, notice.level ≠ .warning := by
  unfold after verdict
  dsimp only
  split
  · exact switch_quiet _ _
  split
  · exact switch_quiet _ _
  split
  · exact switch_quiet _ _
  · simp

/-- Every entry of a custom region reads a byte. -/
theorem entries_ends {last : Int} (hfit : last ≤ s.image.last) {left : Nat} {c : Cursor}
    (hbase : s.image.base ≤ c.offset) (hleft : last + 1 ≤ c.offset + left) (pending : Nat) :
    EndsWithin (fun fuel => entries s last fuel pending c) (fun x => last < x.cursor.offset)
      left := by
  induction left generalizing c pending with
  | zero =>
      refine .of_stopped (x := { pending := pending, cursor := c }) (fun fuel => ?_)
        (by dsimp only; omega) 0
      cases fuel with
      | zero => rfl
      | succ fuel => rw [entries, if_neg (by omega)]
  | succ left ih =>
      by_cases hin : c.offset ≤ last
      · have hpresent : s.image.base ≤ c.offset ∧ c.offset ≤ s.image.last :=
          ⟨hbase, Int.le_trans hin hfit⟩
        have hgoes : c.offset ≤ last ∧ (c.peek s 0).beyond = false :=
          ⟨hin, Cursor.beyond_eq_false.2 hpresent⟩
        let e := Calculator.entry s pending c
        obtain ⟨n, hpos, hreads⟩ := Calculator.entry_reads s pending c
        have hlt : c.offset < e.cursor.offset :=
          hreads.offset_lt hpos (Image.byte?_isSome_iff.2 hpresent)
        refine .succ (fun rest => { rest with
            items := e.item :: rest.items
            references := e.references ++ rest.references }) (fun fuel => ?_)
          (ih (c := e.cursor) (by omega) (by omega) e.pending) (fun x hx => hx)
        rw [entries, if_pos hgoes]
      · refine .of_first (x := { pending := pending, cursor := c }) (fun fuel => ?_)
          (by dsimp only; omega) left
        rw [entries, if_neg fun hgoes => hin hgoes.1]

end Spectrum

/-! ## Extensions that read whenever they take over -/

/-- An extension that does nothing at all or reads a byte never idles. -/
theorem Extension.reading_of_cases {σ : Type} {ext : Extension σ}
    (hbefore : ∀ s c st, ext.before s c st = { handled := false, state := st, cursor := c } ∨
      (∃ n, 0 < n ∧ Cursor.Reads s c n (ext.before s c st).cursor) ∧
        (ext.before s c st).handled = true ∧
        ∀ notice ∈ (ext.before s c st).notices, notice.level ≠ .warning)
    (hafter : ∀ s item st, ∀ notice ∈ (ext.after s item st).notices, notice.level ≠ .warning) :
    ext.Reading where
  before_reads s c st := by
    rcases hbefore s c st with hdeclined | ⟨⟨n, -, hreads⟩, -⟩
    · exact ⟨0, hdeclined ▸ .refl s c⟩
    · exact ⟨n, hreads⟩
  before_declined s c st hhandled := by
    rcases hbefore s c st with hdeclined | ⟨-, htrue, -⟩
    · rw [hdeclined]
    · rw [hhandled] at htrue
      cases htrue
  before_idle {s c} st hbase hlast hhandled hstays := by
    rcases hbefore s c st with hdeclined | ⟨⟨n, hpos, hreads⟩, -⟩
    · rw [hdeclined] at hhandled
      cases hhandled
    · have hlt := hreads.offset_lt hpos (Image.byte?_isSome_iff.2 ⟨hbase, hlast⟩)
      exact absurd hstays (Int.ne_of_gt hlt)
  before_quiet s c st := by
    rcases hbefore s c st with hdeclined | ⟨-, -, hquiet⟩
    · simp [hdeclined]
    · exact hquiet
  after_quiet := hafter

theorem Machine.extension_reading (machine : Option Machine) :
    (Machine.extension machine).Reading := by
  match machine with
  | none => exact Extension.reading_of_cases (fun _ _ _ => .inl rfl) (fun _ _ _ => nofun)
  | some .z88 =>
      exact Extension.reading_of_cases (fun s c _ => Z88.before_cases s c) (fun _ _ _ => nofun)
  | some (.spectrum pages) =>
      exact Extension.reading_of_cases Spectrum.before_cases (Spectrum.after_quiet pages)

end RomListing
