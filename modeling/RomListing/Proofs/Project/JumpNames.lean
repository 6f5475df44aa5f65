import RomListing.Proofs.BinaryFraction.FixedText
import RomListing.Proofs.Extension.Reading
import RomListing.Proofs.Project.Lossless
import RomListing.Proofs.Spectrum.CustomRegion

/-! # The labels that jumps of byte code name

A jump of byte code has no operand: the label that it leads to is named in its remark. Unlike the
names of operands and of label lines, the name in the remark is the same with all options: `L` and a
hexadecimal numeral. A listing that writes its labels in another way defines no label of this name.
-/

namespace RomListing

/-! ## Remarks -/

def jumpLeads : List String := ["(jump-true: ", "(jump: ", "(dec-jr-nz: "]

def Item.JumpsTo (item : Item) (name : Text) : Prop :=
  ∃ lead ∈ jumpLeads, item.remark = some (Text.ofString lead ++ name ++ ")")

/-- The text is not the remark of a jump. -/
def Text.Aside (t : Text) : Prop := ∀ lead ∈ jumpLeads, ¬Text.ofString lead <+: t

/-- No text that starts like this is the remark of a jump. -/
def Diverges (start : String) : Prop :=
  ∀ lead ∈ jumpLeads, ¬Text.ofString lead <+: Text.ofString start ∧
    ¬Text.ofString start <+: Text.ofString lead

instance : DecidablePred Diverges := fun _ => inferInstanceAs (Decidable (∀ lead ∈ jumpLeads, _))

theorem Diverges.aside_append {start : String} (h : Diverges start) (more : Text) :
    (Text.ofString start ++ more).Aside := by
  intro lead hlead hstarts
  obtain ⟨hlonger, hshorter⟩ := h lead hlead
  rcases List.prefix_or_prefix_of_prefix hstarts (List.prefix_append _ _) with hle | hle
  · exact hlonger hle
  · exact hshorter hle

theorem Diverges.aside {start : String} (h : Diverges start) : (Text.ofString start).Aside := by
  have hall := h.aside_append []
  rwa [List.append_nil] at hall

theorem Text.aside_of_no_colon {t : Text} (h : .char ':' ∉ t) : t.Aside := by
  have hcolon : ∀ lead ∈ jumpLeads, Letter.char ':' ∈ ofString lead := by decide
  exact fun lead hlead hstarts => h (hstarts.subset (hcolon lead hlead))

theorem Text.aside_of_front {text : String} (h : text.front ≠ '(') : (ofString text).Aside := by
  have hbracket : ∀ lead ∈ jumpLeads, ∃ rest, lead.toList = '(' :: rest := by
    intro lead hlead
    simp only [jumpLeads, List.mem_cons, List.not_mem_nil, or_false] at hlead
    rcases hlead with rfl | rfl | rfl <;> exact ⟨_, rfl⟩
  rintro lead hlead ⟨more, hmore⟩
  obtain ⟨rest, hrest⟩ := hbracket lead hlead
  unfold ofString ofChars at hmore
  rw [hrest, List.map_cons] at hmore
  rw [String.front_eq, String.front?_eq] at h
  cases hchars : text.toList with
  | nil => simp [hchars] at hmore
  | cons c cs =>
      rw [hchars, List.map_cons, List.cons_append, List.cons_eq_cons] at hmore
      rw [hchars] at h
      exact h (Letter.char.inj hmore.1).symm

def Item.Aside (item : Item) : Prop := ∀ t, item.remark = some t → t.Aside

theorem Item.Aside.not_jumpsTo {item : Item} (h : item.Aside) (name : Text) :
    ¬item.JumpsTo name := by
  rintro ⟨lead, hlead, hremark⟩
  refine h _ hremark lead hlead ?_
  rw [List.append_assoc]
  exact List.prefix_append _ _

/-! ## Instructions -/

theorem Expander.exists_of_mem_replacements {e : Expander} {ls : List Letter} {c : Cursor}
    {r : Replacement} (h : r ∈ (e.replacements ls c).1) : ∃ letter d, r = (e letter d).1 := by
  induction ls generalizing c with
  | nil => cases h
  | cons letter ls ih =>
      rcases List.mem_cons.1 h with rfl | h
      · exact ⟨letter, c, rfl⟩
      · exact ih h

/-- The remark of an item that replacements are noted on is its own or that of one of them. -/
theorem foldl_note_remark {R : Text → Prop} {rs : List Replacement}
    (h : ∀ r ∈ rs, ∀ t, r.remark = some t → R t) {item : Item}
    (hi : ∀ t, item.remark = some t → R t) :
    ∀ t, (rs.foldl Item.note item).remark = some t → R t := by
  induction rs generalizing item with
  | nil => exact hi
  | cons r rs ih =>
      obtain ⟨hr, hrs⟩ := List.forall_mem_cons.1 h
      refine ih hrs fun t ht => ?_
      have hor : (r.remark <|> item.remark) = some t := ht
      cases hremark : r.remark with
      | none => exact hi t (by rwa [hremark] at hor)
      | some text => exact hr t (by rwa [hremark] at hor ⊢)

namespace Processor

/-- The only remarks that operands bring along are the names of registers. -/
theorem expand_remark (q : Processor) (s : Setting) (letter : Letter) (c : Cursor) {t : Text}
    (h : (q.instructionSet.expand s letter c).1.remark = some t) :
    ∃ e ∈ Z80.nextRegisters, t = Text.ofString e.2 := by
  cases q with
  | mos6502 =>
      unfold instructionSet Mos6502.instructionSet Mos6502.expand at h
      dsimp only at h
      split at h <;> cases h
  | z80 =>
      unfold instructionSet Z80.instructionSet Z80.expand at h
      dsimp only at h
      split at h
      case h_7 =>
        obtain ⟨name, hname, rfl⟩ := Option.map_eq_some_iff.1 h
        exact ⟨_, mem_of_lookup hname, rfl⟩
      case h_10 | h_11 | h_12 =>
        unfold Z80.indexName at h
        cases h
      all_goals cases h

theorem decode_aside (q : Processor) (s : Setting) (c : Cursor) :
    (q.instructionSet.decode s c).item.Aside := by
  have hregisters : ∀ e ∈ Z80.nextRegisters, e.2.front ≠ '(' := by decide +kernel
  rw [q.instructionSet.decode_eq]
  show ∀ t, (q.instructionSet.expansion s c).item.remark = some t → t.Aside
  rw [(q.sound.expansion_follows s c).item]
  refine foldl_note_remark (fun r hr t ht => ?_) (fun t ht => by cases ht)
  obtain ⟨letter, d, rfl⟩ := Expander.exists_of_mem_replacements hr
  obtain ⟨e, he, rfl⟩ := q.expand_remark s letter d ht
  exact Text.aside_of_front (hregisters e he)

end Processor

namespace Spectrum

open Calculator (entry operationRemark indexedOperation operationName operations)
open ByteCode (Token jumps)

/-- An instruction is never remarked to be a jump of byte code. -/
theorem after_aside (pages : Pages) (s : Setting) {item : Item} (h : item.Aside) (st : State) :
    ({ item with remark := (after pages s item st).remark <|> item.remark } : Item).Aside := by
  have hcalls : ∀ text ∈ ["(Report error)", "(Invoke Calculator)", "(Call Spectrum 48 ROM)"],
      Diverges text := by decide
  intro t ht
  unfold after at ht
  dsimp only at ht
  split at ht
  · cases ht
    exact (hcalls _ (by simp)).aside
  · split at ht
    · cases ht
      exact (hcalls _ (by simp)).aside
    · split at ht
      · cases ht
        exact (hcalls _ (by simp)).aside
      · exact h t ht

/-! ## Byte code -/

/-- Of operations with several names, up to the first number behind the names. -/
theorem diverges_indexedOperation : ∀ code ∈ [0x3F, 0x40, 0x41], ∀ n < 6,
    Diverges (indexedOperation code (n : Nat)) := by decide +kernel

theorem operationRemark_aside (s : Setting) (code : UInt8) :
    (Text.ofString (operationRemark s code)).Aside := by
  have hindexed {k : Int} (hk : k ∈ [(0x3F : Int), 0x40, 0x41]) {n : Nat} (hn : n < 6) :=
    (diverges_indexedOperation k hk n hn).aside
  have hnames : ∀ e ∈ operations, Diverges ("(" ++ e.2 ++ ")") := by decide +kernel
  unfold operationRemark
  dsimp only
  split
  · exact Diverges.aside (by decide)
  split
  · exact Diverges.aside (by decide)
  split
  · rw [String.append_assoc, Text.ofString_append]
    exact Diverges.aside_append (by decide) _
  split
  · exact hindexed (by simp) (by omega)
  split
  · exact hindexed (by simp) (by omega)
  split
  · exact hindexed (by simp) (by omega)
  cases hname : operationName code with
  | some name =>
      have hdiverges := forall_lookup (P := fun name => Diverges ("(" ++ name ++ ")")) hnames hname
      exact hdiverges.aside
  | none =>
      rw [Option.getD_none, ← String.append_assoc, String.append_assoc, Text.ofString_append]
      exact Diverges.aside_append (by decide) _

/-- The remark of a number is made of a numeral and brackets. -/
theorem fixedText_aside (x : BinaryFraction) (places : Nat) :
    (Text.ofString ("(" ++ x.fixedText places ++ ")")).Aside := by
  refine Text.aside_of_no_colon fun hmem => ?_
  have hcolon : ':' ∉ Numeral.symbols := by decide
  have hdecimal (width : Nat) (v : Int) :
      ':' ∉ (Numeral.padded Numeral.decimalDigits width v).toList :=
    fun h => hcolon (Numeral.padded_subset Numeral.decimalDigits_subset width v h)
  have hsign : ':' ∉ (if x.negative then "-" else "").toList := by
    split <;> decide
  obtain ⟨c, hc, hsame⟩ := List.mem_map.1 hmem
  obtain rfl := Letter.char.inj hsame
  rw [x.fixedText_eq] at hc
  simp [Numeral.decimal, hdecimal, hsign] at hc

/-- The jump of byte code at the place, which leads to the address, has this item, flags and remarks
of the project apart. -/
structure IsJump (s : Setting) (place target : Int) (item : Item) : Prop where
  base : s.image.base ≤ place
  last : place ≤ s.image.last
  code : s.image.byteAt place ∈ jumps
  target : target = ByteCode.target s place (s.image.byteAt (place + 1))
  item : Project.bare item =
    (Token.jump (s.image.byteAt place) (s.image.byteAt (place + 1)) code).item s place

variable {s : Setting} {c : Cursor} {place target : Int} {item : Item}

theorem IsJump.remark (h : IsJump s place target item) : ∃ lead ∈ jumpLeads, item.remark =
    some (Text.ofString lead ++ Text.ofString ("L" ++ Numeral.hex4 target) ++ ")") := by
  have hlead : ∀ code ∈ jumps, "(" ++ (operationName code).getD "" ++ ": " ∈ jumpLeads := by
    decide +kernel
  have hbreak : (": L" : String) = ": " ++ "L" := by decide
  rw [h.target]
  refine ⟨_, hlead _ h.code, ?_⟩
  have hremark : item.remark = Token.remark s place (.jump _ _ h.code) :=
    congrArg Item.remark h.item
  rw [hremark, Token.remark, hbreak]
  simp only [Text.ofString_append, List.append_assoc]

/-- The name in the remark of a jump is always `L` and a hexadecimal numeral. -/
theorem IsJump.jumpsTo_iff (h : IsJump s place target item) (name : Text) :
    item.JumpsTo name ↔ name = Text.ofString ("L" ++ Numeral.hex4 target) := by
  have hleads : ∀ a ∈ jumpLeads, ∀ b ∈ jumpLeads, Text.ofString a <+: Text.ofString b → a = b := by
    decide
  obtain ⟨lead, hlead, hremark⟩ := h.remark
  constructor
  · rintro ⟨lead', hlead', hremark'⟩
    have htext := Option.some.inj (hremark'.symm.trans hremark)
    rw [List.append_assoc, List.append_assoc] at htext
    have hsame : lead' = lead := by
      rcases List.append_eq_append_iff.1 htext with ⟨more, hmore, -⟩ | ⟨more, hmore, -⟩
      · exact hleads _ hlead' _ hlead ⟨more, hmore.symm⟩
      · exact (hleads _ hlead _ hlead' ⟨more, hmore.symm⟩).symm
    rw [hsame] at htext
    exact List.append_cancel_right (List.append_cancel_left htext)
  · rintro rfl
    exact ⟨lead, hlead, hremark⟩

/-- An item that is remarked to be a jump is one. -/
def TellsJumps (s : Setting) (item : Item) : Prop :=
  ∀ name, item.JumpsTo name → ∃ place target, IsJump s place target item

theorem tellsJumps_of_aside (h : item.Aside) : TellsJumps s item :=
  fun name hname => absurd hname (h.not_jumpsTo name)

/-- Flags and remarks of the project do not count. -/
theorem TellsJumps.of_bare {item' : Item} (h : TellsJumps s item)
    (heq : Project.bare item' = Project.bare item) : TellsJumps s item' := by
  have hremark : item'.remark = item.remark := (congrArg Item.remark heq :)
  rintro name ⟨lead, hlead, hname⟩
  obtain ⟨place, target, hjump⟩ := h name ⟨lead, hlead, hremark.symm.trans hname⟩
  exact ⟨place, target, hjump.base, hjump.last, hjump.code, hjump.target, heq.trans hjump.item⟩

theorem entry_tellsJumps (due : Nat) (hbase : s.image.base ≤ c.offset)
    (hlast : c.offset ≤ s.image.last) : TellsJumps s (entry s due c).item := by
  rw [(ByteCode.entry_shows due hbase hlast).item]
  unfold ByteCode.read
  dsimp only
  split
  · split
    · rename_i hcode
      exact fun name _ => ⟨c.offset, _, hbase, hlast, hcode, rfl, rfl⟩
    · refine tellsJumps_of_aside fun t ht => ?_
      cases ht
      exact operationRemark_aside s _
  · refine tellsJumps_of_aside fun t ht => ?_
    obtain ⟨n, -, rfl⟩ := Option.map_eq_some_iff.1 ht
    rw [← Text.ofString_append, ← Text.ofString_append]
    exact fixedText_aside n.value 6

/-! ## Everything listed -/

theorem before_tellsJumps (c : Cursor) (st : State) :
    ∀ item ∈ (before s c st).items, TellsJumps s item := by
  unfold before
  split
  · exact List.forall_mem_nil _
  · rename_i hin
    obtain ⟨hbase, hlast⟩ := Cursor.beyond_eq_false.1 (Bool.not_eq_true _ ▸ hin)
    split
    · exact List.forall_mem_nil _
    · refine List.forall_mem_singleton.2 (tellsJumps_of_aside fun t ht => ?_)
      cases ht
      rw [List.append_assoc]
      exact Diverges.aside_append (by decide) _
    · exact List.forall_mem_singleton.2 (entry_tellsJumps st.pending hbase hlast)
    · exact List.forall_mem_singleton.2 (tellsJumps_of_aside nofun)

theorem entries_tellJumps (last : Int) (fuel due : Nat) (c : Cursor) :
    ∀ item ∈ (entries s last fuel due c).items, TellsJumps s item := by
  induction fuel generalizing due c with
  | zero => exact List.forall_mem_nil _
  | succ fuel ih =>
      unfold entries
      split
      · rename_i hgoes
        obtain ⟨hbase, hlast⟩ := Cursor.beyond_eq_false.1 hgoes.2
        exact List.forall_mem_cons.2 ⟨entry_tellsJumps due hbase hlast, ih _ _⟩
      · exact List.forall_mem_nil _

theorem everywhere_tellJumps (pages : Pages) (q : Processor) {job : Job}
    (hcpu : job.cpu = q.instructionSet) :
    job.Everywhere (extension pages) (TellsJumps job.setting) fun _ => True where
  plain h := h.of_bare rfl
  instruction c st := by
    rw [hcpu]
    exact tellsJumps_of_aside (after_aside pages job.setting (q.decode_aside job.setting c) st)
  references _ _ _ := trivial
  data hk item hi := by
    have hsilent : item.remark = none :=
      InstructionSet.forall_mem_lines (P := fun item => item.remark = none)
        (fun _ _ _ => rfl) hk item hi
    exact tellsJumps_of_aside fun t ht => by simp [hsilent] at ht
  before c st := .of_items (before_tellsJumps c st)
  custom r c _ := .of_items (entries_tellJumps r.last r.length 0 c)

end Spectrum

/-! ## Names -/

/-- Labels are written in hexadecimal, after `L`. -/
def Options.HexLabels (o : Options) : Prop := o.decimal = false ∧ o.bareLabels = false

/-- Numerals of addresses have four hexadecimal digits, and at least five decimal ones. -/
theorem Numeral.hex4_ne_decimal5 {a b : Int} (ha : IsAddress a) (hb : 0 ≤ b) :
    hex4 a ≠ decimal5 b := by
  obtain ⟨n, rfl⟩ := Int.eq_ofNat_of_zero_le ha.1
  obtain ⟨m, rfl⟩ := Int.eq_ofNat_of_zero_le hb
  have hn : n < 0x10000 := by
    have := ha.2
    omega
  obtain ⟨w, x, y, z, hfour, -⟩ := hex4_four hn
  have hlong : 5 ≤ (Text.ofString (decimal5 m)).length := by
    show 5 ≤ (Text.ofString (String.ofList ((decimalDigits m).leftpad 5 '0'))).length
    unfold Text.ofString Text.ofChars
    rw [String.toList_ofList, List.length_map, List.length_leftpad]
    exact Nat.le_max_left _ _
  intro hsame
  rw [← hsame, hfour] at hlong
  exact absurd hlong (by simp)

namespace Options

variable {o : Options} {a b : Int}

theorem labelLead_eq_of_labelName {numeral : String} (h : o.labelName b = "L" ++ numeral) :
    o.bareLabels = false ∧ o.labelNumeral b = numeral := by
  unfold labelName labelLead at h
  cases hbare : o.bareLabels with
  | false =>
      rw [hbare, if_neg (by decide)] at h
      exact ⟨rfl, (String.append_right_inj _).1 h⟩
  | true =>
      have htext := congrArg Text.ofString h
      rw [hbare, if_pos rfl, Text.ofString_append, Text.ofString_append] at htext
      cases htext

/-- A label is named by `L` and the hexadecimal numeral of an address in one form of the options
only, and there it is the label at the address. -/
theorem labelName_eq_hex_iff (ha : IsAddress a) (hb : IsAddress b) :
    o.labelName b = "L" ++ Numeral.hex4 a ↔ o.HexLabels ∧ b = a := by
  constructor
  · intro h
    obtain ⟨hbare, hnumeral⟩ := labelLead_eq_of_labelName h
    cases hdecimal : o.decimal with
    | true =>
        unfold labelNumeral at hnumeral
        rw [hdecimal, if_pos rfl] at hnumeral
        exact absurd hnumeral.symm (Numeral.hex4_ne_decimal5 ha hb.1)
    | false =>
        have hhex : o.labelNumeral a = Numeral.hex4 a := if_neg (by simp [hdecimal])
        exact ⟨⟨hdecimal, hbare⟩, labelNumeral_inj hb.1 ha.1 (hnumeral.trans hhex.symm)⟩
  · rintro ⟨⟨hdecimal, hbare⟩, rfl⟩
    unfold labelName labelLead labelNumeral
    rw [hdecimal, hbare]
    rfl

end Options

namespace Listing

variable {options : Options} {showBytes : Bool}

theorem labelLine_eq_hex_iff {a b : Int} (ha : IsAddress a) (hb : IsAddress b) :
    (ofOptions options showBytes).labelLine b = Text.ofString ("L" ++ Numeral.hex4 a) ++ ":" ↔
      options.HexLabels ∧ b = a := by
  unfold labelLine
  rw [ofOptions_labelName, List.append_left_inj, ← Options.labelName_eq_hex_iff ha hb]
  exact ⟨Text.ofString_inj, congrArg Text.ofString⟩

/-- The line of a label with this name is there in one form of the options only, and there it is the
line of the label at the address. -/
theorem mem_lines_hex_iff {o : Output} (ho : ∀ item ∈ o.items.toList, IsAddress item.address)
    {a : Int} (ha : IsAddress a) :
    let l := ofOptions options showBytes
    Text.ofString ("L" ++ Numeral.hex4 a) ++ ":" ∈ l.lines o ↔
      options.HexLabels ∧ l.labelLine a ∈ l.lines o := by
  intro l
  constructor
  · intro hmem
    obtain ⟨item, hi, hline⟩ := List.mem_flatMap.1 hmem
    have hhex : Text.ofString ("L" ++ Numeral.hex4 a) ++ ":" ≠ l.line item := by
      -- lines of items are the same however labels are written
      have hsame : l.line item = (ofOptions {} showBytes).line item := rfl
      have hdefault : (ofOptions {} showBytes).labelLine a = _ :=
        (labelLine_eq_hex_iff ha ha).2 ⟨⟨rfl, rfl⟩, rfl⟩
      rw [hsame, ← hdefault]
      exact (line_ne_labelLine item a).symm
    have hlabel : Text.ofString ("L" ++ Numeral.hex4 a) ++ ":" = l.labelLine item.address := by
      unfold itemLines at hline
      dsimp only at hline
      split at hline
      · rcases List.mem_cons.1 hline with heq | hline
        · exact heq
        · exact absurd (List.mem_singleton.1 hline) hhex
      · exact absurd (List.mem_singleton.1 hline) hhex
    obtain ⟨hoptions, haddress⟩ := (labelLine_eq_hex_iff ha (ho item hi)).1 hlabel.symm
    rw [hlabel, haddress] at hmem
    exact ⟨hoptions, hmem⟩
  · rintro ⟨hoptions, hmem⟩
    rwa [← (labelLine_eq_hex_iff ha ha).2 ⟨hoptions, rfl⟩]

end Listing

namespace Project

open Spectrum (IsJump TellsJumps)

variable {p : Project} {bytes : Array UInt8}

theorem listing_tellsJumps {pages : Spectrum.Pages}
    (hmachine : p.namedMachine = .ok (some (.spectrum pages))) {o : Output}
    (ho : p.listing? bytes = some o) :
    ∀ item ∈ o.items.toList, TellsJumps (p.setting bytes) item := by
  obtain ⟨q, machine, -, hm, o', hrun, rfl⟩ := listing?_eq_some_iff.1 ho
  obtain rfl := Except.ok.inj (hm.symm.trans hmachine)
  rw [Machine.run_output] at hrun
  have hall : o'.All (TellsJumps (p.setting bytes)) fun _ => True :=
    Job.Everywhere.run (Spectrum.everywhere_tellJumps pages q rfl) hrun
  intro item hi
  obtain ⟨old, hold, heq⟩ := p.exists_bare_eq o' hi
  exact (hall.lines old.plain (List.mem_map_of_mem hold)).of_bare heq.symm

/-- In the listing of a project for a Spectrum ROM, whatever the options and the contents, the items
that are remarked to be jumps are the jumps of byte code, each with the address that its distance
leads to. The remark names this address by `L` and a hexadecimal numeral. That is the label's name
exactly if the options have labels written so, and only then does the listing define a label of the
name that the remark gives: the label at this address, if it defines that one. -/
theorem listing_names_jumps (p : Project) (bytes : Array UInt8) (showBytes : Bool)
    {pages : Spectrum.Pages} (hmachine : p.namedMachine = .ok (some (.spectrum pages))) {o : Output}
    (ho : p.listing? bytes = some o) :
    let s := p.setting bytes
    let l := Listing.ofOptions p.options showBytes
    ∀ item ∈ o.items.toList,
      (∀ name, item.JumpsTo name ↔ ∃ place target, IsJump s place target item ∧
        name = Text.ofString ("L" ++ Numeral.hex4 target)) ∧
      ∀ name place target, item.JumpsTo name → IsJump s place target item →
        (name = l.labelName target ↔ p.options.HexLabels) ∧
        (name ++ ":" ∈ l.lines o ↔ p.options.HexLabels ∧ l.labelLine target ∈ l.lines o) := by
  intro s l item hi
  constructor
  · intro name
    constructor
    · intro hname
      obtain ⟨place, target, hjump⟩ := listing_tellsJumps hmachine ho item hi name hname
      exact ⟨place, target, hjump, (hjump.jumpsTo_iff name).1 hname⟩
    · rintro ⟨place, target, hjump, hname⟩
      exact (hjump.jumpsTo_iff name).2 hname
  · intro name place target hname hjump
    obtain rfl := (hjump.jumpsTo_iff name).1 hname
    have htarget : IsAddress target := hjump.target ▸ s.isAddress_shownAddress _
    constructor
    · have hlabel := Options.labelName_eq_hex_iff (o := p.options) htarget htarget
      rw [Listing.ofOptions_labelName, ← and_iff_left (a := p.options.HexLabels) (Eq.refl target),
        ← hlabel]
      exact ⟨fun h => (Text.ofString_inj h).symm, fun h => congrArg Text.ofString h.symm⟩
    · exact Listing.mem_lines_hex_iff (fun item hi => (listing_legible ho item hi).1) htarget

/-- The calculator jumps over the end of its code, to the label of the last line. -/
theorem listing_names_jumps_over_end :
    let p : Project := { machine := some (Text.ofString "SPECTRUM48") }
    let bytes := #[0xEF, 0x00, 0x02, 0x38, 0x00]
    let l := Listing.ofOptions p.options false
    p.namedMachine = .ok (some (.spectrum .spectrum48)) ∧
      ∃ o, p.listing? bytes = some o ∧
        l.lines o = ["  0000  rst $28                  ; (Invoke Calculator)",
          "  0001  .defb $00, $02           ; (jump-true: L0004)",
          "  0003  .defb $38                ; (end-calc)", "L0004:",
          "  0004  nop"].map Text.ofString ∧
        ∃ item ∈ o.items.toList, ∃ place target, IsJump (p.setting bytes) place target item ∧
          item.JumpsTo (l.labelName target) ∧ l.labelName target ++ ":" ∈ l.lines o := by
  intro p bytes l
  have hmachine : p.namedMachine = .ok (some (.spectrum .spectrum48)) := rfl
  have hlines : (p.listing? bytes).map (fun o => (l.lines o,
      o.items.toList.any fun item =>
        item.remark == some (Text.ofString "(jump-true: " ++ Text.ofString "L0004" ++ ")"))) =
        some (["  0000  rst $28                  ; (Invoke Calculator)",
          "  0001  .defb $00, $02           ; (jump-true: L0004)",
          "  0003  .defb $38                ; (end-calc)", "L0004:",
          "  0004  nop"].map Text.ofString, true) := by decide +kernel
  obtain ⟨o, ho, hlines⟩ := Option.map_eq_some_iff.1 hlines
  obtain ⟨hlines, hsome⟩ := Prod.mk.inj hlines
  obtain ⟨item, hi, hremark⟩ := List.any_eq_true.1 hsome
  have hname : item.JumpsTo (Text.ofString "L0004") :=
    ⟨"(jump-true: ", by decide, eq_of_beq hremark⟩
  obtain ⟨hjumps, hnames⟩ := listing_names_jumps p bytes false hmachine ho item hi
  obtain ⟨place, target, hjump, -⟩ := (hjumps _).1 hname
  obtain ⟨hsame, -⟩ := hnames _ place target hname hjump
  have hlabel : Text.ofString "L0004" = l.labelName target := hsame.2 ⟨rfl, rfl⟩
  refine ⟨hmachine, o, ho, hlines, item, hi, place, target, hjump, ?_⟩
  rw [← hlabel]
  refine ⟨hname, ?_⟩
  rw [hlines]
  decide

/-- In decimal the label that the jump leads to is defined, but under another name. -/
theorem listing_names_jumps_decimal :
    let p : Project :=
      { machine := some (Text.ofString "SPECTRUM48"), options := { decimal := true } }
    let bytes := #[0xEF, 0x00, 0x02, 0x38, 0x00]
    let l := Listing.ofOptions p.options false
    ∃ o, p.listing? bytes = some o ∧
      l.lines o = ["  0000  rst 40                   ; (Invoke Calculator)",
        "  0001  .defb 0, 2               ; (jump-true: L0004)",
        "  0003  .defb 56                 ; (end-calc)", "L00004:", "  0004  nop"].map
          Text.ofString ∧
      ¬∀ item ∈ o.items.toList, ∀ name place target, item.JumpsTo name →
        IsJump (p.setting bytes) place target item → l.labelLine target ∈ l.lines o →
          name ++ ":" = l.labelLine target := by
  intro p bytes l
  let jump : Spectrum.ByteCode.Token := .jump 0x00 0x02 (by decide)
  have hlines : (p.listing? bytes).map (fun o => (l.lines o,
      o.items.toList.any fun item => bare item == jump.item (p.setting bytes) 1)) =
        some (["  0000  rst 40                   ; (Invoke Calculator)",
          "  0001  .defb 0, 2               ; (jump-true: L0004)",
          "  0003  .defb 56                 ; (end-calc)", "L00004:", "  0004  nop"].map
            Text.ofString, true) := by decide +kernel
  obtain ⟨o, ho, hlines⟩ := Option.map_eq_some_iff.1 hlines
  obtain ⟨hlines, hsome⟩ := Prod.mk.inj hlines
  obtain ⟨item, hi, hitem⟩ := List.any_eq_true.1 hsome
  have hjump : IsJump (p.setting bytes) 1 4 item :=
    ⟨by decide, by decide, by decide, by decide, eq_of_beq hitem⟩
  have hname := (hjump.jumpsTo_iff _).2 rfl
  refine ⟨o, ho, hlines, fun hall => ?_⟩
  have hsame := hall item hi _ 1 4 hname hjump (by rw [hlines]; decide)
  exact absurd hsame (by decide)

end Project

end RomListing
