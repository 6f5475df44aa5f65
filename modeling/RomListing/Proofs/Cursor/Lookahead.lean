import RomListing.Proofs.Cursor.Reading

/-! # Looks and reads

An extension looks ahead to decide, and reads what it has decided on. A look computes its place,
while a read stops at the end of the image and leaves a mark; still a look at the place `k` bytes on
tells the byte that the `k + 1`-th read from there gives, and whether it is missing. Looks leave no
trace: mixed among reads they change neither what these tell nor the cursor in the end.
-/

namespace RomListing

namespace Cursor

inductive Call where
  | fetch
  | peek (ahead : Int)
  deriving DecidableEq

def call (s : Setting) (c : Cursor) : Call → Sight × Cursor
  | .fetch => c.sight s
  | .peek ahead => (c.peek s ahead, c)

/-- Calls one after another, each with what it told. -/
def session (s : Setting) : List Call → Cursor → List (Call × Sight) × Cursor
  | [], c => ([], c)
  | call :: calls, c =>
    let (x, c) := c.call s call
    let (told, c) := session s calls c
    ((call, x) :: told, c)

/-- Reads one after another, with what they tell. -/
def sights (s : Setting) : Nat → Cursor → List Sight × Cursor
  | 0, c => ([], c)
  | n + 1, c =>
    let (x, c) := c.sight s
    let (xs, c) := sights s n c
    (x :: xs, c)

def fetched (told : List (Call × Sight)) : List Sight :=
  told.filterMap fun (call, x) => if call = .fetch then some x else none

/-- The bytes that reads found in the image. -/
def bytesFound (xs : List Sight) : List UInt8 := (xs.filter (!·.beyond)).map Sight.value

/-- A session is its reads; the looks in it might as well not have been made. -/
theorem session_eq_sights (s : Setting) (calls : List Call) (c : Cursor) :
    (fetched (c.session s calls).1, (c.session s calls).2) =
      c.sights s (calls.count .fetch) := by
  induction calls generalizing c with
  | nil => rfl
  | cons call calls ih =>
      cases call with
      | fetch =>
          rw [List.count_cons_self]
          unfold sights
          dsimp only
          rw [← ih]
          rfl
      | peek ahead =>
          have hother : Call.peek ahead ≠ .fetch := nofun
          rw [List.count_cons_of_ne hother, ← ih]
          rfl

section

variable {s : Setting} {c : Cursor} {b : UInt8}

/-! ## One read -/

/-- The cursor behind a byte that it has read. -/
def past (c : Cursor) (b : UInt8) : Cursor :=
  { c with taken := c.taken.push b, offset := c.offset + 1 }

@[simp] theorem past_offset (c : Cursor) (b : UInt8) : (c.past b).offset = c.offset + 1 := rfl

/-- A look depends on the place that it is at. -/
theorem peek_congr {c' : Cursor} {ahead ahead' : Int}
    (h : c'.offset + ahead' = c.offset + ahead) : c'.peek s ahead' = c.peek s ahead := by
  unfold peek
  rw [h]

/-- Where there is a byte a read gives what the look there told, and goes on behind it. -/
theorem sights_of_some (hb : s.image.byte? c.offset = some b) (ho : c.overflow = false) (n : Nat) :
    c.sights s (n + 1) =
      (c.peek s 0 :: ((c.past b).sights s n).1, ((c.past b).sights s n).2) := by
  have hlook : c.peek s 0 = ⟨c.offset, c.overflow, b, s.options.partitionAt c.offset⟩ := by
    simp [peek, Image.byteAt, hb, ho]
  rw [hlook]
  simp only [sights, sight, fetch, hb, past]

/-- Where a byte is missing every read tells so, and the cursor stays. -/
theorem sights_of_none (hb : s.image.byte? c.offset = none) (n : Nat) :
    c.sights s n = (List.replicate n ⟨c.offset, true, 0, s.options.partitionAt c.offset⟩,
      { c with overflow := c.overflow || decide (0 < n) }) := by
  induction n generalizing c with
  | zero => simp [sights]
  | succ n ih =>
      have hrest := ih (c := { c with overflow := true }) hb
      simp only [sights, sight, fetch, hb, hrest]
      simp [List.replicate_succ]

theorem peek_of_some (hb : s.image.byte? c.offset = some b) :
    (c.peek s 0).beyond = false ∧ (c.peek s 0).value = b := by
  simp [peek, Image.byteAt, hb]

theorem last_lt_of_none (hbase : s.image.base ≤ c.offset)
    (hb : s.image.byte? c.offset = none) : s.image.last < c.offset := by
  rw [← Option.not_isSome_iff_eq_none, Image.byte?_isSome_iff] at hb
  omega

/-- Behind the image a look finds nothing. -/
theorem peek_of_last_lt (h : s.image.last < c.offset) (k : Nat) :
    (c.peek s k).beyond = true ∧ (c.peek s k).value = 0 := by
  have hlast : s.image.last < c.offset + k := by omega
  refine ⟨?_, Image.byteAt_of_last_lt hlast⟩
  show (s.image.byte? (c.offset + k)).isNone = true
  rw [Option.isNone_iff_eq_none, ← Option.not_isSome_iff_eq_none, Image.byte?_isSome_iff]
  omega

/-! ## Runs of reads -/

/-- Of any number of reads the one that is `k` reads behind the first tells what the look at the
place `k` bytes on told, in full if there is a byte. -/
theorem sights_foretold (hbase : s.image.base ≤ c.offset) (ho : c.overflow = false) {n k : Nat}
    (hk : k < n) :
    ∃ x, (c.sights s n).1[k]? = some x ∧ x.value = (c.peek s k).value ∧
      x.beyond = (c.peek s k).beyond ∧ (x.beyond = false → x = c.peek s k) := by
  induction n generalizing c k with
  | zero => omega
  | succ n ih =>
      cases hb : s.image.byte? c.offset with
      | none =>
          obtain ⟨hbeyond, hvalue⟩ := peek_of_last_lt (last_lt_of_none hbase hb) k
          rw [sights_of_none hb, hbeyond, hvalue, List.getElem?_replicate, if_pos hk]
          exact ⟨_, rfl, rfl, rfl, nofun⟩
      | some b =>
          rw [sights_of_some hb ho]
          cases k with
          | zero => exact ⟨_, rfl, rfl, rfl, fun _ => rfl⟩
          | succ k =>
              have hplace : (c.past b).offset + (k : Int) = c.offset + (k + 1 : Nat) := by
                rw [past_offset]
                omega
              have hrest := ih (c := c.past b) (Int.le_add_one hbase) ho (Nat.lt_of_succ_lt_succ hk)
              rwa [peek_congr hplace] at hrest

/-- What reads find are the bytes of the image from the cursor on. -/
theorem bytesFound_sights (hbase : s.image.base ≤ c.offset) (ho : c.overflow = false) (n : Nat) :
    bytesFound (c.sights s n).1 =
      (s.image.bytes.toList.drop (c.offset - s.image.base).toNat).take n := by
  induction n generalizing c with
  | zero => rfl
  | succ n ih =>
      cases hb : s.image.byte? c.offset with
      | none =>
          have hend : s.image.bytes.toList.length ≤ (c.offset - s.image.base).toNat := by
            have hlast := last_lt_of_none hbase hb
            unfold Image.last at hlast
            rw [Array.length_toList]
            omega
          rw [sights_of_none hb, List.drop_of_length_le hend]
          simp [bytesFound]
      | some b =>
          have hrest := ih (c := c.past b) (Int.le_add_one hbase) ho
          have hbehind : ((c.past b).offset - s.image.base).toNat =
              (c.offset - s.image.base).toNat + 1 := by
            rw [past_offset]
            omega
          have hfirst : s.image.bytes.toList[(c.offset - s.image.base).toNat]? = some b := by
            rwa [Image.byte?, if_neg (Int.not_lt.2 hbase), ← Array.getElem?_toList] at hb
          obtain ⟨hinside, hvalue⟩ := peek_of_some hb
          obtain ⟨hlt, hget⟩ := List.getElem?_eq_some_iff.1 hfirst
          rw [sights_of_some hb ho, List.drop_eq_getElem_cons hlt, hget, List.take_succ_cons,
            ← hbehind, ← hrest, ← hvalue]
          simp [bytesFound, hinside]

/-- Reads take the bytes that are there and go on behind them. Nothing else of the cursor changes
but the mark. -/
theorem sights_cursor (hbase : s.image.base ≤ c.offset) (ho : c.overflow = false) (n : Nat) :
    (c.sights s n).2 = { c with
      offset := c.offset + s.image.available c.offset n
      taken := c.taken ++ (bytesFound (c.sights s n).1).toArray
      overflow := (c.sights s n).1.any Sight.beyond } := by
  have hcount := Image.available_eq_min hbase
  induction n generalizing c with
  | zero => simp [sights, bytesFound, hcount, ← ho]
  | succ n ih =>
      cases hb : s.image.byte? c.offset with
      | none =>
          have hstays : s.image.available c.offset (n + 1) = 0 := by
            have hlast := last_lt_of_none hbase hb
            rw [hcount]
            omega
          simp [sights_of_none hb, bytesFound, hstays]
      | some b =>
          have hbase' : s.image.base ≤ (c.past b).offset := Int.le_add_one hbase
          have hcount' := Image.available_eq_min hbase'
          have hgoes : (c.past b).offset + s.image.available (c.past b).offset n =
              c.offset + s.image.available c.offset (n + 1) := by
            have hin := (Image.byte?_isSome_iff.1 (Option.isSome_of_eq_some hb)).2
            rw [hcount, hcount', past_offset]
            omega
          obtain ⟨hinside, hvalue⟩ := peek_of_some hb
          rw [sights_of_some hb ho, ih hbase' ho hcount', hgoes]
          simp [past, bytesFound, hinside, hvalue]

end

/-- A look tells what the read after as many others will tell, up to the byte and whether it is
missing; where it is there the two tell the same in full. Looks leave no trace in a session. Reads
take the bytes of the image in order and stop behind the last one. -/
theorem peek_foretells_fetch (s : Setting) {c : Cursor} (hbase : s.image.base ≤ c.offset)
    (ho : c.overflow = false) :
    (∀ k : Nat, ∃ x, (c.sights s (k + 1)).1[k]? = some x ∧ x.value = (c.peek s k).value ∧
      x.beyond = (c.peek s k).beyond ∧ (x.beyond = false → x = c.peek s k)) ∧
    (∀ calls : List Call,
      let reads := c.sights s (calls.count .fetch)
      fetched (c.session s calls).1 = reads.1 ∧ (c.session s calls).2 = reads.2) ∧
    ∀ n : Nat,
      let stop := s.image.base + s.image.bytes.size
      let xs := (c.sights s n).1
      (c.sights s n).2 = { c with
        offset := if c.offset ≤ stop then min (c.offset + n) stop else c.offset
        taken := c.taken ++ (bytesFound xs).toArray
        overflow := xs.any Sight.beyond } ∧
      bytesFound xs = (s.image.bytes.toList.drop (c.offset - s.image.base).toNat).take n := by
  refine ⟨fun k => sights_foretold hbase ho (Nat.lt_succ_self k), fun calls => ?_, fun n => ?_⟩
  · exact Prod.mk.inj (session_eq_sights s calls c)
  · intro stop xs
    have hoffset : c.offset + s.image.available c.offset n =
        if c.offset ≤ stop then min (c.offset + n) stop else c.offset := by
      have hstop : stop = s.image.last + 1 := (Int.sub_add_cancel _ _).symm
      rw [Image.available_eq_min hbase, hstop]
      split <;> omega
    exact ⟨hoffset ▸ sights_cursor hbase ho n, bytesFound_sights hbase ho n⟩

/-- Two bytes are left. The look at the last one tells what the second read does, the fourth read
finds nothing, and a session with looks behind the image and in front of it ends like its reads. -/
theorem peek_foretells_fetch_over_end :
    let s : Setting := { image := { bytes := #[0x11, 0x22, 0x33], base := 0x4000 } }
    let c : Cursor := { offset := 0x4001, opStart := 0x4000, taken := #[0x11], opcode := 0x11 }
    let calls : List Call := [.peek 1, .fetch, .peek 7, .fetch, .fetch, .peek (-1), .fetch]
    s.image.base ≤ c.offset ∧ c.overflow = false ∧
      (c.peek s 1 = ⟨0x4002, false, 0x33, none⟩ ∧ (c.sights s 2).1[1]? = some (c.peek s 1)) ∧
      (∃ x, (c.sights s 4).1[3]? = some x ∧ x.value = 0 ∧ x.beyond = true) ∧
      (c.session s calls).2 =
        { c with offset := 0x4003, taken := #[0x11, 0x22, 0x33], overflow := true } := by
  intro s c calls
  have hbase : s.image.base ≤ c.offset := by decide
  have ho : c.overflow = false := rfl
  obtain ⟨htells, hlooks, hreads⟩ := peek_foretells_fetch s hbase ho
  have hlook : c.peek s 1 = ⟨0x4002, false, 0x33, none⟩ := by decide
  obtain ⟨x, hx, -, hbeyond, hsame⟩ := htells 1
  obtain ⟨y, hy, hvalue, hmissing, -⟩ := htells 3
  refine ⟨hbase, ho, ⟨hlook, ?_⟩, ⟨y, hy, hvalue, hmissing⟩, ?_⟩
  · have hthere : x.beyond = false := hbeyond.trans (congrArg Sight.beyond hlook)
    exact hsame hthere ▸ hx
  · exact (hlooks calls).2.trans ((hreads 4).1.trans (by decide))

end Cursor

end RomListing
