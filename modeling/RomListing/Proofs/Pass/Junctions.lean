import RomListing.Proofs.Pass.Orderly

/-! # Code regions that meet

Where one code region ends and the next one starts, a pass starts to read anew. If an instruction
starts there anyway, the new start changes nothing: what is read from a place on depends on the
place alone. Regions that meet may then be joined, and a region may be cut between instructions.
-/

namespace RomListing

theorem Region.ext_bounds {r t : Region} (hfirst : r.first = t.first) (hlast : r.last = t.last)
    (hkind : r.kind = t.kind) : r = t := by
  cases r
  cases t
  cases hfirst
  cases hlast
  cases hkind
  rfl

/-! ## Walks -/

namespace InstructionSet

variable {cpu : InstructionSet} {a : Alphabet} {longest : Nat} {s : Setting} {p : Region}

/-- Fuel for every address that is left is enough. -/
theorem Sound.walk_fuel (h : cpu.Sound a longest) {last : Int} (hfit : last ≤ s.image.last)
    {fuel fuel' : Nat} {place : Int} (hbase : s.image.base ≤ place) (hfuel : last < place + fuel)
    (hfuel' : last < place + fuel') : cpu.walk s last fuel place = cpu.walk s last fuel' place := by
  induction fuel generalizing fuel' place with
  | zero => rw [walk_of_lt (by omega), walk_of_lt (by omega)]
  | succ fuel ih =>
      by_cases hle : place ≤ last
      · cases fuel' with
        | zero => omega
        | succ fuel' =>
            obtain ⟨hbytes, -, hoffset, -⟩ :=
              h.decode_within (s := s) hbase (Int.le_trans hle hfit)
            have htail : cpu.walk s last fuel (cpu.decode s { offset := place }).cursor.offset =
                cpu.walk s last fuel' (cpu.decode s { offset := place }).cursor.offset :=
              ih (by omega) (by omega) (by omega)
            rw [walk_succ hle, walk_succ hle]
            dsimp only
            rw [htail]
      · rw [walk_of_lt (by omega), walk_of_lt (by omega)]

/-- A walk over code that comes to the place `x` is a walk up to before `x` and one from `x` on. -/
theorem Sound.walk_append (h : cpu.Sound a longest) (hk : p.kind = .code)
    (hpos : 0 ≤ s.image.base) (hlast : p.last ≤ s.image.last) {x : Int} {item : Item}
    (hx : s.place item = x) {fuel : Nat} {place : Int} (hbase : s.image.base ≤ place)
    (hle : place ≤ p.last) (hfuel : p.last < place + fuel)
    (hi : item ∈ cpu.walk s p.last fuel place) :
    cpu.walk s p.last fuel place =
      cpu.walk s (x - 1) fuel place ++ cpu.walk s p.last fuel x := by
  have hlt := p.last_lt
  induction fuel generalizing place with
  | zero => omega
  | succ fuel ih =>
      obtain ⟨⟨stop, hchain, -, -⟩, hstarts⟩ :=
        h.walk_tiles hk hpos hlast (fuel + 1) place hbase hle hfuel
      have hfrom := (hchain.within item hi).1
      have hend := (hstarts item hi).1
      by_cases hhere : place = x
      · -- the walk starts at `x`
        subst hhere
        have hnil : cpu.walk s (place - 1) (fuel + 1) place = [] := cpu.walk_of_lt (by omega) _
        rw [hnil, List.nil_append]
      · let d := cpu.decode s { offset := place }
        obtain ⟨hbytes, -, hoffset, -⟩ : 0 < d.item.opcodes.length ∧ _ ∧
          d.cursor.offset = place + d.item.opcodes.length ∧ _ :=
            h.decode_within (s := s) hbase (Int.le_trans hle hlast)
        have hplace : s.place d.item = place :=
          Setting.place_of_shown (h.decode_frame s _).1 (by omega) (by omega)
        -- the item at `x` comes after the first one
        have hrest : d.cursor.overflow = false ∧
            item ∈ cpu.walk s p.last fuel d.cursor.offset := by
          rw [walk_succ hle] at hi
          rcases List.mem_cons.1 hi with rfl | hi
          · exact absurd (hplace.symm.trans hx) hhere
          · cases hover : d.cursor.overflow with
            | true =>
                rw [if_pos hover] at hi
                cases hi
            | false =>
                rw [if_neg (by simp [d, hover])] at hi
                exact ⟨rfl, hi⟩
        have hnext : d.cursor.offset ≤ p.last := by
          by_contra hbehind
          rw [walk_of_lt (by omega)] at hrest
          cases hrest.2
        have hsplit := ih (by omega) hnext (by omega) hrest.2
        have hfuels : cpu.walk s p.last (fuel + 1) x = cpu.walk s p.last fuel x :=
          h.walk_fuel hlast (by omega) (by omega) (by omega)
        rw [hfuels, walk_succ hle, walk_succ (show place ≤ x - 1 by omega)]
        dsimp only
        rw [hrest.1]
        exact congrArg (d.item :: ·) hsplit

theorem Sound.place_of_mem_lines (h : cpu.Sound a longest) (hpos : 0 ≤ s.image.base)
    (hbase : s.image.base ≤ p.first) (hlast : p.last ≤ s.image.last) {item : Item}
    (hi : item ∈ cpu.lines s p) : p.first ≤ s.place item ∧ s.place item ≤ p.last := by
  obtain ⟨⟨stop, hchain, -, -⟩, hstarts⟩ := h.lines_tile hpos hbase hlast
  exact ⟨(hchain.within item hi).1, (hstarts item hi).1⟩

theorem lines_code {r : Region} (hk : r.kind = .code) :
    cpu.lines s r = cpu.walk s r.last r.length r.first := by
  rw [lines, hk]

/-- Joined regions list what they list apart, if an instruction starts where they meet. -/
theorem Sound.lines_join (h : cpu.Sound a longest) {r t : Region} (hj : MemoryMap.Joins r t)
    (hpos : 0 ≤ s.image.base) (hbase : s.image.base ≤ r.first) (hlast : t.last ≤ s.image.last)
    {item : Item} (hi : item ∈ cpu.lines s (MemoryMap.join r t hj))
    (hx : s.place item = t.first) :
    cpu.lines s (MemoryMap.join r t hj) = cpu.lines s r ++ cpu.lines s t := by
  let u := MemoryMap.join r t hj
  obtain ⟨hr, ht, hmeet⟩ := hj
  have hrle := r.first_le_last
  have htle := t.first_le_last
  have hrlength : r.length = r.last - r.first + 1 := rfl
  have htlength : t.length = t.last - t.first + 1 := rfl
  have hlength : u.length = t.last - r.first + 1 := rfl
  have hle : (r.first : Int) ≤ t.last := by omega
  have hlines : cpu.lines s u = cpu.walk s t.last u.length r.first := lines_code hr
  have hsplit := h.walk_append (p := u) hr hpos hlast hx hbase hle
    (show (t.last : Int) < r.first + u.length by omega) (hlines ▸ hi)
  rw [lines_code hr, lines_code ht]
  refine hlines.trans (hsplit.trans (congrArg₂ (· ++ ·) ?_ ?_))
  · rw [show (t.first : Int) - 1 = r.last by omega]
    exact h.walk_fuel (by omega) hbase (by omega) (by omega)
  · exact h.walk_fuel hlast (by omega) (show (t.last : Int) < t.first + u.length by omega)
      (by omega)

end InstructionSet

/-! ## Regions in a window -/

/-- Of regions that meet, a window shows both joined, or only one of them. -/
theorem Region.intersect_join {r t w : Region} (hj : MemoryMap.Joins r t) :
    (∃ (r' t' : Region) (hj' : MemoryMap.Joins r' t'), r.intersect w = some r' ∧
      t.intersect w = some t' ∧ (MemoryMap.join r t hj).intersect w =
        some (MemoryMap.join r' t' hj') ∧ t'.first = t.first ∧ t.first ∈ w) ∨
    (r.intersect w = none ∧ (MemoryMap.join r t hj).intersect w = t.intersect w) ∨
    (t.intersect w = none ∧ (MemoryMap.join r t hj).intersect w = r.intersect w) := by
  obtain ⟨hr, ht, hmeet⟩ := hj
  have hrle := r.first_le_last
  have htle := t.first_le_last
  have hwle := w.first_le_last
  by_cases hbefore : t.first ≤ w.first
  · -- the window starts behind the first region
    refine .inr (.inl ⟨dif_neg (by omega), ?_⟩)
    unfold intersect MemoryMap.join
    by_cases hmeets : w.first ≤ t.last ∧ t.first ≤ w.last
    · rw [dif_pos hmeets, dif_pos ⟨hmeets.1, by dsimp only; omega⟩]
      simp only [Option.some.injEq, mk.injEq]
      exact ⟨by omega, trivial, by rw [hr, ht]⟩
    · rw [dif_neg hmeets, dif_neg (by dsimp only; omega)]
  by_cases hbehind : w.last < t.first
  · -- the window ends before the second region
    refine .inr (.inr ⟨dif_neg (by omega), ?_⟩)
    unfold intersect MemoryMap.join
    by_cases hmeets : w.first ≤ r.last ∧ r.first ≤ w.last
    · rw [dif_pos hmeets, dif_pos ⟨by dsimp only; omega, hmeets.2⟩]
      simp only [Option.some.injEq, mk.injEq]
      exact ⟨trivial, by omega, trivial⟩
    · rw [dif_neg hmeets, dif_neg (by dsimp only; omega)]
  · have hfirst : w.first ≤ r.last ∧ r.first ≤ w.last := by omega
    have hsecond : w.first ≤ t.last ∧ t.first ≤ w.last := by omega
    obtain ⟨r', hr'⟩ : ∃ r', r.intersect w = some r' := ⟨_, dif_pos hfirst⟩
    obtain ⟨t', ht'⟩ : ∃ t', t.intersect w = some t' := ⟨_, dif_pos hsecond⟩
    obtain ⟨u', hu'⟩ : ∃ u', (MemoryMap.join r t ⟨hr, ht, hmeet⟩).intersect w = some u' :=
      ⟨_, dif_pos ⟨hsecond.1, hfirst.2⟩⟩
    obtain ⟨hrfirst, hrlast, hrkind⟩ := intersect_eq_some hr'
    obtain ⟨htfirst, htlast, htkind⟩ := intersect_eq_some ht'
    obtain ⟨hufirst, hulast, hukind⟩ := intersect_eq_some hu'
    have hj' : MemoryMap.Joins r' t' := ⟨hrkind.trans hr, htkind.trans ht, by omega⟩
    have hjoined : u' = MemoryMap.join r' t' hj' :=
      ext_bounds (hufirst.trans hrfirst.symm) (hulast.trans htlast.symm) (hukind.trans hrkind.symm)
    exact .inl ⟨r', t', hj', hr', ht', hjoined ▸ hu', by omega, by rw [mem_def]; omega⟩

namespace Job

def shown (job : Job) (window : Region) (rs : List Region) : List Item :=
  (rs.filterMap (·.intersect window)).flatMap (job.cpu.lines job.setting)

variable {job : Job} {window : Region} {a : Alphabet} {longest : Nat}

theorem shown_cons (r : Region) (rs : List Region) : job.shown window (r :: rs) =
    (r.intersect window).toList.flatMap (job.cpu.lines job.setting) ++ job.shown window rs := by
  unfold shown
  rw [List.filterMap_cons]
  cases r.intersect window <;> simp

/-- What is shown of a region stands in it. -/
theorem Fits.place_of_mem (hw : job.Fits window) (h : job.cpu.Sound a longest) {r : Region}
    {item : Item} (hi : item ∈ (r.intersect window).toList.flatMap (job.cpu.lines job.setting)) :
    r.first ≤ job.setting.place item ∧ job.setting.place item ≤ r.last := by
  obtain ⟨p, hp, hi⟩ := List.mem_flatMap.1 hi
  obtain ⟨hfirst, hlast, -⟩ := Region.intersect_eq_some (Option.mem_toList.1 hp)
  have hbase := hw.first
  have hend := hw.last
  have hplace := h.place_of_mem_lines hw.base (by omega) (by omega) hi
  omega

theorem Fits.exists_of_mem_shown (hw : job.Fits window) (h : job.cpu.Sound a longest)
    {rs : List Region} {item : Item} (hi : item ∈ job.shown window rs) :
    ∃ r ∈ rs, r.first ≤ job.setting.place item ∧ job.setting.place item ≤ r.last := by
  obtain ⟨p, hp, hi⟩ := List.mem_flatMap.1 hi
  obtain ⟨r, hr, hp⟩ := List.mem_filterMap.1 hp
  exact ⟨r, hr, hw.place_of_mem h (List.mem_flatMap.2 ⟨p, Option.mem_toList.2 hp, hi⟩)⟩

/-- Two regions that meet are shown as if they were joined, if an item of the joined one starts
where they meet. -/
theorem Fits.shown_join (hw : job.Fits window) (h : job.cpu.Sound a longest) {r t : Region}
    (hj : MemoryMap.Joins r t)
    (hitem : t.first ∈ window → ∃ item ∈
      ((MemoryMap.join r t hj).intersect window).toList.flatMap (job.cpu.lines job.setting),
        job.setting.place item = t.first) (rest : List Region) :
    job.shown window (MemoryMap.join r t hj :: rest) = job.shown window (r :: t :: rest) := by
  simp only [shown_cons, ← List.append_assoc]
  refine congrArg (· ++ _) ?_
  obtain ⟨r', t', hj', hr, ht, hjoin, hfirst, hmem⟩ | ⟨hnone, hsame⟩ | ⟨hnone, hsame⟩ :=
    Region.intersect_join (w := window) hj
  · obtain ⟨item, hi, hplace⟩ := hitem hmem
    obtain ⟨hbase, -, -⟩ := Region.intersect_eq_some hr
    obtain ⟨-, hlast, -⟩ := Region.intersect_eq_some ht
    have hwbase := hw.first
    have hwlast := hw.last
    rw [hjoin, Option.toList_some, List.flatMap_singleton] at hi
    rw [hjoin, hr, ht]
    simp only [Option.toList_some, List.flatMap_singleton]
    exact h.lines_join hj' hw.base (by omega) (by omega) hi (hfirst ▸ hplace)
  · rw [hnone, hsame, Option.toList_none, List.flatMap_nil, List.nil_append]
  · rw [hnone, hsame, Option.toList_none, List.flatMap_nil, List.append_nil]

/-- Where neighbouring code regions meet in the window, an item is shown. -/
def StartsAtJunctions (job : Job) (window : Region) (rs : List Region) (items : List Item) : Prop :=
  ∀ r ∈ rs, ∀ t ∈ rs, MemoryMap.Joins r t → t.first ∈ window →
    ∃ item ∈ items, job.setting.place item = t.first

theorem Fits.shown_coalesce (hw : job.Fits window) (h : job.cpu.Sound a longest)
    (rs : List Region) (hascend : rs.Pairwise Region.Before)
    (hstarts : job.StartsAtJunctions window rs (job.shown window (MemoryMap.coalesce rs))) :
    job.shown window (MemoryMap.coalesce rs) = job.shown window rs := by
  fun_induction MemoryMap.coalesce rs with
  | case1 r t rest hj ih =>
      rw [List.pairwise_cons, List.pairwise_cons] at hascend
      obtain ⟨hr, ht, hrest⟩ := hascend
      have hmeet := hj.2.2
      have hrle := r.first_le_last
      have htle := t.first_le_last
      have hcoalesced : job.shown window (MemoryMap.coalesce (MemoryMap.join r t hj :: rest)) =
          job.shown window (MemoryMap.join r t hj :: rest) := by
        refine ih (List.pairwise_cons.2 ⟨fun u hu => ht u hu, hrest⟩) ?_
        -- a junction behind the joined region is one behind its second part
        intro u hu v hv huv hwindow
        have hbehind : v ∈ rest := by
          rcases List.mem_cons.1 hv with rfl | hv
          · have hend : u.last + 1 = r.first := huv.2.2
            rcases List.mem_cons.1 hu with rfl | hu
            · have : t.last + 1 = r.first := hend
              omega
            · have hbefore : t.last < u.first := ht u hu
              have := u.first_le_last
              omega
          · exact hv
        have hv' : v ∈ r :: t :: rest := List.mem_cons_of_mem _ (List.mem_cons_of_mem _ hbehind)
        rcases List.mem_cons.1 hu with rfl | hu
        · exact hstarts t (by simp) v hv' ⟨hj.2.1, huv.2⟩ hwindow
        · exact hstarts u (by simp [hu]) v hv' huv hwindow
      rw [hcoalesced] at hstarts ⊢
      refine hw.shown_join h hj (fun hwindow => ?_) rest
      obtain ⟨item, hi, hplace⟩ := hstarts r (by simp) t (by simp) hj hwindow
      rw [shown_cons, List.mem_append] at hi
      rcases hi with hi | hi
      · exact ⟨item, hi, hplace⟩
      · obtain ⟨u, hu, hin⟩ := hw.exists_of_mem_shown h hi
        have hbefore : t.last < u.first := ht u hu
        omega
  | case2 r t rest hj ih =>
      rw [List.pairwise_cons] at hascend
      rw [shown_cons, shown_cons r (t :: rest), ih hascend.2 ?_]
      intro u hu v hv huv hwindow
      obtain ⟨item, hi, hplace⟩ := hstarts u (by simp [hu]) v (by simp [hv]) huv hwindow
      rw [shown_cons, List.mem_append] at hi
      rcases hi with hi | hi
      · have hin := hw.place_of_mem h hi
        have hbefore : r.last < v.first := hascend.1 v hv
        omega
      · exact ⟨item, hi, hplace⟩
  | case3 rs hrs => rfl

/-! ## Runs -/

/-- Without an extension the flags of a run say what its labels say. -/
theorem run_flagged (job : Job) (q : Processor) (hcpu : job.cpu = q.instructionSet)
    (hpos : 0 ≤ job.setting.image.base) {first last : Int} {o : Output}
    (ho : (job.run .absent () first last).output = some o) : o.Flagged := by
  have hsound : job.cpu.Sound q.alphabet q.longest := hcpu ▸ q.sound
  have hnames := q.namesLabels job.setting
  rw [← hcpu] at hnames
  exact (run_sheet hsound hnames (Extension.absent_orderly 0) hpos ho).1

/-- Without an extension the items of a run, flags apart, tell its whole output. -/
theorem run_output_eq (job job' : Job) (q : Processor) (hcpu : job.cpu = q.instructionSet)
    (hcpu' : job'.cpu = q.instructionSet) (hpos : 0 ≤ job.setting.image.base)
    (hpos' : 0 ≤ job'.setting.image.base) {first last first' last' : Int} {o o' : Output}
    (ho : (job.run .absent () first last).output = some o)
    (ho' : (job'.run .absent () first' last').output = some o') (hlines : o'.lines = o.lines) :
    o' = o := by
  have hsound : job.cpu.Sound q.alphabet q.longest := hcpu ▸ q.sound
  have hsound' : job'.cpu.Sound q.alphabet q.longest := hcpu' ▸ q.sound
  have hlabels : o'.labels = o.labels := by rw [run_labels hsound' ho', hlines, run_labels hsound ho]
  exact (run_flagged job q hcpu hpos ho).eq (run_flagged job' q hcpu' hpos' ho') hlines hlabels

def outputOver (job : Job) (first last : Int) (map : MemoryMap) : Option Output :=
  (({ job with map := map } : Job).run .absent () first last).output

/-- If the address lies in the request, as far as that lies in the image and in the address space,
an item starts there under the map. -/
def OpensAt (job : Job) (first last : Int) (map : MemoryMap) (x : Nat) : Prop :=
  max first job.setting.image.base ≤ x → x ≤ min last (min job.setting.image.last 0xFFFF) →
    ∃ o ∈ job.outputOver first last map, ∃ item ∈ o.items.toList, job.setting.place item = x

instance (job : Job) (first last : Int) (map : MemoryMap) (x : Nat) :
    Decidable (job.OpensAt first last map x) :=
  inferInstanceAs (Decidable (_ → _ → ∃ o ∈ job.outputOver first last map, _))

/-- Maps under which a window that fits shows the same lists the same. -/
theorem outputOver_eq (q : Processor) (hcpu : job.cpu = q.instructionSet)
    (hpos : 0 ≤ job.setting.image.base) {first last : Int} {map cut : MemoryMap}
    (hshown : ∀ window, job.window first last = some window → job.Fits window →
      job.shown window cut.regions = job.shown window map.regions) :
    job.outputOver first last cut = job.outputOver first last map := by
  by_cases hrange : max first job.setting.image.base ≤ min last (min job.setting.image.last 0xFFFF)
  · have hsound (m : MemoryMap) : ({ job with map := m } : Job).cpu.Sound q.alphabet q.longest :=
      hcpu ▸ q.sound
    obtain ⟨o, window, ho, hwindow, hw, -, -, hlines⟩ :=
      run_lines { job with map := map } (hsound map) first last hpos hrange
    obtain ⟨o', window', ho', hwindow', -, -, -, hlines'⟩ :=
      run_lines { job with map := cut } (hsound cut) first last hpos hrange
    obtain rfl : window = window' := Option.some.inj (hwindow.symm.trans hwindow')
    have hsame : o'.lines = o.lines :=
      hlines'.trans ((hshown window hwindow ⟨hw.base, hw.first, hw.last⟩).trans hlines.symm)
    have heq := run_output_eq { job with map := map } { job with map := cut } q hcpu hcpu hpos hpos
      ho ho' hsame
    unfold outputOver
    rw [ho, ho', heq]
  · -- nothing of the request can be listed, whatever the map
    have hnone (m : MemoryMap) : job.outputOver first last m = none :=
      run_output_none { job with map := m } (hcpu ▸ q.sound.mask) .absent () hrange
    rw [hnone, hnone]

/-- An item that starts in the window is one of those that the window shows. -/
theorem OpensAt.exists_shown (q : Processor) (hcpu : job.cpu = q.instructionSet)
    (hpos : 0 ≤ job.setting.image.base) {first last : Int} {map : MemoryMap} {x : Nat}
    (hopens : job.OpensAt first last map x) (hwindow : job.window first last = some window)
    (hx : x ∈ window) :
    ∃ item ∈ job.shown window map.regions, job.setting.place item = x := by
  have hsound : job.cpu.Sound q.alphabet q.longest := hcpu ▸ q.sound
  have hrange := (window_isSome hsound.mask first last).1 (Option.isSome_of_mem hwindow)
  obtain ⟨window', hwindow', hfirst, hlast⟩ := window_eq_some hsound.mask hpos hrange
  obtain rfl : window = window' := Option.some.inj (hwindow.symm.trans hwindow')
  rw [Region.mem_def] at hx
  obtain ⟨o, ho, item, hi, hplace⟩ := hopens (by omega) (by omega)
  have hsound' : ({ job with map := map } : Job).cpu.Sound q.alphabet q.longest := hsound
  obtain ⟨window', hwindow', hextends⟩ := run_extends hsound' ho
  obtain rfl : window = window' := Option.some.inj (hwindow.symm.trans hwindow')
  have hplain : item.plain ∈ o.lines := List.mem_map_of_mem hi
  rw [hextends.lines] at hplain
  exact ⟨item.plain, hplain, hplace⟩

/-- A pass without an extension: if an item of the pass over the joined regions starts at every
address of the request where a code region follows another one, the passes over the map and over
the joined regions give equal outputs, or both none. And a code region may be cut in two at any
address of the request where an item starts. -/
theorem run_normalize (q : Processor) (map : MemoryMap) (s : Setting) (first last : Int)
    (hbase : 0 ≤ s.image.base) :
    let job : Job := ⟨q.instructionSet, map, s⟩
    ((∀ r ∈ map.regions, ∀ t ∈ map.regions, MemoryMap.Joins r t →
        job.OpensAt first last map.normalize t.first) →
      job.outputOver first last map.normalize = job.outputOver first last map) ∧
    ∀ (cut : MemoryMap) (before after : List Region) (r t : Region) (hj : MemoryMap.Joins r t),
      map.regions = before ++ MemoryMap.join r t hj :: after →
      cut.regions = before ++ r :: t :: after →
      job.OpensAt first last map t.first →
      job.outputOver first last cut = job.outputOver first last map := by
  intro job
  have hsound : job.cpu.Sound q.alphabet q.longest := q.sound
  constructor
  · intro hopens
    refine outputOver_eq q rfl hbase fun window hwindow hw => ?_
    refine hw.shown_coalesce hsound map.regions map.ascending ?_
    intro r hr t ht hj hx
    exact (hopens r hr t ht hj).exists_shown q rfl hbase hwindow hx
  · intro cut before after r t hj hmap hcut hopens
    refine outputOver_eq q rfl hbase fun window hwindow hw => ?_
    have happend (front back : List Region) :
        job.shown window (front ++ back) = job.shown window front ++ job.shown window back := by
      simp [shown]
    rw [hcut, hmap, happend, happend]
    refine congrArg (job.shown window before ++ ·) ?_
    refine (hw.shown_join hsound hj (fun hx => ?_) after).symm
    obtain ⟨item, hi, hplace⟩ := hopens.exists_shown q rfl hbase hwindow hx
    rw [hmap, happend, shown_cons, List.mem_append, List.mem_append] at hi
    -- the place lies in the joined region and in no other one
    have hascend := map.ascending
    rw [hmap, List.pairwise_append, List.pairwise_cons] at hascend
    obtain ⟨-, ⟨hafter, -⟩, hbefore⟩ := hascend
    have hmeet := hj.2.2
    have hrle := r.first_le_last
    have htle := t.first_le_last
    rcases hi with hi | hi | hi
    · obtain ⟨u, hu, hin⟩ := hw.exists_of_mem_shown hsound hi
      have hlast : u.last < r.first := hbefore u hu (MemoryMap.join r t hj) List.mem_cons_self
      omega
    · exact ⟨item, hi, hplace⟩
    · obtain ⟨u, hu, hin⟩ := hw.exists_of_mem_shown hsound hi
      have hfirst : t.last < u.first := hafter u hu
      omega

/-- The code from 0 to 5 may be cut at 2, where a jump to its own end starts. -/
theorem run_normalize_cut_at_jump :
    let s : Setting :=
      { image := { bytes := #[0x3E, 0xC3, 0xC2, 0x05, 0x80, 0xC9, 0x21, 0x43] }
        addressOffset := 0x8000 }
    let cut := MemoryMap.ofList [.span 0 1 .code, .span 2 5 .code, .span 6 7 .words]
    let whole := MemoryMap.ofList [.span 0 5 .code, .span 6 7 .words]
    let job : Job := ⟨Processor.z80.instructionSet, cut, s⟩
    0 ≤ s.image.base ∧
      (∀ r ∈ cut.regions, ∀ t ∈ cut.regions, MemoryMap.Joins r t →
        job.OpensAt 0 0xFFFF cut.normalize t.first) ∧
      job.OpensAt 0 0xFFFF whole 2 ∧
      job.outputOver 0 0xFFFF cut.normalize = job.outputOver 0 0xFFFF cut ∧
      job.outputOver 0 0xFFFF cut = job.outputOver 0 0xFFFF whole := by
  intro s cut whole job
  have hjunctions : ∀ r ∈ cut.regions, ∀ t ∈ cut.regions, MemoryMap.Joins r t →
      job.OpensAt 0 0xFFFF cut.normalize t.first := by decide +kernel
  have hopens : job.OpensAt 0 0xFFFF whole 2 := by decide +kernel
  have hj : MemoryMap.Joins (.span 0 1 .code) (.span 2 5 .code) := by decide
  have hwhole : whole.regions = [] ++ MemoryMap.join _ _ hj :: [.span 6 7 .words] := rfl
  have hcut : cut.regions = [] ++ .span 0 1 .code :: .span 2 5 .code :: [.span 6 7 .words] := rfl
  exact ⟨Int.le_refl 0, hjunctions, hopens,
    (run_normalize .z80 cut s 0 0xFFFF (Int.le_refl 0)).1 hjunctions,
    (run_normalize .z80 whole s 0 0xFFFF (Int.le_refl 0)).2 cut [] _ _ _ hj hwhole hcut hopens⟩

end Job

end RomListing
