import RomListing.Project.Basic

/-! # How reading a project fails

Most values that describe no project are refused with a text that says what is wrong. Where
entries or members are asked of a value that has none, there is no such text. That happens only at
five places of a document, and at each of them only if all that is read before is right.
-/

namespace RomListing.Project

open Yaml (Data Value)

def Error.isRefusal : Error → Bool
  | .notMapping _ | .badInteger _ | .unknownKind _ | .noText _ => true
  | .noEntries | .noMembers => false

def Misuses {α : Type} (x : Except Error α) (e : Error) : Prop := x = .error e ∧ e.isRefusal = false

section

variable {α β : Type} {x : Except Error α} {f : α → Except Error β} {e : Error}

theorem misuses_bind : Misuses (x >>= f) e ↔ Misuses x e ∨ ∃ a, x = .ok a ∧ Misuses (f a) e := by
  cases x with
  | ok a => simp [Misuses, bind, Except.bind]
  | error e' => simp [Misuses, bind, Except.bind]

@[simp] theorem not_misuses_ok (a : α) : ¬ Misuses (.ok a) e := by
  simp [Misuses]

@[simp] theorem not_misuses_pure (a : α) : ¬ Misuses (pure a) e := not_misuses_ok a

theorem not_misuses_ite {c : Prop} [Decidable c] {y : Except Error α} (hx : ¬ Misuses x e)
    (hy : ¬ Misuses y e) : ¬ Misuses (if c then x else y) e := by
  split
  · exact hx
  · exact hy

theorem not_misuses_throw {e' : Error} (h : e'.isRefusal = true) :
    ¬ Misuses (throw e' : Except Error α) e := by
  rintro ⟨heq, hrefusal⟩
  cases heq
  rw [h] at hrefusal
  cases hrefusal

@[simp] theorem misuses_map (g : α → β) : Misuses (g <$> x) e ↔ Misuses x e := by
  cases x <;> simp [Misuses, Functor.map, Except.map]

/-- A list is read up to the first of its members that cannot be read. -/
theorem misuses_mapM {l : List α} : Misuses (l.mapM f) e ↔
    ∃ before a after, l = before ++ a :: after ∧ (∀ b ∈ before, ∃ c, f b = .ok c) ∧
      Misuses (f a) e := by
  induction l with
  | nil => simp
  | cons first l ih =>
      rw [List.mapM_cons, misuses_bind]
      constructor
      · rintro (h | ⟨c, hc, h⟩)
        · exact ⟨[], first, l, rfl, List.forall_mem_nil _, h⟩
        · obtain ⟨before, a, after, rfl, hbefore, ha⟩ :=
            ih.1 ((misuses_bind.1 h).resolve_right (by simp))
          exact ⟨first :: before, a, after, rfl, List.forall_mem_cons.2 ⟨⟨c, hc⟩, hbefore⟩, ha⟩
      · rintro ⟨before, a, after, heq, hbefore, ha⟩
        cases before with
        | nil =>
            obtain ⟨rfl, rfl⟩ := List.cons_eq_cons.1 heq
            exact .inl ha
        | cons b before =>
            obtain ⟨rfl, rfl⟩ := List.cons_eq_cons.1 heq
            rw [List.forall_mem_cons] at hbefore
            obtain ⟨⟨c, hc⟩, hbefore⟩ := hbefore
            have hrest := ih.2 ⟨before, a, after, rfl, hbefore, ha⟩
            exact .inr ⟨c, hc, misuses_bind.2 (.inl hrest)⟩

theorem mapM_ok {l : List α} : (∃ cs, l.mapM f = .ok cs) ↔ ∀ a ∈ l, ∃ c, f a = .ok c := by
  induction l with
  | nil => simp [pure, Except.pure]
  | cons first l ih =>
      rw [List.forall_mem_cons, ← ih, List.mapM_cons]
      cases f first with
      | error e => simp [bind, Except.bind]
      | ok c => cases l.mapM f <;> simp [bind, Except.bind, pure, Except.pure]

end

/-! ## Values -/

variable {d : Data} {e : Error}

theorem not_misuses_display (v : Value) : ¬ Misuses (display d v) e := by
  unfold display
  cases d.display v with
  | ok t => exact not_misuses_ok t
  | error fault => exact not_misuses_throw rfl

theorem not_misuses_integer (v : Value) : ¬ Misuses (integer d v) e := by
  unfold integer
  dsimp only
  split
  · exact not_misuses_pure _
  · rw [misuses_bind]
    rintro (h | ⟨t, -, h⟩)
    · exact not_misuses_display v h
    · exact not_misuses_throw rfl h

theorem not_misuses_kind (v : Value) : ¬ Misuses (kind d v) e := by
  unfold kind
  rw [misuses_bind]
  rintro (h | ⟨t, -, h⟩)
  · exact not_misuses_display v h
  · split at h
    · exact not_misuses_pure _ h
    · exact not_misuses_throw rfl h

@[simp] theorem misuses_entries {v : Value} :
    Misuses (entries d v) e ↔ d.entries? v = none ∧ e = .noEntries := by
  unfold entries
  cases d.entries? v with
  | some es => simp
  | none => cases e <;> simp [Misuses, Error.isRefusal]

@[simp] theorem misuses_members {v : Value} :
    Misuses (members d v) e ↔ d.members? v = none ∧ e = .noMembers := by
  unfold members
  cases d.members? v with
  | some vs => simp
  | none => cases e <;> simp [Misuses, Error.isRefusal]

theorem misuses_readPartitions {v : Value} :
    Misuses (readPartitions d v) e ↔ v ≠ .null ∧ d.members? v = none ∧ e = .noMembers := by
  unfold readPartitions
  split
  · simp [*]
  · simp [misuses_bind, misuses_mapM, not_misuses_display, *]

theorem misuses_readRegion {v : Value} :
    Misuses (readRegion d v) e ↔ d.entries? v = none ∧ e = .noEntries := by
  simp [readRegion, misuses_bind, not_misuses_integer, not_misuses_kind]

theorem not_misuses_readComments (es : List (Value × Value)) :
    ¬ Misuses (readComments d es) e := by
  unfold readComments
  generalize ([] : List (Int × Text)) = acc
  induction es generalizing acc with
  | nil => exact not_misuses_pure acc
  | cons entry es ih =>
      rw [List.foldlM_cons]
      simp only [misuses_bind, not_misuses_integer, not_misuses_display, not_misuses_pure, ih,
        and_false, exists_false, or_self, not_false_eq_true]

theorem not_misuses_integerAt (name : String) (default : Int) (es : List (Value × Value)) :
    ¬ Misuses (integerAt d name default es) e := by
  unfold integerAt
  split
  · exact not_misuses_integer _
  · exact not_misuses_ok default

/-- The parts of a value that need not be given. -/
theorem misuses_given {α : Type} {f : Value → Except Error (List α)} {v? : Option Value} :
    Misuses ((v?.mapM f).map (·.getD [])) e ↔ ∃ v, v? = some v ∧ Misuses (f v) e := by
  change Misuses ((·.getD []) <$> v?.mapM f) e ↔ _
  rw [misuses_map]
  cases v? with
  | none => simp
  | some v => simp

theorem not_misuses_mapM_option {v? : Option Value} : ¬ Misuses (v?.mapM (display d)) e := by
  cases v? with
  | none => simp
  | some v => simp [not_misuses_display]

theorem entries_ok {v : Value} {es : List (Value × Value)} :
    entries d v = .ok es ↔ d.entries? v = some es := by
  unfold entries
  cases d.entries? v <;> simp

theorem members_ok {v : Value} {vs : List Value} :
    members d v = .ok vs ↔ d.members? v = some vs := by
  unfold members
  cases d.members? v <;> simp

theorem given_ok {α : Type} {f : Value → Except Error (List α)} {v? : Option Value}
    {parts : List α} : (v?.mapM f).map (·.getD []) = .ok parts ↔
      v? = none ∧ parts = [] ∨ ∃ v, v? = some v ∧ f v = .ok parts := by
  cases v? with
  | none => simp [pure, Except.pure, Except.map, eq_comm]
  | some v => cases h : f v <;> simp [h, Functor.map, Except.map]

/-! ## Documents -/

/-- What is given under the name has the parts that are asked of it. -/
def HasParts {α : Type} (d : Data) (es : List (Value × Value)) (name : String)
    (parts? : Value → Option α) : Prop :=
  ∀ v, given? d name es = some v → (parts? v).isSome = true

theorem HasParts.ne_none {α : Type} {es : List (Value × Value)} {name : String}
    {parts? : Value → Option α} (h : HasParts d es name parts?) {v : Value}
    (hv : given? d name es = some v) : parts? v ≠ none :=
  Option.isSome_iff_ne_none.1 (h v hv)

def HasRegions (d : Data) (es : List (Value × Value)) : Prop :=
  ∀ v, given? d "sections" es = some v → ∃ vs, d.members? v = some vs ∧
    ∀ r ∈ vs, ∃ region, readRegion d r = .ok region

/-- The first thing wrong with the entries of a document is a value without the parts that are
asked of it. -/
inductive Misplaced (d : Data) (es : List (Value × Value)) : Error → Prop
  | options {v : Value} (given : given? d "options" es = some v) (noParts : d.entries? v = none) :
      Misplaced d es .noEntries
  | partitions {v : Value} (options : HasParts d es "options" d.entries?)
      (given : valueAt "partition_labels" es = v) (notNull : v ≠ .null)
      (noParts : d.members? v = none) : Misplaced d es .noMembers
  | regions {v : Value} (options : HasParts d es "options" d.entries?)
      (partitions : ∃ labels, readPartitions d (valueAt "partition_labels" es) = .ok labels)
      (given : given? d "sections" es = some v) (noParts : d.members? v = none) :
      Misplaced d es .noMembers
  | region {v r : Value} {before after : List Value}
      (options : HasParts d es "options" d.entries?)
      (partitions : ∃ labels, readPartitions d (valueAt "partition_labels" es) = .ok labels)
      (given : given? d "sections" es = some v) (parts : d.members? v = some (before ++ r :: after))
      (readable : ∀ b ∈ before, ∃ region, readRegion d b = .ok region)
      (noParts : d.entries? r = none) : Misplaced d es .noEntries
  | comments {v : Value} (options : HasParts d es "options" d.entries?)
      (partitions : ∃ labels, readPartitions d (valueAt "partition_labels" es) = .ok labels)
      (regions : HasRegions d es) (given : given? d "comments" es = some v)
      (noParts : d.entries? v = none) : Misplaced d es .noEntries

theorem hasParts_entries {name : String} {es : List (Value × Value)} :
    (∃ parts, ((given? d name es).mapM (entries d)).map (·.getD []) = .ok parts) ↔
      HasParts d es name d.entries? := by
  simp only [given_ok, entries_ok, HasParts, Option.isSome_iff_exists]
  constructor
  · rintro ⟨parts, ⟨hnone, -⟩ | ⟨v, hv, hparts⟩⟩ w hw
    · rw [hnone] at hw
      cases hw
    · cases hv.symm.trans hw
      exact ⟨parts, hparts⟩
  · intro h
    cases hgiven : given? d name es with
    | none => exact ⟨[], .inl ⟨rfl, rfl⟩⟩
    | some v =>
        obtain ⟨parts, hparts⟩ := h v hgiven
        exact ⟨parts, .inr ⟨v, rfl, hparts⟩⟩

theorem hasRegions_iff {es : List (Value × Value)} :
    (∃ vs, ((given? d "sections" es).mapM (members d)).map (·.getD []) = .ok vs ∧
      ∃ regions, vs.mapM (readRegion d) = .ok regions) ↔ HasRegions d es := by
  simp only [given_ok, members_ok, mapM_ok, HasRegions]
  constructor
  · rintro ⟨vs, ⟨hnone, -⟩ | ⟨v, hv, hvs⟩, hregions⟩ w hw
    · rw [hnone] at hw
      cases hw
    · cases hv.symm.trans hw
      exact ⟨vs, hvs, hregions⟩
  · intro h
    cases hgiven : given? d "sections" es with
    | none => exact ⟨[], .inl ⟨rfl, rfl⟩, List.forall_mem_nil _⟩
    | some v =>
        obtain ⟨vs, hvs, hregions⟩ := h v hgiven
        exact ⟨vs, .inr ⟨v, rfl, hvs⟩, hregions⟩

theorem misuses_ofData_iff_misplaced {es : List (Value × Value)}
    (hroot : d.entries? d.root = some es) :
    Misuses (ofData d) e ↔
      (∃ t, display d ((Value.lookup "architecture" es).getD (.text "Z80")) = .ok t) ∧
        Misplaced d es e := by
  unfold ofData
  rw [hroot]
  simp only [pure_bind, misuses_bind, misuses_map, misuses_given, misuses_entries,
    misuses_members, misuses_mapM, misuses_readPartitions, misuses_readRegion,
    not_misuses_display, not_misuses_readComments, not_misuses_integerAt,
    not_misuses_mapM_option, not_misuses_pure, not_misuses_integer, not_misuses_ite, false_or,
    and_false, exists_false, or_false, not_false_eq_true, exists_and_right, hasParts_entries]
  refine and_congr_right fun _ => ⟨?_, fun h => ?_⟩
  · rintro (⟨v, hv, hnone, rfl⟩ | ⟨hoptions, ⟨hnull, hnone, rfl⟩ | ⟨hlabels,
      ⟨v, hv, hnone, rfl⟩ | ⟨vs, hvs, ⟨before, r, ⟨after, rfl⟩, hreadable, hnone, rfl⟩ |
        ⟨hregions, v, hv, hnone, rfl⟩⟩⟩⟩)
    · exact .options hv hnone
    · exact .partitions hoptions rfl hnull hnone
    · exact .regions hoptions hlabels hv hnone
    · rcases given_ok.1 hvs with ⟨-, hnil⟩ | ⟨v, hv, hparts⟩
      · cases List.append_eq_nil_iff.1 hnil |>.2
      · exact .region hoptions hlabels hv (members_ok.1 hparts) hreadable hnone
    · exact .comments hoptions hlabels (hasRegions_iff.1 ⟨vs, hvs, hregions⟩) hv hnone
  · cases h with
    | options hv hnone => exact .inl ⟨_, hv, hnone, rfl⟩
    | partitions hoptions hv hnull hnone =>
        subst hv
        exact .inr ⟨hoptions, .inl ⟨hnull, hnone, rfl⟩⟩
    | regions hoptions hlabels hv hnone =>
        exact .inr ⟨hoptions, .inr ⟨hlabels, .inl ⟨_, hv, hnone, rfl⟩⟩⟩
    | region hoptions hlabels hv hparts hreadable hnone =>
        have hvs := given_ok.2 (.inr ⟨_, hv, members_ok.2 hparts⟩)
        exact .inr ⟨hoptions, .inr ⟨hlabels, .inr
          ⟨_, hvs, .inl ⟨_, _, ⟨_, rfl⟩, hreadable, hnone, rfl⟩⟩⟩⟩
    | comments hoptions hlabels hregions hv hnone =>
        obtain ⟨vs, hvs, hread⟩ := hasRegions_iff.2 hregions
        exact .inr ⟨hoptions, .inr ⟨hlabels, .inr ⟨vs, hvs, .inr ⟨hread, _, hv, hnone, rfl⟩⟩⟩⟩

theorem not_misuses_ofData (hroot : d.entries? d.root = none) : ¬ Misuses (ofData d) e := by
  unfold ofData
  rw [hroot]
  cases h : d.repr d.root with
  | error fault => exact not_misuses_throw (show (Error.noText fault).isRefusal = true from rfl)
  | ok text => exact not_misuses_throw (show (Error.notMapping text).isRefusal = true from rfl)

/-- The document has entries and names its architecture, and then parts are missing. -/
def Misshapen (d : Data) (e : Error) : Prop :=
  ∃ es, d.entries? d.root = some es ∧
    (∃ t, display d ((Value.lookup "architecture" es).getD (.text "Z80")) = .ok t) ∧
    Misplaced d es e

theorem misuses_ofData : Misuses (ofData d) e ↔ Misshapen d e := by
  unfold Misshapen
  cases hroot : d.entries? d.root with
  | none => simp [not_misuses_ofData hroot]
  | some es => simp [misuses_ofData_iff_misplaced hroot]

/-- Values stand only where their parts are asked of them. -/
structure Shaped (d : Data) (es : List (Value × Value)) : Prop where
  options : HasParts d es "options" d.entries?
  partitions : valueAt "partition_labels" es = .null ∨
    (d.members? (valueAt "partition_labels" es)).isSome = true
  regions : HasParts d es "sections" d.members?
  region : ∀ v vs, given? d "sections" es = some v → d.members? v = some vs →
    ∀ r ∈ vs, (d.entries? r).isSome = true
  comments : HasParts d es "comments" d.entries?

theorem Shaped.not_misplaced {es : List (Value × Value)} (h : Shaped d es) :
    ¬ Misplaced d es e := by
  intro hmisplaced
  cases hmisplaced with
  | options hv hnone => exact h.options.ne_none hv hnone
  | partitions _ hv hnull hnone =>
      subst hv
      exact Option.isSome_iff_ne_none.1 (h.partitions.resolve_left hnull) hnone
  | regions _ _ hv hnone => exact h.regions.ne_none hv hnone
  | region _ _ hv hparts _ hnone =>
      have hr := h.region _ _ hv hparts _ (List.mem_append_right _ List.mem_cons_self)
      exact Option.isSome_iff_ne_none.1 hr hnone
  | comments _ _ _ hv hnone => exact h.comments.ne_none hv hnone

/-- Data give a project or are refused, unless parts are asked of a value without them, which then
is the error. That never happens if all values have the shape that their places ask for. -/
theorem ofData_refuses_unless_misshapen (d : Data) :
    (((∃ p, ofData d = .ok p) ∨ ∃ e, ofData d = .error e ∧ e.isRefusal = true) ↔
      ¬ ∃ e, Misshapen d e) ∧
    (∀ e, Misshapen d e → ofData d = .error e) ∧
    ∀ es, d.entries? d.root = some es → Shaped d es → ¬ ∃ e, Misshapen d e := by
  refine ⟨?_, fun e h => (misuses_ofData.2 h).1, ?_⟩
  · simp only [← misuses_ofData]
    cases ofData d with
    | ok p => simp
    | error e => simp [Misuses]
  · rintro es hroot hshaped ⟨e, es', hroot', -, hmisplaced⟩
    cases hroot.symm.trans hroot'
    exact hshaped.not_misplaced hmisplaced

def numberedOptions : Data :=
  { containers := #[.mapping [(.text "options", .int 5)]], root := .container 0 }

theorem numberedOptions_not_refused :
    ¬ ((∃ p, ofData numberedOptions = .ok p) ∨
      ∃ e, ofData numberedOptions = .error e ∧ e.isRefusal = true) := by
  have h : ofData numberedOptions = .error .noEntries := rfl
  rw [h]
  simp [Error.isRefusal]

end RomListing.Project
