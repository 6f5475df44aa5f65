/-!
# Texts

A text is a list of letters. Nearly every letter is a character. A document may also name
one half of a surrogate pair by its code: such a half is no character and has no UTF-8, but a
text can hold it and show its code.
-/

namespace RomListing

inductive Letter where
  | char (c : Char)
  /-- A half of a surrogate pair, by its distance from the first one. -/
  | half (n : Fin 0x800)
  deriving DecidableEq

namespace Letter

instance : Coe Char Letter := ⟨.char⟩

/-- The code of the first half. -/
def firstHalf : Nat := 0xD800

def code : Letter → Nat
  | .char c => c.toNat
  | .half n => firstHalf + n

/-- The letter with a code. A number that is no code gives the character NUL. -/
def ofCode (code : Nat) : Letter :=
  if h : firstHalf ≤ code ∧ code < firstHalf + 0x800 then .half ⟨code - firstHalf, by omega⟩
  else .char (Char.ofNat code)

def is (p : Char → Bool) : Letter → Bool
  | .char c => p c
  | .half _ => false

def char? : Letter → Option Char
  | .char c => some c
  | .half _ => none

/-- The character of a letter. For a half it is the one that stands for what is none. -/
def toChar : Letter → Char
  | .char c => c
  | .half _ => '\uFFFD'

theorem code_ofCode {n : Nat} (h : n < 0x110000) : (ofCode n).code = n := by
  unfold ofCode
  split
  · simp only [code]
    omega
  · have hv : n.isValidChar := by
      unfold Nat.isValidChar
      simp only [firstHalf] at *
      omega
    unfold code Char.ofNat
    rw [dif_pos hv]
    rfl

end Letter

abbrev Text := List Letter

namespace Text

def ofChars (cs : List Char) : Text := cs.map .char

def ofString (s : String) : Text := ofChars s.toList

instance : Coe String Text := ⟨ofString⟩

/-- The characters of a text, for readers to which a half means nothing. -/
def chars (t : Text) : List Char := t.map Letter.toChar

/-- The text as a string, none if it holds a half. -/
def toString? (t : Text) : Option String := (t.mapM Letter.char?).map String.ofList

def isEncodable (t : Text) : Bool := t.all fun l => l.char?.isSome

def lookupIn (table : List (String × α)) (t : Text) : Option α :=
  (table.find? fun (name, _) => ofString name == t).map Prod.snd

def join (glue : Text) (ts : List Text) : Text := glue.intercalate ts

def split [DecidableEq α] (bar : α) : List α → List (List α)
  | [] => [[]]
  | a :: rest =>
    if a = bar then [] :: split bar rest
    else
      match split bar rest with
      | [] => [[a]]
      | part :: parts => (a :: part) :: parts

theorem chars_ofChars (cs : List Char) : (ofChars cs).chars = cs := by
  induction cs with
  | nil => rfl
  | cons c cs ih => exact congrArg (c :: ·) ih

theorem ofString_append (a b : String) : ofString (a ++ b) = ofString a ++ ofString b := by
  unfold ofString ofChars
  rw [String.toList_append, List.map_append]

theorem ofString_inj {a b : String} (h : ofString a = ofString b) : a = b :=
  String.toList_inj.1 ((List.map_inj_right fun _ _ hchar => Letter.char.inj hchar).1 h)

theorem isEncodable_ofString (s : String) : (ofString s).isEncodable = true := by
  simp [isEncodable, ofString, ofChars, Letter.char?]

example : split 0 [1, 0, 2, 3, 0] = [[1], [2, 3], []] := by decide

end Text

end RomListing
