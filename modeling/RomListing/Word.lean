/-!
# Sixteen-bit addresses and signed bytes

Addresses are integers: a buffer may be placed anywhere, and only the rules that name
the address space fold a value into it.
-/

namespace RomListing

/-- The address that `a` stands for in a 64K address space. -/
def wrap (a : Int) : Int := a % 0x10000

theorem wrap_nonneg (a : Int) : 0 ≤ wrap a := Int.emod_nonneg a (by decide)

theorem wrap_lt (a : Int) : wrap a < 0x10000 := Int.emod_lt_of_pos a (by decide)

theorem wrap_of_lt {a : Int} (h : 0 ≤ a) (h' : a < 0x10000) : wrap a = a :=
  Int.emod_eq_of_lt h h'

theorem wrap_wrap (a : Int) : wrap (wrap a) = wrap a :=
  wrap_of_lt (wrap_nonneg a) (wrap_lt a)

theorem wrap_wrap_add (a b : Int) : wrap (wrap a + b) = wrap (a + b) := by
  simp [wrap, Int.emod_add_emod]

/-- The low eight bits of `v` read as a number from -128 to 127. -/
def signedByte (v : Int) : Int :=
  let low := v % 0x100
  if low < 0x80 then low else low - 0x100

/-- The bits of `a` that `mask` has too, `a` in two's complement of any length. -/
def keepBits (mask : Nat) (a : Int) : Nat :=
  (a % Nat.pow 2 (mask.log2 + 1)).toNat &&& mask

/-- Bitwise conjunction of `a` with a mask of either sign, both in two's complement. -/
def fold (mask a : Int) : Int :=
  match mask with
  | .ofNat m => keepBits m a
  | .negSucc m => a - keepBits m a

theorem fold_eq_wrap (a : Int) : fold 0xFFFF a = wrap a := by
  have hm : Nat.pow 2 ((0xFFFF : Nat).log2 + 1) = 0x10000 := by decide
  have h : keepBits 0xFFFF a = (wrap a).toNat := by
    unfold keepBits wrap
    rw [hm, show (0xFFFF : Nat) = 2 ^ 16 - 1 from rfl, Nat.and_two_pow_sub_one_eq_mod]
    exact Nat.mod_eq_of_lt (by omega)
  have := wrap_nonneg a
  show ((keepBits 0xFFFF a : Nat) : Int) = wrap a
  omega

end RomListing
