/-
**Powers of two and of ten, and the bounds of machine words.**

Main definitions:

* `pow2`, `pow10` — the powers;
* `unsignedBound`, `signedBound` — what an unsigned word stays below, and what the magnitude of a
  negative signed word does not exceed.
-/

set_option relaxedAutoImplicit false
set_option autoImplicit false

namespace StoreSchema

/-- Two to the power `n`. -/
def pow2 (n : Nat) : Nat := Nat.pow 2 n

/-- Ten to the power `n`. -/
def pow10 (n : Nat) : Nat := Nat.pow 10 n

theorem pow2_pos (n : Nat) : 0 < pow2 n := Nat.pow_pos (by decide)

/-- Unsigned words of 64 bits stay below this bound. -/
def unsignedBound : Nat := pow2 64

/-- The magnitude of a negative signed word of 64 bits does not exceed this bound. -/
def signedBound : Nat := pow2 63

end StoreSchema
