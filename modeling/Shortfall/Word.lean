/-!
# Machine words

Integers that are kept in words of 64 bits.
-/

namespace Shortfall.Word

/-- How many unsigned words there are. -/
def count : Nat := 18446744073709551616

/-- The unsigned word from which on the same bits are a negative signed one. -/
def signBound : Nat := 9223372036854775808

end Shortfall.Word
