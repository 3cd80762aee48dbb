/-!
Powers of the two bases in which numbers are kept and written.
-/

namespace StepQuery

abbrev tenTo (exponent : Nat) : Nat := Nat.pow 10 exponent

abbrev twoTo (exponent : Nat) : Nat := Nat.pow 2 exponent

end StepQuery
