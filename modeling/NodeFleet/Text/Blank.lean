/-!
White space as Unicode's property `White_Space` has it, and the trimming of a text on both sides.
-/

set_option autoImplicit false
set_option relaxedAutoImplicit false

namespace NodeFleet.Text

/-- The runs of code points with the property `White_Space`. -/
def blankRuns : List (Nat × Nat) :=
  [(0x09, 0x0D), (0x20, 0x20), (0x85, 0x85), (0xA0, 0xA0), (0x1680, 0x1680), (0x2000, 0x200A),
    (0x2028, 0x2029), (0x202F, 0x202F), (0x205F, 0x205F), (0x3000, 0x3000)]

def isBlank (c : Char) : Bool :=
  blankRuns.any fun r ↦ r.1 ≤ c.toNat && c.toNat ≤ r.2

def trimLeft (s : List Char) : List Char :=
  s.dropWhile isBlank

def trim (s : List Char) : List Char :=
  (trimLeft (trimLeft s).reverse).reverse

end NodeFleet.Text
