/-! White space.

The characters with the Unicode property White_Space, and texts without them at
their ends. -/
namespace LoxFrontEnd.Text

/-- The ranges of code points with the property White_Space, both ends included. -/
def whiteSpaceRanges : List (Nat × Nat) :=
  [(0x09, 0x0D), (0x20, 0x20), (0x85, 0x85), (0xA0, 0xA0), (0x1680, 0x1680), (0x2000, 0x200A),
    (0x2028, 0x2029), (0x202F, 0x202F), (0x205F, 0x205F), (0x3000, 0x3000)]

def isWhiteSpace (c : Char) : Bool :=
  whiteSpaceRanges.any fun (first, last) => first ≤ c.toNat && c.toNat ≤ last

def trimStart (cs : List Char) : List Char := cs.dropWhile isWhiteSpace

def trimEnd (cs : List Char) : List Char := (cs.reverse.dropWhile isWhiteSpace).reverse

def trim (cs : List Char) : List Char := trimEnd (trimStart cs)

example : whiteSpaceRanges.foldl (fun n (first, last) => n + (last + 1 - first)) 0 = 25 := by decide

end LoxFrontEnd.Text
