import SelectorLexer.CodePoints

/-!
# The property White_Space

The code points with the property White_Space of Unicode 17.
-/

namespace SelectorLexer

namespace CodePoints

/-- The code points with the property White_Space. -/
def whiteSpace : CodePoints :=
  ⟨[
    (0x9, 0xD), (0x20, 0x20), (0x85, 0x85), (0xA0, 0xA0), (0x1680, 0x1680), (0x2000, 0x200A),
    (0x2028, 0x2029), (0x202F, 0x202F), (0x205F, 0x205F), (0x3000, 0x3000)
  ]⟩

set_option maxRecDepth 8192 in
theorem whiteSpace_ascending : whiteSpace.Ascending := by decide +kernel

end CodePoints

end SelectorLexer
