/-!
White space: the characters with the Unicode property White_Space. `trimBlank` cuts them off both ends.
-/

namespace ProjectGraph

/-- The characters with the property White_Space. -/
def isBlank (c : Char) : Bool :=
  let n := c.val
  (0x9 ≤ n && n ≤ 0xD) || n == 0x20 || n == 0x85 || n == 0xA0 || n == 0x1680 ||
    (0x2000 ≤ n && n ≤ 0x200A) || n == 0x2028 || n == 0x2029 || n == 0x202F || n == 0x205F || n == 0x3000

/-- The text without the blanks at its ends. -/
def trimBlank (s : String) : String :=
  String.ofList ((s.toList.dropWhile isBlank).reverse.dropWhile isBlank).reverse

example : trimBlank "\t a b\u00a0\u3000" = "a b" := by decide

end ProjectGraph
