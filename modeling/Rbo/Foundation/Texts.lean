import Mathlib.Data.List.Basic

/-!
# Texts

Texts, names and paths are lists of characters, and are looked up in lists by
their equality.  White space around a text is trimmed as the language does it.
-/

namespace Rbo.Foundation

/-- Equal texts are one text.  The fact has a name, so that the lookups of all
modules share it. -/
instance lawfulBEq_text : LawfulBEq (List Char) := inferInstance

/-- A character that trimming removes: white space or a line terminator. -/
def isTrimmed (char : Char) : Bool :=
  let code := char.toNat
  (0x09 ≤ code && code ≤ 0x0D) || code = 0x20 || code = 0xA0 ||
    code = 0x1680 || (0x2000 ≤ code && code ≤ 0x200A) ||
    code = 0x2028 || code = 0x2029 || code = 0x202F || code = 0x205F ||
    code = 0x3000 || code = 0xFEFF

def trimStart (text : List Char) : List Char :=
  text.dropWhile isTrimmed

def trim (text : List Char) : List Char :=
  (trimStart (trimStart text).reverse).reverse

end Rbo.Foundation
