/-!
# Texts

A text is the list of its characters.  This module holds the blank characters (Unicode's
`White_Space`), trimming, and the part of a text in front of one of its suffixes:

* `trim_eq`: trimming takes blank characters from both ends and nothing else;
* `upTo_append`: a suffix and the part in front of it make up the text.
-/

namespace Graft

/-- A text, as the list of its characters. -/
abbrev Text := List Char

namespace Text

/-- The characters with Unicode's `White_Space` property. -/
def isSpace (c : Char) : Bool :=
  let n := c.toNat
  (0x9 ≤ n && n ≤ 0xD) || n == 0x20 || n == 0x85 || n == 0xA0 || n == 0x1680 ||
    (0x2000 ≤ n && n ≤ 0x200A) || n == 0x2028 || n == 0x2029 || n == 0x202F || n == 0x205F ||
    n == 0x3000

/-- The characters that indent a line. -/
def isIndent (c : Char) : Bool := c == ' ' || c == '\t'

/-- A text of blank characters only, the empty one included. -/
def isBlank (t : Text) : Bool := t.all isSpace

/-- The text without the blank characters it begins with. -/
def trimStart (t : Text) : Text := t.dropWhile isSpace

/-- The text without the blank characters it ends with. -/
def trimEnd (t : Text) : Text := (t.reverse.dropWhile isSpace).reverse

/-- The text without the blank characters at either end. -/
def trim (t : Text) : Text := trimEnd (trimStart t)

/-- The blank characters a text ends with. -/
def trailing (t : Text) : Text := (t.reverse.takeWhile isSpace).reverse

/-- The text without the characters `p` holds of at either end. -/
def trimBoth (p : Char → Bool) (t : Text) : Text :=
  ((t.dropWhile p).reverse.dropWhile p).reverse

/-- The part of `t` in front of its suffix `rest`. -/
def upTo (t rest : Text) : Text := t.take (t.length - rest.length)

/-- The texts one after the other, with `sep` between each two. -/
def joinWith (sep : Text) : List Text → Text
  | [] => []
  | [t] => t
  | t :: u :: us => t ++ sep ++ joinWith sep (u :: us)

/-- The number of bytes of the text in UTF-8. -/
def byteCount (t : Text) : Nat := t.foldr (fun c n => c.utf8Size + n) 0

theorem trimEnd_append_trailing (t : Text) : trimEnd t ++ trailing t = t := by
  rw [trimEnd, trailing, ← List.reverse_append, List.takeWhile_append_dropWhile,
    List.reverse_reverse]

theorem trim_eq (t : Text) : ∃ a b, t = a ++ trim t ++ b ∧ isBlank a ∧ isBlank b := by
  refine ⟨t.takeWhile isSpace, trailing (trimStart t), ?_, ?_, ?_⟩
  · rw [trim, List.append_assoc, trimEnd_append_trailing, trimStart,
      List.takeWhile_append_dropWhile]
  · simp only [isBlank, List.all_takeWhile]
  · simp only [isBlank, trailing, List.all_reverse, List.all_takeWhile]

theorem upTo_append {t rest : Text} (h : rest <:+ t) : upTo t rest ++ rest = t := by
  obtain ⟨a, rfl⟩ := h
  simp [upTo]

theorem upTo_of_append (a b : Text) : upTo (a ++ b) b = a := by
  simp [upTo]

end Text

end Graft
