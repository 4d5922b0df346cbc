/-!
# Classes of characters

White space, line ends and decimal digits, after version 14 of the Unicode
character database, and the bisection that finds a code point among the ranges
of a larger class.
-/

namespace Logo.Text

/-! ## Ranges of code points

A property of characters is given by the ranges of the code points that have it.
The ranges are in increasing order, so a code point is looked up by
bisection. -/

/-- The number of ranges that start at or before a code point: it lies between
`low` and `high`, and each turn halves what is left between them. -/
def rangesUpTo (ranges : Array (Nat × Nat)) (code : Nat) :
    (turns low high : Nat) → Nat
  | 0, low, _ => low
  | turns + 1, low, high =>
    if low < high then
      let middle := (low + high) / 2
      match ranges[middle]? with
      | some (first, _) =>
        if first ≤ code then rangesUpTo ranges code turns (middle + 1) high
        else rangesUpTo ranges code turns low middle
      | none => low
    else low

/-- A code point lies in one of the ranges when the last one that starts at or
before it has not yet ended. -/
def inRanges (ranges : Array (Nat × Nat)) (code : Nat) : Bool :=
  match ranges[rangesUpTo ranges code 16 0 ranges.size - 1]? with
  | some (first, last) => first ≤ code && code ≤ last
  | none => false

/-! ## Blanks and line ends

A program is cut into words at white space, and a remark runs to the end of its
line.  Every character that ends a line is also white space, so a word never
reaches across two lines. -/

/-- White space: what separates one word from the next. -/
def isBlank (c : Char) : Bool :=
  let n := c.toNat
  (0x09 ≤ n && n ≤ 0x0D) || (0x1C ≤ n && n ≤ 0x20) || n == 0x85 ||
    n == 0xA0 || n == 0x1680 || (0x2000 ≤ n && n ≤ 0x200A) || n == 0x2028 ||
    n == 0x2029 || n == 0x202F || n == 0x205F || n == 0x3000

/-- The characters that end a line, and with it a remark. -/
def isLineEnd (c : Char) : Bool :=
  let n := c.toNat
  (0x0A ≤ n && n ≤ 0x0D) || (0x1C ≤ n && n ≤ 0x1E) || n == 0x85 ||
    n == 0x2028 || n == 0x2029

/-- White space that may stand around a written number.  The four separators of
ASCII (code points 28 to 31) are blanks between words but not here. -/
def isNumberPadding (c : Char) : Bool :=
  isBlank c && !(0x1C ≤ c.toNat && c.toNat ≤ 0x1F)

theorem isBlank_of_isLineEnd (c : Char) (h : isLineEnd c = true) :
    isBlank c = true := by
  simp only [isLineEnd, isBlank, Bool.or_eq_true, Bool.and_eq_true,
    decide_eq_true_eq, beq_iff_eq] at h ⊢
  omega

def dropEndWhile (p : Char → Bool) (text : List Char) : List Char :=
  (text.reverse.dropWhile p).reverse

def trim (p : Char → Bool) (text : List Char) : List Char :=
  dropEndWhile p (text.dropWhile p)

/-! ## Decimal digits

Every script with decimal digits has ten of them in a row, from its zero on. -/

/-- The code points of the zeros of all scripts; the nine other digits follow
each of them. -/
def zeros : List Nat := [
  0x30, 0x660, 0x6F0, 0x7C0, 0x966, 0x9E6, 0xA66, 0xAE6, 0xB66, 0xBE6, 0xC66,
  0xCE6, 0xD66, 0xDE6, 0xE50, 0xED0, 0xF20, 0x1040, 0x1090, 0x17E0, 0x1810,
  0x1946, 0x19D0, 0x1A80, 0x1A90, 0x1B50, 0x1BB0, 0x1C40, 0x1C50, 0xA620,
  0xA8D0, 0xA900, 0xA9D0, 0xA9F0, 0xAA50, 0xABF0, 0xFF10, 0x104A0, 0x10D30,
  0x11066, 0x110F0, 0x11136, 0x111D0, 0x112F0, 0x11450, 0x114D0, 0x11650,
  0x116C0, 0x11730, 0x118E0, 0x11950, 0x11C50, 0x11D50, 0x11DA0, 0x16A60,
  0x16AC0, 0x16B50, 0x1D7CE, 0x1D7D8, 0x1D7E2, 0x1D7EC, 0x1D7F6, 0x1E140,
  0x1E2F0, 0x1E950, 0x1FBF0]

def digit? (c : Char) : Option Nat :=
  (zeros.find? fun z => z ≤ c.toNat && c.toNat ≤ z + 9).map (c.toNat - ·)

end Logo.Text
