/-!
White space, in the two senses a modem conversation needs. Text is trimmed of every character with
the Unicode White_Space property; a raw line of bytes is trimmed of the five ASCII ones only, among
which the vertical tab is missing.
-/

namespace CellModem.Text

/-- The characters with the Unicode White_Space property. -/
def isBlank (c : Char) : Bool :=
  let v := c.toNat
  (0x09 ≤ v && v ≤ 0x0d) || v == 0x20 || v == 0x85 || v == 0xa0 || v == 0x1680 ||
    (0x2000 ≤ v && v ≤ 0x200a) || v == 0x2028 || v == 0x2029 || v == 0x202f || v == 0x205f ||
    v == 0x3000

/-- Tab, line feed, form feed, carriage return and space: the ASCII white space of a byte stream,
given by code. -/
def isAsciiBlank (code : Nat) : Bool :=
  code == 0x09 || code == 0x0a || code == 0x0c || code == 0x0d || code == 0x20

def trimStart (cs : List Char) : List Char :=
  cs.dropWhile isBlank

def trimEnd (cs : List Char) : List Char :=
  (cs.reverse.dropWhile isBlank).reverse

/-- Every ASCII blank is a blank of text; the converse fails, for the vertical tab among others. -/
theorem isBlank_of_isAsciiBlank {c : Char} (h : isAsciiBlank c.toNat = true) :
    isBlank c = true := by
  simp only [isAsciiBlank, Bool.or_eq_true, beq_iff_eq] at h
  rcases h with (((h | h) | h) | h) | h <;> simp [isBlank, h]

end CellModem.Text
