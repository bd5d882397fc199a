/-!
Numbers written as digits: decimal fields of a response, hexadecimal cell and area codes, and the
decimal text of a value. Values are natural numbers, so that nothing overflows before it is
compared with the bound that applies.
-/

namespace CellModem.Numeral

/-- Value of a decimal digit. -/
def decimalDigit? (c : Char) : Option Nat :=
  if '0' ≤ c ∧ c ≤ '9' then some (c.toNat - 48) else none

/-- Value of a hexadecimal digit of either case. -/
def hexDigit? (c : Char) : Option Nat :=
  if '0' ≤ c ∧ c ≤ '9' then some (c.toNat - 48)
  else if 'a' ≤ c ∧ c ≤ 'f' then some (c.toNat - 87)
  else if 'A' ≤ c ∧ c ≤ 'F' then some (c.toNat - 55)
  else none

def isDecimalDigit (c : Char) : Bool :=
  (decimalDigit? c).isSome

/-- Positional value of the digits in front of which `acc` has been read. -/
def valueFrom? (base : Nat) (digit? : Char → Option Nat) (acc : Nat) : List Char → Option Nat
  | [] => some acc
  | c :: cs =>
    match digit? c with
    | some d => valueFrom? base digit? (base * acc + d) cs
    | none => none

/-- Value of a decimal numeral of at least one digit, leading zeros allowed. -/
def decimalValue? (cs : List Char) : Option Nat :=
  if cs.isEmpty then none else valueFrom? 10 decimalDigit? 0 cs

/-- Value of a hexadecimal numeral of at least one digit, leading zeros allowed. -/
def hexValue? (cs : List Char) : Option Nat :=
  if cs.isEmpty then none else valueFrom? 16 hexDigit? 0 cs

/-- The decimal digit of a value below ten. -/
def digitChar (d : Nat) : Char :=
  Char.ofNat (48 + d)

/-- The decimal numeral without leading zeros. -/
def decimal (n : Nat) : List Char :=
  if n < 10 then [digitChar n] else decimal (n / 10) ++ [digitChar (n % 10)]
termination_by n
decreasing_by omega

/-- The decimal numeral with a minus sign in front of a negative number. -/
def signedDecimal (i : Int) : List Char :=
  if i < 0 then '-' :: decimal i.natAbs else decimal i.natAbs

theorem decimalDigit?_digitChar {d : Nat} (h : d < 10) :
    decimalDigit? (digitChar d) = some d := by
  have : ∀ d, d < 10 → decimalDigit? (digitChar d) = some d := by decide
  exact this d h

theorem valueFrom?_append (base : Nat) (digit? : Char → Option Nat) (acc : Nat)
    (xs ys : List Char) :
    valueFrom? base digit? acc (xs ++ ys) =
      (valueFrom? base digit? acc xs).bind fun v => valueFrom? base digit? v ys := by
  induction xs generalizing acc with
  | nil => rfl
  | cons c xs ih =>
    cases h : digit? c with
    | none => simp [valueFrom?, h]
    | some d => simpa [valueFrom?, h] using ih (base * acc + d)

theorem valueFrom?_decimal (n : Nat) : valueFrom? 10 decimalDigit? 0 (decimal n) = some n := by
  rw [decimal]
  split
  · rename_i small
    simp [valueFrom?, decimalDigit?_digitChar small]
  · rw [valueFrom?_append, valueFrom?_decimal (n / 10)]
    have digit : n % 10 < 10 := Nat.mod_lt _ (by decide)
    simp only [Option.bind_some, valueFrom?, decimalDigit?_digitChar digit]
    congr 1
    omega
termination_by n
decreasing_by omega

theorem decimal_ne_nil (n : Nat) : decimal n ≠ [] := by
  rw [decimal]
  split <;> simp

/-- Reading a decimal numeral gives back the number that was written. -/
theorem decimalValue?_decimal (n : Nat) : decimalValue? (decimal n) = some n := by
  simp [decimalValue?, decimal_ne_nil, valueFrom?_decimal]

end CellModem.Numeral
