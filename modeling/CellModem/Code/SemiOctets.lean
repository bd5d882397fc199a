import CellModem.Error

/-!
The number of a SIM card is read with the two digits of every byte exchanged. Exchanging them again
restores it.
-/

namespace CellModem.Code

/-- Exchange the two members of every pair; a last one without partner stays. -/
def swapPairs {α : Type} : List α → List α
  | a :: b :: rest => b :: a :: swapPairs rest
  | rest => rest

/-- Restore a number of at most `room` characters. A character outside ASCII is reported before a
number that is too long. -/
def restoreSemiOctets (room : Nat) (s : String) : Except Error String :=
  if s.toList.any fun c => 128 ≤ c.toNat then .error .invalidArgument
  else if room < s.length then .error .storageExhausted
  else .ok (String.ofList (swapPairs s.toList))

theorem swapPairs_swapPairs {α : Type} (xs : List α) : swapPairs (swapPairs xs) = xs := by
  fun_induction swapPairs xs with
  | case1 a b rest ih => simp [swapPairs, ih]
  | case2 rest short =>
    match rest, short with
    | [], _ => rfl
    | [_], _ => rfl
    | a :: b :: rest, short => exact absurd rfl (short a b rest)

theorem length_swapPairs {α : Type} (xs : List α) : (swapPairs xs).length = xs.length := by
  fun_induction swapPairs xs with
  | case1 a b rest ih => simp [ih]
  | case2 rest => rfl

end CellModem.Code
