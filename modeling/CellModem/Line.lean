import CellModem.Text.Octets

/-!
Lines of the modem's byte stream. `split` cuts the complete lines off a piece of the stream and
leaves the unfinished rest; `kind` says what a complete line is in the course of a command.
-/

namespace CellModem.Line

def lineFeed : UInt8 := 10

def carriageReturn : UInt8 := 13

/-- The first complete line with what stands in front of its line feed, and the bytes behind it. -/
def next? : Octets → Option (Octets × Octets)
  | [] => none
  | b :: bytes =>
    if b = lineFeed then some ([], bytes)
    else (next? bytes).map fun (front, rest) => (b :: front, rest)

/-- A line without the carriage return that may end it. -/
def chomp (raw : Octets) : Octets :=
  if raw.getLast? = some carriageReturn then raw.dropLast else raw

theorem length_chomp_le (raw : Octets) : (chomp raw).length ≤ raw.length := by
  unfold chomp
  split
  · simp
  · exact Nat.le_refl _

/-- A line is the front part of what stands in front of its line feed. -/
theorem take_length_chomp (raw : Octets) : raw.take (chomp raw).length = chomp raw := by
  unfold chomp
  split
  · rw [List.length_dropLast, ← List.dropLast_eq_take]
  · exact List.take_length

/-- A line and the bytes behind it make up all bytes, but for the line feed. -/
theorem eq_append_of_next? {bytes raw rest : Octets} (h : next? bytes = some (raw, rest)) :
    bytes = raw ++ lineFeed :: rest := by
  induction bytes generalizing raw with
  | nil => cases h
  | cons b bytes ih =>
    unfold next? at h
    split at h
    case isTrue hfeed =>
      cases h
      rw [hfeed, List.nil_append]
    case isFalse =>
      obtain ⟨⟨front, later⟩, hfound, hpair⟩ := Option.map_eq_some_iff.mp h
      cases hpair
      rw [ih hfound, List.cons_append]

theorem length_of_next? {bytes raw rest : Octets} (h : next? bytes = some (raw, rest)) :
    bytes.length = raw.length + 1 + rest.length := by
  rw [eq_append_of_next? h, List.length_append, List.length_cons]
  omega

/-- What stands in front of each line feed, and what stands behind the last one. -/
def splitRaw : Octets → List Octets × Octets
  | [] => ([], [])
  | b :: bytes =>
    let (lines, rest) := splitRaw bytes
    if b = lineFeed then ([] :: lines, rest)
    else
      match lines with
      | [] => ([], b :: rest)
      | line :: lines => ((b :: line) :: lines, rest)

/-- The complete lines, without their terminators, and the unfinished rest. -/
def split (bytes : Octets) : List Octets × Octets :=
  ((splitRaw bytes).1.map chomp, (splitRaw bytes).2)

/-- How a command ended. -/
inductive Verdict where
  | accepted
  | refused
  deriving DecidableEq, Repr

/-- The final result that a line is. -/
def verdict? (line : Octets) : Option Verdict :=
  if line = Octets.ofText "OK" then some .accepted
  else if line = Octets.ofText "ERROR" then some .refused
  else if (Octets.ofText "+CME ERROR").isPrefixOf line then some .refused
  else if (Octets.ofText "+CMS ERROR").isPrefixOf line then some .refused
  else none

/-- The final result that an unfinished rest is, behind a line end at most: some modems leave the
line end after it out. -/
def openVerdict? (rest : Octets) : Option Verdict :=
  let rest :=
    match rest with
    | 13 :: 10 :: rest => rest
    | rest => rest
  if rest = Octets.ofText "OK" then some .accepted
  else if rest = Octets.ofText "ERROR" then some .refused
  else none

/-- What an unasked signal report starts with. -/
def noticeMark : String := "%CESQ"

def isNotice (line : Octets) : Bool :=
  (Octets.ofText noticeMark).isPrefixOf line

inductive Kind where
  | blank
  /-- The modem repeats the command. -/
  | echo
  /-- An unasked signal report. -/
  | notice
  | verdict (verdict : Verdict)
  | data
  deriving DecidableEq, Repr

/-- What a line is while `command` runs; no line is an echo of the empty command. White space at
either end does not count. -/
def kind (command : Octets) (line : Octets) : Kind :=
  let line := line.trim
  if line.isEmpty then .blank
  else if !command.isEmpty && line == command then .echo
  else if isNotice line then .notice
  else
    match verdict? line with
    | some v => .verdict v
    | none => .data

/-- What a line is while no command runs. -/
def idleKind (line : Octets) : Kind :=
  kind [] line

/-- Splitting goes line by line. -/
theorem splitRaw_eq (bytes : Octets) :
    splitRaw bytes =
      match next? bytes with
      | none => ([], bytes)
      | some (line, rest) => (line :: (splitRaw rest).1, (splitRaw rest).2) := by
  induction bytes with
  | nil => rfl
  | cons b bytes ih =>
    by_cases h : b = lineFeed
    · simp [splitRaw, next?, h]
    · cases hn : next? bytes with
      | none => simp [splitRaw, next?, h, hn, ih]
      | some found => simp [splitRaw, next?, h, hn, ih]

end CellModem.Line
