import Dotchat.Values
import Mathlib.Data.List.TakeWhile

/-!
The standard input as the client reads it: lines with `std::getline`, words and
numbers with the extraction operators. An operation on a stream that is not good
stores nothing and sets the failure bit, and nothing in the client ever clears
that bit. So the first malformed number and the end of the input are final: all
later operations leave their variables as they are.
-/
namespace Dotchat

/-- `std::cin`: the bytes that are still to come, and the two bits of its state -/
structure Console where
  rest : Bytes
  eof : Bool := false
  fail : Bool := false
  deriving DecidableEq

namespace Console

def newline : UInt8 := 10

/-- `std::isspace` -/
def isSpace (c : UInt8) : Bool := c == 32 || (9 ≤ c && c ≤ 13)

/-- `std::isdigit` -/
def isDigit (c : UInt8) : Bool := 48 ≤ c && c ≤ 57

variable (s : Console)

def good : Bool := !s.eof && !s.fail

/-- `std::getline(std::cin, line)`: the line, if one is stored. The end of the
input ends a line as well; it fails a line without a character. -/
def getline : Option Bytes × Console :=
  if s.good then
    let line := s.rest.takeWhile (· ≠ newline)
    match s.rest.dropWhile (· ≠ newline) with
    | [] => (some line, { rest := [], eof := true, fail := line.isEmpty })
    | _ :: rest => (some line, { s with rest })
  else (none, { s with fail := true })

/-- The sentry of the extraction operators, which skips spaces. -/
def skipSpaces : Bool × Console :=
  if s.good then
    match s.rest.dropWhile isSpace with
    | [] => (false, { rest := [], eof := true, fail := true })
    | rest => (true, { s with rest })
  else (false, { s with fail := true })

/-- `std::cin >> word` for a string -/
def readWord : Option Bytes × Console :=
  match s.skipSpaces with
  | (false, s) => (none, s)
  | (true, s) =>
      let rest := s.rest.dropWhile (!isSpace ·)
      (some (s.rest.takeWhile (!isSpace ·)), { s with rest, eof := rest.isEmpty })

/-- A sign, and what follows it. -/
def splitSign : Bytes → Bool × Bytes
  | 43 :: rest => (false, rest)
  | 45 :: rest => (true, rest)
  | rest => (false, rest)

def decimal (digits : Bytes) : ℕ := digits.foldl (fun n c => 10 * n + (c.toNat - 48)) 0

/-- The value of a number that was read, and whether it is one of the type:
otherwise the nearest bound is stored, and 0 if there were no digits. -/
def int32Of (negative : Bool) (digits : Bytes) : Int32 × Bool :=
  let value : ℤ := if negative then -(decimal digits : ℤ) else decimal digits
  if digits.isEmpty then (0, false)
  else if value < Int32.minValue.toInt then (Int32.minValue, false)
  else if Int32.maxValue.toInt < value then (Int32.maxValue, false)
  else (Int32.ofInt value, true)

/-- `std::cin >> n` for an `int32_t` -/
def readInt : Option Int32 × Console :=
  match s.skipSpaces with
  | (false, s) => (none, s)
  | (true, s) =>
      let (negative, unsigned) := splitSign s.rest
      let (n, valid) := int32Of negative (unsigned.takeWhile isDigit)
      let rest := unsigned.dropWhile isDigit
      (some n, { rest, eof := rest.isEmpty, fail := !valid })

variable {s}

section Failed

theorem good_of_fail (h : s.fail = true) : s.good = false := by simp [good, h]

theorem not_fail_of_good (h : s.good = true) : s.fail = false := by
  simpa [good] using (Bool.and_eq_true_iff.mp h).2

theorem refused_of_fail (h : s.fail = true) : { s with fail := true } = s := by
  rw [← h]

theorem getline_of_fail (h : s.fail = true) : s.getline = (none, s) := by
  unfold getline
  rw [if_neg (by simp [good_of_fail h]), refused_of_fail h]

theorem skipSpaces_of_fail (h : s.fail = true) : s.skipSpaces = (false, s) := by
  unfold skipSpaces
  rw [if_neg (by simp [good_of_fail h]), refused_of_fail h]

theorem readWord_of_fail (h : s.fail = true) : s.readWord = (none, s) := by
  rw [readWord, skipSpaces_of_fail h]

theorem readInt_of_fail (h : s.fail = true) : s.readInt = (none, s) := by
  rw [readInt, skipSpaces_of_fail h]

end Failed

section Readings

theorem not_of_dropWhile {p : UInt8 → Bool} {l rest : Bytes} {c : UInt8}
    (h : l.dropWhile p = c :: rest) : p c = false := by
  have hne : l.dropWhile p ≠ [] := by simp [h]
  have hhead := List.head_dropWhile_not p hne
  simpa [h] using hhead

/-- What `getline` can do. -/
inductive Lined (s : Console) : Option Bytes × Console → Prop
  | refused (hgood : s.good = false) : Lined s (none, { s with fail := true })
  | line {line rest : Bytes} (hgood : s.good = true) (hline : newline ∉ line)
      (hrest : s.rest = line ++ newline :: rest) : Lined s (some line, { s with rest })
  | last (hgood : s.good = true) (hline : newline ∉ s.rest) :
      Lined s (some s.rest, { rest := [], eof := true, fail := s.rest.isEmpty })

theorem lined (s : Console) : Lined s s.getline := by
  unfold getline
  by_cases hgood : s.good = true
  · rw [if_pos hgood]
    have hsplit := List.takeWhile_append_dropWhile (p := (· ≠ newline)) (l := s.rest)
    have hline : newline ∉ s.rest.takeWhile (· ≠ newline) := by
      intro hmem
      simpa using List.mem_takeWhile_imp hmem
    cases hdrop : s.rest.dropWhile (· ≠ newline) with
    | nil =>
      rw [hdrop, List.append_nil] at hsplit
      simp only [hsplit] at hline ⊢
      exact .last hgood hline
    | cons c rest =>
      have hc : c = newline := by simpa using not_of_dropWhile hdrop
      rw [hdrop, hc] at hsplit
      exact .line hgood hline hsplit.symm
  · rw [if_neg hgood]
    exact .refused (Bool.not_eq_true _ ▸ hgood)

/-- What the sentry of the extraction operators can do. -/
inductive Skipped (s : Console) : Bool × Console → Prop
  | refused {s' : Console} (hfail : s'.fail = true) : Skipped s (false, s')
  | skipped {c : UInt8} {spaces rest : Bytes} (hgood : s.good = true)
      (hspaces : ∀ c ∈ spaces, isSpace c = true) (hc : isSpace c = false)
      (hrest : s.rest = spaces ++ c :: rest) : Skipped s (true, { s with rest := c :: rest })

theorem skipped (s : Console) : Skipped s s.skipSpaces := by
  unfold skipSpaces
  by_cases hgood : s.good = true
  · rw [if_pos hgood]
    have hsplit := List.takeWhile_append_dropWhile (p := isSpace) (l := s.rest)
    cases hdrop : s.rest.dropWhile isSpace with
    | nil => exact .refused rfl
    | cons c rest =>
      rw [hdrop] at hsplit
      exact .skipped hgood (fun c hc => List.mem_takeWhile_imp hc) (not_of_dropWhile hdrop)
        hsplit.symm
  · rw [if_neg hgood]
    exact .refused rfl

/-- A word is a nonempty piece of the input without spaces. -/
inductive Worded (s : Console) : Option Bytes × Console → Prop
  | refused {s' : Console} (hfail : s'.fail = true) : Worded s (none, s')
  | word {spaces word rest : Bytes} (hgood : s.good = true)
      (hspaces : ∀ c ∈ spaces, isSpace c = true) (hne : word ≠ [])
      (hword : ∀ c ∈ word, isSpace c = false) (hrest : s.rest = spaces ++ word ++ rest) :
      Worded s (some word, { s with rest, eof := rest.isEmpty })

theorem worded (s : Console) : Worded s s.readWord := by
  unfold readWord
  have hskip := skipped s
  generalize s.skipSpaces = r at hskip ⊢
  cases hskip with
  | refused hfail => exact .refused hfail
  | @skipped c spaces rest hgood hspaces hc hrest =>
    have hsplit := List.takeWhile_append_dropWhile (p := (!isSpace ·)) (l := c :: rest)
    refine @Worded.word s spaces _ _ hgood hspaces ?_ ?_ ?_
    · simp [hc]
    · intro c' hc'
      simpa using List.mem_takeWhile_imp hc'
    · rw [hrest, List.append_assoc, hsplit]

theorem fail_of_readInt (h : s.readInt.1 = none) : s.readInt.2.fail = true := by
  unfold readInt at h ⊢
  have hskip := skipped s
  generalize s.skipSpaces = r at hskip h ⊢
  cases hskip with
  | refused hfail => exact hfail
  | skipped => cases h

theorem fail_of_readWord (h : s.readWord.1 = none) : s.readWord.2.fail = true := by
  have hword := worded s
  generalize s.readWord = r at hword h ⊢
  cases hword with
  | refused hfail => exact hfail
  | word => cases h

end Readings
end Console
end Dotchat
