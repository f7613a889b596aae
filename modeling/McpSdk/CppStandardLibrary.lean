import Mathlib.Data.List.AList
import Mathlib.Tactic.Linarith

/-!
# The parts of the C++ standard library the server is written with

A `std::string` is a sequence of bytes and is modelled by a list of characters, one for
each byte. `std::unordered_map` is an association list without repeated keys; the order
of its entries stands for the unspecified iteration order. `std::stoul` follows the
documented behaviour of `strtoul` in base ten: blanks, an optional sign, at least one
digit, then any trailing text. A time point of `steady_clock` is an integer number of
nanoseconds.
-/

namespace CppStandardLibrary

/-- A `std::string`, byte by byte. -/
abbrev Str := List Char

/-- `std::unordered_map<K, V>`. -/
abbrev UnorderedMap (K V : Type) := AList (fun _ : K => V)

/-- `duration_cast<seconds>(d).count()` of a duration in nanoseconds: truncation towards zero. -/
def secondsOf (d : Int) : Int := d.tdiv 1000000000

/-- A string literal with characters outside ASCII. -/
def literal (s : String) : Str := s.toUTF8.toList.map (fun b => Char.ofNat b.toNat)

/-- `std::to_string` of an unsigned number. -/
def toStr (n : ℕ) : Str := Nat.toDigits 10 n

/-- `s.find(c, pos)`, with `none` for `npos`. -/
def find (s : Str) (c : Char) (pos : ℕ) : Option ℕ :=
  ((s.drop pos).findIdx? (· == c)).map (· + pos)

/-- `s.substr(pos, n)`. -/
def substr (s : Str) (pos n : ℕ) : Str := (s.drop pos).take n

/-- `s.find(t) != npos` for a string `t`. -/
def containsText (s t : Str) : Bool := s.tails.any (t.isPrefixOf ·)

/-- `isspace` of the C locale. -/
def isSpace (c : Char) : Bool :=
  c == ' ' || c == '\t' || c == '\n' || c == '\x0b' || c == '\x0c' || c == '\r'

/-- The value of a run of decimal digits, most significant first. -/
def decimalValue (ds : Str) : ℕ := ds.foldl (fun v c => 10 * v + (c.toNat - '0'.toNat)) 0

/-- `std::stoul` on a 64-bit platform; `none` when it throws `invalid_argument` (no digits)
or `out_of_range`. A minus sign negates the number modulo `2 ^ 64`. -/
def stoul (s : Str) : Option ℕ :=
  let t := s.dropWhile isSpace
  let (negative, u) := match t with
    | '-' :: u => (true, u)
    | '+' :: u => (false, u)
    | u => (false, u)
  let ds := u.takeWhile Char.isDigit
  if ds = [] then none
  else if 2 ^ 64 ≤ decimalValue ds then none
  else if negative then some ((2 ^ 64 - decimalValue ds) % 2 ^ 64)
  else some (decimalValue ds)

theorem decimalValue_toStr (n : ℕ) : decimalValue (toStr n) = n := Nat.ofDigitChars_ten_toDigits

theorem toStr_ne_nil (n : ℕ) : toStr n ≠ [] := Nat.toDigits_ne_nil

theorem isDigit_of_mem_toStr {n : ℕ} {c : Char} (h : c ∈ toStr n) : c.isDigit :=
  Nat.isDigit_of_mem_toDigits (by decide) (by decide) h

theorem toNat_add_one_of_lt {a b : UInt32} (h : a < b) : (a + 1).toNat = a.toNat + 1 := by
  have hlt := UInt32.lt_iff_toNat_lt.mp h
  have hb := b.toNat_lt
  rw [UInt32.toNat_add]
  exact Nat.mod_eq_of_lt (by simpa using (by omega : a.toNat + 1 < 2 ^ 32))

end CppStandardLibrary
