import Mathlib.Data.BitVec
import Mathlib.Tactic.IntervalCases
import Mathlib.Tactic.Ring

/-!
Identifiers of rows and their text, as the `uuid` crate prints and reads it:
32 lowercase hexadecimal digits in groups of 8, 4, 4, 4 and 12. Reading also
accepts the plain, braced and URN spellings and digits of either case.
-/
namespace HostletCore

abbrev Uuid := BitVec 128

instance : LawfulBEq Uuid := inferInstance

def hexDigit (n : Nat) : Char := "0123456789abcdef".toList.getD n '0'

def hexValue (c : Char) : Option Nat :=
  if '0' ≤ c ∧ c ≤ '9' then some (c.toNat - '0'.toNat)
  else if 'a' ≤ c ∧ c ≤ 'f' then some (c.toNat - 'a'.toNat + 10)
  else if 'A' ≤ c ∧ c ≤ 'F' then some (c.toNat - 'A'.toNat + 10)
  else none

/-- The last `k` hexadecimal digits of `n`. -/
def hexText : Nat → Nat → List Char
  | 0, _ => []
  | k + 1, n => hexText k (n / 16) ++ [hexDigit (n % 16)]

def hexNumber (digits : List Char) : Option Nat :=
  digits.foldlM (fun acc c => (hexValue c).map fun v => acc * 16 + v) 0

def group (digits : List Char) : List Char :=
  digits.take 8 ++ '-' :: (digits.drop 8).take 4 ++ '-' :: (digits.drop 12).take 4 ++
    '-' :: (digits.drop 16).take 4 ++ '-' :: digits.drop 20

/-- `Display` of a uuid. -/
def hyphenated (u : Uuid) : List Char := group (hexText 32 u.toNat)

def uuidText (u : Uuid) : String := String.ofList (hyphenated u)

def parseSimple (text : List Char) : Option Uuid :=
  if text.length = 32 then (hexNumber text).map (BitVec.ofNat 128) else none

def parseHyphenated (text : List Char) : Option Uuid :=
  let digits := text.take 8 ++ (text.drop 9).take 4 ++ (text.drop 14).take 4 ++
    (text.drop 19).take 4 ++ text.drop 24
  if text = group digits then parseSimple digits else none

/-- `Uuid::parse_str`. -/
def parseUuid (text : List Char) : Option Uuid :=
  match text.length with
  | 32 => parseSimple text
  | 36 => parseHyphenated text
  | 38 => if text.head? = some '{' ∧ text.getLast? = some '}'
      then parseHyphenated (text.tail.take 36) else none
  | 45 => if text.take 9 = "urn:uuid:".toList then parseHyphenated (text.drop 9) else none
  | _ => none

theorem hexValue_hexDigit {n : Nat} (small : n < 16) : hexValue (hexDigit n) = some n := by
  interval_cases n <;> rfl

@[simp] theorem hexText_length (k n : Nat) : (hexText k n).length = k := by
  induction k generalizing n with
  | zero => rfl
  | succ k ih => simp [hexText, ih]

theorem hexNumber_hexText (k n : Nat) : hexNumber (hexText k n) = some (n % 16 ^ k) := by
  induction k generalizing n with
  | zero => simp [hexText, hexNumber, Nat.mod_one]
  | succ k ih =>
    have prior : List.foldlM (fun acc c => (hexValue c).map fun v => acc * 16 + v) 0
        (hexText k (n / 16)) = some (n / 16 % 16 ^ k) := ih (n / 16)
    have digit := hexValue_hexDigit (Nat.mod_lt n (by decide : 0 < 16))
    have whole : n / 16 % 16 ^ k * 16 + n % 16 = n % 16 ^ (k + 1) := by
      rw [pow_succ, Nat.mul_comm (16 ^ k) 16, Nat.mod_mul]
      omega
    rw [hexNumber, hexText, List.foldlM_append, prior, ← whole]
    simp [digit]

theorem group_length {digits : List Char} (full : digits.length = 32) : (group digits).length = 36 := by
  simp [group, full]

theorem parseSimple_hexText (u : Uuid) : parseSimple (hexText 32 u.toNat) = some u := by
  have bounded : u.toNat % 16 ^ 32 = u.toNat := Nat.mod_eq_of_lt (by
    have := u.isLt
    norm_num at this ⊢
    exact this)
  rw [parseSimple, if_pos (hexText_length 32 _), hexNumber_hexText, bounded]
  simp

theorem parseHyphenated_group {digits : List Char} (full : digits.length = 32) :
    parseHyphenated (group digits) = parseSimple digits := by
  obtain ⟨a, b, c, d, e, whole, la, lb, lc, ld⟩ : ∃ a b c d e : List Char,
      digits = a ++ (b ++ (c ++ (d ++ e))) ∧ a.length = 8 ∧ b.length = 4 ∧ c.length = 4 ∧
        d.length = 4 := by
    refine ⟨digits.take 8, (digits.drop 8).take 4, (digits.drop 12).take 4, (digits.drop 16).take 4,
      digits.drop 20, ?_, ?_, ?_, ?_, ?_⟩
    · have split (n m : Nat) : digits.drop n = (digits.drop n).take m ++ digits.drop (n + m) := by
        rw [← List.drop_drop, List.take_append_drop]
      rw [← split 16 4, ← split 12 4, ← split 8 4, List.take_append_drop]
    all_goals simp [full]
  have grouped : group digits = a ++ '-' :: (b ++ '-' :: (c ++ '-' :: (d ++ '-' :: e))) := by
    subst whole
    simp (disch := omega) [group, List.drop_append, List.drop_of_length_le, la, lb, lc]
  have joined : (group digits).take 8 ++ ((group digits).drop 9).take 4 ++
      ((group digits).drop 14).take 4 ++ ((group digits).drop 19).take 4 ++ (group digits).drop 24 =
      digits := by
    rw [grouped, whole]
    simp (disch := omega) [List.drop_append, List.drop_of_length_le, la, lb, lc, ld]
  simp only [parseHyphenated, joined, if_true]

theorem parseUuid_hyphenated (u : Uuid) : parseUuid (hyphenated u) = some u := by
  have digits := hexText_length 32 u.toNat
  have length : (hyphenated u).length = 36 := group_length digits
  simp only [parseUuid, length]
  rw [hyphenated, parseHyphenated_group digits, parseSimple_hexText]

theorem hyphenated_injective {u v : Uuid} (same : hyphenated u = hyphenated v) : u = v := by
  have read := parseUuid_hyphenated u
  rw [same, parseUuid_hyphenated v] at read
  exact (Option.some.inj read).symm

end HostletCore
