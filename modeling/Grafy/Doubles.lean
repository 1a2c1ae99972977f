import Grafy.CanonicalJson

/-!
JSON values as JSON.parse gives them. Every number becomes a double: an integer
is rounded to the nearest, in a tie to the one with the even significand, and
beyond the greatest there is only infinity. The literal of a float names the
double it is read as.
-/
namespace Grafy.CanonicalJson

/-- The nearest number of at most 53 significant bits. -/
def roundedNat (n : ℕ) : ℕ :=
  let unit := 2 ^ (n.log2 - 52)
  if unit < 2 * (n % unit) ∨ (2 * (n % unit) = unit ∧ n / unit % 2 = 1) then (n / unit + 1) * unit
  else n / unit * unit

/-- The numbers from two to this power on are infinite. -/
def maxExponent : ℕ := 1024

@[irreducible] def overflow : ℕ := 2 ^ maxExponent

/-- The double an integer is read as, where it is finite. -/
def nearestDouble (n : ℤ) : Option ℤ :=
  if roundedNat n.natAbs < overflow then some (n.sign * roundedNat n.natAbs) else none

def infinite (negative : Bool) : FloatLiteral :=
  if negative then
    ⟨"-Infinity".toList, by simp [isNumberChar], ⟨'I', by simp, rfl⟩, ⟨'-', _, rfl, rfl⟩⟩
  else ⟨"Infinity".toList, by simp [isNumberChar], ⟨'I', by simp, rfl⟩, ⟨'I', _, rfl, rfl⟩⟩

mutual

def parsedJson : Json → Json
  | .int n => ((nearestDouble n).map Json.int).getD (.float (infinite (n < 0)))
  | .arr items => .arr (parsedJsonItems items)
  | .obj members => .obj (parsedJsonMembers members)
  | value => value

def parsedJsonItems : List Json → List Json
  | [] => []
  | value :: rest => parsedJson value :: parsedJsonItems rest

def parsedJsonMembers : List (String × Json) → List (String × Json)
  | [] => []
  | (name, value) :: rest => (name, parsedJson value) :: parsedJsonMembers rest

end

theorem roundedNat_of_lt {n : ℕ} (h : n < 2 ^ 53) : roundedNat n = n := by
  have hunit : n.log2 - 52 = 0 := by
    by_cases hzero : n = 0
    · simp [hzero]
    · have hlog := (Nat.log2_lt hzero).mpr h
      omega
  simp [roundedNat, hunit, Nat.mod_one]

theorem pow_le_overflow {k : ℕ} (h : k ≤ maxExponent) : 2 ^ k ≤ overflow := by
  unfold overflow
  exact Nat.pow_le_pow_right Nat.two_pos h

/-- Integers of at most 53 bits are doubles. -/
theorem nearestDouble_of_lt {n : ℤ} (h : n.natAbs < 2 ^ 53) : nearestDouble n = some n := by
  have hfinite : n.natAbs < overflow := h.trans_le (pow_le_overflow (by decide))
  rw [nearestDouble, roundedNat_of_lt h, if_pos hfinite, Int.sign_mul_natAbs]

example : nearestDouble 9007199254740993 = some 9007199254740992 := by decide +kernel

end Grafy.CanonicalJson
