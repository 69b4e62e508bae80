import Refinement.Power

/-!
# Machine integers

The integer types of fixed width. `IntKind.Val k` is an integer within the bounds of `k`, so no
operation has to check them again.

* `IntKind.ofInt?`: the integers that a type can hold.
* `IntKind.wrap`: arithmetic wraps around at the ends of the type.
* `IntKind.wrap_toInt`: an integer within the bounds is left alone.
-/

namespace Refinement

/-- A type of machine integers. The two size types are 64 bits wide. -/
inductive IntKind where
  | i8 | i16 | i32 | i64 | i128 | isize
  | u8 | u16 | u32 | u64 | u128 | usize
deriving DecidableEq, Repr

namespace IntKind

/-- The number of bits. -/
def bits : IntKind → Nat
  | .i8 | .u8 => 8
  | .i16 | .u16 => 16
  | .i32 | .u32 => 32
  | .i64 | .u64 | .isize | .usize => 64
  | .i128 | .u128 => 128

/-- Whether the type has negative members. -/
def signed : IntKind → Bool
  | .i8 | .i16 | .i32 | .i64 | .i128 | .isize => true
  | .u8 | .u16 | .u32 | .u64 | .u128 | .usize => false

/-- The name of the type. -/
def name : IntKind → String
  | .i8 => "i8" | .i16 => "i16" | .i32 => "i32" | .i64 => "i64" | .i128 => "i128"
  | .isize => "isize"
  | .u8 => "u8" | .u16 => "u16" | .u32 => "u32" | .u64 => "u64" | .u128 => "u128"
  | .usize => "usize"

/-- All integer types. -/
def all : List IntKind :=
  [.i8, .i16, .i32, .i64, .i128, .isize, .u8, .u16, .u32, .u64, .u128, .usize]

/-- The number of members. -/
def modulus (k : IntKind) : Int := twoTo k.bits

/-- The least member. -/
def min (k : IntKind) : Int := if k.signed then -(twoTo (k.bits - 1)) else 0

/-- The greatest member. -/
def max (k : IntKind) : Int := k.min + k.modulus - 1

theorem min_nonpos (k : IntKind) : k.min ≤ 0 := by cases k <;> decide

theorem max_nonneg (k : IntKind) : 0 ≤ k.max := by cases k <;> decide

theorem modulus_pos (k : IntKind) : 0 < k.modulus := by cases k <;> decide

/-- A member of an integer type. -/
structure Val (k : IntKind) where
  /-- The integer itself. -/
  toInt : Int
  /-- It is not below the least member. -/
  min_le : k.min ≤ toInt
  /-- It is not above the greatest member. -/
  le_max : toInt ≤ k.max
deriving DecidableEq

variable {k : IntKind}

theorem Val.ext {a b : k.Val} (h : a.toInt = b.toInt) : a = b := by
  cases a; cases b; simp_all

/-- The member with this value, if the type has it. -/
def ofInt? (k : IntKind) (n : Int) : Option k.Val :=
  if h : k.min ≤ n ∧ n ≤ k.max then some ⟨n, h.1, h.2⟩ else none

/-- The member that is congruent to `n` modulo the number of members. -/
def wrap (k : IntKind) (n : Int) : k.Val where
  toInt := k.min + (n - k.min) % k.modulus
  min_le := by
    have := Int.emod_nonneg (n - k.min) (Int.ne_of_gt k.modulus_pos)
    omega
  le_max := by
    have := Int.emod_lt_of_pos (n - k.min) k.modulus_pos
    simp only [max]
    omega

/-- The member zero. -/
def zero (k : IntKind) : k.Val := ⟨0, k.min_nonpos, k.max_nonneg⟩

instance : Inhabited k.Val := ⟨k.zero⟩

/-- The value read as an unsigned number of the same width. -/
def Val.toUnsigned (v : k.Val) : Nat := (v.toInt % k.modulus).toNat

/-- The members in their natural order. -/
def Val.compare (a b : k.Val) : Ordering := Ord.compare a.toInt b.toInt

theorem wrap_toInt (v : k.Val) : k.wrap v.toInt = v := by
  apply Val.ext
  have h : (v.toInt - k.min) % k.modulus = v.toInt - k.min := by
    apply Int.emod_eq_of_lt
    · have := v.min_le; omega
    · have := v.le_max; simp only [max] at this; omega
  simp only [wrap, h]
  omega

theorem ofInt?_toInt (v : k.Val) : k.ofInt? v.toInt = some v := by
  simp [ofInt?, v.min_le, v.le_max]

theorem ofInt?_eq_some_iff {n : Int} {v : k.Val} : k.ofInt? n = some v ↔ v.toInt = n := by
  constructor
  · intro h
    simp only [ofInt?] at h
    split at h
    · cases h; rfl
    · cases h
  · rintro rfl; exact ofInt?_toInt v

end IntKind

end Refinement
