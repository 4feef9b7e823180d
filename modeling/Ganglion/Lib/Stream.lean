import Mathlib.Data.List.Basic
import Mathlib.Order.Basic

/-!
# Reading from a stream of bytes

* `take?` takes exactly `n` bytes off a stream, or fails; what precedes a stream decides it (`take?_append`).
* `be32` is a 32-bit number as four bytes, most significant first, and `ofBe32` reads it back.
-/

namespace Stream

/-- The first `n` bytes and what follows, if there are so many. -/
def take? (n : Nat) (s : List UInt8) : Option (List UInt8 × List UInt8) :=
  if n ≤ s.length then some (s.take n, s.drop n) else none

theorem take?_append {n : Nat} {xs : List UInt8} (h : xs.length = n) (rest : List UInt8) :
    take? n (xs ++ rest) = some (xs, rest) := by
  subst h
  rw [take?, if_pos (by simp), List.take_left, List.drop_left]

theorem take?_short {n : Nat} {s : List UInt8} (h : s.length < n) : take? n s = none := if_neg (by omega)

/-! ## Big-endian numbers -/

/-- `u32::to_be_bytes`. -/
def be32 (n : UInt32) : List UInt8 :=
  [UInt8.ofNat (n.toNat / 0x1000000), UInt8.ofNat (n.toNat / 0x10000), UInt8.ofNat (n.toNat / 0x100),
    UInt8.ofNat n.toNat]

/-- `u32::from_be_bytes`. -/
def ofBe32 (bytes : List UInt8) : UInt32 := UInt32.ofNat (bytes.foldl (fun n b => n * 0x100 + b.toNat) 0)

@[simp] theorem length_be32 (n : UInt32) : (be32 n).length = 4 := rfl

@[simp] theorem ofBe32_be32 (n : UInt32) : ofBe32 (be32 n) = n := by
  have hn : n.toNat < 0x100000000 := n.toNat_lt
  have hvalue : (be32 n).foldl (fun n b => n * 0x100 + b.toNat) 0 = n.toNat := by
    simp only [be32, List.foldl_cons, List.foldl_nil, UInt8.toNat_ofNat']
    omega
  rw [ofBe32, hvalue, UInt32.ofNat_toNat]

end Stream
