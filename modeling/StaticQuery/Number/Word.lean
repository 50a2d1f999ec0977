/-!
Integers that fit machine words. The bounds are written out as numbers.
-/

namespace StaticQuery

def int32Bound : Nat :=
  2147483648

def int64Bound : Nat :=
  9223372036854775808

def uint64Bound : Nat :=
  18446744073709551616

def fitsInt32 (value : Int) : Bool :=
  -int32Bound ≤ value && value < int32Bound

structure Integer64 where
  value : Int
  lower : -int64Bound ≤ value
  upper : value < uint64Bound
deriving DecidableEq

namespace Integer64

def ofInt? (value : Int) : Option Integer64 :=
  if bounds : -int64Bound ≤ value ∧ value < uint64Bound then some ⟨value, bounds.1, bounds.2⟩
  else none

def ofSigned? (value : Int) : Option Integer64 :=
  if value < int64Bound then ofInt? value else none

theorem ofInt?_value (integer : Integer64) : ofInt? integer.value = some integer :=
  dif_pos (And.intro integer.lower integer.upper)

theorem value_of_ofInt? {value : Int} {integer : Integer64} (found : ofInt? value = some integer) :
    integer.value = value := by
  unfold ofInt? at found
  split at found
  · cases found; rfl
  · cases found

end Integer64

end StaticQuery
