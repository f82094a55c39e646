/-!
# Saturating addition

Values and differences are 64-bit integers. A sum outside their range is replaced by the nearest end
of the range: `toInt_add` says so in integers.
-/

namespace CompactRinex.Saturating

/-- The sum, or the nearest end of the 64-bit range. -/
def add (a b : Int64) : Int64 := Int64.ofIntClamp (a.toInt + b.toInt)

/-- Clamping leaves an integer of the 64-bit range alone and takes any other to the nearest end. -/
theorem toInt_ofIntClamp (z : Int) :
    (Int64.ofIntClamp z).toInt = max Int64.minValue.toInt (min z Int64.maxValue.toInt) := by
  have hle : Int64.minValue.toInt ≤ Int64.maxValue.toInt := by decide
  unfold Int64.ofIntClamp
  split
  · split
    · rw [Int64.toInt_ofIntLE]; omega
    · omega
  · omega

/-- The sum stops at the least and at the greatest number. -/
theorem toInt_add (a b : Int64) :
    (add a b).toInt =
      max Int64.minValue.toInt (min (a.toInt + b.toInt) Int64.maxValue.toInt) :=
  toInt_ofIntClamp _

end CompactRinex.Saturating
