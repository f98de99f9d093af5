import Mathlib.Data.Rat.Defs
import Mathlib.Algebra.Order.Ring.Rat

/-!
# Records of `session1`

The tick record and the bar records that the router, the bar engine and the
analytics of `session1` share. Prices and ratios are exact rationals, 64-bit
counts and timestamps are integers, and the 32-bit volumes of a level are
integers reduced by `wrap32` wherever the code adds or casts them.
-/
namespace SessionTypes

/-- The value of an integer in a signed 32-bit word. -/
def wrap32 (n : Int) : Int := n.bmod (2 ^ 32)

theorem wrap32_add_wrap32 (a b : Int) : wrap32 (wrap32 a + wrap32 b) = wrap32 (a + b) := by
  simp [wrap32]

theorem wrap32_sub_wrap32 (a b : Int) : wrap32 (wrap32 a - wrap32 b) = wrap32 (a - b) := by
  simp [wrap32]

theorem wrap32_of_small {n : Int} (hlo : -(2 ^ 31) ≤ n) (hhi : n < 2 ^ 31) : wrap32 n = n :=
  Int.bmod_eq_of_le (by simpa using hlo) (by simpa using hhi)

theorem wrap32_lt (n : Int) : wrap32 n < 2 ^ 31 := Int.bmod_lt (by decide)

theorem le_wrap32 (n : Int) : -(2 ^ 31) ≤ wrap32 n := Int.le_bmod (by decide)

/-- A number that is not negative keeps its value only below `2^31`, and else loses some. -/
theorem wrap32_eq_iff {n : Int} (h : 0 ≤ n) : wrap32 n = n ↔ n < 2 ^ 31 := by
  constructor
  · intro heq
    rw [← heq]
    exact wrap32_lt n
  · intro hlt
    exact wrap32_of_small (by omega) hlt

theorem wrap32_le {n : Int} (h : 0 ≤ n) : wrap32 n ≤ n := by
  by_cases hlt : n < 2 ^ 31
  · exact ((wrap32_eq_iff h).mpr hlt).le
  · have hwrap := wrap32_lt n
    omega

/-- `std::abs` of a signed 32-bit word. The least word has no absolute value there and stays
what it is. -/
def abs32 (n : Int) : Int := wrap32 |n|

@[simp] theorem abs32_zero : abs32 0 = 0 := by decide

@[simp] theorem abs32_neg (n : Int) : abs32 (-n) = abs32 n := by rw [abs32, abs_neg, abs32]

@[simp] theorem abs32_least : abs32 (-(2 ^ 31)) = -(2 ^ 31) := by decide

theorem abs32_of_ne {n : Int} (hlo : -(2 ^ 31) ≤ n) (hhi : n < 2 ^ 31) (hne : n ≠ -(2 ^ 31)) :
    abs32 n = |n| := by
  have hnonneg := abs_nonneg n
  exact wrap32_of_small (by omega) (abs_lt.mpr ⟨lt_of_le_of_ne hlo hne.symm, hhi⟩)

inductive TickSide where
  | ask | bid | unknown
  deriving DecidableEq, Repr

inductive TickType where
  | trade | bidQuote | askQuote | summary
  deriving DecidableEq, Repr

structure UniversalTickRecord where
  exchangeTsNs : Int
  price : Rat
  volume : Int
  symbolId : UInt32
  side : TickSide
  tickType : TickType
  deriving DecidableEq, Repr

def UniversalTickRecord.isAccumulatable (tick : UniversalTickRecord) : Bool :=
  decide (tick.tickType = .trade) && decide (tick.side ≠ .unknown)

inductive BarType where
  | time | range | volume
  deriving DecidableEq, Repr

structure BarSize where
  type : BarType
  sizeValue : UInt32
  deriving DecidableEq, Repr

/-- The label in a bar's id; a volume of a thousand or more is printed in
thousands, rounded down. -/
def BarSize.label (size : BarSize) : String :=
  match size.type with
  | .time =>
    if size.sizeValue % 3600 = 0 then toString (size.sizeValue / 3600) ++ "h"
    else if size.sizeValue % 60 = 0 then toString (size.sizeValue / 60) ++ "m"
    else toString size.sizeValue ++ "s"
  | .range => toString size.sizeValue ++ "-range"
  | .volume =>
    if size.sizeValue ≥ 1000 then toString (size.sizeValue / 1000) ++ "K-vol"
    else toString size.sizeValue ++ "-vol"

def BarSize.isValid (size : BarSize) : Bool :=
  if size.sizeValue = 0 then false
  else match size.type with
    | .time => decide (size.sizeValue ≥ 5) && decide (size.sizeValue ≤ 31 * 24 * 3600)
    | .range => decide (size.sizeValue ≥ 1) && decide (size.sizeValue ≤ 500)
    | .volume => decide (size.sizeValue ≥ 50) && decide (size.sizeValue ≤ 1000000)

/-- A value-initialised level is all zeros. -/
structure PriceLevelRecord where
  price : Rat := 0
  bidVol : Int := 0
  askVol : Int := 0
  totalVol : Int := 0
  delta : Int := 0
  isBuyImbalance : Bool := false
  isSellImbalance : Bool := false
  isPoc : Bool := false
  deriving DecidableEq, Repr

/-- `openPrice` is the source's `open`. -/
structure BarRecord where
  barId : String := ""
  symbolId : UInt32 := 0
  symbol : String := ""
  barSize : BarSize
  openPrice : Rat := 0
  high : Rat := 0
  low : Rat := 0
  close : Rat := 0
  totalVolume : Int := 0
  barOpenTsNs : Int := 0
  barCloseTsNs : Int := 0
  barDelta : Int := 0
  maxDelta : Int := 0
  minDelta : Int := 0
  cumulativeDelta : Int := 0
  deltaPct : Rat := 0
  pocPrice : Rat := 0
  cotPrice : Rat := 0
  pocVolume : Int := 0
  isBullish : Bool := false
  isComplete : Bool := false
  hasBuyImbalance : Bool := false
  hasSellImbalance : Bool := false
  hasAbsorption : Bool := false
  priceLevels : List PriceLevelRecord := []
  deriving DecidableEq, Repr

end SessionTypes
