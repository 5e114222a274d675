import Btclib.Python

/-!
# The `datetime` values of a block header

`BlockHeader.time` is a `datetime`. The header code reads four things of it:
`timestamp()` (compared with the genesis time and truncated by `int`),
`datetime.fromtimestamp(t, timezone.utc)` (which builds it when parsing),
`==` (the dataclass equality), and `str` (in an error message).

**Model.** A `Datetime` is the whole seconds of its POSIX timestamp, its
microseconds, and whether it is timezone-aware. For an aware value this is its
instant; for a naive value, `timestamp()` reads it in the machine's local zone,
and `seconds` is that reading. Equality on this record is Python's `==`: two
aware values are equal when they denote the same instant, an aware value never
equals a naive one, and two naive values are equal when their local readings
are.

`timestamp()` is a float, `seconds + microsecond / 10^6`. For the values a
header can hold it has enough precision that `int(timestamp())` is that
number truncated toward zero (`intTimestamp`), and that comparing it with an
integer compares `seconds`.

**Results.**
* `fromtimestampUtc_of_mem`: `fromtimestamp(t, timezone.utc)` of a timestamp
  of the years 1 to 9999 is the aware value with `t` seconds.
* `intTimestamp_of_microsecond`: with no microseconds, `int(timestamp())`
  reads the seconds back.
-/

namespace Btclib
namespace Blocks

/-- A `datetime`, as the header code reads it. -/
structure Datetime where
  seconds : Int
  microsecond : Fin 1000000
  aware : Bool
deriving DecidableEq, Repr

namespace Datetime

/-- `datetime.fromtimestamp(0)`: the naive local time of the epoch, the default
of `BlockHeader.time`. -/
def epochLocal : Datetime :=
  ⟨0, 0, false⟩

/-- `int(t.timestamp())`: the timestamp truncated toward zero. -/
def intTimestamp (t : Datetime) : Int :=
  if t.seconds < 0 ∧ t.microsecond ≠ 0 then t.seconds + 1 else t.seconds

/-- `t.timestamp() < x` for an integer `x`. -/
def timestampLt (t : Datetime) (x : Int) : Bool :=
  t.seconds < x

end Datetime

/-- The proleptic Gregorian (year, month, day) of a count of days from
1970-01-01 (the civil-from-days algorithm). -/
def civilFromDays (days : Int) : Int × Nat × Nat :=
  let z := days + 719468
  let era := z / 146097
  let doe := (z - era * 146097).toNat
  let yoe := (doe - doe / 1460 + doe / 36524 - doe / 146096) / 365
  let doy := doe - (365 * yoe + yoe / 4 - yoe / 100)
  let mp := (5 * doy + 2) / 153
  let day := doy - (153 * mp + 2) / 5 + 1
  let month := if mp < 10 then mp + 3 else mp - 9
  let year := (yoe : Int) + era * 400
  (if month ≤ 2 then year + 1 else year, month, day)

/-- The decimal digits of `n`, padded with zeros to `width`. -/
def zeroPad (n width : Nat) : String :=
  let s := toString n
  String.mk (List.replicate (width - s.length) '0') ++ s

/-- `str(d)` of an aware UTC value: `YYYY-MM-DD HH:MM:SS[.ffffff]+00:00`. -/
def Datetime.strUtc (d : Datetime) : String :=
  let (year, month, day) := civilFromDays (d.seconds / 86400)
  let s := (d.seconds % 86400).toNat
  zeroPad year.toNat 4 ++ "-" ++ zeroPad month 2 ++ "-" ++ zeroPad day 2 ++ " " ++
    zeroPad (s / 3600) 2 ++ ":" ++ zeroPad (s / 60 % 60) 2 ++ ":" ++ zeroPad (s % 60) 2 ++
    (if d.microsecond ≠ 0 then "." ++ zeroPad d.microsecond 6 else "") ++ "+00:00"

example : Datetime.strUtc ⟨1231006505, 0, true⟩ = "2009-01-03 18:15:05+00:00" := by
  decide

/-- The POSIX seconds of 0001-01-01 00:00:00 UTC. -/
def minSeconds : Int := -62135596800

/-- The POSIX seconds of 9999-12-31 23:59:59 UTC. -/
def maxSeconds : Int := 253402300799

/-- `datetime.fromtimestamp(seconds + microsecond / 10^6, timezone.utc)`:
raises `ValueError` outside the years 1 to 9999. -/
def fromtimestampUtc (seconds : Int) (microsecond : Fin 1000000) : Except PyExc Datetime :=
  if seconds < minSeconds ∨ maxSeconds < seconds then
    .error (.valueError ("year " ++ toString (civilFromDays (seconds / 86400)).1 ++
      " is out of range"))
  else .ok ⟨seconds, microsecond, true⟩

theorem fromtimestampUtc_of_mem {seconds : Int} (h0 : minSeconds ≤ seconds)
    (h1 : seconds ≤ maxSeconds) (microsecond : Fin 1000000) :
    fromtimestampUtc seconds microsecond = .ok ⟨seconds, microsecond, true⟩ := by
  simp [fromtimestampUtc, not_lt.2 h0, not_lt.2 h1]

/-- With no microseconds, `int(timestamp())` is the seconds. -/
theorem intTimestamp_of_microsecond {t : Datetime} (h : t.microsecond = 0) :
    t.intTimestamp = t.seconds := by
  simp [Datetime.intTimestamp, h]

/-- An aware value with no microseconds is rebuilt from `int(timestamp())`. -/
theorem Datetime.mk_intTimestamp {t : Datetime} (ha : t.aware = true) (hu : t.microsecond = 0) :
    (⟨t.intTimestamp, 0, true⟩ : Datetime) = t := by
  rw [intTimestamp_of_microsecond hu, ← hu, ← ha]

end Blocks
end Btclib
