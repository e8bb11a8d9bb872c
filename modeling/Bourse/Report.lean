import Bourse.Word

/-!
# Tier reports

A report holds one time for each of eight tiers: the time since which the tier has been held. Packed
in a word, tier `n` takes the bits from `32 * (n - 1)` up to `32 * n`. Packing and unpacking are
inverse to each other, so a report is its eight times and nothing else.
-/

namespace Bourse

/-- A time in seconds. -/
abbrev Time := UInt32

/-- The time of a tier that was never reached. -/
def Time.never : Time := 0xFFFFFFFF

/-- A time as a word. -/
def Time.toWord (t : Time) : Word := ⟨t.toNat, Nat.lt_trans t.toNat_lt (by decide)⟩

/-- The times of the eight tiers, lowest tier first. -/
structure Report where
  times : Vector Time 8
  deriving DecidableEq

namespace Report

/-- The number of tiers. -/
def tiers : Nat := 8

/-- The number with the given digits in base `2 ^ 32`, lowest first. -/
def digitsValue (times : List Time) : Nat :=
  times.foldr (fun t value => t.toNat + UInt32.size * value) 0

/-- Each time takes 32 bits. -/
theorem digitsValue_lt (times : List Time) : digitsValue times < 1 <<< (32 * times.length) := by
  induction times with
  | nil => exact Nat.one_pos
  | cons t times ih =>
    have ht := t.toNat_lt
    have hvalue : digitsValue (t :: times) = t.toNat + 4294967296 * digitsValue times := rfl
    rw [hvalue, List.length_cons, Nat.mul_succ, Nat.shiftLeft_add]
    omega

/-- Unpack a report. -/
def ofWord (w : Word) : Report :=
  ⟨Vector.ofFn fun tier => UInt32.ofNat (w.toNat >>> (32 * tier.val))⟩

/-- Pack a report. -/
def toWord (r : Report) : Word :=
  ⟨digitsValue r.times.toList, by
    have h := digitsValue_lt r.times.toList
    rw [Vector.length_toList] at h
    exact h⟩

/-- The time since which a tier has been held. Tier zero is always held, and there is no tier above
the eighth. -/
def timeAt (r : Report) (tier : Nat) : Time :=
  if tier = 0 then 0 else (r.times[tier - 1]?).getD Time.never

/-- Set the time of every tier above `start` up to `stop`. -/
def setRange (r : Report) (start stop : Nat) (time : Time) : Report :=
  ⟨r.times.mapIdx fun tier old => if start ≤ tier ∧ tier < stop then time else old⟩

/-- The differences of the times, tier by tier, with zero in place of a negative one. -/
def elapsed (newer older : Report) : Report :=
  ⟨Vector.zipWith (fun n o => if o ≤ n then n - o else 0) newer.times older.times⟩

/-- Which reports must have reached a tier for the selection to have it. -/
inductive Quorum where
  /-- All of them. -/
  | every
  /-- At least one. -/
  | any
  deriving DecidableEq, Repr

/-- Which of the matching times is selected. -/
inductive Choice where
  /-- The earliest. -/
  | min
  /-- The latest. -/
  | max
  /-- The one of the first matching report. -/
  | first
  deriving DecidableEq, Repr

/-- The number that stands for a quorum. -/
def Quorum.code : Quorum → Nat
  | .every => 0
  | .any => 1

/-- The quorum that a number stands for. -/
def Quorum.ofCode? : Nat → Option Quorum
  | 0 => some .every
  | 1 => some .any
  | _ => none

/-- The name of a quorum. -/
def Quorum.text : Quorum → String
  | .every => "every"
  | .any => "any"

/-- The number that stands for a choice. -/
def Choice.code : Choice → Nat
  | .min => 0
  | .max => 1
  | .first => 2

/-- The choice that a number stands for. -/
def Choice.ofCode? : Nat → Option Choice
  | 0 => some .min
  | 1 => some .max
  | 2 => some .first
  | _ => none

/-- The name of a choice. -/
def Choice.text : Choice → String
  | .min => "min"
  | .max => "max"
  | .first => "first"

/-- Take one more matching time into account. -/
def Choice.combine (choice : Choice) (selected : Option Time) (time : Time) : Time :=
  match selected with
  | none => time
  | some previous =>
    match choice with
    | .min => if previous ≤ time then previous else time
    | .max => if previous ≤ time then time else previous
    | .first => previous

/-- Scan the times of one tier in report order. A time later than the reference ends the scan with
nothing when every report is needed, and is passed over otherwise. -/
def scan (quorum : Quorum) (choice : Choice) (reference : Time) :
    (selected : Option Time) → List Time → Option Time
  | selected, [] => selected
  | selected, time :: times =>
    if time ≤ reference then
      scan quorum choice reference (some (choice.combine selected time)) times
    else
      match quorum with
      | .every => none
      | .any => scan quorum choice reference selected times

/-- For every tier, the chosen one of the times not later than the reference. -/
def select (reports : List Report) (reference : Time) (quorum : Quorum) (choice : Choice) :
    Report :=
  ⟨Vector.ofFn fun tier =>
    (scan quorum choice reference none (reports.map fun r => r.times[tier])).getD Time.never⟩

end Report

end Bourse
