import KeepAt.Binary64
import KeepAt.MachineInt

namespace KeepAt

def unitNames : List String := ["B", "KiB", "MiB", "GiB", "TiB", "PiB"]

def scaleUnits : Nat → F64 → Nat → F64 × Nat
  | 0, v, u => (v, u)
  | k + 1, v, u =>
    if ((1024 : Nat) : F64) ≤ v then scaleUnits k (v / ((1024 : Nat) : F64)) (u + 1) else (v, u)

/-- `{v:.1}`: the exact value to one decimal, a tie going to the even digit. -/
def formatTenths : F64 → String
  | .nan => "NaN"
  | .inf negative => if negative then "-inf" else "inf"
  | .fin q _ =>
    let tenths := (roundHalfEven (10 * |q|)).toNat
    (if q < 0 then "-" else "") ++ toString (tenths / 10) ++ "." ++ toString (tenths % 10)

def humanMagnitude (n : Nat) : String :=
  match scaleUnits (unitNames.length - 1) (n : F64) 0 with
  | (_, 0) => toString n ++ " B"
  | (v, u) => formatTenths v ++ " " ++ unitNames.getD u ""

/-- `human_bytes` to a recursion depth. The negation wraps, so `i64::MIN` calls itself. -/
def humanBytesFuel : Nat → Int → Option String
  | 0, _ => none
  | depth + 1, n =>
    if n < 0 then (humanBytesFuel depth (asI64 (-n % 2 ^ 64).toNat)).map ("-" ++ ·)
    else some (humanMagnitude n.toNat)

/-- `none` when the recursion never ends. -/
def humanBytes (n : Int) : Option String := humanBytesFuel 2 n

def humanBytesText (n : Nat) : String := (humanBytes (asI64 n)).getD ""

def durationParts : List (Nat × String) := [(86400, "d"), (3600, "h"), (60, "m"), (1, "s")]

def appendPart (acc : String × Nat) (part : Nat × String) : String × Nat :=
  let q := acc.2 / part.1
  (if q > 0 ∨ acc.1 ≠ "" then acc.1 ++ toString q ++ part.2 else acc.1, acc.2 % part.1)

/-- `human_duration`, of a duration in nanoseconds. -/
def humanDuration (d : Nat) : String :=
  if d / 10 ^ 9 = 0 then toString (d / 10 ^ 6) ++ "ms"
  else (durationParts.foldl appendPart ("", d / 10 ^ 9)).1

theorem humanBytes_of_nonneg {n : Nat} : humanBytes n = some (humanMagnitude n) := by
  simp [humanBytes, humanBytesFuel]

theorem humanBytes_of_neg {n : Nat} (hpos : 0 < n) (h : n < 2 ^ 63) :
    humanBytes (-(n : Int)) = some ("-" ++ humanMagnitude n) := by
  have hwrap : asI64 ((n : Int) % 2 ^ 64).toNat = n := by
    have : ((n : Int) % 2 ^ 64).toNat = n := by omega
    rw [this, asI64_of_lt h]
  rw [humanBytes, humanBytesFuel, if_pos (by omega), neg_neg, hwrap, humanBytesFuel,
    if_neg (by omega), Int.toNat_natCast, Option.map_some]

theorem humanBytesFuel_min (depth : Nat) : humanBytesFuel depth (-2 ^ 63) = none := by
  induction depth with
  | zero => rfl
  | succ depth ih =>
    have hwrap : asI64 ((-(-2 ^ 63) : Int) % 2 ^ 64).toNat = -2 ^ 63 := by decide
    rw [humanBytesFuel, if_pos (by norm_num), hwrap, ih, Option.map_none]

example : humanBytes 10485760 = some "10.0 MiB" := by decide +kernel

example : humanDuration (15540 * 10 ^ 9) = "4h19m0s" := by decide +kernel

end KeepAt
