import Mathlib.Data.List.Basic

namespace KeepAt

structure InfoHash where
  bytes : List UInt8
  length : bytes.length = 20
  deriving DecidableEq

def hexDigit (n : Nat) : Char := if n < 10 then Char.ofNat (48 + n) else Char.ofNat (87 + n)

def hexValue (c : Char) : Option Nat :=
  if 48 ≤ c.toNat ∧ c.toNat ≤ 57 then some (c.toNat - 48)
  else if 97 ≤ c.toNat ∧ c.toNat ≤ 102 then some (c.toNat - 87)
  else if 65 ≤ c.toNat ∧ c.toNat ≤ 70 then some (c.toNat - 55)
  else none

def hexPair (b : UInt8) : List Char := [hexDigit (b.toNat / 16), hexDigit (b.toNat % 16)]

/-- `hex::encode`: two lower-case digits for each byte. -/
def hexEncode (h : InfoHash) : String := String.ofList (h.bytes.flatMap hexPair)

/-- `hex::decode`: digits in pairs, of either case. -/
def hexDecode : List Char → Option (List UInt8)
  | [] => some []
  | [_] => none
  | c :: d :: rest =>
    match hexValue c, hexValue d, hexDecode rest with
    | some hi, some lo, some bytes => some (UInt8.ofNat (16 * hi + lo) :: bytes)
    | _, _, _ => none

theorem hexValue_hexDigit : ∀ n < 16, hexValue (hexDigit n) = some n := by decide

theorem ofNat_nibbles (b : UInt8) : UInt8.ofNat (16 * (b.toNat / 16) + b.toNat % 16) = b := by
  rw [Nat.div_add_mod, UInt8.ofNat_toNat]

theorem hexDecode_hexPair_append (b : UInt8) (rest : List Char) :
    hexDecode (hexPair b ++ rest) = (hexDecode rest).map (b :: ·) := by
  have hb := b.toNat_lt
  have hi := hexValue_hexDigit (b.toNat / 16) (by omega)
  have lo := hexValue_hexDigit (b.toNat % 16) (by omega)
  simp only [hexPair, List.cons_append, List.nil_append, hexDecode, hi, lo]
  cases hexDecode rest with
  | none => rfl
  | some bytes => simp only [ofNat_nibbles, Option.map_some]

theorem hexDecode_flatMap (bytes : List UInt8) : hexDecode (bytes.flatMap hexPair) = some bytes := by
  induction bytes with
  | nil => rfl
  | cons b bytes ih => rw [List.flatMap_cons, hexDecode_hexPair_append, ih, Option.map_some]

theorem hexEncode_ne_empty (h : InfoHash) : hexEncode h ≠ "" := by
  intro he
  have hl := congrArg (fun s => hexDecode s.toList) he
  simp only [hexEncode, String.toList_ofList, hexDecode_flatMap] at hl
  have hlen := congrArg List.length (Option.some.inj (hl.trans (show _ = some [] from rfl)))
  rw [h.length] at hlen
  cases hlen

/-- Decoding undoes encoding, so two hashes have one hex spelling only when they are equal. -/
theorem hexEncode_injective : Function.Injective hexEncode := by
  intro g h he
  have hl := congrArg (fun s => hexDecode s.toList) he
  simp only [hexEncode, String.toList_ofList, hexDecode_flatMap, Option.some.injEq] at hl
  cases g; cases h; simpa using hl

end KeepAt
