import Shortfall.Text

/-!
# Base64

The standard alphabet with padding. Line breaks between the digits are skipped, and the bits of
the last digit that belong to no byte may have any value.
-/

namespace Shortfall.Text

def base64Alphabet : Text :=
  "ABCDEFGHIJKLMNOPQRSTUVWXYZabcdefghijklmnopqrstuvwxyz0123456789+/"

def base64Value? (byte : UInt8) : Option Nat := base64Alphabet.idxOf? byte

def base64Digit (value : Nat) : UInt8 := base64Alphabet.getD (value % 64) 0

private def groupBytes (a b c d : Nat) : List UInt8 :=
  let bits := ((a * 64 + b) * 64 + c) * 64 + d
  [UInt8.ofNat (bits / 65536), UInt8.ofNat (bits / 256), UInt8.ofNat bits]

private def groups? : Text → Option Text
  | [] => some []
  | [a, b, 0x3D, 0x3D] => do
      some ((groupBytes (← base64Value? a) (← base64Value? b) 0 0).take 1)
  | [a, b, c, 0x3D] => do
      some ((groupBytes (← base64Value? a) (← base64Value? b) (← base64Value? c) 0).take 2)
  | a :: b :: c :: d :: rest => do
      let bytes :=
        groupBytes (← base64Value? a) (← base64Value? b) (← base64Value? c) (← base64Value? d)
      some (bytes ++ (← groups? rest))
  | _ => none

/-- The bytes a base64 text stands for. -/
def ofBase64? (text : Text) : Option Text :=
  groups? (text.filter fun byte => !(byte = 0x0A || byte = 0x0D))

/-- The base64 text of some bytes. -/
def toBase64 : Text → Text
  | [] => []
  | [a] =>
      let bits := a.toNat * 16
      [base64Digit (bits / 64), base64Digit bits, 0x3D, 0x3D]
  | [a, b] =>
      let bits := (a.toNat * 256 + b.toNat) * 4
      [base64Digit (bits / 4096), base64Digit (bits / 64), base64Digit bits, 0x3D]
  | a :: b :: c :: rest =>
      let bits := (a.toNat * 256 + b.toNat) * 256 + c.toNat
      base64Digit (bits / 262144) :: base64Digit (bits / 4096) :: base64Digit (bits / 64)
        :: base64Digit bits :: toBase64 rest

end Shortfall.Text
