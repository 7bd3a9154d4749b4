import Mathlib.Algebra.BigOperators.Group.List.Basic
import Mathlib.Algebra.Group.Int.Defs
import Mathlib.Algebra.GroupWithZero.Nat
import Mathlib.Data.Int.Notation
import Mathlib.Data.List.Basic

/-!
# MessagePack

The values of MessagePack and the byte strings that encode them. A value has many encodings, as a number or
a length may be stored in more bytes than it needs. Numbers have their high bytes first, and negative ones
are in two's complement.
-/

namespace MessagePack

inductive Value where
  | nil
  | boolean (value : Bool)
  | integer (value : ℤ)
  | float32 (bits : List UInt8)
  | float64 (bits : List UInt8)
  | string (bytes : List UInt8)
  | binary (bytes : List UInt8)
  | array (items : List Value)
  | map (entries : List (Value × Value))
  | extension (type : UInt8) (data : List UInt8)

/-- A number in so many bytes. -/
def bigEndian : ℕ → ℕ → List UInt8
  | 0, _ => []
  | width + 1, number => bigEndian width (number / 256) ++ [UInt8.ofNat number]

/-- The number that bytes spell. -/
def number (bytes : List UInt8) : ℕ := bytes.foldl (fun value byte => value * 256 + byte.toNat) 0

@[simp] theorem bigEndian_length (width number : ℕ) : (bigEndian width number).length = width := by
  induction width generalizing number with
  | zero => rfl
  | succ width ih => rw [bigEndian, List.length_append, ih, List.length_singleton]

theorem number_bigEndian {width value : ℕ} (h : value < 256 ^ width) : number (bigEndian width value) = value := by
  induction width generalizing value with
  | zero =>
    rw [Nat.pow_zero, Nat.lt_one_iff] at h
    rw [h]
    rfl
  | succ width ih =>
    have hdiv : value / 256 < 256 ^ width := Nat.div_lt_of_lt_mul (by rwa [Nat.mul_comm, ← Nat.pow_succ])
    have hhigh : (bigEndian width (value / 256)).foldl (fun value byte => value * 256 + byte.toNat) 0 =
        value / 256 := ih hdiv
    rw [number, bigEndian, List.foldl_append, hhigh]
    change value / 256 * 256 + (UInt8.ofNat value).toNat = value
    rw [UInt8.toNat_ofNat']
    exact Nat.div_add_mod' value 256

/-- The widths of numbers and lengths. -/
inductive Width where
  | one
  | two
  | four
  | eight
  deriving DecidableEq

namespace Width

def bytes : Width → ℕ
  | one => 1
  | two => 2
  | four => 4
  | eight => 8

/-- The place of the width in a row of markers. -/
def step : Width → ℕ
  | one => 0
  | two => 1
  | four => 2
  | eight => 3

end Width

/-- A marker, and the number behind it. -/
def tagged (marker : ℕ) (width : Width) (value : ℕ) : List UInt8 :=
  UInt8.ofNat marker :: bigEndian width.bytes value

/-- The bytes encode the value, with at most so many levels of containers in it and at most `limit` items in
each of them. -/
inductive Encodes (limit : ℕ) : ℕ → Value → List UInt8 → Prop where
  | nil {levels : ℕ} : Encodes limit levels .nil [0xc0]
  | false {levels : ℕ} : Encodes limit levels (.boolean false) [0xc2]
  | true {levels : ℕ} : Encodes limit levels (.boolean true) [0xc3]
  | positive {levels value : ℕ} (h : value < 128) :
      Encodes limit levels (.integer value) [UInt8.ofNat value]
  | negative {levels distance : ℕ} (h : 0 < distance) (h' : distance ≤ 32) :
      Encodes limit levels (.integer (-distance)) [UInt8.ofNat (256 - distance)]
  | unsigned {levels value : ℕ} (width : Width) (h : value < 256 ^ width.bytes) :
      Encodes limit levels (.integer value) (tagged (0xcc + width.step) width value)
  | signed {levels : ℕ} {value : ℤ} (width : Width) (h : -(256 ^ width.bytes : ℕ) ≤ 2 * value)
      (h' : 2 * value < (256 ^ width.bytes : ℕ)) :
      Encodes limit levels (.integer value)
        (tagged (0xd0 + width.step) width (value % (256 ^ width.bytes : ℕ)).toNat)
  | float32 {levels : ℕ} {bits : List UInt8} (h : bits.length = 4) :
      Encodes limit levels (.float32 bits) (0xca :: bits)
  | float64 {levels : ℕ} {bits : List UInt8} (h : bits.length = 8) :
      Encodes limit levels (.float64 bits) (0xcb :: bits)
  | fixstr {levels : ℕ} {text : List UInt8} (h : text.length < 32) :
      Encodes limit levels (.string text) (UInt8.ofNat (0xa0 + text.length) :: text)
  | str {levels : ℕ} {text : List UInt8} (width : Width) (hwidth : width ≠ .eight)
      (h : text.length < 256 ^ width.bytes) :
      Encodes limit levels (.string text) (tagged (0xd9 + width.step) width text.length ++ text)
  | bin {levels : ℕ} {data : List UInt8} (width : Width) (hwidth : width ≠ .eight)
      (h : data.length < 256 ^ width.bytes) :
      Encodes limit levels (.binary data) (tagged (0xc4 + width.step) width data.length ++ data)
  | fixext {levels : ℕ} {type : UInt8} {data : List UInt8} (exponent : ℕ) (hexponent : exponent ≤ 4)
      (h : data.length = 2 ^ exponent) :
      Encodes limit levels (.extension type data) (UInt8.ofNat (0xd4 + exponent) :: type :: data)
  | ext {levels : ℕ} {type : UInt8} {data : List UInt8} (width : Width) (hwidth : width ≠ .eight)
      (h : data.length < 256 ^ width.bytes) :
      Encodes limit levels (.extension type data) (tagged (0xc7 + width.step) width data.length ++ type :: data)
  | fixarray {levels below : ℕ} {items : List Value} {parts : List (List UInt8)} (h : items.length < 16)
      (hlimit : items.length ≤ limit) (hparts : parts.length = items.length)
      (hbelow : items ≠ [] → below < levels)
      (hitems : ∀ pair ∈ items.zip parts, Encodes limit below pair.1 pair.2) :
      Encodes limit levels (.array items) (UInt8.ofNat (0x90 + items.length) :: parts.flatten)
  | array {levels below : ℕ} {items : List Value} {parts : List (List UInt8)} (width : Width)
      (hwidth : width = .two ∨ width = .four) (h : items.length < 256 ^ width.bytes)
      (hlimit : items.length ≤ limit) (hparts : parts.length = items.length)
      (hbelow : items ≠ [] → below < levels)
      (hitems : ∀ pair ∈ items.zip parts, Encodes limit below pair.1 pair.2) :
      Encodes limit levels (.array items)
        (tagged (0xdb + width.step) width items.length ++ parts.flatten)
  | fixmap {levels below : ℕ} {entries : List (Value × Value)} {parts : List (List UInt8 × List UInt8)}
      (h : entries.length < 16) (hlimit : entries.length ≤ limit) (hparts : parts.length = entries.length)
      (hbelow : entries ≠ [] → below < levels)
      (hkeys : ∀ pair ∈ entries.zip parts, Encodes limit below pair.1.1 pair.2.1)
      (hvalues : ∀ pair ∈ entries.zip parts, Encodes limit below pair.1.2 pair.2.2) :
      Encodes limit levels (.map entries)
        (UInt8.ofNat (0x80 + entries.length) :: parts.flatMap fun part => part.1 ++ part.2)
  | map {levels below : ℕ} {entries : List (Value × Value)} {parts : List (List UInt8 × List UInt8)}
      (width : Width) (hwidth : width = .two ∨ width = .four) (h : entries.length < 256 ^ width.bytes)
      (hlimit : entries.length ≤ limit) (hparts : parts.length = entries.length)
      (hbelow : entries ≠ [] → below < levels)
      (hkeys : ∀ pair ∈ entries.zip parts, Encodes limit below pair.1.1 pair.2.1)
      (hvalues : ∀ pair ∈ entries.zip parts, Encodes limit below pair.1.2 pair.2.2) :
      Encodes limit levels (.map entries)
        (tagged (0xdd + width.step) width entries.length ++ parts.flatMap fun part => part.1 ++ part.2)

end MessagePack
