import Mathlib

/-!
# Packed colours, their channels, and the hexadecimal reader

`utils/color.hpp` keeps a colour as one 32-bit word: alpha in the top byte, then
red, green and blue. The accessors `alpha_channel`, `red_channel`, `green_channel`
and `blue_channel` read one byte back, either as the byte itself (`uint8_t`) or
replicated into both halves of a 16-bit word (`uint16_t`). The four accessors differ
only in the shift, so they are one definition, `channel`, applied to each shift.

The source writes the 8-bit result as `a << 8 / 0xFF`. C++ reads that as
`a << (8 / 0xFF)`, a shift by zero, so the byte comes back unchanged; the 16-bit
result `a << 8 | a << 8 / 0xFF` is the byte in both halves.

`color::color(string)` reads its word with `strtoul(&hex[1], nullptr, 16)`. What that
reader accepts decides what `color::parse` stores, so it is modelled here as glibc
reads base 16: leading blanks, one sign, an optional `0x` prefix when a digit follows
it, then digits up to the first character that is not one. `unsigned long` is 64 bits
wide.

The main facts are `channel_toNat` (an accessor is division and remainder, ready for
`omega`), `pack_eq` (the premultiplied word `(a << 24) | (r << 16) | (g << 8) | b`
is the sum of its shifted bytes) and `strtoul_of_hexDigits` (a string of digits reads
as its value).
-/

namespace Lemonbuddy

namespace ColorUtil

/-! ### Channel accessors -/

/-- The byte of a packed colour at bit offset `shift`: `uint8_t c = value >> shift`. -/
def channel (shift : Nat) (value : UInt32) : UInt8 :=
  UInt8.ofNat (value.toNat >>> shift)

/-- `color_util::alpha_channel<uint8_t>`. -/
def alphaChannel : UInt32 → UInt8 := channel 24

/-- `color_util::red_channel<uint8_t>`. -/
def redChannel : UInt32 → UInt8 := channel 16

/-- `color_util::green_channel<uint8_t>`. -/
def greenChannel : UInt32 → UInt8 := channel 8

/-- `color_util::blue_channel<uint8_t>`. -/
def blueChannel : UInt32 → UInt8 := channel 0

/-- The `uint16_t` instance of an accessor: `c << 8 | c << 8 / 0xFF`, the byte in
both halves of the word. -/
def channel16 (shift : Nat) (value : UInt32) : UInt16 :=
  let c := (channel shift value).toNat
  UInt16.ofNat (c <<< 8 ||| c)

/-- `color_util::alpha_channel<uint16_t>`. -/
def alphaChannel16 : UInt32 → UInt16 := channel16 24

/-- `color_util::red_channel<uint16_t>`. -/
def redChannel16 : UInt32 → UInt16 := channel16 16

/-- `color_util::green_channel<uint16_t>`. -/
def greenChannel16 : UInt32 → UInt16 := channel16 8

/-- `color_util::blue_channel<uint16_t>`. -/
def blueChannel16 : UInt32 → UInt16 := channel16 0

/-- An accessor is the quotient by `2 ^ shift`, reduced to a byte. -/
theorem channel_toNat (shift : Nat) (value : UInt32) :
    (channel shift value).toNat = value.toNat / 2 ^ shift % 256 := by
  simp [channel, UInt8.toNat, UInt8.ofNat, Fin.ofNat, Nat.shiftRight_eq_div_pow]

theorem channel_lt (shift : Nat) (value : UInt32) : (channel shift value).toNat < 256 := by
  rw [channel_toNat]; omega

/-- The 16-bit accessor repeats the byte: its value is the byte times 257. -/
theorem channel16_toNat (shift : Nat) (value : UInt32) :
    (channel16 shift value).toNat = (channel shift value).toNat * 257 := by
  have hc := channel_lt shift value
  have hor : (channel shift value).toNat <<< 8 ||| (channel shift value).toNat =
      (channel shift value).toNat * 2 ^ 8 + (channel shift value).toNat := by
    rw [Nat.shiftLeft_eq, Nat.mul_comm, Nat.mul_add_lt_is_or (by omega)]
  simp only [channel16, hor, UInt16.toNat, UInt16.ofNat, BitVec.toNat_ofNat]
  omega

/-! ### Packing -/

theorem shiftLeft_or_shiftLeft (x y k : Nat) : x <<< k ||| y <<< k = (x ||| y) <<< k := by
  apply Nat.eq_of_testBit_eq
  intro i
  simp only [Nat.testBit_or, Nat.testBit_shiftLeft]
  cases decide (i ≥ k) <;> simp

theorem shiftLeft_or_eq_add {x y k : Nat} (hy : y < 2 ^ k) : x <<< k ||| y = x * 2 ^ k + y := by
  rw [Nat.shiftLeft_eq, Nat.mul_comm, Nat.mul_add_lt_is_or hy]

/-- **Packing.** The word `(a << 24) | (r << 16) | (g << 8) | b` of `color::color`
is the sum of its shifted bytes: the three low bytes occupy disjoint bits. -/
theorem pack_eq (a r g b : Nat) (hr : r < 256) (hg : g < 256) (hb : b < 256) :
    a <<< 24 ||| r <<< 16 ||| g <<< 8 ||| b = a * 2 ^ 24 + r * 2 ^ 16 + g * 2 ^ 8 + b := by
  have h1 : a <<< 24 ||| r <<< 16 = (a * 2 ^ 8 + r) <<< 16 := by
    rw [show 24 = 8 + 16 from rfl, Nat.shiftLeft_add, shiftLeft_or_shiftLeft,
      shiftLeft_or_eq_add hr]
  have h2 : (a * 2 ^ 8 + r) <<< 16 ||| g <<< 8 = ((a * 2 ^ 8 + r) * 2 ^ 8 + g) <<< 8 := by
    rw [show 16 = 8 + 8 from rfl, Nat.shiftLeft_add, shiftLeft_or_shiftLeft,
      shiftLeft_or_eq_add hg]
  rw [h1, h2, shiftLeft_or_eq_add hb]
  ring

/-! ### Serialisation -/

/-- The two instances of the `color<ChannelType>` template. -/
inductive ChannelType
  | uint8
  | uint16
  deriving DecidableEq, Repr

/-- The upper-case digit of `d < 16`, as `std::hex << std::uppercase` writes it. -/
def hexDigitChar (d : Nat) : Char :=
  if d < 10 then Char.ofNat (48 + d) else Char.ofNat (55 + d)

/-- The last `width` hexadecimal digits of `n`, most significant first. -/
def hexDigits : Nat → Nat → List Char
  | 0, _ => []
  | width + 1, n => hexDigits width (n / 16) ++ [hexDigitChar (n % 16)]

/-- `color_util::hex`. The `uint8_t` instance drops the alpha byte and writes six
digits, the `uint16_t` instance writes eight. `std::setw` with fill `0` pads and never
truncates; both values fit their width, so fixed-width digits are what the stream
writes. -/
def hex (t : ChannelType) (value : UInt32) : List Char :=
  match t with
  | .uint8 => '#' :: hexDigits 6 (value.toNat &&& 0x00FFFFFF)
  | .uint16 => '#' :: hexDigits 8 value.toNat

/-! The unit tests of `tests/unit_tests/utils/color.cpp`. -/

example : (alphaChannel 0x123456).toNat = 0 ∧ (redChannel 0x123456).toNat = 0x12 ∧
    (greenChannel16 0x123456).toNat = 0x3434 ∧ (blueChannel 0x123456).toNat = 0x56 := by
  decide

example : (alphaChannel16 0xCC123456).toNat = 0xCCCC ∧
    (redChannel16 0xCC123456).toNat = 0x1212 := by
  decide

example : hex .uint8 0x123456 = "#123456".toList ∧ hex .uint16 0xCC123456 = "#CC123456".toList := by
  decide

/-! ### The base-16 reader of `strtoul` -/

/-- The value of a base-16 digit, `none` for any other character. -/
def hexDigitValue (c : Char) : Option Nat :=
  if '0' ≤ c ∧ c ≤ '9' then some (c.toNat - 48)
  else if 'a' ≤ c ∧ c ≤ 'f' then some (c.toNat - 87)
  else if 'A' ≤ c ∧ c ≤ 'F' then some (c.toNat - 55)
  else none

/-- Digits read onto the accumulator `acc`, up to the first character that is not a
base-16 digit. -/
def readHex (acc : Nat) : List Char → Nat
  | [] => acc
  | c :: cs =>
    match hexDigitValue c with
    | some d => readHex (16 * acc + d) cs
    | none => acc

/-- The blanks `isspace` accepts in the C locale. -/
def isSpace (c : Char) : Bool :=
  c = ' ' || c = '\t' || c = '\n' || c = '\x0b' || c = '\x0c' || c = '\r'

/-- `ULONG_MAX` for a 64-bit `unsigned long`. -/
def ulongMax : Nat := 2 ^ 64 - 1

/-- A sign, if the text starts with one: whether it is `-`, and the rest. -/
def readSign : List Char → Bool × List Char
  | '-' :: rest => (true, rest)
  | '+' :: rest => (false, rest)
  | s => (false, s)

/-- The `0x` or `0X` prefix, dropped only when a digit follows it. -/
def dropHexPrefix : List Char → List Char
  | '0' :: x :: d :: rest =>
    if (x = 'x' ∨ x = 'X') ∧ (hexDigitValue d).isSome then d :: rest else '0' :: x :: d :: rest
  | s => s

/-- `strtoul(s, nullptr, 16)`: a value past `ULONG_MAX` saturates, and a minus sign
negates modulo `2 ^ 64`. -/
def strtoul (s : List Char) : Nat :=
  let (negative, body) := readSign (s.dropWhile isSpace)
  let v := readHex 0 (dropHexPrefix body)
  if ulongMax < v then ulongMax
  else if negative then (2 ^ 64 - v) % 2 ^ 64 else v

/-- A character `strtoul` reads as a digit. -/
def IsHexDigit (c : Char) : Prop := (hexDigitValue c).isSome

instance (c : Char) : Decidable (IsHexDigit c) := inferInstanceAs (Decidable (_ = true))

theorem hexDigitValue_lt {c : Char} {d : Nat} (h : hexDigitValue c = some d) : d < 16 := by
  unfold hexDigitValue at h
  split_ifs at h with h1 h2 h3 <;> simp only [Option.some.injEq] at h <;> subst h
  · have : c.toNat ≤ 57 := h1.2; omega
  · have : c.toNat ≤ 102 := h2.2; omega
  · have : c.toNat ≤ 70 := h3.2; omega

theorem readHex_append_digit (acc : Nat) (cs : List Char) (c : Char) (d : Nat)
    (hcs : ∀ x ∈ cs, IsHexDigit x) (hc : hexDigitValue c = some d) :
    readHex acc (cs ++ [c]) = 16 * readHex acc cs + d := by
  induction cs generalizing acc with
  | nil => simp [readHex, hc]
  | cons x xs ih =>
    obtain ⟨e, he⟩ := Option.isSome_iff_exists.mp (hcs x (by simp))
    simp only [List.cons_append, readHex, he]
    exact ih _ fun y hy => hcs y (by simp [hy])

/-- No digit is a blank. -/
theorem isSpace_of_isHexDigit {c : Char} (h : IsHexDigit c) : isSpace c = false := by
  cases hs : isSpace c
  · rfl
  · simp only [isSpace, Bool.or_eq_true, decide_eq_true_eq] at hs
    rcases hs with (((((rfl | rfl) | rfl) | rfl) | rfl) | rfl) <;> exact absurd h (by decide)

/-- No digit is a sign. -/
theorem readSign_of_isHexDigit {c : Char} (cs : List Char) (h : IsHexDigit c) :
    readSign (c :: cs) = (false, c :: cs) := by
  have hm : c ≠ '-' := by rintro rfl; exact absurd h (by decide)
  have hp : c ≠ '+' := by rintro rfl; exact absurd h (by decide)
  unfold readSign
  split <;> simp_all

/-- No digit is the `x` of a prefix. -/
theorem dropHexPrefix_of_isHexDigit (s : List Char) (hs : ∀ c ∈ s, IsHexDigit c) :
    dropHexPrefix s = s := by
  unfold dropHexPrefix
  split
  · rename_i x d rest
    have hx : ¬(x = 'x' ∨ x = 'X') := by
      rintro (rfl | rfl)
      · exact absurd (hs 'x' (by simp)) (by decide)
      · exact absurd (hs 'X' (by simp)) (by decide)
    simp [hx]
  · rfl

/-- **The reader on digits.** A non-empty string made only of digits reads as its
value, when that value fits in an `unsigned long`. -/
theorem strtoul_of_hexDigits (c : Char) (cs : List Char) (hs : ∀ x ∈ c :: cs, IsHexDigit x)
    (hv : readHex 0 (c :: cs) ≤ ulongMax) : strtoul (c :: cs) = readHex 0 (c :: cs) := by
  have hc := hs c (by simp)
  simp only [strtoul, List.dropWhile_cons, isSpace_of_isHexDigit hc, Bool.false_eq_true,
    if_false, readSign_of_isHexDigit cs hc, dropHexPrefix_of_isHexDigit _ hs,
    if_neg (Nat.not_lt.mpr hv)]

/-! ### The reader on the writer's digits -/

theorem hexDigitValue_hexDigitChar {d : Nat} (h : d < 16) : hexDigitValue (hexDigitChar d) = some d := by
  have : ∀ d < 16, hexDigitValue (hexDigitChar d) = some d := by decide
  exact this d h

theorem length_hexDigits (w n : Nat) : (hexDigits w n).length = w := by
  induction w generalizing n with
  | zero => rfl
  | succ w ih => simp [hexDigits, ih]

theorem isHexDigit_of_mem_hexDigits {w n : Nat} {c : Char} (h : c ∈ hexDigits w n) : IsHexDigit c := by
  induction w generalizing n with
  | zero => simp [hexDigits] at h
  | succ w ih =>
    simp only [hexDigits, List.mem_append, List.mem_singleton] at h
    rcases h with h | rfl
    · exact ih h
    · simp [IsHexDigit, hexDigitValue_hexDigitChar (Nat.mod_lt n (by norm_num : 16 > 0))]

/-- **The reader reads back the writer.** The last `w` digits `hexDigits` writes read
back as the value modulo `16 ^ w`. -/
theorem readHex_hexDigits (w n : Nat) : readHex 0 (hexDigits w n) = n % 16 ^ w := by
  induction w generalizing n with
  | zero => simp [hexDigits, readHex, Nat.mod_one]
  | succ w ih =>
    rw [hexDigits, readHex_append_digit 0 _ _ _ (fun x hx => isHexDigit_of_mem_hexDigits hx)
      (hexDigitValue_hexDigitChar (Nat.mod_lt n (by norm_num : 16 > 0))), ih, pow_succ', Nat.mod_mul]
    ring

end ColorUtil

end Lemonbuddy
