import Lemonbuddy.Color.Channel

/-!
# Parsing colours, and the process-wide colour store

`color::parse(input, fallback)` (`x11/color.cpp`) turns configuration and markup
text into a `color`. It first looks `input` up in `g_colorstore`, a
`std::map<string, color>` keyed by the text exactly as given. On a miss it
normalises the text (a `#` in front, `#RGB` doubled to `#RRGGBB`, `#RRGGBB`
prefixed with an opaque alpha `FF`), returns the fallback when the result is not nine
characters long, and otherwise builds the colour with the constructor
`color::color(string)`, stores it under the original text, and returns it.

The constructor reads the digits after `#` with `strtoul` and premultiplies red,
green and blue by alpha. It checks nothing but that its text is non-empty, and
`parse` checks nothing but the length: a nine-character spelling is accepted
whatever its characters are, and `strtoul` reads as much of it as it can.

The store is transparent. `Coherent` says that every entry is what the cache-free
`parseUncached` computes for its key, with no fallback involved;
`parseAll_eq_uncached` proves that every run of calls from the empty store keeps it,
so that each call returns exactly the cache-free result. The two readings of a call
then follow on every reachable store: `parse_decided_by_length` (a text whose normal
form is not nine characters long gives the fallback and leaves the store alone; one
whose normal form is, gives the constructor's colour for it and stores it under the
text unless it is there already) and `parse_accepts_hex_spelling` (a well-formed
spelling gives the premultiplied colour its digits denote).
-/

namespace Lemonbuddy

open ColorUtil

/-- `class color` (`x11/color.hpp`): the packed, premultiplied word `m_color` and
the text `m_source` the colour was built from. -/
structure Color where
  value : UInt32
  source : List Char
  deriving DecidableEq, Repr

namespace Color

/-- The premultiplication of `color::color(string)`: red, green and blue are scaled by
`a / 255` and the word is packed again. The source shifts `int`s; the bytes are
below `2 ^ 8`, so the packed value fits 32 bits and the conversion to `uint32_t` keeps
it. -/
def premultiply (value : UInt32) : UInt32 :=
  let a := (alphaChannel value).toNat
  let r := (redChannel value).toNat * a / 255
  let g := (greenChannel value).toNat * a / 255
  let b := (blueChannel value).toNat * a / 255
  UInt32.ofNat (a <<< 24 ||| r <<< 16 ||| g <<< 8 ||| b)

/-- The body of `color::color(string hex)` for a non-empty `hex`: the word read from
`&hex[1]`, cast to `uint32_t`, then premultiplied. -/
def make (hex : List Char) : Color :=
  ⟨premultiply (UInt32.ofNat (strtoul (hex.drop 1))), hex⟩

/-- `color::color(string hex)`. -/
def ofHex (hex : List Char) : Except String Color :=
  if hex = [] then .error "Cannot create color from empty hex" else .ok (make hex)

/-- `g_colorempty`, the fallback of the one-argument `parse`: transparent black. -/
def empty : Color := make "#00000000".toList

/-! ### Normalisation -/

/-- A `#` in front of text that does not start with one. -/
def withHash (input : List Char) : List Char :=
  if input.take 1 ≠ ['#'] then '#' :: input else input

/-- `#RGB` doubled into `#RRGGBB`. -/
def expandShort (hex : List Char) : List Char :=
  match hex with
  | [_, r, g, b] => ['#', r, r, g, g, b, b]
  | _ => hex

/-- `#RRGGBB` given the opaque alpha: `"#FF" + hex.substr(1)`. -/
def forceAlpha (hex : List Char) : List Char :=
  if hex.length = 7 then '#' :: 'F' :: 'F' :: hex.drop 1 else hex

/-- The text `color::parse` hands to the constructor. -/
def normalize (input : List Char) : List Char :=
  forceAlpha (expandShort (withHash input))

/-! ### `color::parse` -/

/-- `g_colorstore`: keys are the text as the caller gave it. -/
abbrev Store := List (List Char × Color)

/-- `color::parse(input, fallback)`: the colour returned and the store left behind.
`emplace` only ever runs on a key that is absent. -/
def parse (store : Store) (input : List Char) (fallback : Color) : Except String (Color × Store) :=
  if input = [] then .error "Cannot parse empty color"
  else
    match store.lookup input with
    | some c => .ok (c, store)
    | none =>
      let hex := normalize input
      if hex.length ≠ 9 then .ok (fallback, store)
      else do
        let result ← ofHex hex
        pure (result, (input, result) :: store)

/-- `color::parse` with the store taken out: what one call computes from its own
arguments. -/
def parseUncached (input : List Char) (fallback : Color) : Except String Color :=
  if input = [] then .error "Cannot parse empty color"
  else
    let hex := normalize input
    if hex.length ≠ 9 then .ok fallback else ofHex hex

/-- One call of a sequence: its result, and the store after it. A call that throws
does so before touching the store. -/
def call (store : Store) (input : List Char) (fallback : Color) : Except String Color × Store :=
  match parse store input fallback with
  | .ok (c, store') => (.ok c, store')
  | .error e => (.error e, store)

/-- A sequence of calls from `store`: the results in order, and the final store. -/
def parseAll : Store → List (List Char × Color) → List (Except String Color) × Store
  | store, [] => ([], store)
  | store, (input, fallback) :: calls =>
    ((call store input fallback).1 :: (parseAll (call store input fallback).2 calls).1,
      (parseAll (call store input fallback).2 calls).2)

/-- A store that some sequence of calls builds from the empty store of start-up. -/
def Reachable (store : Store) : Prop :=
  ∃ calls, (parseAll [] calls).2 = store

/-! ### The store invariant -/

/-- Every entry of the store is the constructor's colour for the normal form of its
key, which is nine characters long: no fallback, and nothing a fallback decides. -/
def Coherent (store : Store) : Prop :=
  ∀ k c, store.lookup k = some c → k ≠ [] ∧ (normalize k).length = 9 ∧ c = make (normalize k)

theorem coherent_nil : Coherent [] := by
  intro k c h; simp at h

theorem Coherent.cons {store : Store} {k : List Char} (h : Coherent store) (hk : k ≠ [])
    (hlen : (normalize k).length = 9) : Coherent ((k, make (normalize k)) :: store) := by
  intro k' c hc
  by_cases hkk : k' = k
  · subst hkk
    simp only [List.lookup_cons_self, Option.some.injEq] at hc
    exact ⟨hk, hlen, hc.symm⟩
  · have hne : (k' == k) = false := by simpa using hkk
    simp only [List.lookup_cons, hne] at hc
    exact h k' c hc

/-- A coherent entry is what the cache-free parse returns, whatever the fallback. -/
theorem Coherent.uncached {store : Store} (h : Coherent store) {k : List Char} {c : Color}
    (hc : store.lookup k = some c) (fb : Color) : parseUncached k fb = .ok c := by
  obtain ⟨hk, hlen, rfl⟩ := h k c hc
  have hne : normalize k ≠ [] := fun h0 => by simp [h0] at hlen
  simp only [parseUncached, hk, hlen, ofHex, hne, if_false, ne_eq, not_true_eq_false]

/-- **One call.** From a coherent store a call returns the cache-free result and
leaves a coherent store. -/
theorem call_spec {store : Store} (h : Coherent store) (input : List Char) (fb : Color) :
    (call store input fb).1 = parseUncached input fb ∧ Coherent (call store input fb).2 := by
  by_cases hin : input = []
  · simp [call, parse, parseUncached, hin, h]
  cases hl : store.lookup input with
  | some c => simp [call, parse, hin, hl, h.uncached hl fb, h]
  | none =>
    by_cases hlen : (normalize input).length = 9
    · have hne : normalize input ≠ [] := fun h0 => by simp [h0] at hlen
      simp only [call, parse, parseUncached, hin, hl, hlen, ofHex, hne, if_false, ne_eq,
        not_true_eq_false, if_false]
      exact ⟨rfl, h.cons hin hlen⟩
    · simp [call, parse, parseUncached, hin, hl, hlen, h]

/-- **The store is transparent.** Every sequence of calls from a coherent store
returns, call by call, the cache-free results, and leaves a coherent store. -/
theorem parseAll_coherent {store : Store} (h : Coherent store) (calls : List (List Char × Color)) :
    (parseAll store calls).1 = calls.map (fun p => parseUncached p.1 p.2) ∧
      Coherent (parseAll store calls).2 := by
  induction calls generalizing store with
  | nil => exact ⟨rfl, h⟩
  | cons p calls ih =>
    obtain ⟨hres, hcoh⟩ := call_spec h p.1 p.2
    obtain ⟨ih1, ih2⟩ := ih hcoh
    exact ⟨by simp [parseAll, hres, ih1], ih2⟩

theorem parseAll_eq_uncached (calls : List (List Char × Color)) :
    (parseAll [] calls).1 = calls.map (fun p => parseUncached p.1 p.2) ∧
      Coherent (parseAll [] calls).2 :=
  parseAll_coherent coherent_nil calls

theorem Reachable.coherent {store : Store} (h : Reachable store) : Coherent store := by
  obtain ⟨calls, rfl⟩ := h
  exact (parseAll_coherent coherent_nil calls).2

/-- **A call on a nine-character normal form.** On a reachable store, a non-empty text
whose normal form is nine characters long gives the constructor's colour for its
normal form, and the store gains that colour under the text unless it holds it
already. -/
theorem parse_of_length_nine {store : Store} (hstore : Reachable store) {s : List Char}
    (hin : s ≠ []) (hlen : (normalize s).length = 9) (fb : Color) :
    parse store s fb = .ok (make (normalize s),
      if (store.lookup s).isSome then store else (s, make (normalize s)) :: store) := by
  have hne : normalize s ≠ [] := by rintro h; simp [h] at hlen
  cases hl : store.lookup s with
  | some c =>
    obtain ⟨-, -, rfl⟩ := hstore.coherent s c hl
    simp [parse, hin, hl]
  | none => simp [parse, hin, hl, hlen, ofHex, hne]

/-! ### Spellings of the grammar -/

/-- The digits of a spelling: the text after its `#`, if it starts with one. -/
def spellingDigits (s : List Char) : List Char :=
  if s.take 1 = ['#'] then s.drop 1 else s

/-- The grammar of colour text: an optional `#`, then exactly 3, 6 or 8 hexadecimal
digits. -/
def IsHexSpelling (s : List Char) : Prop :=
  (spellingDigits s).length ∈ [3, 6, 8] ∧ ∀ c ∈ spellingDigits s, IsHexDigit c

instance : DecidablePred IsHexSpelling := fun _ => inferInstanceAs (Decidable (_ ∧ _))

/-- The eight digits `AARRGGBB` a spelling stands for: three digits doubled behind
`FF`, six behind `FF`, eight as written. -/
def expandDigits (ds : List Char) : List Char :=
  match ds with
  | [r, g, b] => ['F', 'F', r, r, g, g, b, b]
  | _ => if ds.length = 6 then 'F' :: 'F' :: ds else ds

/-- The value of a base-16 digit. -/
def digitValue (c : Char) : Nat :=
  (hexDigitValue c).getD 0

/-- The byte the two digits at position `2 * i` of `ds` denote. -/
def digitByte (ds : List Char) (i : Nat) : Nat :=
  16 * digitValue (ds.getD (2 * i) '0') + digitValue (ds.getD (2 * i + 1) '0')

theorem withHash_eq (s : List Char) : withHash s = '#' :: spellingDigits s := by
  cases s with
  | nil => rfl
  | cons c cs => by_cases h : c = '#' <;> simp [withHash, spellingDigits, h]

theorem normalize_eq_expandDigits {s : List Char} (h : (spellingDigits s).length ∈ [3, 6, 8]) :
    normalize s = '#' :: expandDigits (spellingDigits s) := by
  rw [normalize, withHash_eq]
  generalize spellingDigits s = ds at h
  simp only [List.mem_cons, List.mem_singleton, List.not_mem_nil, or_false] at h
  rcases h with h | h | h
  · match ds, h with
    | [r, g, b], _ => rfl
  · match ds, h with
    | [_, _, _, _, _, _], _ => rfl
  · match ds, h with
    | [_, _, _, _, _, _, _, _], _ => rfl

theorem isHexDigit_F : IsHexDigit 'F' := by decide

theorem expandDigits_spec {ds : List Char} (h : ds.length ∈ [3, 6, 8])
    (hds : ∀ c ∈ ds, IsHexDigit c) :
    (expandDigits ds).length = 8 ∧ ∀ c ∈ expandDigits ds, IsHexDigit c := by
  simp only [List.mem_cons, List.mem_singleton, List.not_mem_nil, or_false] at h
  rcases h with h | h | h
  · match ds, h, hds with
    | [r, g, b], _, hds => simp_all [expandDigits, isHexDigit_F]
  · match ds, h, hds with
    | [_, _, _, _, _, _], _, hds => simp_all [expandDigits, isHexDigit_F]
  · match ds, h, hds with
    | [_, _, _, _, _, _, _, _], _, hds => simp_all [expandDigits]

/-! ### Reading the digits -/

theorem readHex_acc (acc : Nat) (xs : List Char) (h : ∀ c ∈ xs, IsHexDigit c) :
    readHex acc xs = acc * 16 ^ xs.length + readHex 0 xs := by
  induction xs generalizing acc with
  | nil => simp [readHex]
  | cons c cs ih =>
    obtain ⟨d, hd⟩ := Option.isSome_iff_exists.mp (h c (by simp))
    have hcs : ∀ x ∈ cs, IsHexDigit x := fun x hx => h x (by simp [hx])
    simp only [readHex, hd]
    rw [ih _ hcs, ih (16 * 0 + d) hcs, List.length_cons, pow_succ]
    ring

theorem readHex_lt (xs : List Char) (h : ∀ c ∈ xs, IsHexDigit c) :
    readHex 0 xs < 16 ^ xs.length := by
  induction xs with
  | nil => simp [readHex]
  | cons c cs ih =>
    obtain ⟨d, hd⟩ := Option.isSome_iff_exists.mp (h c (by simp))
    have hcs : ∀ x ∈ cs, IsHexDigit x := fun x hx => h x (by simp [hx])
    have hd16 : d + 1 ≤ 16 := hexDigitValue_lt hd
    have hrest := ih hcs
    have hstep : readHex 0 (c :: cs) = d * 16 ^ cs.length + readHex 0 cs := by
      simp only [readHex, hd, Nat.mul_zero, Nat.zero_add, readHex_acc d cs hcs]
    calc readHex 0 (c :: cs) = d * 16 ^ cs.length + readHex 0 cs := hstep
      _ < (d + 1) * 16 ^ cs.length := by rw [Nat.add_mul, Nat.one_mul]; omega
      _ ≤ 16 ^ (c :: cs).length := by
        rw [List.length_cons, pow_succ, Nat.mul_comm]; exact Nat.mul_le_mul_left _ hd16

theorem readHex_append (acc : Nat) (xs ys : List Char) (h : ∀ c ∈ xs, IsHexDigit c) :
    readHex acc (xs ++ ys) = readHex (readHex acc xs) ys := by
  induction xs generalizing acc with
  | nil => rfl
  | cons c cs ih =>
    obtain ⟨d, hd⟩ := Option.isSome_iff_exists.mp (h c (by simp))
    simp only [List.cons_append, readHex, hd]
    exact ih _ fun x hx => h x (by simp [hx])

/-- Two leading digits write the top byte of what follows them. -/
theorem readHex_two_cons {x y : Char} {rest : List Char} (h : ∀ c ∈ x :: y :: rest, IsHexDigit c) :
    readHex 0 (x :: y :: rest) = readHex 0 [x, y] * 16 ^ rest.length + readHex 0 rest := by
  rw [show x :: y :: rest = [x, y] ++ rest from rfl, readHex_append _ _ _ (fun c hc => h c (by
    simp only [List.mem_cons, List.mem_singleton, List.not_mem_nil, or_false] at hc
    rcases hc with rfl | rfl <;> simp)), readHex_acc _ _ (fun c hc => h c (by simp [hc]))]

theorem digitValue_lt (c : Char) : digitValue c < 16 := by
  unfold digitValue
  cases h : hexDigitValue c with
  | none => decide
  | some d => exact hexDigitValue_lt h

/-- Two digits read as the byte they denote. -/
theorem readHex_pair {x y : Char} (hx : IsHexDigit x) (hy : IsHexDigit y) :
    readHex 0 [x, y] = 16 * digitValue x + digitValue y := by
  obtain ⟨dx, hdx⟩ := Option.isSome_iff_exists.mp hx
  obtain ⟨dy, hdy⟩ := Option.isSome_iff_exists.mp hy
  simp [readHex, digitValue, hdx, hdy]

/-- Reading eight digits: the four bytes they write, one behind the other. -/
theorem readHex_eight (ds : List Char) (hlen : ds.length = 8) (h : ∀ c ∈ ds, IsHexDigit c) :
    readHex 0 ds = digitByte ds 0 * 2 ^ 24 + digitByte ds 1 * 2 ^ 16 + digitByte ds 2 * 2 ^ 8 +
      digitByte ds 3 := by
  match ds, hlen, h with
  | [e0, e1, e2, e3, e4, e5, e6, e7], _, h =>
    have h2 : ∀ c ∈ [e2, e3, e4, e5, e6, e7], IsHexDigit c := fun c hc => h c (by simp_all)
    have h4 : ∀ c ∈ [e4, e5, e6, e7], IsHexDigit c := fun c hc => h c (by simp_all)
    rw [readHex_two_cons h, readHex_two_cons h2, readHex_two_cons h4,
      readHex_pair (h e0 (by simp)) (h e1 (by simp)), readHex_pair (h e2 (by simp)) (h e3 (by simp)),
      readHex_pair (h e4 (by simp)) (h e5 (by simp)), readHex_pair (h e6 (by simp)) (h e7 (by simp))]
    simp only [digitByte, List.length_cons, List.length_nil]
    norm_num
    ring

/-! ### Premultiplication -/

theorem toNat_ofNat_of_lt {n : Nat} (h : n < 2 ^ 32) : (UInt32.ofNat n).toNat = n := by
  simpa [UInt32.toNat, UInt32.ofNat] using h

/-- The accessors read back the four bytes a word is built from. -/
theorem channels_of_bytes {w : UInt32} {a r g b : Nat} (ha : a < 256) (hr : r < 256)
    (hg : g < 256) (hb : b < 256) (hw : w.toNat = a * 2 ^ 24 + r * 2 ^ 16 + g * 2 ^ 8 + b) :
    (alphaChannel w).toNat = a ∧ (redChannel w).toNat = r ∧ (greenChannel w).toNat = g ∧
      (blueChannel w).toNat = b := by
  simp only [alphaChannel, redChannel, greenChannel, blueChannel, channel_toNat, hw]
  omega

/-- Scaling a byte by `a / 255` keeps it at most `a`. -/
theorem scale_le {x : Nat} (a : Nat) (hx : x < 256) : x * a / 255 ≤ a :=
  Nat.div_le_of_le_mul (Nat.mul_le_mul_right a (by omega))

/-- **Premultiplication.** On the word of bytes `a r g b`, each colour byte is scaled
by `a / 255` and alpha is kept. -/
theorem premultiply_toNat {w : UInt32} {a r g b : Nat} (ha : a < 256) (hr : r < 256)
    (hg : g < 256) (hb : b < 256) (hw : w.toNat = a * 2 ^ 24 + r * 2 ^ 16 + g * 2 ^ 8 + b) :
    (premultiply w).toNat =
      a * 2 ^ 24 + r * a / 255 * 2 ^ 16 + g * a / 255 * 2 ^ 8 + b * a / 255 := by
  obtain ⟨h1, h2, h3, h4⟩ := channels_of_bytes ha hr hg hb hw
  have sr := scale_le a hr
  have sg := scale_le a hg
  have sb := scale_le a hb
  simp only [premultiply, h1, h2, h3, h4]
  rw [pack_eq _ _ _ _ (by omega) (by omega) (by omega)]
  exact toNat_ofNat_of_lt (by omega)

theorem digitByte_lt (ds : List Char) (i : Nat) : digitByte ds i < 256 := by
  have := digitValue_lt (ds.getD (2 * i) '0')
  have := digitValue_lt (ds.getD (2 * i + 1) '0')
  unfold digitByte; omega

/-- **The constructor on eight digits.** `color::color("#" + ds)` keeps its text as
the source, and its word is the premultiplied word of the four bytes the digits
write. -/
theorem make_of_digits {ds : List Char} (hlen : ds.length = 8) (h : ∀ c ∈ ds, IsHexDigit c) :
    (make ('#' :: ds)).source = '#' :: ds ∧
      (make ('#' :: ds)).value.toNat =
        digitByte ds 0 * 2 ^ 24 + digitByte ds 1 * digitByte ds 0 / 255 * 2 ^ 16 +
          digitByte ds 2 * digitByte ds 0 / 255 * 2 ^ 8 + digitByte ds 3 * digitByte ds 0 / 255 := by
  refine ⟨rfl, ?_⟩
  have hb := digitByte_lt ds
  have hv := readHex_eight ds hlen h
  have hlt := readHex_lt ds h
  rw [hlen] at hlt
  obtain ⟨c, cs, rfl⟩ : ∃ c cs, ds = c :: cs := List.exists_cons_of_length_eq_add_one hlen
  have hread : strtoul (c :: cs) = readHex 0 (c :: cs) :=
    strtoul_of_hexDigits c cs h (by unfold ulongMax; omega)
  have hword : (UInt32.ofNat (strtoul (c :: cs))).toNat = digitByte (c :: cs) 0 * 2 ^ 24 +
      digitByte (c :: cs) 1 * 2 ^ 16 + digitByte (c :: cs) 2 * 2 ^ 8 + digitByte (c :: cs) 3 := by
    rw [hread, toNat_ofNat_of_lt (by omega), hv]
  exact premultiply_toNat (hb 0) (hb 1) (hb 2) (hb 3) hword

/-- **Acceptance of the grammar.** On every reachable store, a spelling of the
grammar gives the colour whose source is `#` and the eight digits it stands for, and
whose word is alpha and the premultiplied colour bytes; the accessors read those
bytes back, and none exceeds alpha. -/
theorem parse_accepts_hex_spelling {store : Store} (hstore : Reachable store) {s : List Char}
    (hs : IsHexSpelling s) (fb : Color) :
    let ds := expandDigits (spellingDigits s)
    let a := digitByte ds 0
    let r := digitByte ds 1 * a / 255
    let g := digitByte ds 2 * a / 255
    let b := digitByte ds 3 * a / 255
    ∃ c store', parse store s fb = .ok (c, store') ∧ c.source = '#' :: ds ∧
      c.value.toNat = a * 2 ^ 24 + r * 2 ^ 16 + g * 2 ^ 8 + b ∧
      (alphaChannel c.value).toNat = a ∧ (redChannel c.value).toNat = r ∧
      (greenChannel c.value).toNat = g ∧ (blueChannel c.value).toNat = b ∧
      r ≤ a ∧ g ≤ a ∧ b ≤ a := by
  dsimp only
  obtain ⟨hlen8, hhex⟩ := expandDigits_spec hs.1 hs.2
  have hnorm := normalize_eq_expandDigits hs.1
  generalize expandDigits (spellingDigits s) = ds at hlen8 hhex hnorm ⊢
  obtain ⟨hsrc, hval⟩ := make_of_digits hlen8 hhex
  have hb := digitByte_lt ds
  have ha := hb 0
  have sr := scale_le (digitByte ds 0) (hb 1)
  have sg := scale_le (digitByte ds 0) (hb 2)
  have sb := scale_le (digitByte ds 0) (hb 3)
  obtain ⟨h1, h2, h3, h4⟩ := channels_of_bytes ha (by omega) (by omega) (by omega) hval
  have hin : s ≠ [] := by
    rintro rfl
    simp [IsHexSpelling, spellingDigits] at hs
  have hp := parse_of_length_nine hstore hin (by simp [hnorm, hlen8]) fb
  rw [hnorm] at hp
  exact ⟨_, _, hp, hsrc, hval, h1, h2, h3, h4, sr, sg, sb⟩

theorem parse_accepts_hex_spelling_abc :
    IsHexSpelling "#abc".toList ∧
      ∃ c store', parse [] "#abc".toList empty = .ok (c, store') ∧
        c.source = "#FFaabbcc".toList :=
  ⟨by decide, by
    obtain ⟨c, store', hp, hsrc, -⟩ := parse_accepts_hex_spelling ⟨[], rfl⟩
      (by decide : IsHexSpelling "#abc".toList) empty
    exact ⟨c, store', hp, hsrc⟩⟩

/-! ### The source of a colour -/

theorem parseAll_append_snd (store : Store) (calls : List (List Char × Color)) (input : List Char)
    (fb : Color) : (parseAll store (calls ++ [(input, fb)])).2 = (call (parseAll store calls).2 input fb).2 := by
  induction calls generalizing store with
  | nil => rfl
  | cons p calls ih => exact ih _

/-- A call from a reachable store leaves a reachable store. -/
theorem Reachable.call {store : Store} (h : Reachable store) (input : List Char) (fb : Color) :
    Reachable (call store input fb).2 := by
  obtain ⟨calls, rfl⟩ := h
  exact ⟨calls ++ [(input, fb)], parseAll_append_snd [] calls input fb⟩

/-- Every normal form starts with `#`. -/
theorem normalize_eq_hash (s : List Char) : ∃ rest, normalize s = '#' :: rest := by
  rw [normalize, withHash_eq]
  generalize spellingDigits s = ds
  unfold expandShort forceAlpha
  split <;> split <;> simp

/-- A normal form of nine characters is its own normal form. -/
theorem normalize_normalize {s : List Char} (h : (normalize s).length = 9) :
    normalize (normalize s) = normalize s := by
  obtain ⟨rest, hr⟩ := normalize_eq_hash s
  rw [hr] at h ⊢
  match rest, h with
  | [_, _, _, _, _, _, _, _], _ => rfl

/-- **A colour's source is canonical.** On every reachable store, every colour a call
returns other than its fallback, one whose input normalises to nine characters,
comes back from the store that call left when its own source is parsed, whatever the
fallback. This is what `bootstrap` relies on when it passes a colour's `source()` as
the default of its configuration key. -/
theorem parse_source_canonical {store : Store} (hstore : Reachable store) {s : List Char}
    {fb c : Color} {store' : Store} (hp : parse store s fb = .ok (c, store'))
    (hlen : (normalize s).length = 9) (fb' : Color) :
    ∃ store'', parse store' c.source fb' = .ok (c, store'') := by
  have hin : s ≠ [] := by rintro rfl; simp [parse] at hp
  obtain ⟨st, hst⟩ : ∃ st, parse store s fb = .ok (make (normalize s), st) :=
    ⟨_, parse_of_length_nine hstore hin hlen fb⟩
  rw [hst] at hp
  obtain ⟨rfl, rfl⟩ : make (normalize s) = c ∧ st = store' := by
    simpa only [Except.ok.injEq, Prod.mk.injEq] using hp
  have hreach : Reachable st := by
    simpa [Lemonbuddy.Color.call, hst] using hstore.call s fb
  have hnn := normalize_normalize hlen
  have hst' := @parse_of_length_nine st hreach (normalize s)
    (fun h0 => by simp [h0] at hlen) (by rw [hnn]; exact hlen) fb'
  rw [hnn] at hst'
  exact ⟨_, hst'⟩

theorem parse_source_canonical_abc :
    Reachable [] ∧ parse [] "abc".toList empty = .ok (make "#FFaabbcc".toList, [("abc".toList, make "#FFaabbcc".toList)]) ∧
      (normalize "abc".toList).length = 9 ∧
      ∃ store'', parse [("abc".toList, make "#FFaabbcc".toList)] "#FFaabbcc".toList empty =
        .ok (make "#FFaabbcc".toList, store'') := by
  have hp : parse [] "abc".toList empty =
      .ok (make "#FFaabbcc".toList, [("abc".toList, make "#FFaabbcc".toList)]) := rfl
  have hlen : (normalize "abc".toList).length = 9 := by decide
  exact ⟨⟨[], rfl⟩, hp, hlen, parse_source_canonical ⟨[], rfl⟩ hp hlen empty⟩

/-! ### The two readings of a call -/

/-- **The length decides.** On every reachable store, a non-empty text whose normal form
is not nine characters long gives back the fallback and leaves the store as it was;
one whose normal form is nine characters long, whatever they are, gives the colour
the constructor builds from it with `strtoul`, and the store gains that colour under
the text unless it holds it already. -/
theorem parse_decided_by_length {store : Store} (hstore : Reachable store) {input : List Char}
    (hin : input ≠ []) (fb : Color) :
    parse store input fb =
      if (normalize input).length ≠ 9 then .ok (fb, store)
      else .ok (make (normalize input),
        if (store.lookup input).isSome then store else (input, make (normalize input)) :: store) := by
  by_cases hlen : (normalize input).length = 9
  · rw [if_neg (not_not.mpr hlen)]
    exact parse_of_length_nine hstore hin hlen fb
  · have hl : store.lookup input = none := by
      cases hc : store.lookup input with
      | none => rfl
      | some c => exact absurd (hstore.coherent input c hc).2.1 hlen
    simp [parse, hin, hl, hlen]

/-- `#12` is rejected; `#ggg`, outside the grammar, is stored as the colour of
`#FFgggggg`. -/
theorem parse_decided_by_length_short :
    parse [] "#12".toList empty = .ok (empty, []) ∧
      parse [] "#ggg".toList empty =
        .ok (make "#FFgggggg".toList, [("#ggg".toList, make "#FFgggggg".toList)]) := by
  constructor
  · rw [@parse_decided_by_length [] ⟨[], rfl⟩ "#12".toList (by decide) empty, if_pos (by decide)]
  · rw [@parse_decided_by_length [] ⟨[], rfl⟩ "#ggg".toList (by decide) empty, if_neg (by decide)]
    rfl

/-- The grammar is not what `parse` checks: `#ggg` is no spelling of it, yet it
normalises to the nine characters `#FFgggggg`, which are stored, as the colour
`strtoul` makes of the `FF` it can read. -/
theorem parse_accepts_outside_grammar :
    ¬ IsHexSpelling "#ggg".toList ∧ parse [] "#ggg".toList empty ≠ .ok (empty, []) := by
  refine ⟨by decide, fun h => ?_⟩
  have h' : (parse [] "#ggg".toList empty).toOption = some (empty, []) := by rw [h]; rfl
  revert h'
  decide

/-! ### The text form of a colour -/

/-- An opaque word is its own premultiplication. -/
theorem premultiply_eq_self_of_alpha {v : UInt32} (h : (alphaChannel v).toNat = 255) : premultiply v = v := by
  have hv := v.toNat_lt
  have hw : v.toNat = 255 * 2 ^ 24 + (redChannel v).toNat * 2 ^ 16 + (greenChannel v).toNat * 2 ^ 8 +
      (blueChannel v).toNat := by
    simp only [alphaChannel, redChannel, greenChannel, blueChannel, channel_toNat] at h ⊢
    omega
  have hp := premultiply_toNat (by norm_num) (channel_lt _ _) (channel_lt _ _) (channel_lt _ _) hw
  simp only [Nat.mul_div_cancel _ (by norm_num : 0 < 255)] at hp
  exact UInt32.toNat.inj (hp.trans hw.symm)

/-- The digits `color::operator string` writes: the colour bytes of the word, with
its alpha byte dropped. -/
theorem and_rgb_eq_mod (v : UInt32) : v.toNat &&& 0x00FFFFFF = v.toNat % 2 ^ 24 := by
  rw [show (0x00FFFFFF : Nat) = 2 ^ 24 - 1 by norm_num, Nat.and_pow_two_sub_one_eq_mod]

/-- `#RRGGBB` is given the opaque alpha. -/
theorem normalize_hex_uint8 (v : UInt32) :
    normalize (hex .uint8 v) = '#' :: 'F' :: 'F' :: (hex .uint8 v).tail := by
  have hlen := length_hexDigits 6 (v.toNat &&& 0x00FFFFFF)
  simp only [hex, List.tail_cons]
  generalize hexDigits 6 (v.toNat &&& 0x00FFFFFF) = ds at hlen
  match ds, hlen with
  | [_, _, _, _, _, _], _ => rfl

/-- The constructor reads `FF` and the colour bytes back, and keeps the opaque word. -/
theorem make_hex_uint8 (v : UInt32) :
    (make ('#' :: 'F' :: 'F' :: (hex .uint8 v).tail)).value.toNat = 255 * 2 ^ 24 + v.toNat % 2 ^ 24 := by
  have hdig : ∀ c ∈ 'F' :: 'F' :: hexDigits 6 (v.toNat &&& 0x00FFFFFF), IsHexDigit c := by
    simp only [List.mem_cons]
    rintro c (rfl | rfl | hc) <;> first | exact isHexDigit_F | exact isHexDigit_of_mem_hexDigits hc
  have hread : readHex 0 ('F' :: 'F' :: hexDigits 6 (v.toNat &&& 0x00FFFFFF)) =
      255 * 2 ^ 24 + v.toNat % 2 ^ 24 := by
    rw [readHex_two_cons hdig, length_hexDigits, readHex_hexDigits, and_rgb_eq_mod]
    have : readHex 0 ['F', 'F'] = 255 := by decide
    omega
  have hv := v.toNat_lt
  have hword : (UInt32.ofNat (strtoul ('F' :: 'F' :: hexDigits 6 (v.toNat &&& 0x00FFFFFF)))).toNat =
      255 * 2 ^ 24 + v.toNat % 2 ^ 24 := by
    rw [strtoul_of_hexDigits 'F' _ hdig (by rw [hread]; unfold ulongMax; omega), hread,
      toNat_ofNat_of_lt (by omega)]
  have halpha : (alphaChannel (UInt32.ofNat (strtoul ('F' :: 'F' :: hexDigits 6 (v.toNat &&& 0x00FFFFFF))))).toNat = 255 := by
    simp only [alphaChannel, channel_toNat, hword]
    omega
  simp only [make, hex, List.tail_cons, List.drop_one]
  rw [premultiply_eq_self_of_alpha halpha, hword]

/-- **The text form parses back, opaque.** On every reachable store, the text
`color::operator string` writes for a word, `#` and six upper-case digits of its colour
bytes, is taken for `#RRGGBB` and parses to an opaque colour with the word's red,
green and blue: the string form keeps the colour and loses the alpha. -/
theorem parse_hex_text {store : Store} (hstore : Reachable store) (v : UInt32) (fb : Color) :
    ∃ c store', parse store (hex .uint8 v) fb = .ok (c, store') ∧
      c.source = '#' :: 'F' :: 'F' :: (hex .uint8 v).tail ∧ (alphaChannel c.value).toNat = 255 ∧
      redChannel c.value = redChannel v ∧ greenChannel c.value = greenChannel v ∧
      blueChannel c.value = blueChannel v := by
  have hnorm := normalize_hex_uint8 v
  have hp := parse_of_length_nine hstore (by simp [hex] : hex .uint8 v ≠ [])
    (by rw [hnorm]; simp [hex, length_hexDigits]) fb
  rw [hnorm] at hp
  have hval := make_hex_uint8 v
  have hv := v.toNat_lt
  refine ⟨_, _, hp, rfl, ?_, ?_, ?_, ?_⟩
  · simp only [alphaChannel, channel_toNat, hval]
    omega
  all_goals
    apply UInt8.toNat.inj
    simp only [redChannel, greenChannel, blueChannel, channel_toNat, hval]
    omega

theorem parse_hex_text_half_red :
    Reachable [] ∧ ∃ c store', parse [] "#FF0000".toList empty = .ok (c, store') ∧
      c.source = "#FFFF0000".toList ∧ (alphaChannel c.value).toNat = 255 ∧
      (redChannel c.value).toNat = 255 := by
  obtain ⟨c, store', hp, hsrc, ha, hr, -⟩ := parse_hex_text ⟨[], rfl⟩ 0x80FF0000 empty
  have htext : hex .uint8 0x80FF0000 = "#FF0000".toList := by decide
  rw [htext] at hp hsrc
  exact ⟨⟨[], rfl⟩, c, store', hp, hsrc, ha, by rw [hr]; decide⟩

/-! ### The colour handed to XRender -/

/-- `XRenderColor`: four 16-bit channels. -/
structure XRenderColor where
  red : UInt16
  green : UInt16
  blue : UInt16
  alpha : UInt16
  deriving DecidableEq, Repr

/-- `color::operator XRenderColor()`: each byte of the word, read with the `uint8_t`
accessor and shifted into the high byte of its 16-bit channel. -/
def toXRenderColor (c : Color) : XRenderColor :=
  ⟨UInt16.ofNat ((redChannel c.value).toNat <<< 8), UInt16.ofNat ((greenChannel c.value).toNat <<< 8),
    UInt16.ofNat ((blueChannel c.value).toNat <<< 8), UInt16.ofNat ((alphaChannel c.value).toNat <<< 8)⟩

/-- A byte shifted into the high byte of a channel falls short of the `uint16_t`
accessor by the byte. -/
theorem shifted_add_channel (shift : Nat) (v : UInt32) :
    (UInt16.ofNat ((channel shift v).toNat <<< 8)).toNat + (channel shift v).toNat =
      (channel16 shift v).toNat := by
  have hc := channel_lt shift v
  rw [channel16_toNat, Nat.shiftLeft_eq]
  simp only [UInt16.toNat, UInt16.ofNat, BitVec.toNat_ofNat]
  omega

/-- **XRender gets 256 times the byte.** For every colour, each channel
`operator XRenderColor` hands over falls short, by exactly the byte, of the
`uint16_t` accessor of that channel, which scales the byte by 257: a full byte `0xFF`
becomes `0xFF00`, so no colour reaches XRender's full intensity `0xFFFF`. -/
theorem toXRenderColor_short (c : Color) :
    c.toXRenderColor.red.toNat + (redChannel c.value).toNat = (redChannel16 c.value).toNat ∧
      c.toXRenderColor.green.toNat + (greenChannel c.value).toNat = (greenChannel16 c.value).toNat ∧
      c.toXRenderColor.blue.toNat + (blueChannel c.value).toNat = (blueChannel16 c.value).toNat ∧
      c.toXRenderColor.alpha.toNat + (alphaChannel c.value).toNat = (alphaChannel16 c.value).toNat ∧
      c.toXRenderColor.alpha.toNat ≤ 0xFF00 := by
  have ha := shifted_add_channel 24 c.value
  have ha16 := channel16_toNat 24 c.value
  have halt := channel_lt 24 c.value
  refine ⟨shifted_add_channel 16 c.value, shifted_add_channel 8 c.value, shifted_add_channel 0 c.value,
    ha, ?_⟩
  simp only [toXRenderColor, alphaChannel, alphaChannel16] at ha ha16 ⊢
  omega

end Color

end Lemonbuddy
