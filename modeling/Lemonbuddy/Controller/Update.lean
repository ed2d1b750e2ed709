import Lemonbuddy.Render.Basic

/-!
# Assembling the bar's contents

`controller::on_update` runs whenever a module reports new output. It walks the
event loop's blocks, one per zone in the order `LEFT`, `CENTER`, `RIGHT`, and builds
the markup the bar draws:

* inside a block, every module whose `contents()` is non-empty contributes its text,
  preceded by the separator when something was written before it, by
  `module-margin-left` spaces unless it is the front module of the left block, and
  followed by `module-margin-right` spaces unless it is the back module of the right
  block;
* a block that wrote nothing is skipped; otherwise it is announced by its zone tag
  `%{l}`, `%{c}` or `%{r}`, the left padding goes after the left tag and the right
  padding at the end of the right block;
* four textual merges then fold adjacent tags of the block into one.

The result is printed in writeback mode and handed to `bar::parse` otherwise.

`blockContents_eq_intercalate` states the inner loop as a join: the pieces of the
modules with output, in order, separated by the separator; `updateContents_eq` lifts
it to the outer loop. The margin tests compare module handles, so they ask where a
module stands in its block, not whether it is the first or last one to write
anything: a left block whose front module is silent opens with a margin, and a right
block whose back module is silent ends with one (`edge_margin_follows_position`).

`eventloop.hpp` and `string_util` are not among the sources: a block is its zone and
the list of its modules' contents, each read once, and `replace_all` is the
left-to-right replacement its name and callers describe.
-/

namespace Lemonbuddy

namespace Controller

/-! ### The model -/

/-- The fields of `bar_settings` that `on_update` reads. -/
structure UpdateSettings where
  separator : List Char
  paddingLeft : Nat
  paddingRight : Nat
  moduleMarginLeft : Nat
  moduleMarginRight : Nat
  deriving DecidableEq, Repr

/-- `string(n, ' ')`. -/
def spaces (n : Nat) : List Char := List.replicate n ' '

/-- The scan of `string_util::replace_all`: at each position not covered by the last
match, an occurrence of `needle` is replaced and the scan resumes after it; any other
character is copied. `skip` counts the characters of a match still to pass. -/
def replaceAllFrom (needle replacement : List Char) : Nat → List Char → List Char
  | _, [] => []
  | skip + 1, _ :: cs => replaceAllFrom needle replacement skip cs
  | 0, c :: cs =>
    if needle.isPrefixOf (c :: cs) then
      replacement ++ replaceAllFrom needle replacement (needle.length - 1) cs
    else c :: replaceAllFrom needle replacement 0 cs

/-- `string_util::replace_all(haystack, needle, replacement)`. -/
def replaceAll (haystack needle replacement : List Char) : List Char :=
  replaceAllFrom needle replacement 0 haystack

/-- The merges of `on_update`: `B-}%{B#` to `B#`, `F-}%{F#` to `F#`, `T-}%{T` to `T`,
then `}%{` to a blank. -/
def mergeTags (blockContents : List Char) : List Char :=
  let b := replaceAll blockContents "B-\x7d%\x7bB#".toList "B#".toList
  let b := replaceAll b "F-\x7d%\x7bF#".toList "F#".toList
  let b := replaceAll b "T-\x7d%\x7bT".toList "T".toList
  replaceAll b "\x7d%\x7b".toList " ".toList

example : mergeTags "%\x7bF#fff\x7d%\x7bB-\x7d%\x7bB#000\x7dx".toList =
    "%\x7bF#fff B#000\x7dx".toList := by
  decide

/-- One iteration of the inner loop of `on_update`, for module `i` of a block of `n`
modules with contents `moduleContents`. The handles of a block are distinct, so
`module == block.second.front()` holds of `i = 0` and `module == block.second.back()`
of `i = n - 1`. -/
def appendModule (U : UpdateSettings) (align : Alignment) (n : Nat) (blockContents : List Char)
    (i : Nat) (moduleContents : List Char) : List Char :=
  if moduleContents = [] then blockContents
  else
    let b := if blockContents ≠ [] ∧ U.separator ≠ [] then blockContents ++ U.separator
      else blockContents
    let b := if ¬(align = .left ∧ i = 0) then b ++ spaces U.moduleMarginLeft else b
    let b := b ++ moduleContents
    if ¬(align = .right ∧ i = n - 1) then b ++ spaces U.moduleMarginRight else b

/-- The inner loop from module `i` on. -/
def blockLoop (U : UpdateSettings) (align : Alignment) (n : Nat) :
    Nat → List Char → List (List Char) → List Char
  | _, b, [] => b
  | i, b, m :: ms => blockLoop U align n (i + 1) (appendModule U align n b i m) ms

/-- `block_contents` after the inner loop over a block's modules. -/
def blockContents (U : UpdateSettings) (align : Alignment) (modules : List (List Char)) :
    List Char :=
  blockLoop U align modules.length 0 [] modules

/-- What one block adds to `contents`: nothing when it wrote nothing, else its zone
tag (with the left padding after the left one) and its merged text (with the right
padding at the end of the right block). -/
def blockMarkup (U : UpdateSettings) (align : Alignment) (blockContents : List Char) :
    List Char :=
  if blockContents = [] then []
  else
    match align with
    | .left => "%{l}".toList ++ spaces U.paddingLeft ++ mergeTags blockContents
    | .center => "%{c}".toList ++ mergeTags blockContents
    | .right => "%{r}".toList ++ mergeTags (blockContents ++ spaces U.paddingRight)
    | .none => mergeTags blockContents

/-- The outer loop of `on_update` over the blocks, in the event loop's order. -/
def updateLoop (U : UpdateSettings) : List Char → List (Alignment × List (List Char)) → List Char
  | contents, [] => contents
  | contents, (align, modules) :: blocks =>
    updateLoop U (contents ++ blockMarkup U align (blockContents U align modules)) blocks

/-- `contents` at the end of `controller::on_update`. -/
def updateContents (U : UpdateSettings) (blocks : List (Alignment × List (List Char))) : List Char :=
  updateLoop U [] blocks

/-- Where `on_update` sends its contents. -/
inductive UpdateTarget
  | stdout (line : List Char)
  | barParse (data : List Char)
  deriving DecidableEq, Repr

/-- `controller::on_update`: the contents printed in writeback mode, drawn otherwise. -/
def onUpdate (U : UpdateSettings) (writeback : Bool) (blocks : List (Alignment × List (List Char))) :
    UpdateTarget :=
  if writeback then .stdout (updateContents U blocks) else .barParse (updateContents U blocks)

/-! ### The inner loop -/

section Block

variable (U : UpdateSettings) (align : Alignment) (n : Nat)

/-- What a module with output writes after the separator: its margins, as its
position asks, around its text. -/
def piece (i : Nat) (moduleContents : List Char) : List Char :=
  (if ¬(align = .left ∧ i = 0) then spaces U.moduleMarginLeft else []) ++ moduleContents ++
    (if ¬(align = .right ∧ i = n - 1) then spaces U.moduleMarginRight else [])

/-- The pieces of the modules with output, from position `i` on. -/
def pieces : Nat → List (List Char) → List (List Char)
  | _, [] => []
  | i, m :: ms => if m = [] then pieces (i + 1) ms else piece U align n i m :: pieces (i + 1) ms

@[simp] theorem appendModule_nil (b : List Char) (i : Nat) : appendModule U align n b i [] = b := by
  simp [appendModule]

/-- A module with output appends its piece, after the separator if something was
written before. -/
theorem appendModule_of_ne {m : List Char} (hm : m ≠ []) (b : List Char) (i : Nat) :
    appendModule U align n b i m = if b = [] then piece U align n i m else b ++ U.separator ++ piece U align n i m := by
  unfold appendModule piece
  rw [if_neg hm]
  by_cases hb : b = [] <;> by_cases hs : U.separator = [] <;> split_ifs <;> simp_all

theorem piece_ne_nil {m : List Char} (hm : m ≠ []) (i : Nat) : piece U align n i m ≠ [] := by
  simp [piece, hm]

@[simp] theorem intercalate_nil (sep : List Char) : sep.intercalate [] = [] := rfl

@[simp] theorem intercalate_singleton (sep a : List Char) : sep.intercalate [a] = a := by
  simp [List.intercalate]

theorem intercalate_cons_cons (sep a b : List Char) (l : List (List Char)) :
    sep.intercalate (a :: b :: l) = a ++ sep ++ sep.intercalate (b :: l) := by
  simp [List.intercalate, List.intersperse]

/-- **The inner loop is a join.** From any text written so far, the loop appends the
pieces of the modules with output, each after the separator. -/
theorem blockLoop_eq_intercalate (i : Nat) (b : List Char) (ms : List (List Char)) :
    blockLoop U align n i b ms =
      U.separator.intercalate ((if b = [] then [] else [b]) ++ pieces U align n i ms) := by
  induction ms generalizing i b with
  | nil => by_cases hb : b = [] <;> simp [blockLoop, pieces, hb]
  | cons m ms ih =>
    by_cases hm : m = []
    · simp [blockLoop, pieces, hm, ih]
    · have hp := piece_ne_nil U align n hm i
      rw [blockLoop, ih, appendModule_of_ne U align n hm]
      by_cases hb : b = [] <;> cases hq : pieces U align n (i + 1) ms <;>
        simp [pieces, hm, hb, hp, hq, intercalate_cons_cons]

theorem blockLoop_append (i : Nat) (b : List Char) (ms ms' : List (List Char)) :
    blockLoop U align n i b (ms ++ ms') = blockLoop U align n (i + ms.length) (blockLoop U align n i b ms) ms' := by
  induction ms generalizing i b with
  | nil => rfl
  | cons m ms ih =>
    rw [List.cons_append, blockLoop, blockLoop, ih, List.length_cons, Nat.add_right_comm, Nat.add_assoc]

theorem blockLoop_replicate_nil (i k : Nat) (b : List Char) :
    blockLoop U align n i b (List.replicate k []) = b := by
  induction k generalizing i with
  | zero => rfl
  | succ k ih => simp [List.replicate_succ, blockLoop, ih]

/-- The loop only ever appends. -/
theorem blockLoop_prefix (i : Nat) (b : List Char) (ms : List (List Char)) :
    ∃ t, blockLoop U align n i b ms = b ++ t := by
  induction ms generalizing i b with
  | nil => exact ⟨[], by simp [blockLoop]⟩
  | cons m ms ih =>
    obtain ⟨t, ht⟩ := ih (i + 1) (appendModule U align n b i m)
    rw [blockLoop, ht]
    rcases eq_or_ne m [] with rfl | hm
    · exact ⟨t, by simp⟩
    · rw [appendModule_of_ne U align n hm]
      by_cases hb : b = []
      · exact ⟨piece U align n i m ++ t, by simp [hb]⟩
      · exact ⟨U.separator ++ piece U align n i m ++ t, by simp [hb]⟩

end Block

/-- **The block's text.** `block_contents` is the pieces of the modules with output,
in their order, joined by the separator. -/
theorem blockContents_eq_intercalate (U : UpdateSettings) (align : Alignment) (modules : List (List Char)) :
    blockContents U align modules =
      U.separator.intercalate (pieces U align modules.length 0 modules) := by
  simp [blockContents, blockLoop_eq_intercalate]

/-! ### The whole update -/

theorem updateLoop_eq (U : UpdateSettings) (contents : List Char) (blocks : List (Alignment × List (List Char))) :
    updateLoop U contents blocks =
      contents ++ blocks.flatMap fun bl => blockMarkup U bl.1 (blockContents U bl.1 bl.2) := by
  induction blocks generalizing contents with
  | nil => simp [updateLoop]
  | cons bl blocks ih => simp [updateLoop, ih]

/-- **The assembled contents.** `on_update` writes, block after block, the block's
markup around the join of its modules' pieces; a block with no output writes
nothing. -/
theorem updateContents_eq (U : UpdateSettings) (blocks : List (Alignment × List (List Char))) :
    updateContents U blocks = blocks.flatMap fun bl =>
      blockMarkup U bl.1 (U.separator.intercalate (pieces U bl.1 bl.2.length 0 bl.2)) := by
  simp [updateContents, updateLoop_eq, blockContents_eq_intercalate]

/-- **The edge margins follow position, not output.** The left block leaves out the
left margin of its front module only: when the first `k` modules are silent, the
first text written is preceded by the margin. Likewise the right block ends with the
right margin when its last `k` modules are silent. -/
theorem edge_margin_follows_position (U : UpdateSettings) (k : Nat) {c : List Char} (hc : c ≠ [])
    (rest : List (List Char)) :
    (∃ t, blockContents U .left (List.replicate k [] ++ c :: rest) =
        (if k = 0 then [] else spaces U.moduleMarginLeft) ++ c ++ t) ∧
      ∃ t, blockContents U .right (rest ++ c :: List.replicate k []) =
        t ++ c ++ (if k = 0 then [] else spaces U.moduleMarginRight) := by
  constructor
  · rw [blockContents]
    generalize (List.replicate k [] ++ c :: rest).length = N
    rw [blockLoop_append, blockLoop_replicate_nil, List.length_replicate, Nat.zero_add, blockLoop,
      appendModule_of_ne U .left N hc, if_pos rfl]
    obtain ⟨t, ht⟩ := blockLoop_prefix U .left N (k + 1) (piece U .left N k c) rest
    refine ⟨spaces U.moduleMarginRight ++ t, ?_⟩
    rw [ht]
    by_cases hk : k = 0 <;> simp [piece, hk]
  · rw [blockContents]
    generalize hN : (rest ++ c :: List.replicate k []).length = N
    have hlast : N - 1 = rest.length + k := by simp at hN; omega
    rw [blockLoop_append, Nat.zero_add, blockLoop, blockLoop_replicate_nil, appendModule_of_ne U .right N hc]
    generalize blockLoop U .right N 0 [] rest = b
    refine ⟨(if b = [] then [] else b ++ U.separator) ++ spaces U.moduleMarginLeft, ?_⟩
    by_cases hb : b = [] <;> by_cases hk : k = 0 <;> simp [piece, hlast, hb, hk]

theorem edge_margin_follows_position_silent_edges :
    let U : UpdateSettings := ⟨[], 0, 0, 1, 1⟩
    (∃ t, blockContents U .left [[], ['a']] = [' ', 'a'] ++ t) ∧
      ∃ t, blockContents U .right [['a'], []] = t ++ ['a', ' '] := by
  intro U
  obtain ⟨hl, t, hr⟩ := edge_margin_follows_position U 1 (by decide : ['a'] ≠ []) []
  exact ⟨hl, t, by rw [show [['a'], []] = [] ++ ['a'] :: List.replicate 1 [] from rfl, hr]; simp [U, spaces]⟩

end Controller

end Lemonbuddy
