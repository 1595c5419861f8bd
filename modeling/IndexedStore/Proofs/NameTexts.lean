import IndexedStore.Name
import Mathlib.Algebra.Group.Nat.Defs
import Mathlib.Data.List.GetD
import Mathlib.Data.List.TakeWhile
/-!
# A name is read back from its text

The text of a name leaves out the dots at its end. They count as zeros when the text is packed again,
so every word is the word of its own text (`Name.parse_text`).
-/

namespace IndexedStore.Name

/-! ## 1. Words and their digits -/

/-- The first digits of a word make up the word without its low bits. -/
theorem foldl_digits {symbols : List Nat} {word count : Nat} (few : count ≤ 12)
    (bits : word < 2 ^ 64)
    (digits : ∀ i < 12, symbols.getD i 0 = (word >>> (59 - 5 * i)) % 32) :
    (List.range count).foldl (fun spelled i => spelled * 32 + symbols.getD i 0) 0
      = word >>> (64 - 5 * count) := by
  induction count with
  | zero =>
    rw [Nat.shiftRight_eq_div_pow, Nat.div_eq_of_lt bits]
    rfl
  | succ count ih =>
    have next : 64 - 5 * count = (59 - 5 * count) + 5 := by omega
    have same : 64 - 5 * (count + 1) = 59 - 5 * count := by omega
    rw [List.range_succ, List.foldl_append, ih (by omega), List.foldl_cons, List.foldl_nil, next,
      Nat.shiftRight_add, same, digits count (by omega)]
    generalize word >>> (59 - 5 * count) = spelled
    rw [Nat.shiftRight_eq_div_pow]
    omega

theorem getD_symbols (name : Name) (i : Nat) (digit : i < 12) :
    name.symbols.getD i 0 = (name.packed.toNat >>> (59 - 5 * i)) % 32 := by
  unfold symbols
  rw [List.getD_eq_getElem?_getD, List.getElem?_append_left (by simpa using digit)]
  simp [digit]

theorem getD_symbols_last (name : Name) : name.symbols.getD 12 0 = name.packed.toNat % 16 := by
  simp [symbols]

theorem length_symbols (name : Name) : name.symbols.length = maxLength := by
  simp [symbols, maxLength]

theorem lt_of_mem_symbols {name : Name} {symbol : Nat} (mem : symbol ∈ name.symbols) :
    symbol < 32 := by
  unfold symbols at mem
  rcases List.mem_append.mp mem with early | last
  · obtain ⟨i, -, rfl⟩ := List.mem_map.mp early
    exact Nat.mod_lt _ (by decide)
  · obtain rfl := List.mem_singleton.mp last
    omega

/-- A word is spelled by its digits. -/
theorem pack_symbols (name : Name) : pack name.symbols = name.packed.toNat := by
  unfold pack
  rw [foldl_digits (Nat.le_refl 12) name.packed.toNat_lt (getD_symbols name), getD_symbols_last,
    Nat.shiftRight_eq_div_pow]
  omega

/-- Missing digits count as zeros. -/
theorem pack_congr {symbols symbols' : List Nat}
    (same : ∀ i, symbols.getD i 0 = symbols'.getD i 0) : pack symbols = pack symbols' := by
  unfold pack
  simp only [same]

/-! ## 2. Digits and their characters -/

/-- Each digit is the number of its character, and only the dot stands for zero. -/
theorem symbol?_character : ∀ symbol < 32,
    String.utf8EncodeChar (character symbol) = [UInt8.ofNat (character symbol).toNat]
      ∧ symbol? (UInt8.ofNat (character symbol).toNat) = some symbol
      ∧ (character symbol = '.' ↔ symbol = 0) := by
  decide

/-- Digits are read back from the text that they make. -/
theorem readSymbols_characters (text : String) {symbols : List Nat}
    (digits : ∀ symbol ∈ symbols, symbol < 32) :
    (Utf8.encode (String.ofList (symbols.map character))).length = symbols.length
      ∧ readSymbols text (Utf8.encode (String.ofList (symbols.map character))) = .ok symbols := by
  unfold Utf8.encode
  rw [String.toList_ofList]
  induction symbols with
  | nil => exact ⟨rfl, rfl⟩
  | cons symbol symbols ih =>
    obtain ⟨form, number, -⟩ := symbol?_character symbol (digits symbol List.mem_cons_self)
    obtain ⟨length, read⟩ := ih fun other mem => digits other (List.mem_cons_of_mem _ mem)
    rw [List.map_cons, List.flatMap_cons, form, List.singleton_append]
    refine ⟨by rw [List.length_cons, length, List.length_cons], ?_⟩
    rw [readSymbols, number]
    dsimp only
    rw [read]
    rfl

/-! ## 3. Dots at the end -/

/-- Digits up to the last one that is not zero. -/
def stripped (symbols : List Nat) : List Nat :=
  (symbols.reverse.dropWhile (· = 0)).reverse

theorem stripped_subset (symbols : List Nat) : stripped symbols ⊆ symbols := by
  intro symbol mem
  exact List.mem_reverse.mp ((List.dropWhile_sublist _).subset (List.mem_reverse.mp mem))

theorem length_stripped_le (symbols : List Nat) : (stripped symbols).length ≤ symbols.length := by
  unfold stripped
  rw [List.length_reverse]
  exact Nat.le_trans (List.dropWhile_sublist _).length_le (Nat.le_of_eq List.length_reverse)

/-- The digits that are left out are zeros. -/
theorem getD_stripped (symbols : List Nat) (i : Nat) :
    (stripped symbols).getD i 0 = symbols.getD i 0 := by
  have parts : symbols = stripped symbols ++ (symbols.reverse.takeWhile (· = 0)).reverse := by
    unfold stripped
    rw [← List.reverse_append, List.takeWhile_append_dropWhile, List.reverse_reverse]
  rw [congrArg (List.getD · i 0) parts]
  rcases Nat.lt_or_ge i (stripped symbols).length with inside | outside
  · rw [List.getD_append _ _ _ _ inside]
  · rw [List.getD_append_right _ _ _ _ outside, List.getD_eq_default _ _ outside,
      List.getD_eq_getElem?_getD]
    cases digit : (symbols.reverse.takeWhile (· = 0)).reverse[i - (stripped symbols).length]? with
    | none => rfl
    | some symbol =>
      have zero := List.mem_takeWhile_imp (List.mem_reverse.mp (List.mem_of_getElem? digit))
      exact (of_decide_eq_true zero).symm

/-- The digits of a name up to the last one that is not zero. -/
def significant (name : Name) : List Nat :=
  (name.symbols.reverse.dropWhile (· = 0)).reverse

theorem significant_subset (name : Name) : name.significant ⊆ name.symbols :=
  stripped_subset name.symbols

/-- The digits that the text leaves out are zeros. -/
theorem getD_significant (name : Name) (i : Nat) :
    name.significant.getD i 0 = name.symbols.getD i 0 :=
  getD_stripped name.symbols i

theorem dropWhile_characters {symbols : List Nat} (digits : ∀ symbol ∈ symbols, symbol < 32) :
    (symbols.map character).dropWhile (· = '.') = (symbols.dropWhile (· = 0)).map character := by
  induction symbols with
  | nil => rfl
  | cons symbol symbols ih =>
    obtain ⟨-, -, dot⟩ := symbol?_character symbol (digits symbol List.mem_cons_self)
    rw [List.map_cons]
    by_cases zero : symbol = 0
    · rw [List.dropWhile_cons_of_pos (by simpa using dot.mpr zero),
        List.dropWhile_cons_of_pos (by simpa using zero)]
      exact ih fun other mem => digits other (List.mem_cons_of_mem _ mem)
    · rw [List.dropWhile_cons_of_neg (by simpa using fun isDot => zero (dot.mp isDot)),
        List.dropWhile_cons_of_neg (by simpa using zero), List.map_cons]

theorem text_eq (name : Name) : name.text = String.ofList (name.significant.map character) := by
  have digits : ∀ symbol ∈ name.symbols.reverse, symbol < 32 := fun symbol mem =>
    lt_of_mem_symbols (List.mem_reverse.mp mem)
  unfold text significant
  dsimp only
  rw [← List.map_reverse, dropWhile_characters digits, ← List.map_reverse]

/-- The text of a name has at most thirteen bytes. -/
theorem length_text (name : Name) : (Utf8.encode name.text).length ≤ maxLength := by
  have digits : ∀ symbol ∈ name.significant, symbol < 32 := fun symbol mem =>
    lt_of_mem_symbols (name.significant_subset mem)
  rw [text_eq, (readSymbols_characters "" digits).1, ← length_symbols name]
  exact length_stripped_le name.symbols

/-- **Every name is the name of its text.** -/
theorem parse_text (name : Name) : parse name.text = .ok name := by
  have digits : ∀ symbol ∈ name.significant, symbol < 32 := fun symbol mem =>
    lt_of_mem_symbols (name.significant_subset mem)
  have read : readSymbols name.text (Utf8.encode name.text) = .ok name.significant := by
    have readAll := (readSymbols_characters name.text digits).2
    rwa [← text_eq] at readAll
  have last : ¬ name.significant.getD 12 0 > 15 := by
    rw [getD_significant, getD_symbols_last]
    omega
  unfold parse
  rw [if_neg (Nat.not_lt.mpr name.length_text), read]
  show (if name.significant.getD 12 0 > 15 then _ else _) = _
  rw [if_neg last, pack_congr name.getD_significant, pack_symbols]
  show Except.ok (⟨UInt64.ofNat name.packed.toNat⟩ : Name) = _
  rw [UInt64.ofNat_toNat]

end IndexedStore.Name
