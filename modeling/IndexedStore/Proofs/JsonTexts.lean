import IndexedStore.Proofs.JsonGrammar
/-!
# A value is read back from its written form

Inside the quotes a character stands as itself, behind a backslash as a letter, or behind `\u` as its
number; a number stands as its digits, an element and a member on a line of its own. Each of these is
a form that the grammar knows, so what is written is read back.

* `Json.escape_written` is the form of a character, `Json.quoted_quote` that of a text;
* `Json.number_ofNat` and `Json.natural?_ofNat` are the two sides of a number;
* `Json.Writable.spells` is the form of a value;
* **`Json.parse_quote`** and **`Json.Writable.isText_pretty`** are the results.
-/

namespace IndexedStore.Json

/-! ## 1. Texts -/

/-- Whether a piece stands for a character: it is the character, or the number of a control
    character. Only the number of half a pair would depend on the piece behind it. -/
inductive Piece.Spells : Piece → Char → Prop
  | char (c : Char) : Spells (.char c) c
  | unit {c : Char} (control : c.toNat < 0x20) : Spells (.unit c.toNat) c

/-- The hexadecimal digits of the number of a control character. -/
theorem hexValue?_digitChar : ∀ n < 0x20,
    hexValue? (Nat.digitChar (n / 16)) = some (n / 16)
      ∧ hexValue? (Nat.digitChar (n % 16)) = some (n % 16) := by
  decide

/-- **A character is written in a form of a piece that stands for it.** -/
theorem escape_written (c : Char) :
    ∃ piece : Piece, piece.Spells c ∧ piece.Written (escape c) := by
  unfold escape
  split
  · exact ⟨_, .char _, .letter rfl⟩
  · exact ⟨_, .char _, .letter rfl⟩
  · exact ⟨_, .char _, .letter rfl⟩
  · exact ⟨_, .char _, .letter rfl⟩
  · exact ⟨_, .char _, .letter rfl⟩
  · exact ⟨_, .char _, .letter rfl⟩
  · exact ⟨_, .char _, .letter rfl⟩
  · rename_i noQuote noBackslash _ _ _ _ _
    split
    · rename_i control
      obtain ⟨high, low⟩ := hexValue?_digitChar c.toNat control
      have number : (0 * 16 + 0) * 256 + c.toNat / 16 * 16 + c.toNat % 16 = c.toNat := by omega
      have zero : hexValue? '0' = some 0 := rfl
      have written := Piece.Written.number zero zero high low
      rw [number] at written
      exact ⟨_, .unit control, written⟩
    · rename_i plain
      exact ⟨_, .char c, .plain plain noQuote noBackslash⟩

/-- Pieces that stand for the characters of a text spell the text. -/
theorem joinPieces?_eq_some {pieces : List Piece} {text : List Char}
    (spells : List.Forall₂ Piece.Spells pieces text) : joinPieces? pieces = some text := by
  induction spells with
  | nil => rfl
  | @cons piece c pieces text first _ ih =>
    cases first with
    | char c => rw [joinPieces?, ih]; rfl
    | unit control =>
      have noHalf : isHighHalf c.toNat = false ∧ isLowHalf c.toNat = false := by
        unfold isHighHalf isLowHalf
        refine ⟨?_, ?_⟩ <;> rw [decide_eq_false (by omega), Bool.false_and]
      have whole : Char.ofNat c.toNat = c := Char.ofNat_toNat c
      -- the next piece matters for half a pair only
      unfold joinPieces?
      split
      · rename_i same
        cases same
      · rename_i same
        cases same
      · rename_i same
        cases same
        rw [noHalf.1, noHalf.2, ih, whole]
        rfl
      · rename_i same
        cases same
        rw [noHalf.1, noHalf.2, ih, whole]
        rfl

theorem escape_forms (text : List Char) : ∃ pieces,
    List.Forall₂ Piece.Spells pieces text
      ∧ List.Forall₂ Piece.Written pieces (text.map escape) := by
  induction text with
  | nil => exact ⟨[], .nil, .nil⟩
  | cons c text ih =>
    obtain ⟨pieces, spells, written⟩ := ih
    obtain ⟨piece, first, form⟩ := escape_written c
    exact ⟨piece :: pieces, .cons first spells, .cons form written⟩

/-- A text in quotes is a form of the text. -/
theorem quoted_quote (text : String) : Quoted (some text) (quote text).toList := by
  obtain ⟨pieces, spells, written⟩ := escape_forms text.toList
  have form := Quoted.mk written
  rw [joinPieces?_eq_some spells, Option.map_some, String.ofList_toList,
    ← List.flatMap_def] at form
  unfold quote
  rw [String.toList_ofList]
  exact form

/-- So is the stand-in for a string without text. -/
theorem quoted_quoteText (text : Option String) : Quoted text (quoteText text).toList := by
  cases text with
  | some text => exact quoted_quote text
  | none =>
    have half : Piece.Written (.unit 0xd800) ['\\', 'u', 'd', '8', '0', '0'] :=
      .number (m := 13) (n := 8) (o := 0) (p := 0) rfl rfl rfl rfl
    exact Quoted.mk (.cons half .nil)

/-! ## 2. Numbers -/

theorem digits_toDigits (n : Nat) : Digits (Nat.toDigits 10 n) :=
  ⟨Nat.toDigits_ne_nil, fun _ => Nat.isDigit_of_mem_toDigits (by decide) (by decide)⟩

/-- The digits of a number that is not zero do not open with a zero. -/
theorem toDigits_opens (n : Nat) (positive : 0 < n) :
    ∃ first others, Nat.toDigits 10 n = first :: others ∧ first ≠ '0' := by
  induction n using Nat.strongRecOn with
  | ind n ih =>
    by_cases small : n < 10
    · have noZero : ∀ n < 10, 0 < n → Nat.digitChar n ≠ '0' := by decide
      exact ⟨_, [], Nat.toDigits_of_lt_base small, noZero n small positive⟩
    · obtain ⟨first, others, digits, noZero⟩ := ih (n / 10) (by omega) (by omega)
      refine ⟨first, others ++ [Nat.digitChar (n % 10)], ?_, noZero⟩
      rw [Nat.toDigits_of_base_le (by decide) (by omega), digits, List.cons_append]

/-- The written form of a number is one. -/
theorem number_ofNat (n : Nat) : Number (toString n).toList := by
  have digits : (toString n).toList = Nat.toDigits 10 n := Nat.toList_repr
  have whole : Whole (Nat.toDigits 10 n) := by
    rcases Nat.eq_zero_or_pos n with rfl | positive
    · exact .zero
    · obtain ⟨first, others, same, noZero⟩ := toDigits_opens n positive
      have all := digits_toDigits n
      rw [same] at all ⊢
      exact .digits noZero all
  have form := Number.mk (.inl rfl) whole .absent .absent
  rw [List.nil_append, List.append_nil, List.append_nil] at form
  rw [digits]
  exact form

/-- **A number is read back from its digits.** -/
theorem natural?_ofNat (n : Nat) : (ofNat n).natural? = some n := by
  have digits : (toString n).toList = Nat.toDigits 10 n := Nat.toList_repr
  obtain ⟨nonempty, each⟩ := digits_toDigits n
  have value : digitsValue (Nat.toDigits 10 n) = n := by
    have step : digitsValue (Nat.toDigits 10 n) = Nat.ofDigitChars 10 (Nat.toDigits 10 n) 0 := by
      unfold digitsValue Nat.ofDigitChars
      congr 1
      funext n c
      rw [Nat.mul_comm]
    rw [step, Nat.ofDigitChars_toDigits (by decide) (by decide)]
  unfold ofNat natural?
  dsimp only
  rw [digits, if_pos ⟨List.all_eq_true.mpr each, nonempty⟩, value]

/-! ## 3. Values -/

/-- Whether a value can be written: the text of each number in it is one. -/
inductive Writable : Json → Prop
  | null : Writable .null
  | bool (value : Bool) : Writable (.bool value)
  | number {literal : String} (form : Number literal.toList) : Writable (.number literal)
  | string (text : Option String) : Writable (.string text)
  | array {elements : List Json} (each : ∀ element ∈ elements, Writable element) :
      Writable (.array elements)
  | object {members : List (Option String × Json)} (each : ∀ member ∈ members, Writable member.2) :
      Writable (.object members)

theorem writable_ofNat (n : Nat) : (ofNat n).Writable :=
  .number (number_ofNat n)

theorem blank_lineBreak (depth : Nat) : Blank (lineBreak depth).toList := by
  have chars : (lineBreak depth).toList = '\n' :: List.replicate (2 * depth) ' ' := by
    have blanks : (String.ofList (List.replicate (2 * depth) ' ')).toList
        = List.replicate (2 * depth) ' ' := String.toList_ofList
    unfold lineBreak
    rw [String.toList_append, blanks]
    rfl
  intro c member
  rw [chars] at member
  rcases List.mem_cons.mp member with rfl | member
  · decide
  · rw [(List.mem_replicate.mp member).2]
    decide

/-- Elements on lines of their own are elements with commas between them. -/
theorem separated_renderElements {depth : Nat} {back : List Char} (blank : Blank back)
    (elements : List Json) : ∀ element : Json,
    (∀ other ∈ element :: elements, Spells other (render depth other).toList) →
    Separated Spells (element :: elements)
      ((lineBreak depth).toList ++ (render depth element).toList
        ++ ((renderElements depth elements).toList ++ back)) := by
  induction elements with
  | nil =>
    intro element each
    have form := Separated.last (blank_lineBreak depth) (each element List.mem_cons_self) blank
    rw [renderElements]
    exact form
  | cons next elements ih =>
    intro element each
    have others := ih next fun other member => each other (List.mem_cons_of_mem _ member)
    have form := Separated.more (blank_lineBreak depth) (each element List.mem_cons_self)
      blank_nil others
    rw [List.append_nil] at form
    rw [renderElements]
    simp only [String.toList_append, List.append_assoc] at form ⊢
    exact form

/-- Members on lines of their own are members with commas between them. -/
theorem separated_renderMembers {depth : Nat} {back : List Char} (blank : Blank back)
    (members : List (Option String × Json)) : ∀ member : Option String × Json,
    (∀ other ∈ member :: members, Spells other.2 (render depth other.2).toList) →
    Separated (Member Spells) (member :: members)
      ((lineBreak depth).toList ++ ((quoteText member.1).toList ++ ':' :: ' ' ::
        (render depth member.2).toList) ++ ((renderMembers depth members).toList ++ back)) := by
  have one : ∀ member : Option String × Json, Spells member.2 (render depth member.2).toList →
      Member Spells member ((quoteText member.1).toList ++ ':' :: ' ' ::
        (render depth member.2).toList) := by
    intro member value
    have space : Blank [' '] := by
      intro c inside
      rw [List.mem_singleton.mp inside]
      decide
    have form := Member.mk (quoted_quoteText member.1) blank_nil space value
    rw [List.append_nil, List.append_assoc] at form
    exact form
  induction members with
  | nil =>
    intro member each
    have form := Separated.last (blank_lineBreak depth) (one _ (each member List.mem_cons_self))
      blank
    rw [renderMembers]
    exact form
  | cons next members ih =>
    intro member each
    have others := ih next fun other inside => each other (List.mem_cons_of_mem _ inside)
    have form := Separated.more (blank_lineBreak depth) (one _ (each member List.mem_cons_self))
      blank_nil others
    rw [List.append_nil] at form
    rw [renderMembers]
    simp only [String.toList_append, List.append_assoc] at form ⊢
    exact form

/-- **What is written of a value is a form of it**, at every depth. -/
theorem Writable.spells {value : Json} (writable : Writable value) :
    ∀ depth, Spells value (render depth value).toList := by
  induction writable with
  | null =>
    intro depth
    rw [render]
    exact .null
  | bool value =>
    intro depth
    cases value with
    | true =>
      rw [render]
      exact .boolTrue
    | false =>
      rw [render]
      exact .boolFalse
  | @number literal form =>
    intro depth
    rw [render]
    have spells := Spells.number form
    rw [String.ofList_toList] at spells
    exact spells
  | string text =>
    intro depth
    rw [render]
    exact .string (quoted_quoteText text)
  | @array elements _ ih =>
    intro depth
    cases elements with
    | nil =>
      rw [render]
      exact .emptyArray blank_nil
    | cons element elements =>
      rw [render]
      have form := separated_renderElements (blank_lineBreak depth) elements element
        fun other member => ih other member (depth + 1)
      have spells := Spells.array form
      simp only [String.toList_append, List.append_assoc, List.cons_append] at spells ⊢
      exact spells
  | @object members _ ih =>
    intro depth
    cases members with
    | nil =>
      rw [render]
      exact .emptyObject blank_nil
    | cons member members =>
      rw [render]
      have form := separated_renderMembers (blank_lineBreak depth) members member
        fun other inside => ih other inside (depth + 1)
      have spells := Spells.object form
      simp only [String.toList_append, List.append_assoc, List.cons_append] at spells ⊢
      exact spells

theorem isText_of_spells {value : Json} {text : String} (spells : Spells value text.toList) :
    IsText value text :=
  ⟨[], text.toList, [], (List.append_nil _).symm, blank_nil, spells, blank_nil⟩

/-- **The written form of a value is a text of it.** -/
theorem Writable.isText_pretty {value : Json} (writable : Writable value) :
    IsText value value.pretty :=
  isText_of_spells (writable.spells 0)

/-- **A text is read back from its JSON string.** -/
theorem parse_quote (text : String) : parse (quote text) = some (.string (some text)) :=
  (isText_of_spells (.string (quoted_quote text))).parse

end IndexedStore.Json
