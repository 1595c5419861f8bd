import IndexedStore.Bytes
import Mathlib.Algebra.Group.Nat.Defs
import Mathlib.Data.List.Basic
/-!
# The order of byte sequences

What the lexicographic order of byte sequences says about heads, stems and encoded numbers.

* `Bytes.order_cons_cons`: two sequences are compared at the first place where they differ;
* `Bytes.startsWith_iff`, `Bytes.startsWith_of_between`: the sequences with a stem are an INTERVAL,
  from the stem on, and `Bytes.startsWith_iff_between`: up to the stem's successor, if it has one;
* `Bytes.Succeeds` says what a successor is, the LEAST bound of that interval, and
  **`Bytes.successor_exact`** that it is what is found, and when there is none;
* `Bytes.bigEndian_succ_eq`: a number in fixed width is its high byte and then its remainder.
-/

namespace IndexedStore.Bytes

/-! ## 1. Comparing -/

theorem order_eq_lt_iff {a b : Bytes} : order a b = .lt ↔ a < b := by
  unfold order
  split
  · exact ⟨fun _ => ‹a < b›, fun _ => rfl⟩
  · split <;> simp_all

theorem order_eq_eq_iff {a b : Bytes} : order a b = .eq ↔ a = b := by
  unfold order
  split
  · rename_i below
    refine ⟨fun h => (nomatch h), fun same => ?_⟩
    exact absurd (same ▸ below) (Std.lt_irrefl (a := b))
  · split <;> simp_all

/-- Of two sequences one is below the other, or both are one. -/
theorem lt_or_eq_or_gt (a b : Bytes) : a < b ∨ a = b ∨ b < a := by
  by_cases below : a < b
  · exact .inl below
  · by_cases above : b < a
    · exact .inr (.inr above)
    · exact .inr (.inl (Std.Trichotomous.trichotomous (r := (· < ·)) a b below above))

theorem order_eq_gt_iff {a b : Bytes} : order a b = .gt ↔ b < a := by
  constructor
  · intro h
    rcases lt_or_eq_or_gt a b with below | same | above
    · rw [order_eq_lt_iff.mpr below] at h
      cases h
    · rw [order_eq_eq_iff.mpr same] at h
      cases h
    · exact above
  · intro above
    have notBelow : ¬ a < b := Std.not_gt_of_lt above
    have distinct : a ≠ b := fun same => Std.lt_irrefl (a := b) (same ▸ above)
    unfold order
    rw [if_neg notBelow, if_neg distinct]

/-- The first place where two sequences differ decides. -/
theorem order_cons_cons (a b : UInt8) (as bs : Bytes) :
    order (a :: as) (b :: bs) = (compare a.toNat b.toNat).then (order as bs) := by
  rcases Nat.lt_trichotomy a.toNat b.toNat with below | same | above
  · have first : a < b := UInt8.lt_iff_toNat_lt.mpr below
    rw [Nat.compare_eq_lt.mpr below, order_eq_lt_iff.mpr (List.cons_lt_cons_iff.mpr (.inl first))]
    rfl
  · have first : a = b := UInt8.toNat_inj.mp same
    subst first
    rw [Nat.compare_eq_eq.mpr rfl]
    simp only [order, List.cons_lt_cons_iff, Std.lt_irrefl, false_or, true_and, List.cons.injEq,
      Ordering.eq_then]
  · have first : b < a := UInt8.lt_iff_toNat_lt.mpr above
    rw [Nat.compare_eq_gt.mpr above, order_eq_gt_iff.mpr (List.cons_lt_cons_iff.mpr (.inl first))]
    rfl

theorem order_swap (a b : Bytes) : (order a b).swap = order b a := by
  rcases lt_or_eq_or_gt a b with less | rfl | greater
  · rw [order_eq_lt_iff.mpr less, order_eq_gt_iff.mpr less]
    rfl
  · rw [order_eq_eq_iff.mpr rfl]
    rfl
  · rw [order_eq_gt_iff.mpr greater, order_eq_lt_iff.mpr greater]
    rfl

theorem order_ne_gt_trans {a b c : Bytes} (ab : order a b ≠ .gt) (bc : order b c ≠ .gt) :
    order a c ≠ .gt := by
  rw [ne_eq, order_eq_gt_iff] at ab bc ⊢
  exact Std.not_lt.mpr (Std.le_trans (Std.not_lt.mp ab) (Std.not_lt.mp bc))

/-! ## 2. Stems -/

theorem startsWith_iff {bytes stem : Bytes} : startsWith bytes stem ↔ stem <+: bytes := by
  unfold startsWith
  exact List.isPrefixOf_iff_prefix

theorem after?_eq_some_iff {bytes stem rest : Bytes} :
    after? bytes stem = some rest ↔ stem ++ rest = bytes :=
  List.isPrefixOf?_eq_some_iff_append_eq

theorem startsWith_self (stem : Bytes) : startsWith stem stem :=
  startsWith_iff.mpr (List.prefix_refl stem)

/-- A stem is at or below every sequence that starts with it. -/
theorem not_lt_stem {bytes stem : Bytes} (h : startsWith bytes stem) : ¬ bytes < stem := by
  obtain ⟨rest, rfl⟩ := startsWith_iff.mp h
  exact List.not_lt.mpr List.le_append_left

/-- **The sequences with a stem are an interval**: what lies between the stem and a sequence with
    the stem has the stem. -/
theorem startsWith_of_between {stem middle upper : Bytes} (from_stem : ¬ middle < stem)
    (to_upper : ¬ upper < middle) (h : startsWith upper stem) : startsWith middle stem := by
  obtain ⟨rest, rfl⟩ := startsWith_iff.mp h
  clear h
  induction stem generalizing middle with
  | nil => exact startsWith_iff.mpr List.nil_prefix
  | cons head stem ih =>
    cases middle with
    | nil => exact absurd (List.nil_lt_cons head stem) from_stem
    | cons first middle =>
      rw [List.cons_lt_cons_iff] at from_stem
      rw [List.cons_append, List.cons_lt_cons_iff] at to_upper
      have same : head = first := UInt8.le_antisymm
        (UInt8.not_lt.mp fun h => from_stem (.inl h)) (UInt8.not_lt.mp fun h => to_upper (.inl h))
      subst same
      have inner : startsWith middle stem :=
        ih (fun h => from_stem (.inr ⟨rfl, h⟩)) (fun h => to_upper (.inr ⟨rfl, h⟩))
      rw [startsWith_iff] at inner ⊢
      exact List.cons_prefix_cons.mpr ⟨rfl, inner⟩

/-- No byte is above `0xff`, and none lies between another byte and the next one. -/
theorem byte_lt_succ_iff {a b : UInt8} : (b = 0xff ∨ a < b + 1) ↔ a < b ∨ a = b := by
  have bound := a.toNat_lt
  have bound' := b.toNat_lt
  have top : b = 0xff ↔ b.toNat = 255 := UInt8.toNat_inj.symm
  have next : (b + 1).toNat = (b.toNat + 1) % 256 := UInt8.toNat_add b 1
  have same : a = b ↔ a.toNat = b.toNat := UInt8.toNat_inj.symm
  rw [UInt8.lt_iff_toNat_lt, UInt8.lt_iff_toNat_lt, top, same, next]
  omega

/-- To be below the successor of a stem, a sequence must be so at the first place where it differs
    from the stem. -/
theorem below_successor_cons {first last : UInt8} {bytes rest : Bytes} :
    (∀ above, successor? (last :: rest) = some above → first :: bytes < above) ↔
      first < last ∨ first = last ∧ ∀ above, successor? rest = some above → bytes < above := by
  rw [successor?]
  cases successor? rest with
  | some above => simp only [Option.some.injEq, forall_eq', List.cons_lt_cons_iff]
  | none =>
    have inner : ∀ above, (none : Option Bytes) = some above → bytes < above := nofun
    rw [and_iff_left inner, ← byte_lt_succ_iff]
    dsimp only
    split
    · rename_i full
      exact ⟨fun _ => .inl full, fun _ => nofun⟩
    · rename_i room
      simp [room, List.cons_lt_cons_iff]

/-- **The sequences with a stem are those from the stem on and below its successor**, or all from the
    stem on if it has none. -/
theorem startsWith_iff_between (stem : Bytes) : ∀ {bytes : Bytes}, startsWith bytes stem ↔
    ¬ bytes < stem ∧ ∀ above, successor? stem = some above → bytes < above := by
  induction stem with
  | nil =>
    intro bytes
    refine ⟨fun _ => ⟨List.not_lt_nil bytes, fun _ none => nomatch none⟩, fun _ => ?_⟩
    exact startsWith_iff.mpr List.nil_prefix
  | cons last rest ih =>
    intro bytes
    cases bytes with
    | nil =>
      refine ⟨fun begins => absurd (startsWith_iff.mp begins) (by simp), fun h => ?_⟩
      exact absurd (List.nil_lt_cons last rest) h.1
    | cons first bytes =>
      have begins : startsWith (first :: bytes) (last :: rest) ↔
          first = last ∧ startsWith bytes rest := by
        rw [startsWith_iff, startsWith_iff, List.cons_prefix_cons, eq_comm]
      rw [begins, ih, List.cons_lt_cons_iff, below_successor_cons]
      constructor
      · rintro ⟨rfl, notBelow, below⟩
        refine ⟨?_, .inr ⟨rfl, below⟩⟩
        rintro (lt | ⟨_, lt⟩)
        · exact Std.lt_irrefl lt
        · exact notBelow lt
      · rintro ⟨notBelow, lt | ⟨same, below⟩⟩
        · exact absurd (.inl lt) notBelow
        · exact ⟨same, fun lt => notBelow (.inr ⟨same, lt⟩), below⟩

/-! ## 3. Successors -/

/-- Whether a sequence is the first one behind all that start with a stem. -/
structure Succeeds (above stem : Bytes) : Prop where
  /-- What starts with the stem is not below the stem, and is below its successor; nothing else is
      both. -/
  between : ∀ bytes, startsWith bytes stem ↔ ¬ bytes < stem ∧ bytes < above
  /-- No lesser sequence is above all that start with the stem. -/
  least : ∀ other, (∀ bytes, startsWith bytes stem → bytes < other) → ¬ other < above

variable {above stem : Bytes}

theorem Succeeds.not_startsWith (h : Succeeds above stem) : ¬ startsWith above stem :=
  fun begins => Std.lt_irrefl ((h.between above).mp begins).2

theorem Succeeds.not_lt (h : Succeeds above stem) : ¬ above < stem :=
  Std.not_gt_of_lt ((h.between stem).mp (startsWith_self stem)).2

/-- A stem has one successor. -/
theorem Succeeds.unique {other : Bytes} (h : Succeeds above stem) (h' : Succeeds other stem) :
    above = other := by
  have notAbove := h.least other fun bytes begins => ((h'.between bytes).mp begins).2
  have notBelow := h'.least above fun bytes begins => ((h.between bytes).mp begins).2
  exact Std.Trichotomous.trichotomous (r := (· < ·)) above other notBelow notAbove

/-- What is found succeeds the stem. -/
theorem succeeds_of_successor? (found : successor? stem = some above) : Succeeds above stem := by
  have between : ∀ bytes, startsWith bytes stem ↔ ¬ bytes < stem ∧ bytes < above := by
    intro bytes
    rw [startsWith_iff_between, found]
    simp only [Option.some.injEq, forall_eq']
  refine ⟨between, fun other tops below => ?_⟩
  -- A bound below the successor would lie in the stem's interval, and so below itself.
  have notBelow : ¬ other < stem := Std.not_gt_of_lt (tops stem (startsWith_self stem))
  exact Std.lt_irrefl (tops other ((between other).mpr ⟨notBelow, below⟩))

/-- Only where no byte can grow, nothing is found. -/
theorem successor?_eq_none_iff : successor? stem = none ↔ ∀ b ∈ stem, b = 0xff := by
  induction stem with
  | nil => exact ⟨fun _ _ mem => absurd mem List.not_mem_nil, fun _ => rfl⟩
  | cons b rest ih =>
    rw [List.forall_mem_cons, ← ih, successor?]
    cases successor? rest with
    | some above => exact ⟨nofun, fun h => absurd h.2 (Option.some_ne_none above)⟩
    | none =>
      rw [and_iff_left rfl]
      dsimp only
      by_cases full : b = 0xff
      · rw [if_pos full]
        exact ⟨fun _ => full, fun _ => rfl⟩
      · rw [if_neg full]
        exact ⟨nofun, fun same => absurd same full⟩

/-- What starts with a stem without a successor is all that is not below the stem. -/
theorem startsWith_iff_of_none (missing : successor? stem = none) (bytes : Bytes) :
    startsWith bytes stem ↔ ¬ bytes < stem := by
  rw [startsWith_iff_between, missing]
  exact and_iff_left nofun

/-- **What is found is the successor of the stem**. The stems without one are those of nothing but
    `0xff`: all that is not below such a stem starts with it. -/
theorem successor_exact (stem : Bytes) :
    (∀ above, successor? stem = some above ↔ Succeeds above stem)
      ∧ (successor? stem = none ↔ ∀ b ∈ stem, b = 0xff)
      ∧ (successor? stem = none ↔ ∀ bytes, startsWith bytes stem ↔ ¬ bytes < stem) := by
  refine ⟨fun above => ⟨succeeds_of_successor?, fun succeeds => ?_⟩, successor?_eq_none_iff,
    startsWith_iff_of_none, fun all => ?_⟩
  · cases found : successor? stem with
    | none =>
      have begins := (startsWith_iff_of_none found above).mpr succeeds.not_lt
      exact absurd begins succeeds.not_startsWith
    | some other => rw [succeeds.unique (succeeds_of_successor? found)]
  · cases found : successor? stem with
    | none => rfl
    | some above =>
      have succeeds := succeeds_of_successor? found
      exact absurd ((all above).mpr succeeds.not_lt) succeeds.not_startsWith

/-- The last byte that can grow takes the place of all that follow it. -/
example : successor? [1, 0xff, 0xff] = some [2] := by decide

/-! ## 4. Numbers in fixed width -/

/-- Only the remainder that fits is written. -/
theorem bigEndian_mod (size n : Nat) : bigEndian size (n % 256 ^ size) = bigEndian size n := by
  induction size generalizing n with
  | zero => rfl
  | succ size ih =>
    have tail : bigEndian size (n % 256 ^ (size + 1)) = bigEndian size n := by
      rw [← ih, Nat.mod_mod_of_dvd n (Nat.pow_dvd_pow 256 (Nat.le_succ size)), ih]
    have head : UInt8.ofNat ((n % 256 ^ (size + 1)) >>> (8 * size))
        = UInt8.ofNat (n >>> (8 * size)) := by
      have width : 2 ^ (8 * size) = 256 ^ size := by rw [Nat.pow_mul]
      apply UInt8.toNat_inj.mp
      rw [UInt8.toNat_ofNat', UInt8.toNat_ofNat', Nat.shiftRight_eq_div_pow,
        Nat.shiftRight_eq_div_pow, width, Nat.pow_succ, Nat.mod_mul_right_div_self, Nat.mod_mod]
    unfold bigEndian
    rw [tail, head]

/-- A number is written as its high byte and then its remainder. -/
theorem bigEndian_succ_eq (size n : Nat) :
    bigEndian (size + 1) n
      = UInt8.ofNat (n / 256 ^ size) :: bigEndian size (n % 256 ^ size) := by
  have width : 2 ^ (8 * size) = 256 ^ size := by rw [Nat.pow_mul]
  rw [bigEndian, bigEndian_mod, Nat.shiftRight_eq_div_pow, width]

end IndexedStore.Bytes
