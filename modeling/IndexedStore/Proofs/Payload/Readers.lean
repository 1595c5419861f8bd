import IndexedStore.Payload.Reader
/-!
# Readers look no further than they read

A reader takes a front part off the bytes. What it takes must not depend on what follows, for else no
record could be put together from the codecs of its parts; and it is what makes a payload cut short
unreadable: a reader content with a front part would leave the rest over when it is given the whole.

* `Reader.Sequential` says it, and sequences, maps and repetitions of such readers are such readers;
* `Reader.Sequential.error_of_cut`: no proper front part of what is read as a whole is read;
* `Reader.readAll_extended`: nor is anything with more bytes behind.
-/

namespace IndexedStore.Payload.Reader

variable {α β : Type}

/-! ## 1. What composed readers answer -/

theorem bind_of_ok {reader : Reader α} {next : α → Reader β} {bytes rest : Bytes} {value : α}
    (read : reader bytes = .ok (value, rest)) : (reader >>= next) bytes = next value rest := by
  show (reader bytes >>= fun read => next read.1 read.2) = _
  rw [read]
  rfl

theorem bind_of_error {reader : Reader α} {next : α → Reader β} {bytes : Bytes} {fault : Fault}
    (refused : reader bytes = .error fault) : (reader >>= next) bytes = .error fault := by
  show (reader bytes >>= fun read => next read.1 read.2) = _
  rw [refused]
  rfl

/-- What is read in two steps is what the second step reads off what the first one leaves. -/
theorem bind_eq_ok {reader : Reader α} {next : α → Reader β} {bytes : Bytes} {result : β × Bytes} :
    (reader >>= next) bytes = .ok result
      ↔ ∃ value rest, reader bytes = .ok (value, rest) ∧ next value rest = .ok result := by
  cases read : reader bytes with
  | error fault =>
    rw [bind_of_error read]
    constructor
    · intro impossible
      cases impossible
    · rintro ⟨value, rest, impossible, -⟩
      cases impossible
  | ok found =>
    rw [bind_of_ok read]
    constructor
    · intro next
      exact ⟨found.1, found.2, rfl, next⟩
    · rintro ⟨value, rest, same, next⟩
      cases same
      exact next

theorem map_eq_bind (there : α → β) (reader : Reader α) :
    there <$> reader = reader >>= fun value => pure (there value) :=
  map_eq_pure_bind there reader

theorem map_of_ok {reader : Reader α} {bytes rest : Bytes} {value : α} (there : α → β)
    (read : reader bytes = .ok (value, rest)) :
    (there <$> reader) bytes = .ok (there value, rest) := by
  rw [map_eq_bind, bind_of_ok read]
  rfl

theorem map_eq_ok {reader : Reader α} {there : α → β} {bytes rest : Bytes} {result : β} :
    (there <$> reader) bytes = .ok (result, rest)
      ↔ ∃ value, reader bytes = .ok (value, rest) ∧ there value = result := by
  rw [map_eq_bind, bind_eq_ok]
  constructor
  · rintro ⟨value, rest', read, same⟩
    cases same
    exact ⟨value, read, rfl⟩
  · rintro ⟨value, read, rfl⟩
    exact ⟨value, rest, read, rfl⟩

theorem readAll_eq_ok {reader : Reader α} {bytes : Bytes} {value : α} :
    readAll reader bytes = .ok value ↔ reader bytes = .ok (value, []) := by
  unfold readAll
  cases reader bytes with
  | error fault => simp
  | ok read =>
    obtain ⟨found, rest⟩ := read
    cases rest <;> simp

theorem readAll_map (there : α → β) (reader : Reader α) (bytes : Bytes) :
    readAll (there <$> reader) bytes = (readAll reader bytes).map there := by
  unfold readAll
  cases read : reader bytes with
  | error fault =>
    rw [map_eq_bind, bind_of_error read]
    rfl
  | ok found =>
    obtain ⟨value, rest⟩ := found
    rw [map_of_ok there read]
    cases rest <;> rfl

theorem readAll_of_error {reader : Reader α} {bytes : Bytes} {fault : Fault}
    (refused : reader bytes = .error fault) : readAll reader bytes = .error fault := by
  unfold readAll
  rw [refused]

/-! ## 2. Readers that look no further -/

/-- What the reader takes is a front part of the bytes, and it takes the same value off this front
    part whatever follows. -/
def Sequential (reader : Reader α) : Prop :=
  ∀ ⦃bytes value rest⦄, reader bytes = .ok (value, rest) →
    ∃ front, bytes = front ++ rest ∧ ∀ more, reader (front ++ more) = .ok (value, more)

theorem Sequential.pure (value : α) : Sequential (pure value : Reader α) := by
  intro bytes found rest read
  cases read
  exact ⟨[], rfl, fun _ => rfl⟩

theorem Sequential.throw (fault : Fault) : Sequential (throw fault : Reader α) := by
  intro bytes found rest read
  cases read

theorem Sequential.bind {reader : Reader α} {next : α → Reader β} (first : Sequential reader)
    (second : ∀ value, Sequential (next value)) : Sequential (reader >>= next) := by
  intro bytes result rest read
  obtain ⟨value, mid, readFirst, readSecond⟩ := bind_eq_ok.mp read
  obtain ⟨front, rfl, again⟩ := first readFirst
  obtain ⟨back, rfl, againBack⟩ := second value readSecond
  refine ⟨front ++ back, (List.append_assoc ..).symm, fun more => ?_⟩
  rw [List.append_assoc, bind_of_ok (again _)]
  exact againBack more

theorem Sequential.map {reader : Reader α} (there : α → β) (sequential : Sequential reader) :
    Sequential (there <$> reader) := by
  rw [map_eq_bind]
  exact sequential.bind fun value => .pure (there value)

theorem Sequential.takeByte : Sequential takeByte := by
  intro bytes found rest read
  cases bytes with
  | nil => cases read
  | cons byte bytes =>
    cases read
    exact ⟨[found], rfl, fun _ => rfl⟩

theorem take_append {count : Nat} {short : Fault} {front : Bytes} (length : front.length = count)
    (rest : Bytes) : take count short (front ++ rest) = .ok (front, rest) := by
  subst length
  unfold take
  rw [if_neg (by simp), List.take_left, List.drop_left]

theorem take_eq_ok {count : Nat} {short : Fault} {bytes front rest : Bytes} :
    take count short bytes = .ok (front, rest) ↔ bytes = front ++ rest ∧ front.length = count := by
  constructor
  · intro read
    unfold take at read
    split at read
    · cases read
    · rename_i enough
      cases read
      exact ⟨(List.take_append_drop ..).symm, List.length_take_of_le (Nat.le_of_not_lt enough)⟩
  · rintro ⟨rfl, length⟩
    exact take_append length rest

theorem Sequential.take (count : Nat) (short : Fault) : Sequential (take count short) := by
  intro bytes front rest read
  obtain ⟨rfl, length⟩ := take_eq_ok.mp read
  exact ⟨front, rfl, take_append length⟩

theorem Sequential.readMany {reader : Reader α} (sequential : Sequential reader) (count : Nat) :
    Sequential (readMany reader count) := by
  induction count with
  | zero => exact .pure []
  | succ count ih => exact sequential.bind fun value => ih.bind fun values => .pure (value :: values)

/-- Values written one behind the other are read back one after the other. -/
theorem readMany_write {reader : Reader α} {write : α → Bytes} {values : List α}
    (reads : ∀ value ∈ values, ∀ rest, reader (write value ++ rest) = .ok (value, rest))
    (rest : Bytes) :
    readMany reader values.length (values.flatMap write ++ rest) = .ok (values, rest) := by
  induction values with
  | nil => rfl
  | cons value values ih =>
    rw [List.flatMap_cons, List.append_assoc, List.length_cons, readMany,
      bind_of_ok (reads value List.mem_cons_self _),
      bind_of_ok (ih fun other mem => reads other (List.mem_cons_of_mem _ mem))]
    rfl

/-- A reader leaves no more bytes than it is given. -/
theorem Sequential.length_le {reader : Reader α} (sequential : Sequential reader)
    {bytes rest : Bytes} {value : α} (read : reader bytes = .ok (value, rest)) :
    rest.length ≤ bytes.length := by
  obtain ⟨front, rfl, -⟩ := sequential read
  rw [List.length_append]
  exact Nat.le_add_left ..

/-- Two readers that read alike between here and the rest repeat alike. -/
theorem readMany_of_imp {reader other : Reader α} (sequential : Sequential reader) {count : Nat}
    {values : List α} {bytes rest : Bytes} (read : readMany reader count bytes = .ok (values, rest))
    (alike : ∀ {front value back}, front.length ≤ bytes.length → rest.length ≤ back.length →
      reader front = .ok (value, back) → other front = .ok (value, back)) :
    readMany other count bytes = .ok (values, rest) := by
  induction count generalizing values bytes with
  | zero => exact read
  | succ count ih =>
    obtain ⟨value, mid, first, later⟩ := bind_eq_ok.mp read
    obtain ⟨values, rest', many, done⟩ := bind_eq_ok.mp later
    cases done
    have atMid := sequential.length_le first
    have atRest := (sequential.readMany count).length_le many
    rw [readMany, bind_of_ok (alike (Nat.le_refl _) atRest first),
      bind_of_ok (ih many fun less => alike (Nat.le_trans less atMid))]
    rfl

/-! ## 3. Too few bytes, and too many -/

/-- **No proper front part of what is read as a whole is read.** -/
theorem Sequential.error_of_cut {reader : Reader α} (sequential : Sequential reader)
    {cut lost : Bytes} {value : α} (whole : reader (cut ++ lost) = .ok (value, []))
    (short : lost ≠ []) : ∃ fault, reader cut = .error fault := by
  cases read : reader cut with
  | error fault => exact ⟨fault, rfl⟩
  | ok found =>
    obtain ⟨front, rfl, again⟩ := sequential read
    have left := again (found.2 ++ lost)
    rw [← List.append_assoc, whole] at left
    have none : [] = found.2 ++ lost := congrArg Prod.snd (Except.ok.inj left)
    exact absurd (List.append_eq_nil_iff.mp none.symm).2 short

/-- **Nothing with more bytes behind is read.** -/
theorem readAll_extended {reader : Reader α} {bytes more : Bytes} {value : α}
    (read : reader (bytes ++ more) = .ok (value, more)) (extended : more ≠ []) :
    readAll reader (bytes ++ more) = .error .trailingBytes := by
  unfold readAll
  rw [read]
  cases more with
  | nil => exact absurd rfl extended
  | cons b more => rfl

end IndexedStore.Payload.Reader
