import IndexedStore.Proofs.Table.Comparing
/-!
# Walks compare by where they were led

Nothing that happens to a store drives apart what its walks remember and where their cursors are, but
for what has become of the entries there. So walks compare by the keys that they were last led to,
and the end comes after all of them.

* `Company` are the walks that can be met in one store, each with the position that it told when it
  was last led;
* `Trail.Kept` is the invariant of one walk: it is there still; `Company.Sound` is that of all of them;
* **`Company.ordered`** is the result.
-/

namespace IndexedStore

open IndexedStore.Action

variable {ρ γ : Type}

/-! ## 1. Walks in company -/

/-- A walk, and the position that it told when it was last led. -/
structure Trail (ρ : Type) where
  walk : Walk ρ
  last : Position

namespace Trail

open Motion

/-- The trail of a walk after a step or a reading. A step that is refused has led it too, to the end. -/
def led (tread : Tread ρ γ) (store : Store) (trail : Trail ρ) : Trail ρ :=
  let ended := ends (tread.perform Store.native) trail.walk store
  ⟨ended.1.2, if tread.leads then ended.1.2.seen ended.2 else trail.last⟩

/-- The store after a step or a reading of a walk. -/
def left (tread : Tread ρ γ) (store : Store) (trail : Trail ρ) : Store :=
  (ends (tread.perform Store.native) trail.walk store).2

end Trail

/-- The walks that can be met in a store, in any order: made over any indices of any tables and in any
    way, led by steps and readings of their own, successful or not, and given up, in any mix with
    whatever else happens to the store. -/
inductive Company : Store → List (Trail ρ) → Prop where
  | empty (store : Store) : Company store []
  | join {start : Start} {view : View ρ} {store after : Store} {walk : Walk ρ}
    {trails : List (Trail ρ)} : Company store trails →
    outcome (start.perform Store.native view) store = (.ok walk, after) →
    Company after (⟨walk, walk.seen after⟩ :: trails)
  | step {γ : Type} {store : Store} {trail : Trail ρ} {others : List (Trail ρ)}
    (tread : Tread ρ γ) : Company store (trail :: others) →
    Company (trail.left tread store) (trail.led tread store :: others)
  | meanwhile {store after : Store} {trails : List (Trail ρ)} : Company store trails →
    (∀ trail ∈ trails, Walk.Meanwhile trail.walk.held? store after) → Company after trails
  | leave {store : Store} {trail : Trail ρ} {others : List (Trail ρ)} :
    Company store (trail :: others) →
    Company (trail.walk.release Store.native store).2 others
  | shuffle {store : Store} {trails trails' : List (Trail ρ)} : trails.Perm trails' →
    Company store trails → Company store trails'

/-- Whether a walk is where it was last led. -/
structure Trail.Kept (store : Store) (trail : Trail ρ) (seat : Option Seat) : Prop where
  sits : Walk.Sits trail.walk.view trail.walk.direction store seat trail.walk
  apt : ∀ here ∈ seat, here.Apt
  within : ∀ here ∈ seat, here.Within trail.walk.view
  last : trail.last = Seat.place seat

namespace Trail.Kept

open Motion

variable {store after : Store} {trail other : Trail ρ} {seat : Option Seat} {walk walk' : Walk ρ}

theorem of_sits {view : View ρ} {direction : Direction} {last : Position}
    (sits : Walk.Sits view direction store seat walk) (apt : ∀ here ∈ seat, here.Apt)
    (within : ∀ here ∈ seat, here.Within view) (told : last = Seat.place seat) :
    (Trail.mk walk last).Kept store seat := by
  cases sits with
  | unheld => exact ⟨.unheld, apt, within, told⟩
  | held cursor => exact ⟨.held cursor, apt, within, told⟩

/-- A walk stays where it was led while its cursor does. -/
theorem of_cursor (kept : trail.Kept store seat)
    (same : ∀ id, trail.walk.held? = some id → after.cursors.get? id = store.cursors.get? id) :
    trail.Kept after seat :=
  { kept with sits := kept.sits.of_cursor same }

/-- What another walk does is nothing to it. -/
theorem beside (kept : other.Kept store seat) (strolled : Strolled store walk after walk')
    (apart : other.walk.Apart walk) : other.Kept after seat ∧ other.walk.Apart walk' :=
  have ⟨sits, apart'⟩ := kept.sits.beside strolled apart
  ⟨{ kept with sits }, apart'⟩

/-- **Every walk is made where it tells that it is.** -/
theorem of_made {start : Start} {view : View ρ}
    (made : outcome (start.perform Store.native view) store = (.ok walk, after)) :
    (∃ seat, (Trail.mk walk (walk.seen after)).Kept after seat)
      ∧ Strolled store (.atEnd view start.direction) after walk := by
  obtain ⟨sits, strolled⟩ := start.foretold_of_ok made
  have arrived : ∀ here ∈ start.foresee view store, view.Arrived after here := fun here mem =>
    (start.arrived_foresee here mem).spared strolled.sparing
  exact ⟨⟨_, of_sits sits (start.apt_foresee view store) start.within_foresee
    (sits.seen_eq arrived)⟩, strolled⟩

/-- What a trail tells after a step or a reading is where the walk then is. -/
theorem last_led (kept : trail.Kept store seat) {tread : Tread ρ γ}
    (foretold : Tread.Foretold trail.walk.view trail.walk.direction store seat trail.walk tread) :
    (trail.led tread store).last
      = Seat.place (tread.foresee trail.walk.view trail.walk.direction store seat).2 := by
  obtain ⟨walk', after, ended, sits, strolled⟩ := foretold
  unfold Trail.led
  dsimp only
  rw [ended]
  cases leads : tread.leads with
  | false =>
    rw [Tread.place_foresee leads]
    exact kept.last
  | true =>
    exact sits.seen_eq fun here mem =>
      (Tread.arrived_foresee leads kept.apt kept.within here mem).spared strolled.sparing

/-- **A step of its own leads a walk to where it then tells that it is**, and a reading leaves it
    where it is. -/
theorem led (kept : trail.Kept store seat) (tread : Tread ρ γ) :
    (∃ seat', (trail.led tread store).Kept (trail.left tread store) seat'
      ∧ (trail.led tread store).walk.view = trail.walk.view
      ∧ (trail.led tread store).walk.direction = trail.walk.direction)
      ∧ Strolled store trail.walk (trail.left tread store) (trail.led tread store).walk := by
  rcases tread.foretold_or_full kept.sits with foretold | ⟨rfl, fault, ended⟩
  · have last := kept.last_led foretold
    obtain ⟨walk', after, ended, sits, strolled⟩ := foretold
    unfold Trail.led Trail.left at *
    dsimp only at *
    rw [ended] at last ⊢
    exact ⟨⟨_, of_sits sits (tread.apt_foresee kept.apt) (tread.within_foresee kept.within) last,
      sits.view_eq, sits.direction_eq⟩, strolled⟩
  · unfold Trail.led Trail.left
    dsimp only
    rw [ended]
    refine ⟨⟨none, { kept with last := ?_ }, rfl, rfl⟩, .refl ..⟩
    cases tread.leads with
    | false => exact kept.last
    | true => exact kept.sits.seen_eq nofun

/-- **A walk that goes on is led past where it was.** -/
theorem order_advanced (kept : trail.Kept store seat)
    (went : (ends (Walk.advance Store.native) trail.walk store).1.1 = .ok ()) :
    trail.walk.direction.order trail.last (trail.led .advance store).last = .lt := by
  have foretold := Tread.ends_foreseen kept.sits .advance fun opens => opens.elim
  rw [kept.last_led foretold, kept.last]
  obtain ⟨walk', after, ended, _, _⟩ := foretold
  have ended : ends (Walk.advance Store.native) trail.walk store = _ := ended
  rw [ended] at went
  cases seat with
  | none => exact nomatch went
  | some seat =>
    have going : seat.standing ≠ .ended := by
      intro stopped
      unfold Tread.foresee at went
      dsimp only at went
      rw [if_pos stopped] at went
      exact nomatch went
    unfold Tread.foresee
    dsimp only
    rw [if_neg going]
    have apt := kept.apt seat rfl
    have within := kept.within seat rfl
    obtain ⟨standing, position⟩ := seat
    cases position with
    | ended => exact absurd (apt.mpr rfl) going
    | onKey key => exact trail.walk.direction.order_ahead (within key rfl)

/-- **Walks compare by where they were last led.** -/
theorem compares {seat' : Option Seat} (kept : trail.Kept store seat)
    (kept' : other.Kept store seat') (course : trail.walk.SameCourse other.walk) :
    trail.walk.Compares store other.walk
      (trail.walk.direction.order trail.last other.last) := by
  have sits' := kept'.sits
  rw [← course.1, ← course.2] at sits'
  rw [kept.last, kept'.last]
  exact kept.sits.compares sits' kept.apt kept'.apt

/-- A walk remembers its end exactly if it was led there. -/
theorem isEnd_iff (kept : trail.Kept store seat) : trail.walk.isEnd ↔ trail.last = .ended := by
  rw [kept.last]
  exact kept.sits.isEnd_iff kept.apt

end Trail.Kept

/-! ## 2. The invariant -/

namespace Company

open Motion

/-- Whether every walk of a company is where it was last led, on a cursor of its own. -/
structure Sound (store : Store) (trails : List (Trail ρ)) : Prop where
  kept : ∀ trail ∈ trails, ∃ seat, trail.Kept store seat
  apart : trails.Pairwise fun a b => a.walk.Apart b.walk

variable {store after : Store} {trail : Trail ρ} {others trails trails' : List (Trail ρ)}

namespace Sound

/-- A walk that is led, or is new, leaves the company sound. -/
theorem moved {walk : Walk ρ} {seat : Option Seat} (sound : Sound store others)
    (kept : trail.Kept after seat) (strolled : Strolled store walk after trail.walk)
    (apart : ∀ other ∈ others, other.walk.Apart walk) : Sound after (trail :: others) where
  kept := by
    intro other mem
    rcases List.mem_cons.mp mem with rfl | mem
    · exact ⟨seat, kept⟩
    · obtain ⟨seat', kept'⟩ := sound.kept other mem
      exact ⟨seat', (kept'.beside strolled (apart other mem)).1⟩
  apart := by
    refine List.pairwise_cons.mpr ⟨fun other mem => ?_, sound.apart⟩
    obtain ⟨seat', kept'⟩ := sound.kept other mem
    exact (kept'.beside strolled (apart other mem)).2.symm

theorem tail (sound : Sound store (trail :: others)) : Sound store others where
  kept other mem := sound.kept other (List.mem_cons_of_mem _ mem)
  apart := (List.pairwise_cons.mp sound.apart).2

theorem shuffle (sound : Sound store trails) (shuffled : trails.Perm trails') :
    Sound store trails' where
  kept trail mem := sound.kept trail (shuffled.mem_iff.mpr mem)
  apart := (shuffled.pairwise_iff fun apart => apart.symm).mp sound.apart

theorem step {γ : Type} (tread : Tread ρ γ) (sound : Sound store (trail :: others)) :
    Sound (trail.left tread store) (trail.led tread store :: others) := by
  obtain ⟨seat, kept⟩ := sound.kept trail List.mem_cons_self
  obtain ⟨⟨seat', kept', _⟩, strolled⟩ := kept.led tread
  have apart := (List.pairwise_cons.mp sound.apart).1
  exact sound.tail.moved kept' strolled fun other mem => (apart other mem).symm

theorem meanwhile (sound : Sound store trails)
    (waits : ∀ trail ∈ trails, Walk.Meanwhile trail.walk.held? store after) :
    Sound after trails where
  kept trail mem := by
    obtain ⟨seat, kept⟩ := sound.kept trail mem
    exact ⟨seat, { kept with sits := kept.sits.meanwhile (waits trail mem) }⟩
  apart := sound.apart

theorem leave (sound : Sound store (trail :: others)) :
    Sound (trail.walk.release Store.native store).2 others where
  kept other mem := by
    obtain ⟨seat, kept⟩ := sound.kept trail List.mem_cons_self
    obtain ⟨seat', kept'⟩ := sound.kept other (List.mem_cons_of_mem _ mem)
    obtain ⟨after, released, _, ledger⟩ := Walk.release_foreseen kept.sits
    rw [released]
    have apart := ((List.pairwise_cons.mp sound.apart).1 other mem).symm
    exact ⟨seat', kept'.of_cursor fun id held => ledger.others id (apart id held) nofun⟩
  apart := sound.tail.apart

end Sound

/-- **Every walk stays where it was last led.** The induction is on what has happened to the
    company. -/
theorem sound (company : Company store trails) : Sound store trails := by
  induction company with
  | empty => exact ⟨nofun, .nil⟩
  | join _ made sound =>
    obtain ⟨⟨seat, kept⟩, strolled⟩ := Trail.Kept.of_made made
    exact sound.moved kept strolled fun _ _ _ _ => nofun
  | step tread _ sound => exact sound.step tread
  | meanwhile _ waits sound => exact sound.meanwhile waits
  | leave _ sound => exact sound.leave
  | shuffle shuffled _ sound => exact sound.shuffle shuffled

/-- **No walk of a company is outside its index**: what it reads behind the stem fails by a misuse
    alone. -/
theorem misuse_behindStem (company : Company store trails) (mem : trail ∈ trails) {fault : Fault}
    (failed : (outcome (trail.walk.keyBehindStem Store.native) store).1 = .error fault) :
    ∃ cause, fault = .misuse cause := by
  obtain ⟨_, kept⟩ := company.sound.kept trail mem
  exact kept.sits.misuse_behindStem kept.within failed

/-! ## 3. The result -/

/-- How the walks of a company compare that go the same way over one index. -/
structure Ordered (store : Store) (trails : List (Trail ρ)) : Prop where
  /-- Always, and by the positions that they were last led to. -/
  compares : ∀ a ∈ trails, ∀ b ∈ trails, a.walk.SameCourse b.walk →
    a.walk.Compares store b.walk (a.walk.direction.order a.last b.last)
  isEnd_iff : ∀ trail ∈ trails, trail.walk.isEnd ↔ trail.last = .ended
  ended : ∀ a ∈ trails, ∀ b ∈ trails, a.walk.SameCourse b.walk → a.walk.isEnd →
    a.walk.Compares store b.walk (if b.walk.isEnd then .eq else .gt)
  refl : ∀ a ∈ trails, a.walk.Compares store a.walk .eq
  eq_iff : ∀ a ∈ trails, ∀ b ∈ trails, a.walk.SameCourse b.walk →
    (a.walk.Compares store b.walk .eq ↔ a.last = b.last)
  swap : ∀ a ∈ trails, ∀ b ∈ trails, a.walk.SameCourse b.walk → ∀ ordering,
    a.walk.Compares store b.walk ordering → b.walk.Compares store a.walk ordering.swap
  trans : ∀ a ∈ trails, ∀ b ∈ trails, ∀ c ∈ trails,
    a.walk.SameCourse b.walk → b.walk.SameCourse c.walk → ∀ first second,
    a.walk.Compares store b.walk first → b.walk.Compares store c.walk second →
    first ≠ .gt → second ≠ .gt →
    ∃ third, a.walk.Compares store c.walk third ∧ third ≠ .gt
  /-- Nothing else that happens to the store changes how they compare. -/
  meanwhile : ∀ after, (∀ trail ∈ trails, Walk.Meanwhile trail.walk.held? store after) →
    ∀ a ∈ trails, ∀ b ∈ trails, a.walk.SameCourse b.walk → ∀ ordering,
      (a.walk.Compares after b.walk ordering ↔ a.walk.Compares store b.walk ordering)
  /-- Nor does a step or a reading of a third walk. -/
  beside : ∀ {γ : Type} (tread : Tread ρ γ) trail others, trails.Perm (trail :: others) →
    ∀ a ∈ others, ∀ b ∈ others, a.walk.SameCourse b.walk → ∀ ordering,
      (a.walk.Compares (trail.left tread store) b.walk ordering
        ↔ a.walk.Compares store b.walk ordering)
  /-- Nor does a reading of one of them, or that it learns its standing anew. -/
  stays : ∀ {γ : Type} (tread : Tread ρ γ), tread.leads = false →
    ∀ trail others, trails.Perm (trail :: others) →
    ∀ other ∈ others, trail.walk.SameCourse other.walk → ∀ ordering,
      ((trail.led tread store).walk.Compares (trail.left tread store) other.walk ordering
        ↔ trail.walk.Compares store other.walk ordering)
  /-- A walk that goes on comes behind those that are left where it was. -/
  advance : ∀ trail others, trails.Perm (trail :: others) →
    (ends (Walk.advance Store.native) trail.walk store).1.1 = .ok () →
    ∀ other ∈ others, trail.walk.SameCourse other.walk → trail.last = other.last →
      (trail.led .advance store).walk.Compares (trail.left .advance store) other.walk .gt
        ∧ other.walk.Compares (trail.left .advance store) (trail.led .advance store).walk .lt

namespace Sound

theorem compares (sound : Sound store trails) {a b : Trail ρ} (mem : a ∈ trails) (mem' : b ∈ trails)
    (course : a.walk.SameCourse b.walk) :
    a.walk.Compares store b.walk (a.walk.direction.order a.last b.last) := by
  obtain ⟨_, kept⟩ := sound.kept a mem
  obtain ⟨_, kept'⟩ := sound.kept b mem'
  exact kept.compares kept' course

theorem compares_iff (sound : Sound store trails) {a b : Trail ρ} (mem : a ∈ trails)
    (mem' : b ∈ trails) (course : a.walk.SameCourse b.walk) {ordering : Ordering} :
    a.walk.Compares store b.walk ordering
      ↔ a.walk.direction.order a.last b.last = ordering := by
  have compares := sound.compares mem mem' course
  exact ⟨fun compares' => compares.eq compares', fun same => same ▸ compares⟩

theorem isEnd_iff (sound : Sound store trails) {trail : Trail ρ} (mem : trail ∈ trails) :
    trail.walk.isEnd ↔ trail.last = .ended := by
  obtain ⟨_, kept⟩ := sound.kept trail mem
  exact kept.isEnd_iff

/-- The end comes after all that are not there. -/
theorem compares_ended (sound : Sound store trails) {a b : Trail ρ} (mem : a ∈ trails)
    (mem' : b ∈ trails) (course : a.walk.SameCourse b.walk) (ended : a.walk.isEnd) :
    a.walk.Compares store b.walk (if b.walk.isEnd then .eq else .gt) := by
  rw [sound.compares_iff mem mem' course, (sound.isEnd_iff mem).mp ended]
  by_cases ended' : b.walk.isEnd
  · rw [if_pos ended', (sound.isEnd_iff mem').mp ended', Direction.order_self]
  · rw [if_neg ended']
    exact Direction.order_ended _ fun there => ended' ((sound.isEnd_iff mem').mpr there)

theorem compares_swap (sound : Sound store trails) {a b : Trail ρ} (mem : a ∈ trails)
    (mem' : b ∈ trails) (course : a.walk.SameCourse b.walk) {ordering : Ordering}
    (compares : a.walk.Compares store b.walk ordering) :
    b.walk.Compares store a.walk ordering.swap := by
  rw [sound.compares_iff mem mem' course] at compares
  rw [sound.compares_iff mem' mem course.symm, ← course.2, ← compares, Direction.order_swap]

theorem compares_trans (sound : Sound store trails) {a b c : Trail ρ} (mem : a ∈ trails)
    (mem' : b ∈ trails) (mem'' : c ∈ trails) (course : a.walk.SameCourse b.walk)
    (course' : b.walk.SameCourse c.walk) {first second : Ordering}
    (compares : a.walk.Compares store b.walk first)
    (compares' : b.walk.Compares store c.walk second) (ascends : first ≠ .gt)
    (ascends' : second ≠ .gt) : ∃ third, a.walk.Compares store c.walk third ∧ third ≠ .gt := by
  rw [sound.compares_iff mem mem' course] at compares
  rw [sound.compares_iff mem' mem'' course', ← course.2] at compares'
  subst compares compares'
  exact ⟨_, sound.compares mem mem'' (course.trans course'),
    Direction.order_ne_gt_trans _ ascends ascends'⟩

/-- A walk that is led goes its way over the index that it went over. -/
theorem course_led {γ : Type} (tread : Tread ρ γ) (sound : Sound store (trail :: others)) :
    (trail.led tread store).walk.SameCourse trail.walk := by
  obtain ⟨_, kept⟩ := sound.kept trail List.mem_cons_self
  obtain ⟨⟨_, _, view, direction⟩, _⟩ := kept.led tread
  exact ⟨view, direction⟩

/-- A walk that is not led compares as before. -/
theorem compares_stays {γ : Type} {tread : Tread ρ γ} (stays : tread.leads = false)
    (sound : Sound store (trail :: others)) {other : Trail ρ} (mem : other ∈ others)
    (course : trail.walk.SameCourse other.walk) {ordering : Ordering} :
    (trail.led tread store).walk.Compares (trail.left tread store) other.walk ordering
      ↔ trail.walk.Compares store other.walk ordering := by
  have led := sound.course_led tread
  have last : (trail.led tread store).last = trail.last := by
    unfold Trail.led
    rw [stays]
    rfl
  rw [(sound.step tread).compares_iff List.mem_cons_self (List.mem_cons_of_mem _ mem)
      (led.trans course),
    sound.compares_iff List.mem_cons_self (List.mem_cons_of_mem _ mem) course, last, led.2]

/-- **A walk that goes on is behind those that are left where it was.** -/
theorem compares_advanced (sound : Sound store (trail :: others))
    (went : (ends (Walk.advance Store.native) trail.walk store).1.1 = .ok ()) {other : Trail ρ}
    (mem : other ∈ others) (course : trail.walk.SameCourse other.walk)
    (same : trail.last = other.last) :
    (trail.led .advance store).walk.Compares (trail.left .advance store) other.walk .gt := by
  obtain ⟨_, kept⟩ := sound.kept trail List.mem_cons_self
  have past := kept.order_advanced went
  have led := sound.course_led .advance
  rw [(sound.step .advance).compares_iff List.mem_cons_self (List.mem_cons_of_mem _ mem)
    (led.trans course), led.2, ← same, ← Direction.order_swap, past]
  rfl

end Sound

/-- **Walks are totally ordered by where they were last led**, whatever happens to the store. Take any
    walks, made over any indices of any tables at any times and led by steps of their own, in any mix
    with each other, with calls and with writes to tables, also of the entries that they are on. Those
    that go the same way over one index always compare. They compare by the keys that they were last
    led to, a reverse walk the other way round, and the end after all of them; this is a total order.
    Nothing changes it but a step of one of the two, and a walk that goes on comes strictly behind one
    that is left where it was. Walks over different indices, or of different tables, never compare. -/
theorem ordered (company : Company store trails) : Ordered store trails ∧
    ∀ {τ υ : Type} (a : Walk τ) (b : Walk υ), a.view.table.serial ≠ b.view.table.serial
      ∨ a.view.position.val ≠ b.view.position.val → a.Mismatches store b := by
  have sound := company.sound
  refine ⟨?_, fun _ _ different => Walk.mismatches different store⟩
  exact {
    compares := fun a mem b mem' course => sound.compares mem mem' course
    isEnd_iff := fun trail mem => sound.isEnd_iff mem
    ended := fun a mem b mem' course ended => sound.compares_ended mem mem' course ended
    refl := fun a mem => (sound.compares_iff mem mem ⟨rfl, rfl⟩).mpr (Direction.order_self ..)
    eq_iff := fun a mem b mem' course =>
      (sound.compares_iff mem mem' course).trans (Direction.order_eq_eq_iff ..)
    swap := fun a mem b mem' course _ compares => sound.compares_swap mem mem' course compares
    trans := fun a mem b mem' c mem'' course course' _ _ => sound.compares_trans mem mem' mem'' course
      course'
    meanwhile := by
      intro after waits a mem b mem' course ordering
      rw [sound.compares_iff mem mem' course, (sound.meanwhile waits).compares_iff mem mem' course]
    beside := by
      intro γ tread trail others shuffled a mem b mem' course ordering
      have sound := sound.shuffle shuffled
      rw [sound.tail.compares_iff mem mem' course,
        (sound.step tread).tail.compares_iff mem mem' course]
    stays := fun tread stays trail others shuffled other mem course _ =>
      (sound.shuffle shuffled).compares_stays stays mem course
    advance := by
      intro trail others shuffled went other mem course same
      have sound := sound.shuffle shuffled
      have behind := sound.compares_advanced went mem course same
      exact ⟨behind, (sound.step .advance).compares_swap List.mem_cons_self
        (List.mem_cons_of_mem _ mem) ((sound.course_led .advance).trans course) behind⟩ }

/-- Two walks at the first of three notes, by their lengths, and the store with both. -/
def bothAtFirstNote : Except Fault (Walk Bytes) × Store :=
  outcome (Start.first.perform Store.native View.byLengthAndText) Walk.atFirstNote.2

/-- The second one of them goes on. -/
def goesOn (walk : Walk Bytes) : Trail Bytes :=
  Trail.led .advance bothAtFirstNote.2 ⟨walk, walk.seen bothAtFirstNote.2⟩

/-- Then the first note is erased. -/
def firstNoteGone (walk : Walk Bytes) : Store :=
  (outcome ((TableWrite.erase [1]).perform Store.native View.listingTable)
    (Trail.left .advance bothAtFirstNote.2 ⟨walk, walk.seen bothAtFirstNote.2⟩)).2

/-- A walk that has gone on is behind one that was left at an entry, also when that has been erased. -/
theorem ordered_notes : ∃ left gone, Walk.atFirstNote.1 = .ok left ∧ bothAtFirstNote.1 = .ok gone ∧
    (firstNoteGone gone).find? View.byLengthAndText.table.scope
      (View.byLengthAndText.index.fullKey [1]) = none ∧
    (goesOn gone).walk.Compares (firstNoteGone gone) left .gt := by
  have known : (Walk.atFirstNote.1.toOption.bind fun left => bothAtFirstNote.1.toOption.map fun gone =>
      (left.seen Walk.atFirstNote.2, gone.seen bothAtFirstNote.2,
        (ends (Walk.advance Store.native) gone bothAtFirstNote.2).1.1.toOption,
        (firstNoteGone gone).find? View.byLengthAndText.table.scope
          (View.byLengthAndText.index.fullKey [1])))
      = some (.onKey (View.byLengthAndText.index.fullKey [1]),
          .onKey (View.byLengthAndText.index.fullKey [1]), some (), none) := by decide +kernel
  obtain ⟨left, leftMade, known⟩ := Option.bind_eq_some_iff.mp known
  obtain ⟨gone, goneMade, known⟩ := Option.map_eq_some_iff.mp known
  obtain ⟨leftSeen, known⟩ := Prod.mk.inj known
  obtain ⟨goneSeen, known⟩ := Prod.mk.inj known
  obtain ⟨went, erased⟩ := Prod.mk.inj known
  have start : outcome (Start.first.perform Store.native View.byLengthAndText) View.threeNotes.1
      = Walk.atFirstNote := rfl
  have start' : outcome (Start.first.perform Store.native View.byLengthAndText) Walk.atFirstNote.2
      = bothAtFirstNote := rfl
  have first := outcome_of_toOption start leftMade
  have second := outcome_of_toOption start' goneMade
  have sits := (Start.foretold_of_ok .first first).1
  have sits' := (Start.foretold_of_ok .first second).1
  have course : gone.SameCourse left :=
    ⟨sits'.view_eq.trans sits.view_eq.symm, sits'.direction_eq.trans sits.direction_eq.symm⟩
  let ahead : Trail Bytes := ⟨gone, gone.seen bothAtFirstNote.2⟩
  let behind : Trail Bytes := ⟨left, left.seen Walk.atFirstNote.2⟩
  have company : Company bothAtFirstNote.2 [ahead, behind] :=
    ((Company.empty View.threeNotes.1).join first).join second
  have past := (company.ordered.1.advance ahead [behind] (.refl _) (ok_of_toOption went) behind
    List.mem_cons_self course (goneSeen.trans leftSeen.symm)).1
  have company' := company.step .advance
  have course' := (company.sound.course_led .advance).trans course
  refine ⟨left, gone, ok_of_toOption leftMade, ok_of_toOption goneMade, erased, ?_⟩
  unfold goesOn firstNoteGone
  exact (company'.ordered.1.meanwhile _ (fun _ _ => .write View.listingTable (.erase [1])) _
    List.mem_cons_self behind (List.mem_cons_of_mem _ List.mem_cons_self) course' .gt).mpr past

end Company

end IndexedStore
