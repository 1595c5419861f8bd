import IndexedStore.Proofs.Store.Twins
import IndexedStore.Proofs.Table.Scanning
import IndexedStore.SingleRecord
/-!
# Tables by two ways to one store

All that tables, walks, scans and single records do is put together from what tables ask of a store.
So by two ways that mirror each other they do the same, and this file goes through them function by
function. The one exception is a put: it first asks for limits, which only one of the ways tells.

* `Motion.Agree` is agreement of motions, from whatever place a walk starts;
* sections 2 to 7 hold writes, questions about one key, walks, scans, questions about an index, and
  single records.
-/

namespace IndexedStore

open IndexedStore.Action

variable {settings : Settings} {ρ τ α β : Type}

/-! ## 1. Motions -/

/-- Whether two motions, run on twins and on one walk, end alike and leave twins and one walk. -/
def Motion.Agree (settings : Settings) (first second : Motion Store ρ α) : Prop :=
  ∀ walk, Alike settings (Motion.ends first walk) (Motion.ends second walk)

namespace Motion.Agree

variable {first second : Motion Store ρ α} {next next' : α → Motion Store ρ β}

protected theorem pure (value : α) :
    Agree settings (pure value : Motion Store ρ α) (pure value) :=
  fun _ _ _ twin => ⟨rfl, twin⟩

protected theorem throw (fault : Fault) :
    Agree settings (throw fault : Motion Store ρ α) (throw fault) :=
  fun _ _ _ twin => ⟨rfl, twin⟩

protected theorem bind (h : Agree settings first second)
    (h' : ∀ value, Agree settings (next value) (next' value)) :
    Agree settings (first >>= next) (second >>= next') := by
  intro walk
  have parts : Alike settings
      (ends first walk >>= fun (result, moved) => ends (ExceptT.mk (ExceptT.bindCont next result)) moved
        : StateM Store _)
      (ends second walk >>= fun (result, moved) =>
        ends (ExceptT.mk (ExceptT.bindCont next' result)) moved : StateM Store _) := by
    refine Alike.bind (h walk) fun (result, moved) => ?_
    cases result with
    | error fault => exact Agree.throw fault moved
    | ok value => exact h' value moved
  exact parts

protected theorem ofAction {action action' : Action Store α}
    (h : Action.Agree settings action action') :
    Agree settings (Motion.ofAction action : Motion Store ρ α) (Motion.ofAction action') := by
  intro walk s t twin
  obtain ⟨same, twin'⟩ := h s t twin
  exact ⟨congrArg (·, walk) same, twin'⟩

/-- A look at the walk first. -/
theorem get_bind {next next' : Walk ρ → Motion Store ρ β}
    (h : ∀ walk, Agree settings (next walk) (next' walk)) :
    Agree settings (get >>= next) (get >>= next') :=
  fun walk => h walk walk

theorem settle (cursor : CursorId) (standing : Standing) :
    Agree settings (Walk.settle cursor standing : Motion Store ρ Unit)
      (Walk.settle cursor standing) :=
  fun _ _ _ twin => ⟨rfl, twin⟩

end Motion.Agree

section Mirrors

variable {first second : Backend Store} (h : first.Mirrors settings second)
include h

/-! ## 2. Writes -/

namespace Table

variable (table : Table ρ) (record : ρ)

theorem agree_stored (key : Bytes) :
    Action.Agree settings (table.stored first key) (table.stored second key) := by
  refine Agree.bind (h.read _ _) fun found => ?_
  cases found with
  | none => exact Agree.pure none
  | some payload => exact Agree.bind (Agree.ofExcept _) fun _ => Agree.pure _

theorem agree_decideStep (old : Option ρ) (index : Index ρ) :
    Action.Agree settings (table.decideStep first record old index)
      (table.decideStep second record old index) := by
  refine Agree.bind (h.read _ _) fun found => ?_
  cases old with
  | none =>
    cases found with
    | none => exact Agree.pure _
    | some _ => exact Agree.throw _
  | some held =>
    cases found with
    | none => exact Agree.pure _
    | some pointer =>
      dsimp only
      split
      · exact Agree.pure _
      · exact Agree.throw _

/-- Plans agree where the checks of limits do. -/
theorem agree_plan (checks : ∀ s t, Twin settings s t →
      checkLimits first table record s = checkLimits second table record t) :
    Action.Agree settings (table.plan first record) (table.plan second record) := by
  refine Agree.get_bind (checkLimits first table record) (checkLimits second table record)
    (fun checked => Action.ofExcept checked >>= fun _ => _)
    (fun checked => Action.ofExcept checked >>= fun _ => _) checks fun checked => ?_
  refine Agree.bind (Agree.ofExcept _) fun _ => Agree.bind (agree_stored h table _) fun old => ?_
  refine Agree.bind (Agree.mapM _ fun index => ?_) fun _ => Agree.pure _
  exact Agree.bind (agree_decideStep h table record old index) fun _ => Agree.pure _

theorem agree_writeSecondary (step : Index ρ × SecondaryStep) :
    Action.Agree settings (table.writeSecondary first record step)
      (table.writeSecondary second record step) := by
  have write := Agree.bind
    (h.write table.scope (step.1.fullKey record) (table.primaryKey record) table.scope)
    fun _ => Agree.pure ()
  unfold writeSecondary
  cases step.2 with
  | keep => exact Agree.pure ()
  | insert => exact write
  | move old => exact Agree.bind (h.erase _ old) fun _ => write

theorem agree_put (checks : ∀ s t, Twin settings s t →
      checkLimits first table record s = checkLimits second table record t) :
    Action.Agree settings (table.put first record) (table.put second record) := by
  refine Agree.bind (agree_plan h table record checks) fun plan => ?_
  refine Agree.bind (Agree.forM _ (agree_writeSecondary h table record)) fun _ => ?_
  exact Agree.bind (h.write _ _ _ _) fun _ => Agree.pure _

theorem agree_eraseAt (key : Bytes) :
    Action.Agree settings (table.eraseAt first key) (table.eraseAt second key) := by
  refine Agree.bind (agree_stored h table key) fun found => ?_
  cases found with
  | none => exact Agree.pure false
  | some old =>
    refine Agree.bind (Agree.forM _ fun index => ?_) fun _ =>
      Agree.bind (h.erase _ _) fun _ => Agree.pure true
    exact Agree.bind (h.erase _ _) fun _ => Agree.pure ()

end Table

/-! ## 3. One key -/

namespace View

variable (view : View ρ)

theorem agree_resolve (raw : Bytes) :
    Action.Agree settings (view.resolve first raw) (view.resolve second raw) := by
  unfold resolve
  split
  · exact Agree.ofExcept _
  · refine Agree.bind (h.read _ _) fun found => ?_
    cases found with
    | none => exact Agree.throw _
    | some payload => exact Agree.ofExcept _

theorem agree_get (key : Bytes) :
    Action.Agree settings (view.get first key) (view.get second key) := by
  refine Agree.bind (h.read _ _) fun found => ?_
  cases found with
  | none => exact Agree.pure none
  | some raw => exact Agree.bind (agree_resolve h view raw) fun _ => Agree.pure _

theorem agree_demand (key : Bytes) :
    Action.Agree settings (view.demand first key) (view.demand second key) := by
  refine Agree.bind (agree_get h view key) fun found => ?_
  cases found with
  | none => exact Agree.throw _
  | some record => exact Agree.pure record

end View

/-! ## 4. Walks -/

namespace Walk

variable (walk : Walk ρ)

theorem agree_start (view : View ρ) (direction : Direction)
    {step step' : CursorId → Action Store Standing}
    (steps : ∀ id, Action.Agree settings (step id) (step' id)) :
    Action.Agree settings (start first view direction step)
      (start second view direction step') := by
  refine Agree.bind (h.openCursor _ _) fun id => ?_
  exact Agree.bind (Agree.onFault (steps id) (h.closeCursor id).quietly) fun _ => Agree.pure _

theorem agree_release : Alike settings (walk.release first) (walk.release second) := by
  unfold release
  cases walk.hold with
  | none => exact fun _ _ twin => ⟨rfl, twin⟩
  | some hold => exact (h.closeCursor hold.cursor).quietly

theorem agree_onward (direction : Direction) (id : CursorId) :
    Action.Agree settings (direction.onward first id) (direction.onward second id) := by
  cases direction with
  | forward => exact h.nextKey id
  | reverse => exact h.previousKey id

theorem agree_backward (direction : Direction) (id : CursorId) :
    Action.Agree settings (direction.backward first id) (direction.backward second id) := by
  cases direction with
  | forward => exact h.previousKey id
  | reverse => exact h.nextKey id

theorem agree_advance :
    Motion.Agree settings (advance first : Motion Store ρ Unit) (advance second) := by
  refine Motion.Agree.get_bind fun walk => ?_
  cases walk.cursor? with
  | none => exact Motion.Agree.throw _
  | some cursor =>
    exact Motion.Agree.bind (Motion.Agree.ofAction (agree_onward h _ cursor))
      fun _ => Motion.Agree.settle _ _

theorem agree_ensureCursor :
    Motion.Agree settings (ensureCursor first : Motion Store ρ CursorId)
      (ensureCursor second) := by
  refine Motion.Agree.get_bind fun walk => ?_
  cases walk.hold with
  | some hold => exact Motion.Agree.pure _
  | none =>
    exact Motion.Agree.bind (Motion.Agree.ofAction (h.openCursor _ _)) fun _ =>
      Motion.Agree.bind (Motion.Agree.settle _ _) fun _ => Motion.Agree.pure _

theorem agree_retreat :
    Motion.Agree settings (retreat first : Motion Store ρ Unit) (retreat second) := by
  refine Motion.Agree.bind (agree_ensureCursor h) fun cursor => Motion.Agree.get_bind fun walk => ?_
  refine Motion.Agree.bind (Motion.Agree.ofAction (agree_backward h _ cursor)) fun standing =>
    Motion.Agree.bind (Motion.Agree.settle _ _) fun _ => ?_
  split
  · exact Motion.Agree.throw _
  · exact Motion.Agree.pure _

theorem agree_refresh :
    Motion.Agree settings (refresh first : Motion Store ρ Standing) (refresh second) := by
  refine Motion.Agree.get_bind fun walk => ?_
  cases walk.hold with
  | none => exact Motion.Agree.pure _
  | some hold =>
    exact Motion.Agree.bind (Motion.Agree.ofAction (h.cursorStanding _)) fun _ =>
      Motion.Agree.bind (Motion.Agree.settle _ _) fun _ => Motion.Agree.pure _

omit h in
theorem agree_current {fetch fetch' : CursorId → Action Store (Option Bytes)}
    (fetches : ∀ id, Action.Agree settings (fetch id) (fetch' id)) :
    Action.Agree settings (walk.current fetch) (walk.current fetch') := by
  obtain ⟨view, direction, hold⟩ := walk
  rcases hold with _ | ⟨id, standing⟩
  · exact Agree.throw _
  · cases standing with
    | ended => exact Agree.throw _
    | erased => exact Agree.throw _
    | live =>
      refine Agree.bind (fetches id) fun found => ?_
      cases found with
      | none => exact Agree.throw _
      | some bytes => exact Agree.pure bytes

theorem agree_key : Action.Agree settings (walk.key first) (walk.key second) :=
  agree_current walk h.currentKey

theorem agree_keyBehindStem :
    Action.Agree settings (walk.keyBehindStem first) (walk.keyBehindStem second) :=
  Agree.bind (agree_key h walk) fun _ => Agree.ofExcept _

theorem agree_value : Action.Agree settings (walk.value first) (walk.value second) :=
  Agree.bind (agree_current walk h.currentValue) fun raw => View.agree_resolve h walk.view raw

theorem agree_compareKey (key : Bytes) :
    Action.Agree settings (walk.compareKey first key) (walk.compareKey second key) := by
  unfold compareKey
  cases walk.hold with
  | none => exact Agree.pure _
  | some hold => exact h.compareKey hold.cursor key

theorem agree_order (other : Walk τ) :
    Action.Agree settings (walk.order first other) (walk.order second other) := by
  unfold order
  split
  · cases walk.cursor? with
    | none => cases other.cursor? <;> exact Agree.pure _
    | some mine =>
      cases other.cursor? with
      | none => exact Agree.pure _
      | some others =>
        cases walk.direction with
        | forward => exact h.compareCursors mine others
        | reverse => exact h.compareCursors others mine
  · exact Agree.throw _

end Walk

/-! ## 5. Scans -/

namespace Scan

variable {read read' : Walk ρ → Action Store α}

theorem agree_reached (stop : Option Bytes) (walk : Walk ρ) :
    Action.Agree settings (reached first stop walk) (reached second stop walk) := by
  cases stop with
  | none => exact Agree.pure _
  | some key => exact Agree.bind (Walk.agree_compareKey h walk key) fun _ => Agree.pure _

theorem agree_emit (reads : ∀ walk, Action.Agree settings (read walk) (read' walk))
    (stop : Option Bytes) :
    Motion.Agree settings (emit first read stop) (emit second read' stop) := by
  refine Motion.Agree.get_bind fun walk => ?_
  split
  · exact Motion.Agree.pure none
  · refine Motion.Agree.bind (Motion.Agree.ofAction (agree_reached h stop walk)) fun stopped => ?_
    split
    · exact Motion.Agree.pure none
    · exact Motion.Agree.bind (Motion.Agree.ofAction (reads walk)) fun _ =>
        Motion.Agree.bind (Walk.agree_advance h) fun _ => Motion.Agree.pure _

theorem agree_step (reads : ∀ walk, Action.Agree settings (read walk) (read' walk))
    (stop : Option Bytes) :
    Motion.Agree settings (step first read stop) (step second read' stop) := by
  rw [step_eq, step_eq]
  refine Motion.Agree.bind (Motion.Agree.bind (Walk.agree_refresh h) fun standing => ?_)
    fun _ => agree_emit h reads stop
  split
  · exact Walk.agree_advance h
  · exact Motion.Agree.pure _

theorem agree_next (reads : ∀ walk, Action.Agree settings (read walk) (read' walk))
    (scan : Scan ρ) : Alike settings (scan.next first read) (scan.next second read') := by
  intro s t twin
  cases done : scan.done with
  | true =>
    rw [next_of_done first done, next_of_done second done]
    exact ⟨rfl, twin⟩
  | false =>
    obtain ⟨same, twin'⟩ := agree_step h reads scan.stop scan.walk s t twin
    rw [next_of_going first read done, next_of_going second read' done, same]
    exact ⟨rfl, twin'⟩

theorem agree_drain (reads : ∀ walk, Action.Agree settings (read walk) (read' walk))
    (bound : Nat) : ∀ scan : Scan ρ,
      Alike settings (drain first read bound scan) (drain second read' bound scan) := by
  induction bound with
  | zero => exact fun _ => Alike.pure _
  | succ bound ih =>
    intro scan
    refine Alike.bind (agree_next h reads scan) fun (item, scan') => ?_
    cases item with
    | none => exact Alike.pure _
    | some item => exact Alike.bind (ih scan') fun _ => Alike.pure _

theorem agree_all (reads : ∀ walk, Action.Agree settings (read walk) (read' walk))
    (scan : Scan ρ) : Alike settings (scan.all first read) (scan.all second read') := by
  refine Alike.get_bind (first.population scan.walk.view.table.scope)
    (second.population scan.walk.view.table.scope)
    (fun entries => do
      let drained ← drain first read (entries + 1) scan
      drained.2.walk.release first
      return drained.1)
    (fun entries => do
      let drained ← drain second read' (entries + 1) scan
      drained.2.walk.release second
      return drained.1)
    (h.population _) fun entries => ?_
  refine Alike.bind (agree_drain h reads (entries + 1) scan) fun drained => ?_
  exact Alike.bind (Walk.agree_release h drained.2.walk) fun _ => Alike.pure drained.1

end Scan

/-! ## 6. What is asked of an index -/

namespace View

variable (view : View ρ)

theorem agree_seek (key : Bytes) :
    Action.Agree settings (view.seek first key) (view.seek second key) :=
  Walk.agree_start h view .forward fun id => h.seekKey id key

theorem agree_last : Action.Agree settings (view.last first) (view.last second) :=
  Walk.agree_start h view .reverse h.previousKey

theorem agree_standsOn (walk : Walk ρ) (key : Bytes) :
    Action.Agree settings (standsOn first walk key) (standsOn second walk key) := by
  unfold standsOn
  split
  · exact Agree.bind (Agree.onFault (Walk.agree_compareKey h walk key)
      (Walk.agree_release h walk)) fun _ => Agree.pure _
  · exact Agree.pure _

theorem agree_find (key : Bytes) :
    Action.Agree settings (view.find first key) (view.find second key) := by
  refine Agree.bind (agree_seek h view key) fun walk => ?_
  refine Agree.bind (agree_standsOn h walk key) fun here => ?_
  split
  · exact Agree.pure _
  · exact Agree.bind (Walk.agree_release h walk).lift fun _ => Agree.pure _

theorem agree_seekAbove (key : Bytes) :
    Action.Agree settings (view.seekAbove first key) (view.seekAbove second key) := by
  refine Agree.bind (agree_seek h view key) fun walk => ?_
  refine Agree.bind (agree_standsOn h walk key) fun here => ?_
  split
  · refine Agree.bind (Walk.agree_advance h walk).lift fun (moved, walk') => ?_
    exact Agree.bind (Agree.onFault (Agree.ofExcept moved) (Walk.agree_release h walk'))
      fun _ => Agree.pure _
  · exact Agree.pure _

theorem agree_collect (stop : Walk ρ) (bound : Nat) :
    Motion.Agree settings (collect first stop bound) (collect second stop bound) := by
  induction bound with
  | zero => exact Motion.Agree.pure []
  | succ bound ih =>
    refine Motion.Agree.get_bind fun walk => ?_
    refine Motion.Agree.bind (Motion.Agree.ofAction (Walk.agree_order h walk stop)) fun order => ?_
    split
    · exact Motion.Agree.bind (Motion.Agree.ofAction (Walk.agree_value h walk)) fun _ =>
        Motion.Agree.bind (Walk.agree_advance h) fun _ =>
          Motion.Agree.bind ih fun _ => Motion.Agree.pure _
    · exact Motion.Agree.pure []

theorem agree_range (lower upper : Bytes) :
    Action.Agree settings (view.range first lower upper) (view.range second lower upper) := by
  refine Agree.bind (agree_seek h view lower) fun walk => ?_
  refine Agree.bind (Agree.onFault (agree_seek h view upper) (Walk.agree_release h walk))
    fun stop => ?_
  refine Agree.get_bind (first.population view.table.scope) (second.population view.table.scope)
    (fun entries => do
      let collected ← (collect first stop (entries + 1)).run walk
      stop.release first
      collected.2.release first
      Action.ofExcept collected.1)
    (fun entries => do
      let collected ← (collect second stop (entries + 1)).run walk
      stop.release second
      collected.2.release second
      Action.ofExcept collected.1)
    (h.population _) fun entries => ?_
  refine Agree.bind (agree_collect h stop (entries + 1) walk).lift fun collected => ?_
  exact Agree.bind (Walk.agree_release h stop).lift fun _ =>
    Agree.bind (Walk.agree_release h collected.2).lift fun _ => Agree.ofExcept collected.1

end View

theorem Table.agree_count (table : Table ρ) :
    Action.Agree settings (table.count first) (table.count second) := by
  refine Agree.bind (Agree.bind (View.agree_seek h _ _) fun _ => Agree.pure _) fun scan => ?_
  refine Agree.bind (Scan.agree_all h (Walk.agree_keyBehindStem h) scan).lift fun keys => ?_
  exact Agree.bind (Agree.ofExcept _) fun _ => Agree.pure _

/-! ## 7. Single records -/

namespace SingleRecord

variable (single : SingleRecord ρ)

theorem agree_get : Action.Agree settings (single.get first) (single.get second) := by
  refine Agree.bind (h.read _ _) fun found => ?_
  cases found with
  | none => exact Agree.pure none
  | some payload => exact Agree.bind (Agree.ofExcept _) fun _ => Agree.pure _

theorem agree_put (record : ρ) :
    Action.Agree settings (single.put first record) (single.put second record) :=
  Agree.bind (h.write _ _ _ _) fun _ => Agree.pure ()

theorem agree_remove : Action.Agree settings (single.remove first) (single.remove second) := by
  refine Agree.bind (h.holds _ _) fun found => ?_
  split
  · exact Agree.bind (h.erase _ _) fun _ => Agree.pure true
  · exact Agree.pure false

end SingleRecord

end Mirrors

end IndexedStore
