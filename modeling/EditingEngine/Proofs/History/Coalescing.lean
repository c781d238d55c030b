import EditingEngine.Proofs.History.OpenUndos
import EditingEngine.Proofs.History.Timeline

/-!
# A burst becomes one undo entry

While a burst goes on, its edits, moved carets and polls before the deadline change
nothing but the current snapshot and the deadline: both stacks are those from before the
burst, and so is the snapshot that is kept aside. The deadline follows the latest edit,
also where time runs backwards. The poll that finds the deadline passed puts the snapshot
from before the burst on the undo stack, as the only entry of the whole burst, or forgets
the burst if its text has come back.
-/
namespace EditingEngine.History

/-- Whether a step goes on with a burst: an edit of it, a moved caret, or a poll before the
deadline in force. -/
def goesOn (h : History) : HistoryStep → Bool
  | .burstEdit _ _ | .moveCaret _ => true
  | .tick now => h.deadline?.all (now < ·)
  | _ => false

/-- The time of the latest edit after a step of a burst. -/
def editTime (latest : Nat) : HistoryStep → Nat
  | .burstEdit _ now => now
  | _ => latest

/-- The snapshot that is current after a step of a burst. -/
def shownAfter (shown : Snapshot) : HistoryStep → Snapshot
  | .burstEdit next _ => next
  | .moveCaret caret => { shown with caret := caret }
  | _ => shown

/-- A history as a burst on it has left it, with what is shown and the time of the latest edit. -/
def typing (h : History) (shown : Snapshot) (latest : Nat) : History :=
  { h with current := shown, burst := some ⟨h.current, latest + h.pause⟩ }

lemma throughout_append {p : History → HistoryStep → Bool} (h : History)
    (first second : List HistoryStep) :
    h.throughout p (first ++ second) =
      (h.throughout p first && (h.run first).throughout p second) := by
  induction first generalizing h with
  | nil => simp [throughout]
  | cons s rest ih => simp [throughout, ih, Bool.and_assoc]

section

variable {h : History} {shown : Snapshot} {latest : Nat}

/-- The first edit of a burst changes the text. -/
lemma burstEdit_of_quiet {next : Snapshot} (hquiet : h.burst = none)
    (hne : next.content ≠ h.current.content) (now : Nat) :
    h.burstEdit next now = h.typing next now := by
  simp [burstEdit, hquiet, hne, typing]

/-- A poll before the deadline neither finds the burst due nor touches it. -/
lemma tick_early {time : Nat} (htime : time < latest + h.pause) :
    (h.typing shown latest).answer (.tick time) = .added false ∧
      (h.typing shown latest).step (.tick time) = h.typing shown latest := by
  have hearly : (h.typing shown latest).isDue time = false :=
    decide_eq_false (Nat.not_le.mpr htime)
  constructor
  · simp [answer, hearly]
  · simp [step, tick, hearly]

lemma isChanged_typing :
    (h.typing shown latest).isChanged = (shown.content != h.current.content) := bne_comm

lemma goesOn_tick {time : Nat} :
    (h.typing shown latest).goesOn (.tick time) = true ↔ time < latest + h.pause := by
  simp [goesOn, deadline?, typing]

lemma step_typing {s : HistoryStep} (hs : (h.typing shown latest).goesOn s = true) :
    (h.typing shown latest).step s = h.typing (shownAfter shown s) (editTime latest s) := by
  cases s with
  | burstEdit next now => rfl
  | moveCaret caret => rfl
  | tick now => exact (tick_early (goesOn_tick.mp hs)).2
  | edit | endBurst | undo | redo | restart | withLimit | withPause => cases hs

/-- Whatever a burst consists of, only what is shown and the deadline tell of it. -/
lemma run_typing {steps : List HistoryStep}
    (hsteps : (h.typing shown latest).throughout goesOn steps = true) :
    (h.typing shown latest).run steps =
      h.typing (steps.foldl shownAfter shown) (steps.foldl editTime latest) := by
  induction steps generalizing shown latest with
  | nil => rfl
  | cons s rest ih =>
    rw [throughout, Bool.and_eq_true] at hsteps
    have hstep := step_typing hsteps.1
    rw [hstep] at hsteps
    rw [run_cons, hstep, ih hsteps.2]
    rfl

section due

variable (hc : h.Consistent) (hquiet : h.burst = none)
include hc hquiet

lemma consistent_typing : (h.typing shown latest).Consistent := by
  apply hc.congr
  · rw [base_of_quiet hquiet]
    rfl
  · rfl
  · rfl
  · rfl

lemma endBurst_typing (hchanged : (h.typing shown latest).isChanged = true) :
    (h.typing shown latest).endBurst =
      { h with
        current := shown
        undoStack := h.current :: h.undoStack.take (h.limit - 1)
        redoStack := []
        burst := none } := by
  have hundo := (consistent_typing hc hquiet : (h.typing shown latest).Consistent).undo_differs
  calc (h.typing shown latest).endBurst
    _ = { h with current := shown, redoStack := [], burst := none }.push h.current :=
        endBurst_of_changed hchanged
    _ = { h with
          current := shown
          undoStack := (h.current :: h.undoStack).take h.limit
          redoStack := []
          burst := none } :=
        push_of_differs (h := { h with current := shown, redoStack := [], burst := none }) hundo
    _ = _ := by rw [List.take_cons hc.limit_pos]

/-- The poll that finds the deadline passed. -/
lemma tick_due {time : Nat} (htime : latest + h.pause ≤ time) :
    let ended := (h.typing shown latest).step (.tick time)
    let changed := shown.content != h.current.content
    (h.typing shown latest).answer (.tick time) = .added changed ∧
    ended.burst = none ∧ ended.current = shown ∧
    ended.undoStack =
      (if changed then h.current :: h.undoStack.take (h.limit - 1) else h.undoStack) ∧
    ended.redoStack = if changed then [] else h.redoStack := by
  intro ended changed
  have hdue : (h.typing shown latest).isDue time = true := decide_eq_true htime
  have hended : ended = (h.typing shown latest).endBurst := if_pos hdue
  have hcounts : (h.typing shown latest).burstCounts = changed := by
    rw [(consistent_typing hc hquiet).burstCounts_eq, isChanged_typing]
  refine ⟨?_, ?_, ?_, ?_⟩
  · simp [answer, hdue, hcounts]
  · rw [hended, burst_endBurst]
  · rw [hended, current_endBurst]
    rfl
  · cases hchanged : changed with
    | false =>
      rw [hended, endBurst_of_same (isChanged_typing.trans hchanged)]
      exact ⟨rfl, rfl⟩
    | true =>
      rw [hended, endBurst_typing hc hquiet (isChanged_typing.trans hchanged)]
      exact ⟨rfl, rfl⟩

end due

end

/-- After every run that has left no burst, a burst of edits, moved carets and polls before the
deadline in force leaves both stacks alone, whatever its texts and times. It shows the latest edit
with the caret moved since, the deadline is always the pause after that edit, and its polls answer
no and change nothing. The first poll that is not before the deadline ends the burst. If the text
is another one than before the burst, the poll answers yes, the snapshot from before the burst
becomes the one new undo entry, for which only the limit can push an older one out, and nothing can
be redone. Otherwise it answers no and both stacks stay. -/
theorem burst_becomes_one_entry (content : Text) (limit pause : Nat)
    (before steps : List HistoryStep) (next : Snapshot) (now : Nat) :
    let h := (start content limit pause).run before
    let began := h.burstEdit next now
    h.burst = none → next.content ≠ h.current.content →
    began.throughout goesOn steps = true →
      (∀ first last, steps = first ++ last →
        let g := began.run first
        g.undoStack = h.undoStack ∧ g.redoStack = h.redoStack ∧
        g.current = first.foldl shownAfter next ∧
        g.deadline? = some (first.foldl editTime now + h.pause) ∧
        ∀ time rest, last = .tick time :: rest →
          g.answer (.tick time) = .added false ∧ g.step (.tick time) = g) ∧
      ∀ time, steps.foldl editTime now + h.pause ≤ time →
        let typed := began.run steps
        let ended := typed.step (.tick time)
        let changed := typed.current.content != h.current.content
        typed.answer (.tick time) = .added changed ∧
        ended.burst = none ∧ ended.current = typed.current ∧
        ended.undoStack =
          (if changed then h.current :: h.undoStack.take (h.limit - 1) else h.undoStack) ∧
        ended.redoStack = if changed then [] else h.redoStack := by
  intro h began hquiet hne hsteps
  have hc : h.Consistent := (consistent_start content limit pause).run before
  have hbegan : began = h.typing next now := burstEdit_of_quiet hquiet hne now
  rw [hbegan] at hsteps ⊢
  refine ⟨?_, ?_⟩
  · rintro first last rfl g
    rw [throughout_append, Bool.and_eq_true] at hsteps
    have hg : g = h.typing (first.foldl shownAfter next) (first.foldl editTime now) :=
      run_typing hsteps.1
    rw [hg]
    refine ⟨rfl, rfl, rfl, rfl, ?_⟩
    rintro time rest rfl
    have hpoll : g.throughout goesOn (.tick time :: rest) = true := hsteps.2
    rw [throughout, Bool.and_eq_true, hg] at hpoll
    exact tick_early (goesOn_tick.mp hpoll.1)
  · intro time htime
    rw [run_typing hsteps]
    exact tick_due hc hquiet htime

/-- The limit leaves no room for a second entry, and there is something to redo. A caret is moved,
the clock goes back, and the first text comes back and goes again between two polls. -/
theorem burst_becomes_one_entry_typed :
    let before : List HistoryStep := [.edit (.atOrigin ['a']), .edit (.atOrigin ['b']),
      .edit (.atOrigin ['c']), .undo, .withLimit 1]
    let h := (start [] 3 300).run before
    let began := h.burstEdit (.atOrigin ['x']) 100
    let steps : List HistoryStep := [.tick 399, .moveCaret ⟨1, 2, 1⟩,
      .burstEdit (.atOrigin ['b']) 50, .tick 349, .burstEdit (.atOrigin ['y']) 60]
    let ended := (began.run steps).step (.tick 360)
    h.burst = none ∧ ['x'] ≠ h.current.content ∧ began.throughout goesOn steps = true ∧
    h.undoStack = [.atOrigin ['a']] ∧ h.redoStack = [.atOrigin ['c']] ∧
    (began.run steps).deadline? = some 360 ∧ (began.run steps).redoStack = h.redoStack ∧
    (began.run steps).answer (.tick 360) = .added true ∧
    ended.undoStack = [.atOrigin ['b']] ∧ ended.redoStack = [] := by
  intro before h began steps ended
  have hquiet : h.burst = none := by decide
  have hne : ['x'] ≠ h.current.content := by decide
  have hsteps : began.throughout goesOn steps = true := by decide
  obtain ⟨hduring, hafter⟩ :=
    burst_becomes_one_entry [] 3 300 before steps (.atOrigin ['x']) 100 hquiet hne hsteps
  obtain ⟨_, hredo, _, hdeadline, _⟩ := hduring steps [] (by simp)
  obtain ⟨hanswer, _, _, hundoStack, hredoStack⟩ := hafter 360 (by decide)
  exact ⟨hquiet, hne, hsteps, by decide, by decide, hdeadline, hredo, hanswer, hundoStack,
    hredoStack⟩

end EditingEngine.History
