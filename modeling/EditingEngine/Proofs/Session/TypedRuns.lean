import EditingEngine.Proofs.History.Coalescing
import EditingEngine.Proofs.Session.Steps

/-!
# Typing a run and pasting it

Every key of a run reads the text and the caret anew and measures the caret again, and
its edit goes on with the burst that the first key has begun. Still the run ends where a
paste of all its characters would have ended: the inserted characters stand between the
same two parts of the text, the caret is measured in the same text, and when the burst
ends, the history that it leaves is the one that a single edit leaves. Nothing but the
history of the active page and the remembered keys is touched on the way.
-/
namespace EditingEngine

/-- Two changes of the active page that lead to the same page are the same change. -/
lemma Notebook.modifyActive_congr {nb : Notebook} {f g : Page → Page}
    (hfg : f nb.activePage = g nb.activePage) : nb.modifyActive f = nb.modifyActive g := by
  have hpages : nb.pages.modify nb.active f = nb.pages.modify nb.active g := by
    have hf := List.modify_eq_set_get f nb.active_lt
    have hg := List.modify_eq_set_get g nb.active_lt
    rw [hf, hg]
    exact congrArg _ hfg
  simp only [modifyActive, modifyAt, hpages]

namespace History

/-- An edit of a burst that changes the text is shown at once. -/
lemma current_burstEdit {h : History} {next : Snapshot}
    (hne : next.content ≠ h.current.content) (now : Nat) :
    (h.burstEdit next now).current = next := by
  cases hb : h.burst with
  | none => rw [burstEdit_of_quiet hb hne, typing]
  | some b => simp only [burstEdit, hb]

/-- A burst that has changed the text leaves the same history as one edit of all of it. -/
lemma endBurst_typing_eq_edit {h : History} {shown : Snapshot} (hquiet : h.burst = none)
    (hne : shown.content ≠ h.current.content) (latest : Nat) :
    (h.typing shown latest).endBurst = h.edit shown := by
  have hchanged : (h.typing shown latest).isChanged = true := by
    rw [isChanged_typing]
    exact bne_iff_ne.mpr hne
  rw [endBurst_of_changed hchanged, edit_of_differs hne, endBurst_of_quiet hquiet, ← hquiet]
  rfl

end History

namespace Session

/-- A session with another history of the active page. -/
def withHistory (s : Session) (h : History) : Session :=
  { s with notebook := s.notebook.modifyActive fun p => { p with history := h } }

/-- What a session shows when some characters are inserted at its caret. -/
def pasted (s : Session) (chars : Text) : Snapshot :=
  s.measured (s.inserted chars) (s.caret.offset + chars.length)

section

variable (s : Session)

lemma stepHistory_eq (st : HistoryStep) :
    s.stepHistory st = s.withHistory (s.history.step st) := by
  have hsame : s.notebook.stepActive st =
      s.notebook.modifyActive fun p => { p with history := s.history.step st } :=
    Notebook.modifyActive_congr rfl
  simp only [stepHistory, withHistory, hsame]

@[simp] lemma withHistory_withHistory (h next : History) :
    (s.withHistory h).withHistory next = s.withHistory next := by
  simp only [withHistory, Notebook.modifyActive, Notebook.modifyAt, List.modify_modify_eq]
  rfl

/-- A key changes the history of the active page and the remembered keys, and nothing else. -/
lemma withHistory_pressKey (c : Char) (now : Nat) (h : History) :
    ((s.pressKey c now).withHistory h).forgetKeys = (s.withHistory h).forgetKeys := by
  obtain ⟨keys, st, -, hpress⟩ := s.pressKey_cases c now
  calc ((s.pressKey c now).withHistory h).forgetKeys
    _ = ((s.stepHistory st).withHistory h).forgetKeys := by
        rw [hpress]
        rfl
    _ = (s.withHistory h).forgetKeys := by rw [stepHistory_eq, withHistory_withHistory]

/-- Columns are measured the same way in two sessions. -/
structure SameMeasure (s t : Session) : Prop where
  metrics : t.settings.metrics = s.settings.metrics
  charWidth : t.charWidth = s.charWidth

lemma sameMeasure_pressKey (c : Char) (now : Nat) : s.SameMeasure (s.pressKey c now) := by
  obtain ⟨keys, st, -, hpress⟩ := s.pressKey_cases c now
  rw [hpress]
  exact ⟨rfl, rfl⟩

lemma length_inserted (chars : Text) :
    (s.inserted chars).length = s.text.length + chars.length := by
  simp only [inserted, List.length_append, List.length_take, List.length_drop]
  omega

/-- Inserted characters change the text. -/
lemma content_pasted_ne {chars : Text} (hne : chars ≠ []) :
    (s.pasted chars).content ≠ s.history.current.content := by
  intro hsame
  have hlength := s.length_inserted chars
  have hpos := List.length_pos_iff.mpr hne
  have hgrown : (s.inserted chars).length = s.text.length := congrArg List.length hsame
  omega

lemma history_pressKey {c : Char} (hc : c ≠ '\n' ∧ c ≠ '\t') (now : Nat) :
    (s.pressKey c now).history = s.history.burstEdit (s.pasted [c]) now := by
  simp only [pressKey, if_neg hc.1, if_neg hc.2]
  exact history_stepHistory (s.noteKey c) _

end

section

variable {s t : Session} {front : Text}

/-- What is inserted at the caret behind inserted characters follows them, also where the caret
of the session was past the end of its text. -/
lemma pasted_append (hsame : s.SameMeasure t)
    (hshown : t.history.current = s.pasted front) (back : Text) :
    t.pasted back = s.pasted (front ++ back) := by
  have htext : t.text = s.inserted front := congrArg Snapshot.content hshown
  have hoffset : t.caret.offset =
      min (s.caret.offset + front.length) (s.inserted front).length := by
    rw [caret, hshown]
    exact Caret.offset_ofOffset ..
  have hinserted : t.inserted back = s.inserted (front ++ back) := by
    have hlength : t.caret.offset = (s.text.take s.caret.offset ++ front).length := by
      rw [hoffset, length_inserted, List.length_append, List.length_take]
      omega
    calc t.inserted back
      _ = s.text.take s.caret.offset ++ front ++ back ++ s.text.drop s.caret.offset := by
          rw [inserted, htext, inserted, List.take_left' hlength.symm, List.drop_left' hlength.symm]
      _ = s.inserted (front ++ back) := by simp only [inserted, List.append_assoc]
  have hcaret : min (t.caret.offset + back.length) (t.inserted back).length =
      min (s.caret.offset + (front ++ back).length) (s.inserted (front ++ back)).length := by
    rw [hinserted, hoffset]
    simp only [length_inserted, List.length_append]
    omega
  rw [pasted, pasted, measured, measured, hsame.metrics, hsame.charWidth, Caret.ofOffset_eq_min,
    hcaret, hinserted, ← Caret.ofOffset_eq_min]

end

/-- The steps that type some characters one by one, each with the time at which it is typed. -/
def typing (keys : List (Char × Nat)) : List SessionStep := keys.map fun k => .pressKey k.1 k.2

lemma withHistory_typing (s : Session) (keys : List (Char × Nat)) (h : History) :
    ((s.run (typing keys)).withHistory h).forgetKeys = (s.withHistory h).forgetKeys := by
  induction keys generalizing s with
  | nil => rfl
  | cons k rest ih => exact (ih _).trans (s.withHistory_pressKey k.1 k.2 h)

section

variable {s : Session}

/-- A key and what is pasted behind it are pasted together. -/
lemma pasted_pressKey {c : Char} (hc : c ≠ '\n' ∧ c ≠ '\t') (now : Nat) (back : Text) :
    (s.pressKey c now).pasted back = s.pasted (c :: back) := by
  have hshown : (s.pressKey c now).history.current = s.pasted [c] := by
    rw [s.history_pressKey hc]
    exact History.current_burstEdit (s.content_pasted_ne (by simp)) now
  exact pasted_append (s.sameMeasure_pressKey c now) hshown back

/-- In a burst that goes on, the keys of a run leave what a paste of all of them would show, and
the time of the last one. -/
lemma history_typing {h : History} {shown : Snapshot} {k : Char × Nat}
    (hburst : s.history = h.typing shown k.2) (hshown : s.pasted [] = shown)
    {keys : List (Char × Nat)} (hkeys : ∀ k ∈ keys, k.1 ≠ '\n' ∧ k.1 ≠ '\t') :
    (s.run (typing keys)).history =
      h.typing (s.pasted (keys.map Prod.fst)) (keys.getLastD k).2 := by
  induction keys generalizing s shown k with
  | nil =>
    rw [List.map_nil, hshown]
    exact hburst
  | cons next rest ih =>
    rw [List.forall_mem_cons] at hkeys
    have hnext : (s.pressKey next.1 next.2).history = h.typing (s.pasted [next.1]) next.2 := by
      rw [s.history_pressKey hkeys.1, hburst]
      rfl
    have hrest := ih hnext (pasted_pressKey hkeys.1 next.2 []) hkeys.2
    rw [pasted_pressKey hkeys.1] at hrest
    rw [List.getLastD_cons]
    exact hrest

/-- The first key of a run begins the burst. -/
lemma history_typing_of_quiet (hquiet : s.history.burst = none) {keys : List (Char × Nat)}
    (hne : keys ≠ []) (hkeys : ∀ k ∈ keys, k.1 ≠ '\n' ∧ k.1 ≠ '\t') :
    (s.run (typing keys)).history =
      s.history.typing (s.pasted (keys.map Prod.fst)) (keys.getLast hne).2 := by
  cases keys with
  | nil => exact absurd rfl hne
  | cons k rest =>
    rw [List.forall_mem_cons] at hkeys
    have hfirst : (s.pressKey k.1 k.2).history = s.history.typing (s.pasted [k.1]) k.2 := by
      rw [s.history_pressKey hkeys.1]
      exact History.burstEdit_of_quiet hquiet (s.content_pasted_ne (by simp)) k.2
    have hrest := history_typing hfirst (pasted_pressKey hkeys.1 k.2 []) hkeys.2
    rw [pasted_pressKey hkeys.1, ← List.getLast_eq_getLastD] at hrest
    exact hrest

end

/-- Let nothing be pending on the active page, and let a run of characters without line feeds and
tabs be typed one by one, at whatever times. Then the deadline is the pause after the last key. A
poll that is not before it leaves the same history of the page as a paste of the run would have
left, with nothing pending: the same text and caret, the same undo entries and the same redo
entries. But for the remembered keys it leaves the same session. -/
theorem typed_eq_pasted (s : Session) (keys : List (Char × Nat)) (hquiet : s.history.burst = none)
    (hne : keys ≠ []) (hkeys : ∀ k ∈ keys, k.1 ≠ '\n' ∧ k.1 ≠ '\t') :
    let typed := s.run (typing keys)
    let deadline := (keys.getLast hne).2 + s.history.pause
    let pasted := (s.step (.paste (keys.map Prod.fst))).session
    typed.deadline? = some deadline ∧
    ∀ time, deadline ≤ time →
      let ended := (typed.step (.tick time)).session
      ended.history = pasted.history ∧ ended.history.burst = none ∧
      ended.forgetKeys = pasted := by
  intro typed deadline pasted
  let edited := s.history.edit (s.pasted (keys.map Prod.fst))
  have htyped :
      typed.history = s.history.typing (s.pasted (keys.map Prod.fst)) (keys.getLast hne).2 :=
    history_typing_of_quiet hquiet hne hkeys
  have hpasted : pasted = (s.withHistory edited).forgetKeys := s.forgetKeys.stepHistory_eq _
  refine ⟨?_, ?_⟩
  · exact congrArg History.deadline? htyped
  · intro time htime ended
    have hended : typed.history.step (.tick time) = edited := by
      have hchanged : (s.pasted (keys.map Prod.fst)).content ≠ s.history.current.content :=
        s.content_pasted_ne (by simpa using hne)
      calc typed.history.step (.tick time)
        _ = typed.history.endBurst := if_pos (htyped ▸ decide_eq_true htime)
        _ = edited := by rw [htyped, History.endBurst_typing_eq_edit hquiet hchanged]
    have hsession : ended.forgetKeys = pasted := by
      calc ended.forgetKeys
        _ = (typed.withHistory edited).forgetKeys := by
            rw [← hended]
            exact congrArg forgetKeys (typed.stepHistory_eq _)
        _ = pasted := (withHistory_typing s keys edited).trans hpasted.symm
    have hhistory : ended.history = edited := (history_stepHistory typed _).trans hended
    refine ⟨?_, ?_, hsession⟩
    · rw [← hsession]
      rfl
    · rw [hhistory]
      exact s.history.burst_edit _

/-- Between a tab and a wide character, with something to undo and something to redo. The limit has
room for one entry, and the second key is typed at an earlier time than the first. -/
theorem typed_eq_pasted_between :
    let w : Char → Option Nat := fun c => if c = '你' ∨ c = '好' then some 2 else some 1
    let settings : Settings :=
      { Settings.standard with tabWidth := 2, widthRule := .byScript, undoLimit := 1 }
    let s := (new w settings).run [.paste ['\t', '你'], .paste ['x'], .undo, .moveTo 1]
    let keys : List (Char × Nat) := [('好', 90), ('(', 50), (' ', 60)]
    let typed := s.run (typing keys)
    let pasted := (s.step (.paste ['好', '(', ' '])).session
    let ended := (typed.step (.tick 360)).session
    let before : Snapshot := ⟨['\t', '你'], ⟨1, 3, 1⟩⟩
    let after : Snapshot := ⟨['\t', '好', '(', ' ', '你'], ⟨1, 7, 4⟩⟩
    s.history = ⟨before, [], [⟨['\t', '你', 'x'], ⟨1, 6, 3⟩⟩], 1, 300, none⟩ ∧
    keys ≠ [] ∧ (∀ k ∈ keys, k.1 ≠ '\n' ∧ k.1 ≠ '\t') ∧
    typed.deadline? = some 360 ∧ pasted.history = ⟨after, [before], [], 1, 300, none⟩ ∧
    ended.history = pasted.history ∧ ended.forgetKeys = pasted := by
  intro w settings s keys typed pasted ended before after
  have hstart : s.history =
      ⟨before, [], [⟨['\t', '你', 'x'], ⟨1, 6, 3⟩⟩], 1, 300, none⟩ := by decide +kernel
  have hne : keys ≠ [] := by decide
  have hkeys : ∀ k ∈ keys, k.1 ≠ '\n' ∧ k.1 ≠ '\t' := by decide
  have hpasted : pasted.history = ⟨after, [before], [], 1, 300, none⟩ := by decide +kernel
  obtain ⟨hdeadline, hended⟩ := typed_eq_pasted s keys (congrArg History.burst hstart) hne hkeys
  have hpause : s.history.pause = 300 := congrArg History.pause hstart
  rw [hpause] at hdeadline hended
  obtain ⟨hhistory, -, hsession⟩ := hended 360 (Nat.le_refl 360)
  exact ⟨hstart, hne, hkeys, hdeadline, hpasted, hhistory, hsession⟩

end Session
end EditingEngine
