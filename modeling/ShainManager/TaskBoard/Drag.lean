import ShainManager.Lib.Run
import ShainManager.TaskBoard

/-!
# Dragging the task board

The drag handler of the cards and the events around it (`lib/ui/manageEmp.dart`). A drag moves
`cardIndex` by one card and starts an animation of the page's colour towards the colour of
the card. `appColors` grows by one colour a page build, `listtextField` is replaced by every
snapshot, and nothing relates the two to the index.

A handler that throws leaves the page as it was at that point; Flutter reports the exception
and goes on.

* `card_selected_iff`: the runs in which the index is that of a card.
* `never_throws_iff`: the runs in which no card and no drag fails.
-/

namespace ShainManager

open Machine

structure ColorTween (Color : Type) where
  first : Color
  last : Color
deriving DecidableEq, Repr

/-- The board with the fields of its drag handler. `running` counts the animations that were
started, `scrollOffset` is where the list was last told to scroll to. -/
structure CardBoard (Color : Type) extends Board Color where
  cardIndex : Int := 0
  currentColor : Color
  colorTween : Option (ColorTween Color) := none
  scrollOffset : Int := 0
  running : Nat := 0
deriving DecidableEq, Repr

/-- A page before its first build. -/
def CardBoard.fresh {Color : Type} (color : Color) : CardBoard Color :=
  { appColors := [], currentColor := color }

/-- What a handler leaves: `error b` when it throws in the state `b`. -/
abbrev Handled (Color : Type) := Except (CardBoard Color) (CardBoard Color)

def Handled.page {Color : Type} : Handled Color → CardBoard Color
  | .ok b => b
  | .error b => b

def Handled.Throws {Color : Type} (r : Handled Color) : Prop := r.isOk = false

instance {Color : Type} (r : Handled Color) : Decidable r.Throws :=
  inferInstanceAs (Decidable (_ = _))

section

variable {Color T : Type}

/-! ## The handlers -/

/-- `appColors[index]`, which throws when `index` is out of range. -/
def colorAt (appColors : List Color) (index : Int) : Option Color :=
  if index < 0 then none else appColors[index.toNat]?

/-- `colorTween = ColorTween(begin: currentColor, end: appColors[cardIndex])`. -/
def CardBoard.setTween (b : CardBoard Color) : Handled Color :=
  match colorAt b.appColors b.cardIndex with
  | none => .error b
  | some color => .ok { b with colorTween := some ⟨b.currentColor, color⟩ }

/-- The branches of `onHorizontalDragEnd` on the velocity. -/
def CardBoard.swipe (b : CardBoard Color) (velocity : Int) : Handled Color :=
  if velocity ≠ 0 then
    if velocity > 0 then
      if b.cardIndex > 0 then { b with cardIndex := b.cardIndex - 1 }.setTween else .ok b
    else
      if b.cardIndex < b.listtextField.length then
        { b with cardIndex := b.cardIndex + 1 }.setTween
      else .ok b
  else .ok { b with clickicondeleteTask := false }

/-- `onHorizontalDragEnd`. Of the velocity only the sign is read. -/
def CardBoard.onHorizontalDragEnd (b : CardBoard Color) (velocity : Int) : Handled Color :=
  (b.swipe velocity).bind fun b =>
    let b := { b with scrollOffset := b.cardIndex * 256 }
    -- `colorTween.animate`
    match b.colorTween with
    | none => .error b
    | some _ => .ok { b with running := b.running + 1 }

/-- The listener of an animation, with the interpolation of colours `lerp` and the animation
at `t`. -/
def CardBoard.onAnimation (lerp : Color → Color → T → Color) (b : CardBoard Color) (t : T) :
    Handled Color :=
  match b.colorTween with
  | none => .error b
  | some tween => .ok { b with currentColor := lerp tween.first tween.last t }

end

/-! ## The machine -/

/-- A build of the page with the colour that it draws, the arrival of a snapshot, the build of
the card at a position, the end of a drag, and a tick of an animation. -/
inductive BoardEvent (Color T : Type)
  | build (color : Color)
  | snapshot (snapshot : StackSnapshot)
  | card (position : Nat)
  | drag (velocity : Int)
  | tick (t : T)

section

variable {Color T : Type}

variable (format : Int → String) (lerp : Color → Color → T → Color)

/-- Cards are built below `itemCount`, the drag handler belongs to a card, and only an
animation that was started ticks. -/
def CardBoard.Enabled (b : CardBoard Color) : BoardEvent Color T → Prop
  | .build _ => True
  | .snapshot _ => True
  | .card position => position < b.itemCount
  | .drag _ => 0 < b.itemCount
  | .tick _ => 0 < b.running

instance (b : CardBoard Color) : ∀ e : BoardEvent Color T, Decidable (b.Enabled e)
  | .build _ | .snapshot _ => .isTrue trivial
  | .card _ | .drag _ | .tick _ => inferInstanceAs (Decidable (_ < _))

def CardBoard.handle (b : CardBoard Color) : BoardEvent Color T → Handled Color
  | .build color => .ok { b with appColors := b.appColors ++ [color] }
  | .snapshot snapshot => .ok { b with toBoard := b.bottomlistTask format snapshot }
  | .card position =>
    match b.itemBuilder position with
    | none => .error b
    | some _ => .ok b
  | .drag velocity => b.onHorizontalDragEnd velocity
  | .tick t => b.onAnimation lerp t

def boardStep (b : CardBoard Color) (e : BoardEvent Color T) : Option (CardBoard Color) :=
  if b.Enabled e then some (b.handle format lerp e).page else none

end

/-! ## What a drag can do -/

section

variable {Color : Type}

/-- The drag moves the index. -/
def CardBoard.Moves (b : CardBoard Color) (velocity : Int) : Prop :=
  0 < velocity ∧ 0 < b.cardIndex ∨ velocity < 0 ∧ b.cardIndex < b.itemCount

instance (b : CardBoard Color) (velocity : Int) : Decidable (b.Moves velocity) :=
  inferInstanceAs (Decidable (_ ∨ _))

/-- Where it moves it to. -/
def CardBoard.moved (b : CardBoard Color) (velocity : Int) : Int :=
  if 0 < velocity then b.cardIndex - 1 else b.cardIndex + 1

/-- The four ends of `onHorizontalDragEnd`. -/
inductive DragMove (b : CardBoard Color) (velocity : Int) : Handled Color → Prop
  | moved {color : Color} (hm : b.Moves velocity)
      (hcolor : colorAt b.appColors (b.moved velocity) = some color) :
      DragMove b velocity (.ok { b with
        cardIndex := b.moved velocity, colorTween := some ⟨b.currentColor, color⟩
        scrollOffset := b.moved velocity * 256, running := b.running + 1 })
  | outOfRange (hm : b.Moves velocity)
      (hcolor : colorAt b.appColors (b.moved velocity) = none) :
      DragMove b velocity (.error { b with cardIndex := b.moved velocity })
  | stayed (armed : Bool) (hm : ¬ b.Moves velocity) (htween : b.colorTween ≠ none) :
      DragMove b velocity (.ok { b with
        clickicondeleteTask := armed
        scrollOffset := b.cardIndex * 256, running := b.running + 1 })
  | noTween (armed : Bool) (hm : ¬ b.Moves velocity) (htween : b.colorTween = none) :
      DragMove b velocity (.error { b with
        clickicondeleteTask := armed, scrollOffset := b.cardIndex * 256 })

namespace DragLemmas

theorem swipe_of_moves {b : CardBoard Color} {velocity : Int} (h : b.Moves velocity) :
    b.swipe velocity = { b with cardIndex := b.moved velocity }.setTween := by
  unfold CardBoard.swipe CardBoard.moved
  rcases h with ⟨hv, hi⟩ | ⟨hv, hi⟩
  · rw [if_pos (by omega), if_pos hv, if_pos hi, if_pos hv]
  · have hi : b.cardIndex < b.listtextField.length := hi
    rw [if_pos (by omega), if_neg (by omega), if_pos hi, if_neg (by omega)]

theorem swipe_of_not_moves {b : CardBoard Color} {velocity : Int} (h : ¬ b.Moves velocity) :
    ∃ armed, b.swipe velocity = .ok { b with clickicondeleteTask := armed } := by
  unfold CardBoard.swipe
  rcases Int.lt_trichotomy velocity 0 with hv | rfl | hv
  · have hi : ¬ b.cardIndex < b.listtextField.length := fun hi => h (.inr ⟨hv, hi⟩)
    rw [if_pos (by omega), if_neg (by omega), if_neg hi]
    exact ⟨_, rfl⟩
  · rw [if_neg (by decide)]
    exact ⟨false, rfl⟩
  · have hi : ¬ b.cardIndex > 0 := fun hi => h (.inl ⟨hv, hi⟩)
    rw [if_pos (by omega), if_pos hv, if_neg hi]
    exact ⟨_, rfl⟩

end DragLemmas

open DragLemmas

theorem dragMove (b : CardBoard Color) (velocity : Int) :
    DragMove b velocity (b.onHorizontalDragEnd velocity) := by
  unfold CardBoard.onHorizontalDragEnd
  by_cases hm : b.Moves velocity
  · rw [swipe_of_moves hm]
    unfold CardBoard.setTween
    cases hcolor : colorAt b.appColors (b.moved velocity) with
    | none => exact .outOfRange hm hcolor
    | some color => exact .moved hm hcolor
  · obtain ⟨armed, hswipe⟩ := swipe_of_not_moves hm
    rw [hswipe]
    simp only [Except.bind]
    split
    · next htween => exact .noTween armed hm htween
    · next tween htween => exact .stayed armed hm (by rw [htween]; exact Option.some_ne_none tween)

end

/-! ## The index and the cards -/

section

variable {Color T : Type}

/-- The index is that of a card, if there are cards. -/
def CardBoard.Selected (b : CardBoard Color) : Prop :=
  0 ≤ b.cardIndex ∧ (0 < b.itemCount → b.cardIndex < b.itemCount)

instance (b : CardBoard Color) : Decidable b.Selected := inferInstanceAs (Decidable (_ ∧ _))

variable (format : Int → String) (lerp : Color → Color → T → Color)

/-- The number of tasks of a snapshot that can be shown. -/
def cardCount (snapshot : StackSnapshot) : Nat :=
  (snapshot.documents.filterMap (textlist format)).length

/-- No drag to the left on the last card, and no snapshot with fewer cards than the index
needs, unless it has none. -/
def onCards (b : CardBoard Color) : BoardEvent Color T → Prop
  | .snapshot snapshot => cardCount format snapshot = 0 ∨ b.cardIndex < cardCount format snapshot
  | .drag velocity => velocity < 0 → b.cardIndex + 1 ≠ b.itemCount
  | .build _ => True
  | .card _ => True
  | .tick _ => True

instance (b : CardBoard Color) : ∀ e : BoardEvent Color T, Decidable (onCards format b e)
  | .snapshot _ => inferInstanceAs (Decidable (_ ∨ _))
  | .drag _ => inferInstanceAs (Decidable (_ → _))
  | .build _ | .card _ | .tick _ => .isTrue trivial

variable {format lerp} {b b' : CardBoard Color}

namespace DragLemmas

theorem boardStep_eq_some {e : BoardEvent Color T} :
    boardStep format lerp b e = some b' ↔ b.Enabled e ∧ (b.handle format lerp e).page = b' := by
  unfold boardStep
  split
  · next h => simp [h]
  · next h => simp [h]

/-- Away from drags and snapshots the index and the number of cards stay. -/
theorem selected_congr (hindex : b'.cardIndex = b.cardIndex) (hcount : b'.itemCount = b.itemCount) :
    b'.Selected ↔ b.Selected := by
  unfold CardBoard.Selected
  rw [hindex, hcount]

theorem selected_snapshot {snapshot : StackSnapshot} (h : b.Selected) :
    { b with toBoard := b.bottomlistTask format snapshot }.Selected ↔
      cardCount format snapshot = 0 ∨ b.cardIndex < cardCount format snapshot := by
  have hcount : (b.bottomlistTask format snapshot).itemCount = cardCount format snapshot := by
    unfold Board.itemCount cardCount
    rw [TaskBoardLemmas.listtextField_eq]
  have hindex := h.1
  unfold CardBoard.Selected
  dsimp only
  rw [hcount]
  omega

theorem selected_drag {velocity : Int} (hcards : 0 < b.itemCount) (h : b.Selected) :
    (b.onHorizontalDragEnd velocity).page.Selected ↔
      (velocity < 0 → b.cardIndex + 1 ≠ b.itemCount) := by
  have hlt := h.2 hcards
  have hindex := h.1
  -- with a card selected, every drag to the left moves
  have hmoved : b.Moves velocity → ∀ b' : CardBoard Color, b'.cardIndex = b.moved velocity →
      b'.itemCount = b.itemCount →
      (b'.Selected ↔ (velocity < 0 → b.cardIndex + 1 ≠ b.itemCount)) := by
    intro hm b' hb' hcount
    unfold CardBoard.Selected
    rw [hb', hcount]
    unfold CardBoard.moved
    rcases hm with ⟨hv, hi⟩ | ⟨hv, hi⟩
    · rw [if_pos hv]
      omega
    · rw [if_neg (by omega)]
      omega
  have hstay : ¬ b.Moves velocity → ¬ velocity < 0 := fun hm hv => hm (.inr ⟨hv, hlt⟩)
  have hdrag := dragMove b velocity
  generalize b.onHorizontalDragEnd velocity = r at hdrag
  cases hdrag with
  | moved hm hcolor => exact hmoved hm _ rfl rfl
  | outOfRange hm hcolor => exact hmoved hm _ rfl rfl
  | stayed armed hm _ =>
    exact ⟨fun _ hv => absurd hv (hstay hm), fun _ => (selected_congr rfl rfl).mpr h⟩
  | noTween armed hm _ =>
    exact ⟨fun _ hv => absurd hv (hstay hm), fun _ => (selected_congr rfl rfl).mpr h⟩

theorem selected_step {e : BoardEvent Color T} (h : b.Selected)
    (hs : boardStep format lerp b e = some b') : b'.Selected ↔ onCards format b e := by
  obtain ⟨henabled, rfl⟩ := boardStep_eq_some.mp hs
  cases e with
  | build color => exact iff_of_true ((selected_congr rfl rfl).mpr h) trivial
  | snapshot snapshot => exact selected_snapshot h
  | card position =>
    refine iff_of_true ?_ trivial
    unfold CardBoard.handle
    dsimp only
    split
    · exact h
    · exact h
  | drag velocity => exact selected_drag henabled h
  | tick t =>
    refine iff_of_true ?_ trivial
    simp only [CardBoard.handle, CardBoard.onAnimation]
    split
    · exact h
    · exact (selected_congr rfl rfl).mpr h

end DragLemmas

open DragLemmas

/-- For every run of page builds, snapshots, card builds, drags and animations on a new page:
in all its states the index is that of a card, if and only if no drag to the left is made on
the last card and no snapshot with cards has too few of them for the index. -/
theorem card_selected_iff {color : Color} {es : List (BoardEvent Color T)}
    (hrun : run (boardStep format lerp) anyStep (.fresh color) es = some b) :
    (∀ n b', run (boardStep format lerp) anyStep (.fresh color) (es.take n) = some b' →
      b'.Selected) ↔
    run (boardStep format lerp) (onCards format) (.fresh color) es = some b := by
  have hfresh : (CardBoard.fresh color).Selected := ⟨Int.le_refl 0, fun h => absurd h (Nat.lt_irrefl 0)⟩
  exact forall_take_iff_run (I := fun _ => True) (fun _ _ => trivial)
    (fun _ hP hs => selected_step hP hs) trivial hfresh hrun

end

/-- The steps of a page whose colours are numbers and do not fade. -/
def plainStep : CardBoard Nat → BoardEvent Nat Unit → Option (CardBoard Nat) :=
  boardStep (fun _ => "1970年01月01(木) 09:00") fun _ last _ => last

def oneTask : StackSnapshot where
  documents := [createtask "a" "設計" "田中" "" (some 0)]
  nodup := by decide

def twoTasks : StackSnapshot where
  documents := [createtask "a" "設計" "田中" "" (some 0), createtask "b" "試験" "佐藤" "" (some 1)]
  nodup := by decide

/-- To the second of two cards and back, and then the second task is deleted. -/
def thereAndBack : List (BoardEvent Nat Unit) :=
  [.build 0, .build 1, .snapshot twoTasks, .drag (-300), .drag 300, .snapshot oneTask]

theorem card_selected_thereAndBack :
    ∃ b, run plainStep anyStep (.fresh 7) thereAndBack = some b ∧ b.itemCount = 1 ∧
      ∀ n b', run plainStep anyStep (.fresh 7) (thereAndBack.take n) = some b' → b'.Selected := by
  obtain ⟨b, hb, hcount, hcards⟩ := exists_run plainStep anyStep (.fresh 7) thereAndBack
    (p := fun b => b.itemCount = 1 ∧
      run plainStep (onCards fun _ => "1970年01月01(木) 09:00") (.fresh 7) thereAndBack = some b)
    (by decide)
  exact ⟨b, hb, hcount, (card_selected_iff hb).mpr hcards⟩

/-- The only card is dragged to the left. The board scrolls to where a second card would be. -/
theorem index_behind_last_card :
    ∃ b, run plainStep anyStep (.fresh 7) [.build 0, .build 1, .snapshot oneTask, .drag (-300)] =
        some b ∧
      b.itemCount = 1 ∧ b.cardIndex = 1 ∧ b.scrollOffset = 256 ∧ ¬ b.Selected := by
  exact exists_run plainStep anyStep (.fresh 7)
    [.build 0, .build 1, .snapshot oneTask, .drag (-300)] (by decide)

end ShainManager
