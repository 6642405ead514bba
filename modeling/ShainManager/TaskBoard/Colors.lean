import ShainManager.TaskBoard.Drag

/-!
# The colours of the task board

A card takes the colour at its position, and a drag the colour at the new index, from a list
that has one colour for each build of the page. A drag that does not move the index uses the
`colorTween` of an earlier one.

* `never_throws_iff`: the runs in which no card and no drag fails.
* `card_without_color`: runs in which one does.
* `appColors_length_run`: the number of colours is the number of builds.
-/

namespace ShainManager

open Machine DragLemmas

variable {Color T : Type} {format : Int → String} {lerp : Color → Color → T → Color}
  {b b' : CardBoard Color}

/-- After `builds` page builds, a card is built at a position below their number, a drag to the
left that moves the index moves it below that number, and a drag that does not move the index
comes after one that did. -/
def enoughBuilds (builds : Nat) (b : CardBoard Color) : BoardEvent Color T → Prop
  | .card position => position < builds
  | .drag velocity =>
    (velocity < 0 → b.cardIndex < b.itemCount → b.cardIndex + 1 < builds) ∧
      (b.Moves velocity ∨ b.colorTween.isSome = true)
  | .build _ => True
  | .snapshot _ => True
  | .tick _ => True

instance (builds : Nat) (b : CardBoard Color) :
    ∀ e : BoardEvent Color T, Decidable (enoughBuilds builds b e)
  | .card _ => inferInstanceAs (Decidable (_ < _))
  | .drag _ => inferInstanceAs (Decidable (_ ∧ _))
  | .build _ | .snapshot _ | .tick _ => .isTrue trivial

/-- The same with the colours that the page has. -/
def enoughColors (b : CardBoard Color) (e : BoardEvent Color T) : Prop :=
  enoughBuilds b.appColors.length b e

instance (b : CardBoard Color) (e : BoardEvent Color T) : Decidable (enoughColors b e) :=
  inferInstanceAs (Decidable (enoughBuilds _ b e))

def BoardEvent.isBuild : BoardEvent Color T → Bool
  | .build _ => true
  | _ => false

namespace ColorsLemmas

/-- What holds as long as nothing has failed. -/
structure Tinted (b : CardBoard Color) : Prop where
  nonneg : 0 ≤ b.cardIndex
  colored : 0 < b.cardIndex → b.cardIndex < b.appColors.length
  tween : 0 < b.running → b.colorTween ≠ none

theorem colorAt_eq_none {l : List Color} {i : Int} (hi : 0 ≤ i) :
    colorAt l i = none ↔ (l.length : Int) ≤ i := by
  unfold colorAt
  rw [if_neg (by omega), List.getElem?_eq_none_iff]
  omega

theorem itemBuilder_isSome {position : Nat} (h : position < b.itemCount) :
    (b.itemBuilder position).isSome ↔ position < b.appColors.length := by
  constructor
  · intro hsome
    obtain ⟨card, hcard⟩ := Option.isSome_iff_exists.mp hsome
    exact lt_appColors_of_itemBuilder hcard
  · intro hlt
    have hcolor := List.getElem?_eq_getElem hlt
    have hfield : b.listtextField[position]? = some _ := List.getElem?_eq_getElem h
    unfold Board.itemBuilder
    rw [hcolor, hfield]
    rfl

theorem not_throws_card {position : Nat} (h : position < b.itemCount) :
    ¬ (b.handle format lerp (.card position)).Throws ↔ position < b.appColors.length := by
  rw [← itemBuilder_isSome h]
  unfold CardBoard.handle Handled.Throws
  dsimp only
  cases b.itemBuilder position with
  | none => simp [Except.isOk, Except.toBool]
  | some card => simp [Except.isOk, Except.toBool]

theorem not_throws_drag {velocity : Int} (h : Tinted b) :
    ¬ (b.onHorizontalDragEnd velocity).Throws ↔
      (velocity < 0 → b.cardIndex < b.itemCount → b.cardIndex + 1 < b.appColors.length) ∧
        (b.Moves velocity ∨ b.colorTween.isSome = true) := by
  have hnonneg := h.nonneg
  have hcolored := h.colored
  have hdrag := dragMove b velocity
  generalize b.onHorizontalDragEnd velocity = r at hdrag
  cases hdrag with
  | moved hm hcolor =>
    refine iff_of_true (fun ht => Bool.noConfusion ht) ⟨fun hv hi => ?_, .inl hm⟩
    have hmoved : b.moved velocity = b.cardIndex + 1 := if_neg (by omega)
    rw [hmoved] at hcolor
    have hne : ¬ (b.appColors.length : Int) ≤ b.cardIndex + 1 := by
      rw [← colorAt_eq_none (by omega), hcolor]
      exact Option.some_ne_none _
    omega
  | outOfRange hm hcolor =>
    refine iff_of_false (fun hno => hno rfl) fun hok => ?_
    rcases hm with ⟨hv, hi⟩ | ⟨hv, hi⟩
    · -- the index was in range, so the one before is
      rw [show b.moved velocity = b.cardIndex - 1 from if_pos hv, colorAt_eq_none (by omega)] at hcolor
      have := hcolored hi
      omega
    · rw [show b.moved velocity = b.cardIndex + 1 from if_neg (by omega),
        colorAt_eq_none (by omega)] at hcolor
      have := hok.1 hv hi
      omega
  | stayed armed hm htween =>
    refine iff_of_true (fun ht => Bool.noConfusion ht) ⟨fun hv hi => ?_, .inr ?_⟩
    · exact absurd (.inr ⟨hv, hi⟩) hm
    · exact Option.isSome_iff_ne_none.mpr htween
  | noTween armed hm htween =>
    refine iff_of_false (fun hno => hno rfl) fun hok => ?_
    rcases hok.2 with hm' | hsome
    · exact hm hm'
    · exact Option.isSome_iff_ne_none.mp hsome htween

/-- A step fails exactly when it misses the condition. -/
theorem not_throws_iff {e : BoardEvent Color T} (h : Tinted b) (henabled : b.Enabled e) :
    ¬ (b.handle format lerp e).Throws ↔ enoughColors b e := by
  cases e with
  | build color => exact iff_of_true (fun ht => Bool.noConfusion ht) trivial
  | snapshot snapshot => exact iff_of_true (fun ht => Bool.noConfusion ht) trivial
  | card position => exact not_throws_card henabled
  | drag velocity => exact not_throws_drag h
  | tick t =>
    refine iff_of_true ?_ trivial
    obtain ⟨tween, htween⟩ := Option.ne_none_iff_exists'.mp (h.tween henabled)
    simp only [CardBoard.handle, CardBoard.onAnimation, htween]
    exact fun ht => Bool.noConfusion ht

theorem tinted_drag {velocity : Int} (h : Tinted b) (hok : enoughColors (T := T) b (.drag velocity)) :
    Tinted (b.onHorizontalDragEnd velocity).page := by
  have hnonneg := h.nonneg
  have hthrows := (not_throws_drag h).mpr hok
  have hdrag := dragMove b velocity
  generalize b.onHorizontalDragEnd velocity = r at hdrag hthrows
  cases hdrag with
  | moved hm hcolor =>
    refine ⟨?_, fun _ => ?_, fun _ => Option.some_ne_none _⟩
    · show 0 ≤ b.moved velocity
      unfold CardBoard.moved
      split <;> rcases hm with hm | hm <;> omega
    · show b.moved velocity < b.appColors.length
      unfold CardBoard.moved
      rcases hm with ⟨hv, hi⟩ | ⟨hv, hi⟩
      · have := h.colored hi
        rw [if_pos hv]
        omega
      · rw [if_neg (by omega)]
        exact hok.1 hv hi
  | outOfRange hm hcolor => exact absurd rfl hthrows
  | stayed armed hm htween => exact ⟨hnonneg, h.colored, fun _ => htween⟩
  | noTween armed hm htween => exact absurd rfl hthrows

theorem tinted_step {e : BoardEvent Color T} (h : Tinted b) (hok : enoughColors b e)
    (hs : boardStep format lerp b e = some b') : Tinted b' := by
  obtain ⟨-, rfl⟩ := boardStep_eq_some.mp hs
  cases e with
  | build color =>
    refine ⟨h.nonneg, fun hi => ?_, h.tween⟩
    have hlt := h.colored hi
    simp only [CardBoard.handle, Handled.page, List.length_append, List.length_singleton] at hi ⊢
    omega
  | snapshot snapshot => exact ⟨h.nonneg, h.colored, h.tween⟩
  | card position =>
    unfold CardBoard.handle
    dsimp only
    split
    · exact h
    · exact h
  | drag velocity => exact tinted_drag h hok
  | tick t =>
    simp only [CardBoard.handle, CardBoard.onAnimation]
    split
    · exact h
    · exact ⟨h.nonneg, h.colored, h.tween⟩

theorem appColors_drag (b : CardBoard Color) (velocity : Int) :
    (b.onHorizontalDragEnd velocity).page.appColors = b.appColors := by
  have hdrag := dragMove b velocity
  generalize b.onHorizontalDragEnd velocity = r at hdrag
  cases hdrag with
  | moved => rfl
  | outOfRange => rfl
  | stayed => rfl
  | noTween => rfl

theorem appColors_length_step {e : BoardEvent Color T} (hs : boardStep format lerp b e = some b') :
    b'.appColors.length = b.appColors.length + if e.isBuild then 1 else 0 := by
  obtain ⟨-, rfl⟩ := boardStep_eq_some.mp hs
  cases e with
  | build color => exact List.length_append
  | snapshot snapshot => rfl
  | card position =>
    unfold CardBoard.handle
    dsimp only
    split
    · rfl
    · rfl
  | drag velocity => exact congrArg List.length (appColors_drag b velocity)
  | tick t =>
    simp only [CardBoard.handle, CardBoard.onAnimation]
    split
    · rfl
    · rfl

end ColorsLemmas

open ColorsLemmas

/-- There is one colour for each build of the page. -/
theorem appColors_length_run {es : List (BoardEvent Color T)}
    (hrun : run (boardStep format lerp) anyStep b es = some b') :
    b'.appColors.length = b.appColors.length + es.countP BoardEvent.isBuild := by
  induction es generalizing b with
  | nil =>
    cases hrun
    rfl
  | cons e es ih =>
    obtain ⟨-, b₁, hs, hrest⟩ := run_cons_eq_some.mp hrun
    rw [ih hrest, appColors_length_step hs, List.countP_cons]
    omega

/-- All steps of a run find enough colours if and only if they come after enough builds. -/
theorem run_enoughColors_iff {color : Color} {es : List (BoardEvent Color T)}
    (hrun : run (boardStep format lerp) anyStep (.fresh color) es = some b) :
    (∀ n b' e, run (boardStep format lerp) anyStep (.fresh color) (es.take n) = some b' →
      es[n]? = some e → enoughBuilds ((es.take n).countP BoardEvent.isBuild) b' e) ↔
    run (boardStep format lerp) enoughColors (.fresh color) es = some b := by
  have hcolors := forall_step_iff_run (I := fun _ => True) (Q := enoughColors)
    (fun _ _ _ => trivial) (fun _ _ => Iff.rfl) trivial hrun
  rw [← hcolors]
  have hlen : ∀ n b', run (boardStep format lerp) anyStep (.fresh color) (es.take n) = some b' →
      b'.appColors.length = (es.take n).countP BoardEvent.isBuild := by
    intro n b' hb
    rw [appColors_length_run hb]
    exact Nat.zero_add _
  constructor
  · intro h n b' e hb he
    unfold enoughColors
    rw [hlen n b' hb]
    exact h n b' e hb he
  · intro h n b' e hb he
    rw [← hlen n b' hb]
    exact h n b' e hb he

/-- For every run of page builds, snapshots, card builds, drags and animations on a new page:
no step of it uses a colour out of range or a missing `colorTween`, if and only if every step
comes after enough page builds. -/
theorem never_throws_iff {color : Color} {es : List (BoardEvent Color T)}
    (hrun : run (boardStep format lerp) anyStep (.fresh color) es = some b) :
    (∀ n b' e, run (boardStep format lerp) anyStep (.fresh color) (es.take n) = some b' →
      es[n]? = some e → ¬ (b'.handle format lerp e).Throws) ↔
    ∀ n b' e, run (boardStep format lerp) anyStep (.fresh color) (es.take n) = some b' →
      es[n]? = some e → enoughBuilds ((es.take n).countP BoardEvent.isBuild) b' e := by
  have hfresh : Tinted (CardBoard.fresh color) :=
    ⟨Int.le_refl 0, fun h => absurd h (Int.lt_irrefl 0), fun h => absurd h (Nat.lt_irrefl 0)⟩
  rw [run_enoughColors_iff hrun]
  refine forall_step_iff_run (fun hI hok hs => tinted_step hI hok hs) (fun hI hs => ?_) hfresh hrun
  exact not_throws_iff hI (boardStep_eq_some.mp hs).1

/-- To the second of two cards, back, and a touch that does not move. -/
def touchedAfterwards : List (BoardEvent Nat Unit) :=
  [.build 0, .build 1, .snapshot twoTasks, .card 0, .card 1, .drag (-300), .tick (), .drag 300,
    .drag 0]

theorem never_throws_touchedAfterwards :
    ∃ b, run plainStep anyStep (.fresh 7) touchedAfterwards = some b ∧ b.running = 3 ∧
      ∀ n b' e, run plainStep anyStep (.fresh 7) (touchedAfterwards.take n) = some b' →
        touchedAfterwards[n]? = some e →
        ¬ (b'.handle (fun _ => "1970年01月01(木) 09:00") (fun _ last _ => last) e).Throws := by
  obtain ⟨b, hb, hrunning, hcolors⟩ := exists_run plainStep anyStep (.fresh 7) touchedAfterwards
    (p := fun b => b.running = 3 ∧ run plainStep enoughColors (.fresh 7) touchedAfterwards = some b)
    (by decide)
  exact ⟨b, hb, hrunning, (never_throws_iff hb).mpr ((run_enoughColors_iff hb).mpr hcolors)⟩

/-- Two tasks arrive after the first build. The second card has no colour, nor has a drag to
it, and a touch that does not move finds no `colorTween`. -/
theorem card_without_color :
    ∃ b, run plainStep anyStep (.fresh 7) [.build 0, .snapshot twoTasks] = some b ∧
      b.itemCount = 2 ∧
      ∀ e ∈ ([.card 1, .drag (-300), .drag 0] : List (BoardEvent Nat Unit)), b.Enabled e ∧
        (b.handle (fun _ => "1970年01月01(木) 09:00") (fun _ last _ => last) e).Throws := by
  exact exists_run plainStep anyStep (.fresh 7) [.build 0, .snapshot twoTasks] (by decide)

end ShainManager
