import ShainManager.Attendance.Idle

/-!
# The table as a register of attendance

What the page is for, in terms of the presses alone: a day of the register is opened by its
first 出勤 and closed by its last 退勤. The history of a run is the list of the presses whose
bodies got as far as their SQLite call, each with the button and the instant; it says nothing
of ids, flags, queues or pages.

`Booked` is the machine with its history, and with the mark `due` of a page whose body has run
and which has not been built since. `Orderly` asks for no agreement between the page and the
table. It restricts when things happen: a State object is built on one day only, a body runs
when the page has been rebuilt after the body before it and nothing is on its way, and results
come in order.

* `table_is_register`: in every such run the table holds exactly one row for each day with a
  clock-in, with the time of the first one and of the last clock-out, and an idle page shows
  the entry of its day.
-/

namespace ShainManager

open Machine Deferred

variable {ra : Rowid} {mode : Mode} {s s' : State} {e : Event} {p : Page}

/-! ## The history -/

/-- The times at which the button `b` was pressed on the day `d`. -/
def clocked (b : Button) (log : List (Button × DateTime)) (d : String) : List String :=
  (log.filter fun x => decide (x.1 = b ∧ x.2.ymdKey = d)).map fun x => x.2.timeString

/-- The clock-in and the clock-out time of a day. -/
def attended (log : List (Button × DateTime)) (d : String) : Option (String × String) :=
  (clocked .enter log d).head?.map fun first => (first, (clocked .out log d).getLast?.getD "")

/-- What an event adds to the history. -/
def booked (mode : Mode) (s : State) : Event → List (Button × DateTime)
  | .expire k t =>
    match s.pending k with
    | some (i, b, _) => if s.issues mode i b then [(b, t)] else []
    | none => []
  | _ => []

/-- Whether a rebuild is due after an event. -/
def rebuildDue (mode : Mode) (s : State) (due : Bool) : Event → Bool
  | .expire k _ =>
    match s.pending k with
    | some (i, _, _) => due || s.runs mode i
    | none => due
  | .build _ => false
  | _ => due

/-- The machine with its history. -/
structure Booked where
  state : State := .init
  log : List (Button × DateTime) := []
  due : Bool := false

def book (ra : Rowid) (mode : Mode) (w : Booked) (e : Event) : Option Booked :=
  (step ra mode w.state e).map fun s =>
    { state := s
      log := w.log ++ booked mode w.state e
      due := rebuildDue mode w.state w.due e }

variable {w w' : Booked}

/-! ## The condition on the steps -/

/-- A body that runs belongs to the mounted page, which shows its buttons. The page has been
rebuilt since the body before it, nothing is on its way, the day is that of the last build, and
退勤 comes on a day with a clock-in. -/
structure Calm (w : Booked) (i : Nat) (b : Button) (p : Page) (t : DateTime) : Prop where
  mounted : i = w.state.mounted
  shown : p.built.isSome = true
  rebuilt : w.due = false
  ops : w.state.ops = []
  results : w.state.results = []
  today : p.ymdWork = t.ymdKey
  entered : b = .out → clocked .enter w.log t.ymdKey ≠ []

/-- * A State object is built on one day only.
* A body that runs finds the page `Calm`.
* Results are delivered in the order of issue. -/
def Orderly (mode : Mode) (w : Booked) : Event → Prop
  | .build t => ∀ p ∈ w.state.pages[w.state.mounted]?, p.ymdWork = "" ∨ p.ymdWork = t.ymdKey
  | .expire k t => ∀ x ∈ w.state.pending k, w.state.runs mode x.1 = true →
      Calm w x.1 x.2.1 x.2.2 t
  | .deliver k => k = 0
  | _ => True

instance (w : Booked) (i : Nat) (b : Button) (p : Page) (t : DateTime) : Decidable (Calm w i b p t) :=
  decidable_of_iff (i = w.state.mounted ∧ p.built.isSome = true ∧ w.due = false ∧
      w.state.ops = [] ∧ w.state.results = [] ∧ p.ymdWork = t.ymdKey ∧
      (b = .out → clocked .enter w.log t.ymdKey ≠ []))
    ⟨fun ⟨h1, h2, h3, h4, h5, h6, h7⟩ => ⟨h1, h2, h3, h4, h5, h6, h7⟩,
      fun h => ⟨h.mounted, h.shown, h.rebuilt, h.ops, h.results, h.today, h.entered⟩⟩

instance (mode : Mode) (w : Booked) : ∀ e, Decidable (Orderly mode w e)
  | .build _ => inferInstanceAs (Decidable (∀ p ∈ w.state.pages[w.state.mounted]?, _))
  | .expire k _ => inferInstanceAs (Decidable (∀ x ∈ w.state.pending k, _))
  | .deliver k => inferInstanceAs (Decidable (k = 0))
  | .openPage | .press _ | .exec | .connectivity _ | .wifi _ _ => .isTrue trivial

/-! ## What the table says of the history -/

/-- The table holds one row for each day with a clock-in, with the times of the history. -/
structure Records (t : Manageremps) (log : List (Button × DateTime)) : Prop where
  oneRow : OneRowPerDay t
  times : ∀ r ∈ getManager t, attended log r.ymdWork = some (r.nowWorkenter, r.nowWorkout)
  days : ∀ d, clocked .enter log d ≠ [] → HasDay t d
  order : ∀ d, clocked .enter log d = [] → clocked .out log d = []

/-- The day of the record has a clock-in. -/
def Entered (log : List (Button × DateTime)) (r : FetchDatafromSQLite) : Prop :=
  clocked .enter log r.ymdWork ≠ []

/-- The newest read of the mounted page is behind all writes; or it has been executed; or it has
been delivered and the page agrees with the table. -/
inductive Synced (s : State) (p : Page) : Prop
  | issued (pre : List Op) (ho : s.ops = pre ++ [.read s.mounted])
  | executed (pre : List (Nat × List FetchDatafromSQLite)) (ho : s.ops = [])
      (hr : s.results = pre ++ [(s.mounted, getManager s.db)])
  | delivered (ho : s.ops = []) (hr : s.results = []) (ha : Agree p s.db)

structure BookInv (ra : Rowid) (w : Booked) : Prop where
  records : Records (w.state.settled ra) w.log
  ops : ∀ op ∈ w.state.ops, op.Carries (Entered w.log)
  stored : ∀ r ∈ getManager w.state.db, Entered w.log r
  results : ∀ x ∈ w.state.results, ∀ r ∈ x.2, Entered w.log r
  initial : ∀ p, w.state.pages[w.state.mounted]? = some p → clocked .enter w.log p.ymdWork = [] →
    p.Initial
  synced : ∀ p, w.state.pages[w.state.mounted]? = some p → p.built.isSome = true →
    w.due = false → Synced w.state p

namespace RegisterLemmas

theorem clocked_snoc (b b' : Button) (log : List (Button × DateTime)) (t : DateTime) (d : String) :
    clocked b (log ++ [(b', t)]) d =
      clocked b log d ++ if b' = b ∧ t.ymdKey = d then [t.timeString] else [] := by
  unfold clocked
  rw [List.filter_append, List.map_append]
  by_cases h : b' = b ∧ t.ymdKey = d
  · rw [if_pos h, List.filter_cons_of_pos (by simpa using h)]
    rfl
  · rw [if_neg h, List.filter_cons_of_neg (by simpa using h)]
    rfl

theorem clocked_other {b b' : Button} {log : List (Button × DateTime)} {t : DateTime} {d : String}
    (h : ¬ (b' = b ∧ t.ymdKey = d)) : clocked b (log ++ [(b', t)]) d = clocked b log d := by
  rw [clocked_snoc, if_neg h, List.append_nil]

theorem clocked_same (b : Button) (log : List (Button × DateTime)) (t : DateTime) :
    clocked b (log ++ [(b, t)]) t.ymdKey = clocked b log t.ymdKey ++ [t.timeString] := by
  rw [clocked_snoc, if_pos ⟨rfl, rfl⟩]

theorem clocked_out_enter (log : List (Button × DateTime)) (t : DateTime) (d : String) :
    clocked .out (log ++ [(.enter, t)]) d = clocked .out log d :=
  clocked_other fun h => Button.noConfusion h.1

theorem clocked_enter_out (log : List (Button × DateTime)) (t : DateTime) (d : String) :
    clocked .enter (log ++ [(.out, t)]) d = clocked .enter log d :=
  clocked_other fun h => Button.noConfusion h.1

/-- A press does not take a clock-in back. -/
theorem clocked_append {b : Button} {log : List (Button × DateTime)} {d : String}
    (h : clocked b log d ≠ []) (log' : List (Button × DateTime)) : clocked b (log ++ log') d ≠ [] := by
  unfold clocked at h ⊢
  rw [List.filter_append, List.map_append]
  exact fun hnil => h (List.append_eq_nil_iff.mp hnil).1

theorem ymdKey_ne_empty (t : DateTime) : t.ymdKey ≠ "" := by
  refine append_ne_empty _ fun h => ?_
  have hlen := t.writes_nowday.length
  rw [h] at hlen
  cases hlen

/-- No press belongs to the key of a page that has not been built. -/
theorem clocked_empty (b : Button) (log : List (Button × DateTime)) : clocked b log "" = [] := by
  unfold clocked
  rw [List.map_eq_nil_iff, List.filter_eq_nil_iff]
  intro x _ h
  exact ymdKey_ne_empty x.2 (of_decide_eq_true h).2

theorem attended_other {b : Button} {log : List (Button × DateTime)} {t : DateTime} {d : String}
    (h : t.ymdKey ≠ d) : attended (log ++ [(b, t)]) d = attended log d := by
  unfold attended
  rw [clocked_other fun hd => h hd.2, clocked_other fun hd => h hd.2]

/-- A second clock-in does not change the entry of the day. -/
theorem attended_enter {log : List (Button × DateTime)} {t : DateTime} {d : String}
    (h : clocked .enter log d ≠ []) : attended (log ++ [(.enter, t)]) d = attended log d := by
  unfold attended
  rw [clocked_snoc .enter, clocked_out_enter, List.head?_append_of_ne_nil _ h]

/-- A first clock-in opens the day. -/
theorem attended_open {log : List (Button × DateTime)} {t : DateTime}
    (hin : clocked .enter log t.ymdKey = []) (hout : clocked .out log t.ymdKey = []) :
    attended (log ++ [(.enter, t)]) t.ymdKey = some (t.timeString, "") := by
  unfold attended
  rw [clocked_same, clocked_out_enter, hin, hout]
  rfl

/-- A clock-out closes it, again if need be. -/
theorem attended_out {log : List (Button × DateTime)} {t : DateTime} {first last : String}
    (h : attended log t.ymdKey = some (first, last)) :
    attended (log ++ [(.out, t)]) t.ymdKey = some (first, t.timeString) := by
  unfold attended at h ⊢
  obtain ⟨first', hfirst, heq⟩ := Option.map_eq_some_iff.mp h
  cases heq
  rw [clocked_same, clocked_enter_out, hfirst, List.getLast?_concat]
  rfl

end RegisterLemmas

open RegisterLemmas

/-! ## The write of a body -/

section Write

variable {T : Manageremps} {log : List (Button × DateTime)} {t : DateTime}

/-- 出勤 on a page that shows a day without a row. -/
theorem records_insert (hrec : Records T log) (hno : ¬ HasDay T t.ymdKey)
    (hinit : p.Initial) (htoday : p.ymdWork = t.ymdKey) :
    Records ((Op.insert (p.body .enter t).setdata).exec ra T) (log ++ [(.enter, t)]) := by
  have hin : clocked .enter log t.ymdKey = [] := not_not.mp fun h => hno (hrec.days _ h)
  have hid : (p.body .enter t).setdata.id = none := hinit.1
  have hday : (p.body .enter t).setdata.ymdWork = t.ymdKey := htoday
  refine ⟨oneRow_insert hid (fun x hx hd => hno ⟨x, hx, hd.trans hday⟩) hrec.oneRow, ?_, ?_, ?_⟩
  · intro r hr
    rcases (mem_insertManager hid).mp hr with rfl | hr
    · show attended _ p.ymdWork = some (t.timeString, p.nowWorkout)
      rw [htoday, attended_open hin (hrec.order _ hin), hinit.2.2.2.2]
    · rw [attended_other fun h => hno ⟨r, hr, h.symm⟩]
      exact hrec.times r hr
  · intro d hd
    by_cases h : t.ymdKey = d
    · rw [← h, ← hday]
      exact hasDay_enter hid
    · rw [clocked_other fun hc => h hc.2] at hd
      obtain ⟨x, hx, hxd⟩ := hrec.days d hd
      exact ⟨x, subset_insertManager hx, hxd⟩
  · intro d hd
    rw [clocked_out_enter]
    by_cases h : t.ymdKey = d
    · subst h
      exact hrec.order _ hin
    · rw [clocked_other fun hc => h hc.2] at hd
      exact hrec.order d hd

/-- 出勤 on a day with a row. The insert fails. -/
theorem records_enter_again (hrec : Records T log) (hday : HasDay T t.ymdKey) :
    Records T (log ++ [(.enter, t)]) := by
  have hin : ∀ r ∈ getManager T, clocked .enter log r.ymdWork ≠ [] := by
    intro r hr hnil
    have h := hrec.times r hr
    unfold attended at h
    rw [hnil] at h
    cases h
  refine ⟨hrec.oneRow, ?_, ?_, ?_⟩
  · intro r hr
    rw [attended_enter (hin r hr)]
    exact hrec.times r hr
  · intro d hd
    by_cases h : t.ymdKey = d
    · rw [← h]
      exact hday
    · rw [clocked_other fun hc => h hc.2] at hd
      exact hrec.days d hd
  · intro d hd
    rw [clocked_out_enter]
    refine hrec.order d (not_not.mp fun h => ?_)
    exact clocked_append h _ hd

/-- 退勤 on a page that shows the row of the day. -/
theorem records_update (hrec : Records T log) {y : FetchDatafromSQLite} (hy : y ∈ getManager T)
    (hyd : y.ymdWork = t.ymdKey) (hshow : p.Shows y) (htoday : p.ymdWork = t.ymdKey) :
    Records ((Op.update (p.body .out t).setdata).exec ra T) (log ++ [(.out, t)]) := by
  obtain ⟨k, -, hyk⟩ := id_of_mem hy
  have hid : (p.body .out t).setdata.id = some k := hshow.1.trans hyk
  have hday : (p.body .out t).setdata.ymdWork = t.ymdKey := htoday
  -- the rows of the day are the one row `y`, which is the row with the page's id
  have hone : ∀ x ∈ getManager T, x.ymdWork = t.ymdKey → x = y :=
    fun x hx hxd => hrec.oneRow x hx y hy (hxd.trans hyd.symm)
  have hkey : ∀ x ∈ getManager T, x.id = some k → x = y :=
    fun x hx hxk => eq_of_id_eq hx hy (hxk.trans hyk.symm)
  refine ⟨oneRow_update hid (fun x hx hd => ?_) hrec.oneRow, ?_, ?_, ?_⟩
  · rw [hone x hx (hd.trans hday), hyk]
  · intro r hr
    obtain ⟨a, ha, rfl⟩ := (mem_updateManager hid).mp hr
    split
    · next hak =>
      have hold := hrec.times y hy
      rw [hyd, ← hshow.2.2.2.1] at hold
      rw [hday, attended_out hold]
      rfl
    · next hak =>
      rw [attended_other fun h => hak (by rw [hone a ha h.symm, hyk])]
      exact hrec.times a ha
  · intro d hd
    rw [clocked_enter_out] at hd
    obtain ⟨x, hx, hxd⟩ := hrec.days d hd
    by_cases hxk : x.id = some k
    · refine ⟨_, (mem_updateManager hid).mpr ⟨x, hx, (if_pos hxk).symm⟩, ?_⟩
      rw [hday, ← hyd, ← hkey x hx hxk]
      exact hxd
    · exact ⟨x, (mem_updateManager hid).mpr ⟨x, hx, (if_neg hxk).symm⟩, hxd⟩
  · intro d hd
    rw [clocked_enter_out] at hd
    have hin : t.ymdKey ≠ d := by
      rintro rfl
      have hold := hrec.times y hy
      unfold attended at hold
      rw [hyd, hd] at hold
      cases hold
    rw [clocked_other fun hc => hin hc.2]
    exact hrec.order d hd

/-- The operation of a body on a page that agrees with the table. -/
theorem records_write {b : Button} (hrec : Records T log) (hag : Agree p T) (hk : Known T p.id)
    (htoday : p.ymdWork = t.ymdKey) (hin : b = .out → clocked .enter log t.ymdKey ≠ []) :
    Records ((b.op (p.body b t).setdata).exec ra T) (log ++ [(b, t)]) := by
  by_cases hday : HasDay T t.ymdKey
  · obtain ⟨y, hy, hyd⟩ := hday
    have hshow := hag.1 y hy (hyd.trans htoday.symm)
    cases b with
    | enter =>
      have hid : ¬ Button.Writes (p.body .enter t).setdata.id .enter := by
        obtain ⟨k, -, hyk⟩ := id_of_mem hy
        show ¬ p.id = none
        rw [hshow.1, hyk]
        exact Option.some_ne_none k
      rw [exec_of_not_writes hk hid]
      exact records_enter_again hrec ⟨y, hy, hyd⟩
    | out => exact records_update hrec hy hyd hshow htoday
  · cases b with
    | enter => exact records_insert hrec hday (hag.2 (htoday ▸ hday)) htoday
    | out => exact absurd (hrec.days _ (hin rfl)) hday

end Write

/-! ## The invariant -/

section Steps

open IdleLemmas InvariantLemmas

variable {log : List (Button × DateTime)} {due : Bool}

theorem bookInv_openPage (hi : BookInv ra ⟨s, log, due⟩) :
    BookInv ra ⟨{ s with pages := s.pages ++ [{}] }, log, due⟩ := by
  have hnew : ∀ p, (s.pages ++ [({} : Page)])[(s.pages ++ [({} : Page)]).length - 1]? = some p →
      p = {} := by
    intro p hp
    rw [List.length_append, List.length_singleton, Nat.add_sub_cancel,
      List.getElem?_concat_length] at hp
    exact (Option.some.inj hp).symm
  refine ⟨hi.records, hi.ops, hi.stored, hi.results, fun p hp _ => ?_, fun p hp hb => ?_⟩
  · rw [hnew p hp]
    exact ⟨rfl, rfl, rfl, rfl, rfl⟩
  · rw [hnew p hp] at hb
    cases hb

theorem bookInv_build {t : DateTime} (hp : s.pages[s.mounted]? = some p)
    (hday : p.ymdWork = "" ∨ p.ymdWork = t.ymdKey) (hi : BookInv ra ⟨s, log, due⟩) :
    BookInv ra ⟨{ s with
      pages := s.pages.set s.mounted (p.build t)
      ops := if p.net.gate then s.ops ++ [.read s.mounted] else s.ops }, log, false⟩ := by
  have hset : flush (Op.exec ra) s.db (if p.net.gate then s.ops ++ [.read s.mounted] else s.ops) =
      s.settled ra := by
    split
    · rw [flush_snoc]
      rfl
    · rfl
  have hpage : ∀ q, (s.pages.set s.mounted (p.build t))[s.mounted]? = some q → q = p.build t := by
    intro q hq
    rcases getElem?_set_cases hq with ⟨-, rfl⟩ | ⟨hne, -⟩
    · rfl
    · exact absurd rfl hne
  refine ⟨?_, fun op hop => ?_, hi.stored, hi.results, fun q hq hno => ?_, fun q hq hb _ => ?_⟩
  · simp only [State.settled, hset]
    exact hi.records
  · rcases mem_of_mem_ite_snoc hop with hop | ⟨-, rfl⟩
    · exact hi.ops op hop
    · trivial
  · -- the fields that `Initial` reads are those from before the build
    simp only [State.mounted, List.length_set] at hq
    obtain rfl := hpage q hq
    refine hi.initial p hp ?_
    rcases hday with hday | hday
    · rw [hday]
      exact clocked_empty _ _
    · rw [hday]
      exact hno
  · simp only [State.mounted, List.length_set] at hq
    obtain rfl := hpage q hq
    have hg : p.net.gate = true := by
      by_contra hg
      simp [Page.build, hg] at hb
    refine .issued s.ops ?_
    simp only [hg, if_true, State.mounted, List.length_set]

/-- A page that is rebuilt, with nothing on its way, agrees with the table. -/
theorem BookInv.agree (hi : BookInv ra w) (hp : w.state.pages[w.state.mounted]? = some p)
    (hshown : p.built.isSome = true) (hdue : w.due = false) (hops : w.state.ops = [])
    (hres : w.state.results = []) : Agree p w.state.db := by
  cases hi.synced p hp hshown hdue with
  | issued pre ho =>
    rw [hops] at ho
    exact absurd ho.symm (List.append_ne_nil_of_right_ne_nil pre (List.cons_ne_nil _ []))
  | executed pre _ hr =>
    rw [hres] at hr
    exact absurd hr.symm (List.append_ne_nil_of_right_ne_nil pre (List.cons_ne_nil _ []))
  | delivered _ _ ha => exact ha

theorem settled_of_ops_nil (ra : Rowid) (h : s.ops = []) : s.settled ra = s.db := by
  rw [State.settled, h]
  rfl

theorem carries_entered {b : Button} {t : DateTime} (htoday : p.ymdWork = t.ymdKey)
    (h : clocked .enter log t.ymdKey ≠ []) :
    (b.op (p.body b t).setdata).Carries (Entered log) := by
  have hentered : Entered log (p.body b t).setdata := by
    unfold Entered
    rw [Page.setdata_ymdWork, Page.body_ymdWork, htoday]
    exact h
  cases b with
  | enter => exact fun _ => hentered
  | out => exact fun _ => hentered

theorem bookInv_body {k i : Nat} {b : Button} {t : DateTime} (hk : Known (s.settled ra) p.id)
    (hp : s.pages[i]? = some p) (hc : Calm ⟨s, log, due⟩ i b p t) (hi : BookInv ra ⟨s, log, due⟩) :
    BookInv ra ⟨{ s with
      presses := s.presses.eraseIdx k
      pages := s.pages.set i (p.body b t)
      ops := s.ops ++ [b.op (p.body b t).setdata] }, log ++ [(b, t)], true⟩ := by
  have htoday : p.ymdWork = t.ymdKey := hc.today
  have hin : clocked .enter (log ++ [(b, t)]) t.ymdKey ≠ [] := by
    cases b with
    | enter =>
      rw [clocked_same]
      exact List.append_ne_nil_of_right_ne_nil _ (List.cons_ne_nil _ _)
    | out => exact clocked_append (hc.entered rfl) _
  refine ⟨?_, fun op hop => ?_, fun r hr => clocked_append (hi.stored r hr) _,
    fun x hx r hr => clocked_append (hi.results x hx r hr) _, fun q hq hno => ?_, nofun⟩
  · simp only [State.settled, flush_snoc]
    have hag : Agree p s.db :=
      hi.agree (hc.mounted ▸ hp) hc.shown hc.rebuilt hc.ops hc.results
    rw [← settled_of_ops_nil ra hc.ops] at hag
    exact records_write hi.records hag hk htoday hc.entered
  · have hnil : s.ops = [] := hc.ops
    simp only [hnil, List.nil_append, List.mem_singleton] at hop
    rw [hop]
    exact carries_entered htoday hin
  · -- the day of the mounted page has a clock-in now
    simp only [State.mounted, List.length_set] at hq
    rcases getElem?_set_cases hq with ⟨-, rfl⟩ | ⟨hne, -⟩
    · rw [Page.body_ymdWork, htoday] at hno
      exact absurd hno hin
    · exact absurd hc.mounted hne

theorem bookInv_exec {op : Op} {rest : List Op} (hids : IdsKnown s) (hops : s.ops = op :: rest)
    (hi : BookInv ra ⟨s, log, due⟩) :
    BookInv ra ⟨{ s with
      db := op.exec ra s.db, ops := rest, results := s.results ++ op.answer s.db }, log, due⟩ := by
  have hmem : op ∈ s.ops := by
    rw [hops]
    exact List.mem_cons_self
  have hset : flush (Op.exec ra) (op.exec ra s.db) rest = s.settled ra := by
    rw [State.settled, hops]
    rfl
  refine ⟨?_, fun o ho => hi.ops o (by simp only [hops]; exact .tail _ ho), ?_, fun x hx => ?_,
    hi.initial, fun p hp hb hdue => ?_⟩
  · simp only [State.settled, hset]
    exact hi.records
  · exact rows_exec (fun _ h => h) (hids.ops op hmem) (hi.ops op hmem) hi.stored
  · rcases List.mem_append.mp hx with hx | hx
    · exact hi.results x hx
    · rw [mem_answer hx]
      exact hi.stored
  · cases hi.synced p hp hb hdue with
    | issued pre ho =>
      cases pre with
      | nil =>
        obtain ⟨rfl, rfl⟩ : op = .read s.mounted ∧ rest = [] := by simpa [hops] using ho
        exact .executed s.results rfl rfl
      | cons first pre =>
        obtain ⟨-, rfl⟩ : op = first ∧ rest = pre ++ [.read s.mounted] := by simpa [hops] using ho
        exact .issued pre rfl
    | executed _ hnil _ =>
      rw [show s.ops = [] from hnil] at hops
      cases hops
    | delivered hnil _ _ =>
      rw [show s.ops = [] from hnil] at hops
      cases hops

theorem bookInv_deliver {i : Nat} {rows : List FetchDatafromSQLite}
    (hres : s.results[0]? = some (i, rows)) (hp : s.pages[i]? = some p)
    (hi : BookInv ra ⟨s, log, due⟩) :
    BookInv ra ⟨{ s with
      pages := s.pages.set i (p.onResults rows), results := s.results.eraseIdx 0 }, log, due⟩ := by
  have hentered : ∀ r ∈ rows, Entered log r := hi.results _ (List.mem_of_getElem? hres)
  -- the mounted page is the one it was, or the rows have just reached it
  have hpage : ∀ q, (s.pages.set i (p.onResults rows))[s.mounted]? = some q →
      s.pages[s.mounted]? = some q ∧ i ≠ s.mounted ∨ i = s.mounted ∧ q = p.onResults rows := by
    intro q hq
    rcases getElem?_set_cases hq with ⟨him, rfl⟩ | ⟨hne, hq⟩
    · exact .inr ⟨him, rfl⟩
    · exact .inl ⟨hq, hne⟩
  refine ⟨hi.records, hi.ops, hi.stored, fun x hx => hi.results x (List.mem_of_mem_eraseIdx hx),
    fun q hq hno => ?_, fun q hq hb hdue => ?_⟩
  · simp only [State.mounted, List.length_set] at hq
    rcases hpage q hq with ⟨hq, -⟩ | ⟨rfl, rfl⟩
    · exact hi.initial q hq hno
    · rw [Page.onResults_ymdWork] at hno
      rcases p.onResults_cases rows with ⟨r, hr, hday, -⟩ | ⟨-, he⟩
      · refine absurd ?_ (hentered r hr)
        rw [hday]
        exact hno
      · rw [he]
        exact hi.initial p hp hno
  · simp only [State.mounted, List.length_set] at hq
    obtain ⟨q₀, hq₀, hb₀⟩ : ∃ q₀, s.pages[s.mounted]? = some q₀ ∧ q₀.built.isSome = true := by
      rcases hpage q hq with ⟨hq, -⟩ | ⟨rfl, rfl⟩
      · exact ⟨q, hq, hb⟩
      · rw [Page.onResults_built] at hb
        exact ⟨p, hp, hb⟩
    cases hi.synced q₀ hq₀ hb₀ hdue with
    | issued pre ho =>
      refine .issued pre ?_
      simp only [State.mounted, List.length_set]
      exact ho
    | executed pre ho hlast =>
      simp only at hlast
      cases pre with
      | nil =>
        -- the newest read reaches the mounted page
        rw [hlast] at hres
        cases hres
        rcases hpage q hq with ⟨-, hne⟩ | ⟨-, rfl⟩
        · exact absurd rfl hne
        · refine .delivered ho (by simp only [hlast]; rfl) ?_
          have hrec : Records s.db log := settled_of_ops_nil ra ho ▸ hi.records
          refine agree_onResults hrec.oneRow fun hno => hi.initial p hp ?_
          exact not_not.mp fun h => hno (hrec.days _ h)
      | cons first pre =>
        refine .executed pre ho ?_
        simp only [State.mounted, List.length_set, hlast]
        rfl
    | delivered _ hnil _ =>
      rw [show s.results = [] from hnil] at hres
      cases hres

theorem bookInv_net {n : Net} (hp : s.pages[s.mounted]? = some p) (hi : BookInv ra ⟨s, log, due⟩) :
    BookInv ra ⟨{ s with pages := s.pages.set s.mounted { p with net := n } }, log, due⟩ := by
  have hpage : ∀ q, (s.pages.set s.mounted { p with net := n })[s.mounted]? = some q →
      q = { p with net := n } := by
    intro q hq
    rcases getElem?_set_cases hq with ⟨-, rfl⟩ | ⟨hne, -⟩
    · rfl
    · exact absurd rfl hne
  refine ⟨hi.records, hi.ops, hi.stored, hi.results, fun q hq hno => ?_, fun q hq hb hdue => ?_⟩
  · simp only [State.mounted, List.length_set] at hq
    obtain rfl := hpage q hq
    exact hi.initial p hp hno
  · simp only [State.mounted, List.length_set] at hq
    obtain rfl := hpage q hq
    cases hi.synced p hp hb hdue with
    | issued pre ho =>
      refine .issued pre ?_
      simp only [State.mounted, List.length_set]
      exact ho
    | executed pre ho hr =>
      refine .executed pre ho ?_
      simp only [State.mounted, List.length_set]
      exact hr
    | delivered ho hr ha => exact .delivered ho hr ha

theorem bookInv_presses (presses : List (Nat × Button)) (hi : BookInv ra ⟨s, log, due⟩) :
    BookInv ra ⟨{ s with presses := presses }, log, due⟩ := by
  refine ⟨hi.records, hi.ops, hi.stored, hi.results, hi.initial, fun p hp hb hdue => ?_⟩
  cases hi.synced p hp hb hdue with
  | issued pre ho => exact .issued pre ho
  | executed pre ho hr => exact .executed pre ho hr
  | delivered ho hr ha => exact .delivered ho hr ha

end Steps

/-- The run of the page itself. -/
theorem reachable_of_book {ok : Booked → Event → Prop} (h : Reach (book ra mode) ok {} w) :
    Reachable ra mode anyStep w.state := by
  have h0 : Reachable ra mode anyStep ({} : Booked).state := .start
  refine h.invariant (I := fun w => Reachable ra mode anyStep w.state) h0 ?_
  intro w e w' _ hr _ hs
  obtain ⟨s', hs', rfl⟩ := Option.map_eq_some_iff.mp hs
  exact hr.next trivial hs'

theorem bookInv_expire {k : Nat} {t : DateTime} (hr : Reachable ra mode anyStep w.state)
    (ho : Orderly mode w (.expire k t)) (hs : book ra mode w (.expire k t) = some w')
    (hi : BookInv ra w) : BookInv ra w' := by
  obtain ⟨s, log, due⟩ := w
  obtain ⟨s', hs', rfl⟩ := Option.map_eq_some_iff.mp hs
  simp only [step] at hs'
  split at hs'
  · cases hs'
  · next i b hk =>
    split at hs'
    · cases hs'
    · next p hp =>
      cases hs'
      have hpend : s.pending k = some (i, b, p) := pending_eq hk hp
      by_cases hrun : s.runs mode i = true
      · have hc : Calm ⟨s, log, due⟩ i b p t := ho _ hpend hrun
        have hiss : s.issues mode i b = true := by
          have him : i = s.mounted := hc.mounted
          simp [State.issues, him]
        simp only [booked, rebuildDue, hpend, hrun, hiss, if_true, Bool.or_true]
        exact bookInv_body (known_settled hr hp) hp hc hi
      · have hiss : ¬ s.issues mode i b = true := fun h => hrun (runs_of_issues h)
        simp only [booked, rebuildDue, hpend, hrun, hiss, Bool.or_false, Bool.false_eq_true, if_false,
          List.append_nil]
        exact bookInv_presses _ hi

theorem bookInv_build_step {t : DateTime} (ho : Orderly mode w (.build t))
    (hs : book ra mode w (.build t) = some w') (hi : BookInv ra w) : BookInv ra w' := by
  obtain ⟨s, log, due⟩ := w
  obtain ⟨s', hs', rfl⟩ := Option.map_eq_some_iff.mp hs
  simp only [step] at hs'
  split at hs'
  · cases hs'
  · next p hp =>
    cases hs'
    simp only [booked, rebuildDue, List.append_nil]
    exact bookInv_build hp (ho p hp) hi

theorem bookInv_step (hr : Reachable ra mode anyStep w.state) (ho : Orderly mode w e)
    (hs : book ra mode w e = some w') (hi : BookInv ra w) : BookInv ra w' := by
  by_cases hbody : ∃ k t, e = .expire k t
  · obtain ⟨k, t, rfl⟩ := hbody
    exact bookInv_expire hr ho hs hi
  by_cases hbuild : ∃ t, e = .build t
  · obtain ⟨t, rfl⟩ := hbuild
    exact bookInv_build_step ho hs hi
  -- the other steps leave the history and the mark
  obtain ⟨s, log, due⟩ := w
  obtain ⟨s', hs', rfl⟩ := Option.map_eq_some_iff.mp hs
  have hlog : booked mode s e = [] ∧ rebuildDue mode s due e = due := by
    cases e with
    | expire k t => exact absurd ⟨k, t, rfl⟩ hbody
    | build t => exact absurd ⟨t, rfl⟩ hbuild
    | openPage | press _ | exec | deliver _ | connectivity _ | wifi _ _ => exact ⟨rfl, rfl⟩
  simp only [hlog, List.append_nil]
  cases move_of_step hs' with
  | openPage => exact bookInv_openPage hi
  | build _ => exact absurd ⟨_, rfl⟩ hbuild
  | press _ _ _ => exact bookInv_presses _ hi
  | expire _ _ => exact absurd ⟨_, _, rfl⟩ hbody
  | exec hops => exact bookInv_exec (reachable_idsKnown hr) hops hi
  | deliver hres hp =>
    cases (show _ = 0 from ho)
    exact bookInv_deliver hres hp hi
  | net hp => exact bookInv_net hp hi

theorem bookInv_reachable (h : Reach (book ra mode) (Orderly mode) {} w) : BookInv ra w := by
  refine h.invariant ?_ fun hr hi ho hs => bookInv_step (reachable_of_book hr) ho hs hi
  refine ⟨⟨fun _ hr => absurd hr List.not_mem_nil, fun _ hr => absurd hr List.not_mem_nil,
      fun _ hd => absurd rfl hd, fun _ _ => rfl⟩,
    fun _ h => absurd h List.not_mem_nil, fun _ h => absurd h List.not_mem_nil,
    fun _ h => absurd h List.not_mem_nil, fun _ hp => (nomatch hp), fun _ hp => (nomatch hp)⟩

/-! ## Results -/

/-- What the history says of a day is what the rows of the day say. -/
theorem Records.attended_iff {T : Manageremps} {log : List (Button × DateTime)} (h : Records T log)
    (d enter out : String) :
    attended log d = some (enter, out) ↔
      ∃ r ∈ getManager T, r.ymdWork = d ∧ r.nowWorkenter = enter ∧ r.nowWorkout = out := by
  constructor
  · intro ha
    have hin : clocked .enter log d ≠ [] := by
      intro hnil
      unfold attended at ha
      rw [hnil] at ha
      cases ha
    obtain ⟨r, hr, rfl⟩ := h.days d hin
    have hrow := (h.times r hr).symm.trans ha
    cases hrow
    exact ⟨r, hr, rfl, rfl, rfl⟩
  · rintro ⟨r, hr, rfl, rfl, rfl⟩
    exact h.times r hr

/-- In every run whose steps meet `Orderly`, once the issued operations have been executed the
table holds one row for each day with a clock-in and no other row, with the time of the first
clock-in and of the last clock-out of the day. A page that has been rebuilt and is idle shows
the entry of its day. -/
theorem table_is_register (h : Reach (book ra mode) (Orderly mode) {} w) :
    OneRowPerDay (w.state.settled ra) ∧
    (∀ d enter out, attended w.log d = some (enter, out) ↔
      ∃ r ∈ getManager (w.state.settled ra),
        r.ymdWork = d ∧ r.nowWorkenter = enter ∧ r.nowWorkout = out) ∧
    ∀ p, Idle w.state p → w.due = false →
      (p.nowWorkenter, p.nowWorkout) = (attended w.log p.ymdWork).getD ("", "") := by
  have hi := bookInv_reachable h
  refine ⟨hi.records.oneRow, hi.records.attended_iff, fun p hidle hdue => ?_⟩
  have hrec : Records w.state.db w.log := by
    rw [← settled_of_ops_nil ra hidle.ops]
    exact hi.records
  have hag : Agree p w.state.db := hi.agree hidle.page hidle.read hdue hidle.ops hidle.results
  by_cases hday : HasDay w.state.db p.ymdWork
  · obtain ⟨r, hr, hrd⟩ := hday
    obtain ⟨-, -, -, henter, hout⟩ := hag.1 r hr hrd
    rw [← hrd, hrec.times r hr, henter, hout]
    rfl
  · obtain ⟨-, -, -, henter, hout⟩ := hag.2 hday
    have hnone : clocked .enter w.log p.ymdWork = [] := not_not.mp fun h => hday (hrec.days _ h)
    unfold attended
    rw [hnone, henter, hout]
    rfl

/-- `regularDay`, and 出勤 on the next day on a page opened for it. -/
def twoDays : List Event :=
  regularDay ++ [.openPage, .build nextMorning, .exec, .deliver 0,
    .press .enter, .expire 0 nextMorning, .build nextMorning, .exec, .exec, .deliver 0]

theorem table_is_register_twoDays :
    ∃ w, Reach (book .succMax .debug) (Orderly .debug) {} w ∧
      attended w.log "20191227" = some ("09時00分", "18時30分") ∧
      attended w.log "20191228" = some ("09時00分", "") ∧
      (∃ r ∈ getManager (w.state.settled .succMax),
        r.ymdWork = "20191227" ∧ r.nowWorkenter = "09時00分" ∧ r.nowWorkout = "18時30分") ∧
      OneRowPerDay (w.state.settled .succMax) := by
  obtain ⟨w, hw, hfirst, hsecond⟩ := exists_reach_of_run (book .succMax .debug) (Orderly .debug) {}
    twoDays (p := fun w => attended w.log "20191227" = some ("09時00分", "18時30分") ∧
      attended w.log "20191228" = some ("09時00分", "")) (by decide)
  obtain ⟨hone, hrows, -⟩ := table_is_register hw
  exact ⟨w, hw, hfirst, hsecond, (hrows _ _ _).mp hfirst, hone⟩

end ShainManager
