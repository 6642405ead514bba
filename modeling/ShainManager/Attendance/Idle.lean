import ShainManager.Attendance.OneRow

/-!
# The page and the table when nothing is pending

When no press, operation or result is pending, the fields of the page should be
those of the row of the built day, or the initial ones. The read callback only
ever repairs the page from a row: on a day without a row the page keeps what it
held before.

* `idle_page_stale_next_day`: a page left open over midnight keeps the id, the
  flags and the times of the day before.
* `idle_page_agrees`: in a run whose steps meet `InStep`, the page agrees with
  the table whenever it is idle.

The invariant is `SyncInv`. On a day without a row the page is initial; and
either the newest thing on its way is a read that will see the final table, or
nothing is on its way and the page agrees with the table. An update that is
executed before the rebuild leaves the row as the page shows it, so it needs no
read; an insert does, as the page does not know the key of its row.
-/

namespace ShainManager

open Machine Deferred

variable {ra : Rowid} {mode : Mode} {s s' : State} {e : Event} {p : Page}

/-! ## Agreement -/

/-- The fields as they are in a new State object. -/
def Page.Initial (p : Page) : Prop :=
  p.id = none ∧ p.enterbutton = false ∧ p.outbutton = false ∧ p.nowWorkenter = "" ∧ p.nowWorkout = ""

/-- The fields are those of the record. -/
def Page.Shows (p : Page) (r : FetchDatafromSQLite) : Prop :=
  p.id = r.id ∧ p.enterbutton = r.enterbutton ∧ p.outbutton = r.outbutton ∧
    p.nowWorkenter = r.nowWorkenter ∧ p.nowWorkout = r.nowWorkout

/-- A row of the day `d` exists. -/
def HasDay (t : Manageremps) (d : String) : Prop := ∃ r ∈ getManager t, r.ymdWork = d

/-- The page shows the row of its day, or the initial values when there is
none. -/
def Agree (p : Page) (t : Manageremps) : Prop :=
  (∀ r ∈ getManager t, r.ymdWork = p.ymdWork → p.Shows r) ∧ (¬ HasDay t p.ymdWork → p.Initial)

/-- No press delay, operation or result is pending, and the last build of the
mounted page `p` started a read, which has then been delivered. -/
structure Idle (s : State) (p : Page) : Prop where
  page : s.pages[s.mounted]? = some p
  presses : s.presses = []
  ops : s.ops = []
  results : s.results = []
  read : p.built.isSome = true

instance : Decidable p.Initial := inferInstanceAs (Decidable (_ ∧ _))

instance (r : FetchDatafromSQLite) : Decidable (p.Shows r) := inferInstanceAs (Decidable (_ ∧ _))

instance (t : Manageremps) (d : String) : Decidable (HasDay t d) :=
  inferInstanceAs (Decidable (∃ r ∈ getManager t, _))

instance (t : Manageremps) : Decidable (Agree p t) :=
  inferInstanceAs (Decidable ((∀ r ∈ getManager t, _) ∧ _))

/-! ## The condition on the steps -/

def Op.isRead : Op → Bool
  | .read _ => true
  | _ => false

/-- A body keeps to its own row, and 退勤 runs on a day that has a row. -/
def OnRowOfDay (ra : Rowid) (mode : Mode) (s : State) (i : Nat) (b : Button) (p : Page)
    (t : DateTime) : Prop :=
  OwnRow ra mode s i b p t ∧
    (s.issues mode i b = true → b = .out → HasDay (s.settled ra) p.ymdWork)

/-- * A build that shows the buttons finds an initial page, or a day with a row.
* A body meets `OnRowOfDay`.
* A write is not executed as the last operation of the queue while the buttons are
  shown: the rebuild that the body asked for has queued its read behind it. An
  update may be, if it writes a loaded row as the page shows it and no result waits.
* Results are delivered in the order of issue. -/
def InStep (ra : Rowid) (mode : Mode) (s : State) : Event → Prop
  | .build t => ∀ p ∈ s.pages[s.mounted]?, p.net.gate = true →
      p.Initial ∨ HasDay (s.settled ra) t.ymdKey
  | .expire k t => ∀ x ∈ s.pending k, OnRowOfDay ra mode s x.1 x.2.1 x.2.2 t
  | .exec => ∀ p ∈ s.pages[s.mounted]?, p.built.isSome = true → s.ops.length = 1 →
      ∀ op ∈ s.ops, op.isRead = true ∨
        op = .update p.setdata ∧ p.id ≠ none ∧ s.results = []
  | .deliver k => k = 0
  | _ => True

instance (ra : Rowid) (mode : Mode) (s : State) (i : Nat) (b : Button) (p : Page) (t : DateTime) :
    Decidable (OnRowOfDay ra mode s i b p t) :=
  inferInstanceAs (Decidable (_ ∧ _))

instance (ra : Rowid) (mode : Mode) (s : State) : ∀ e, Decidable (InStep ra mode s e)
  | .build _ => inferInstanceAs (Decidable (∀ p ∈ s.pages[s.mounted]?, _))
  | .expire k _ => inferInstanceAs (Decidable (∀ x ∈ s.pending k, _))
  | .exec => inferInstanceAs (Decidable (∀ p ∈ s.pages[s.mounted]?, _))
  | .deliver k => inferInstanceAs (Decidable (k = 0))
  | .openPage | .press _ | .connectivity _ | .wifi _ _ => .isTrue trivial

theorem InStep.atBody (h : InStep ra mode s e) : AtBody (OnRowOfDay ra mode) s e := by
  cases e with
  | expire k t => exact h
  | openPage | build _ | press _ | exec | deliver _ | connectivity _ | wifi _ _ => trivial

theorem InStep.ownRow (h : InStep ra mode s e) : AtBody (OwnRow ra mode) s e := by
  cases e with
  | expire k t => exact fun x hx => (h x hx).1
  | openPage | build _ | press _ | exec | deliver _ | connectivity _ | wifi _ _ => trivial

/-! ## Days are not lost -/

/-- Every day of `t` is a day of `t'`. -/
def DaysKept (t t' : Manageremps) : Prop := ∀ d, HasDay t d → HasDay t' d

section Write

variable {t : Manageremps} {b : Button} {r : FetchDatafromSQLite}

theorem daysKept_write (hk : Known t r.id)
    (hown : b.Writes r.id → ∀ x ∈ getManager t, x.ymdWork = r.ymdWork → x.id = r.id)
    (hday : b = .out → HasDay t r.ymdWork) : DaysKept t ((b.op r).exec ra t) := by
  rintro d ⟨x, hx, rfl⟩
  by_cases hw : b.Writes r.id
  · cases b with
    | enter => exact ⟨x, subset_insertManager hx, rfl⟩
    | out =>
      obtain ⟨k, hid⟩ := Option.ne_none_iff_exists'.mp hw
      by_cases hxk : x.id = some k
      · -- the rewritten row is the row of the record's own day
        obtain ⟨y, hy, hyd⟩ := hday rfl
        have hyx : y = x := eq_of_id_eq hy hx ((hown hw y hy hyd).trans (hid.trans hxk.symm))
        subst hyx
        exact ⟨r, (mem_updateManager hid).mpr ⟨y, hy, by rw [if_pos hxk]⟩, hyd.symm⟩
      · exact ⟨x, (mem_updateManager hid).mpr ⟨x, hx, by rw [if_neg hxk]⟩, rfl⟩
  · rw [exec_of_not_writes hk hw]
    exact ⟨x, hx, rfl⟩

theorem hasDay_enter (hid : r.id = none) : HasDay ((Op.insert r).exec ra t) r.ymdWork :=
  ⟨_, (mem_insertManager hid).mpr (.inl rfl), rfl⟩

end Write

/-- The table that a body will leave keeps the days of the settled table. -/
theorem daysKept_body (h : Reachable ra mode (InStep ra mode) s) {k i : Nat} {b : Button}
    {t : DateTime} (ho : InStep ra mode s (.expire k t)) (hk : s.presses[k]? = some (i, b))
    (hp : s.pages[i]? = some p) (hi : s.issues mode i b = true) :
    DaysKept (s.settled ra) ((b.op (p.body b t).setdata).exec ra (s.settled ra)) := by
  obtain ⟨hown, hday⟩ := ho.atBody.at hk hp
  refine daysKept_write (known_setdata h hp b t) ?_ ?_
  · simp only [Page.setdata_id, Page.body_id, Page.setdata_ymdWork, Page.body_ymdWork]
    exact hown hi
  · rw [Page.setdata_ymdWork, Page.body_ymdWork]
    exact hday hi

/-- A stored day stays on its way through the queue. -/
theorem daysKept_settled (h : Reachable ra mode (InStep ra mode) s) :
    DaysKept s.db (s.settled ra) := by
  refine along_flush (fun _ _ hd => hd) (fun h h' d hd => h' d (h d hd)) ?_
  exact along_reachable (fun _ _ hd => hd)
    (fun hr ho hk hp hi => daysKept_body hr ho hk hp hi) h

/-! ## The invariant -/

/-- The newest thing on its way is a write, which waits for its rebuild, or a read
of the mounted page behind all writes; or that read has been executed; or it has
been delivered and the page agrees with the table. -/
inductive Caught (s : State) (p : Page) : Prop
  | issued (pre : List Op) (op : Op) (ho : s.ops = pre ++ [op])
      (hr : op.isRead = true → op = .read s.mounted)
  | executed (pre : List (Nat × List FetchDatafromSQLite)) (ho : s.ops = [])
      (hr : s.results = pre ++ [(s.mounted, getManager s.db)])
  | delivered (ho : s.ops = []) (hr : s.results = []) (ha : Agree p s.db)

/-- `Caught` looks at the queue, the results, the table and the agreement only. -/
theorem Caught.congr {p' : Page} (h : Caught s p) (hops : s'.ops = s.ops)
    (hres : s'.results = s.results) (hdb : s'.db = s.db) (hm : s'.mounted = s.mounted)
    (ha : Agree p s.db → Agree p' s.db) : Caught s' p' := by
  cases h with
  | issued pre op ho hr => exact .issued pre op (hops.trans ho) (by rw [hm]; exact hr)
  | executed pre ho hr => exact .executed pre (hops.trans ho) (by rw [hres, hm, hdb]; exact hr)
  | delivered ho hr hag => exact .delivered (hops.trans ho) (hres.trans hr) (by rw [hdb]; exact ha hag)

structure SyncInv (ra : Rowid) (s : State) : Prop where
  days : ∀ x ∈ s.results, ∀ r ∈ x.2, HasDay (s.settled ra) r.ymdWork
  initial : ∀ p, s.pages[s.mounted]? = some p → p.built.isSome = true →
    ¬ HasDay (s.settled ra) p.ymdWork → p.Initial
  caught : ∀ p, s.pages[s.mounted]? = some p → p.built.isSome = true → Caught s p

namespace IdleLemmas

/-- A page of the list after one page has been written. -/
theorem getElem?_set_cases {l : List Page} {i m : Nat} {q p' : Page}
    (h : (l.set i q)[m]? = some p') : i = m ∧ p' = q ∨ i ≠ m ∧ l[m]? = some p' := by
  by_cases him : i = m
  · subst him
    rcases Nat.lt_or_ge i l.length with hlt | hge
    · rw [List.getElem?_set_self hlt] at h
      exact .inl ⟨rfl, (Option.some.inj h).symm⟩
    · rw [List.getElem?_eq_none (by rw [List.length_set]; exact hge)] at h
      cases h
  · rw [List.getElem?_set_ne him] at h
    exact .inr ⟨him, h⟩

/-- A page that has just received the rows of the table agrees with it. -/
theorem agree_onResults {t : Manageremps} (hone : OneRowPerDay t)
    (hinit : ¬ HasDay t p.ymdWork → p.Initial) : Agree (p.onResults (getManager t)) t := by
  rcases p.onResults_cases (getManager t) with ⟨r, hr, hday, he⟩ | ⟨hno, he⟩
  · rw [he]
    refine ⟨fun x hx hxd => ?_, fun hno => absurd ⟨r, hr, hday⟩ hno⟩
    rw [hone x hx r hr (hxd.trans hday.symm)]
    exact ⟨rfl, rfl, rfl, rfl, rfl⟩
  · rw [he]
    exact ⟨fun x hx hxd => absurd hxd (hno x hx), hinit⟩

/-- The row that an update of the page has written is the one that the page shows. -/
theorem agree_update (ra : Rowid) {t : Manageremps} (hk : Known t p.id) (hid : p.id ≠ none)
    (hone : OneRowPerDay ((Op.update p.setdata).exec ra t)) :
    Agree p ((Op.update p.setdata).exec ra t) := by
  obtain ⟨k, hpk⟩ := Option.ne_none_iff_exists'.mp hid
  obtain ⟨a, ha, hak⟩ := mem_ids.mp (hk k hpk)
  have hmem : p.setdata ∈ getManager ((Op.update p.setdata).exec ra t) :=
    (mem_updateManager (p.setdata_id.trans hpk)).mpr ⟨a, ha, by rw [if_pos hak]⟩
  refine ⟨fun x hx hxd => ?_, fun hno => absurd ⟨p.setdata, hmem, p.setdata_ymdWork⟩ hno⟩
  rw [hone x hx p.setdata hmem (hxd.trans p.setdata_ymdWork.symm)]
  exact ⟨rfl, rfl, rfl, rfl, rfl⟩

end IdleLemmas

open IdleLemmas

theorem syncInv_openPage (hi : SyncInv ra s) : SyncInv ra { s with pages := s.pages ++ [{}] } := by
  -- the new page has not been built
  have hnew : ∀ p, (s.pages ++ [({} : Page)])[s.pages.length + 1 - 1]? = some p →
      p.built.isSome = true → False := by
    intro p hp hb
    rw [Nat.add_sub_cancel, List.getElem?_concat_length] at hp
    cases hp
    cases hb
  refine ⟨hi.days, fun p hp hb => ?_, fun p hp hb => ?_⟩
  · simp only [State.mounted, List.length_append, List.length_singleton] at hp
    exact (hnew p hp hb).elim
  · simp only [State.mounted, List.length_append, List.length_singleton] at hp
    exact (hnew p hp hb).elim

theorem syncInv_build {t : DateTime} {q : Page} (hq : s.pages[s.mounted]? = some q)
    (ho : InStep ra mode s (.build t)) (hi : SyncInv ra s) :
    SyncInv ra { s with
      pages := s.pages.set s.mounted (q.build t)
      ops := if q.net.gate then s.ops ++ [.read s.mounted] else s.ops } := by
  have hset : flush (Op.exec ra) s.db (if q.net.gate then s.ops ++ [.read s.mounted] else s.ops) =
      s.settled ra := by
    split
    · rw [flush_snoc]
      rfl
    · rfl
  have hpage : ∀ p, (s.pages.set s.mounted (q.build t))[s.mounted]? = some p →
      p.built.isSome = true → p = q.build t ∧ q.net.gate = true := by
    intro p hp hb
    rcases getElem?_set_cases hp with ⟨_, rfl⟩ | ⟨hne, _⟩
    · refine ⟨rfl, ?_⟩
      by_contra hg
      simp [Page.build, hg] at hb
    · exact absurd rfl hne
  refine ⟨fun x hx r hr => ?_, fun p hp hb hno => ?_, fun p hp hb => ?_⟩
  · simp only [State.settled, hset]
    exact hi.days x hx r hr
  · simp only [State.mounted, List.length_set] at hp
    obtain ⟨rfl, hg⟩ := hpage p hp hb
    simp only [State.settled, hset] at hno
    rcases ho q hq hg with hinit | hday
    · exact hinit
    · exact absurd hday hno
  · simp only [State.mounted, List.length_set] at hp
    obtain ⟨_, hg⟩ := hpage p hp hb
    refine .issued s.ops (.read s.mounted) (by simp only [hg, if_true]) ?_
    intro _
    simp only [State.mounted, List.length_set]

theorem syncInv_expire {k i : Nat} {b : Button} {t : DateTime} {q : Page}
    (hr : Reachable ra mode (InStep ra mode) s) (hk : s.presses[k]? = some (i, b))
    (hq : s.pages[i]? = some q) (ho : InStep ra mode s (.expire k t)) (hi : SyncInv ra s) :
    SyncInv ra { s with
      presses := s.presses.eraseIdx k
      pages := if s.runs mode i then s.pages.set i (q.body b t) else s.pages
      ops := if s.issues mode i b then s.ops ++ [b.op (q.body b t).setdata] else s.ops } := by
  have hlen : (if s.runs mode i then s.pages.set i (q.body b t) else s.pages).length =
      s.pages.length := by
    split
    · exact List.length_set
    · rfl
  have hkept : DaysKept (s.settled ra) (flush (Op.exec ra) s.db
      (if s.issues mode i b then s.ops ++ [b.op (q.body b t).setdata] else s.ops)) := by
    split
    · next hiss =>
      rw [flush_snoc]
      exact daysKept_body hr ho hk hq hiss
    · exact fun _ hd => hd
  -- the mounted page is the one it was, or the body has just run on it
  have hpage : ∀ p, (if s.runs mode i then s.pages.set i (q.body b t) else s.pages)[s.mounted]? =
      some p → s.pages[s.mounted]? = some p ∨ i = s.mounted ∧ p = q.body b t := by
    intro p hp
    split at hp
    · rcases getElem?_set_cases hp with ⟨him, rfl⟩ | ⟨_, hp⟩
      · exact .inr ⟨him, rfl⟩
      · exact .inl hp
    · exact .inl hp
  refine ⟨fun x hx r hr' => hkept _ (hi.days x hx r hr'), fun p hp hb hno => ?_, fun p hp hb => ?_⟩
  · simp only [State.mounted, hlen] at hp
    rcases hpage p hp with hp | ⟨rfl, rfl⟩
    · exact hi.initial p hp hb fun hd => hno (hkept _ hd)
    · -- the body leaves a row of the page's day
      refine absurd ?_ hno
      have hiss : s.issues mode s.mounted b = true := by simp [State.issues]
      simp only [State.settled, hiss, if_true, flush_snoc, Page.body_ymdWork]
      have hkept' := daysKept_body hr ho hk hq hiss
      have hbuilt : q.built.isSome = true := by rwa [Page.body_built] at hb
      cases b with
      | enter =>
        by_cases hid : q.id = none
        · exact hasDay_enter (r := (q.body .enter t).setdata) hid
        · refine hkept' _ (not_not.mp fun hd => hid ?_)
          exact (hi.initial q hq hbuilt hd).1
      | out => exact hkept' _ ((ho.atBody.at hk hq).2 hiss rfl)
  · simp only [State.mounted, hlen] at hp
    by_cases hiss : s.issues mode i b = true
    · refine .issued s.ops (b.op (q.body b t).setdata)
        (by simp only [hiss, if_true]) fun hread => ?_
      cases b with
      | enter => cases hread
      | out => cases hread
    · rcases hpage p hp with hp | ⟨rfl, _⟩
      · refine (hi.caught p hp hb).congr ?_ rfl rfl ?_ id
        · simp only [hiss]
          rfl
        · simp only [State.mounted, hlen]
      · exact absurd (by simp [State.issues]) hiss

theorem syncInv_exec {op : Op} {rest : List Op} (hr : Reachable ra mode (InStep ra mode) s)
    (hops : s.ops = op :: rest) (ho : InStep ra mode s .exec) (hi : SyncInv ra s) :
    SyncInv ra { s with
      db := op.exec ra s.db, ops := rest, results := s.results ++ op.answer s.db } := by
  have hset : flush (Op.exec ra) (op.exec ra s.db) rest = s.settled ra := by
    rw [State.settled, hops]
    rfl
  refine ⟨fun x hx r hr' => ?_, fun p hp hb hno => ?_, fun p hp hb => ?_⟩
  · simp only [State.settled, hset]
    rcases List.mem_append.mp hx with hx | hx
    · exact hi.days x hx r hr'
    · rw [InvariantLemmas.mem_answer hx] at hr'
      exact daysKept_settled hr _ ⟨r, hr', rfl⟩
  · simp only [State.settled, hset] at hno
    exact hi.initial p hp hb hno
  · cases hi.caught p hp hb with
    | issued pre last hlast hread =>
      cases pre with
      | nil =>
        -- the last operation of the queue is executed
        obtain ⟨rfl, rfl⟩ : op = last ∧ rest = [] := by simpa [hops] using hlast
        rcases ho p hp hb (by rw [hops]; rfl) op (by rw [hops]; exact List.mem_cons_self) with
          hisRead | ⟨rfl, hid, hres⟩
        · have hop : op = .read s.mounted := hread hisRead
          subst hop
          exact .executed s.results rfl rfl
        · have hone := (oneRow_of_ownRow (fun _ _ h => InStep.ownRow h) hr).2
          rw [← hset] at hone
          have hknown := (reachable_idsKnown hr).pages p (List.mem_of_getElem? hp)
          exact .delivered rfl (by rw [hres]; rfl) (agree_update ra hknown hid hone)
      | cons first pre =>
        obtain ⟨rfl, rfl⟩ : op = first ∧ rest = pre ++ [last] := by simpa [hops] using hlast
        exact .issued pre last rfl hread
    | executed _ hnil _ => rw [hops] at hnil; cases hnil
    | delivered hnil _ _ => rw [hops] at hnil; cases hnil

theorem syncInv_deliver {i : Nat} {rows : List FetchDatafromSQLite} {q : Page}
    (hr : Reachable ra mode (InStep ra mode) s) (hres : s.results[0]? = some (i, rows))
    (hq : s.pages[i]? = some q) (hi : SyncInv ra s) :
    SyncInv ra { s with
      pages := s.pages.set i (q.onResults rows), results := s.results.eraseIdx 0 } := by
  have hhead : s.results = (i, rows) :: s.results.eraseIdx 0 := by
    cases hs : s.results with
    | nil => rw [hs] at hres; cases hres
    | cons x l =>
      rw [hs] at hres
      cases hres
      rfl
  -- the mounted page is the one it was, or the rows have just reached it
  have hpage : ∀ p, (s.pages.set i (q.onResults rows))[s.mounted]? = some p →
      s.pages[s.mounted]? = some p ∧ i ≠ s.mounted ∨ i = s.mounted ∧ p = q.onResults rows := by
    intro p hp
    rcases getElem?_set_cases hp with ⟨him, rfl⟩ | ⟨hne, hp⟩
    · exact .inr ⟨him, rfl⟩
    · exact .inl ⟨hp, hne⟩
  have hdays : ∀ r ∈ rows, HasDay (s.settled ra) r.ymdWork :=
    hi.days (i, rows) (by rw [hhead]; exact List.mem_cons_self)
  refine ⟨fun x hx => hi.days x (List.mem_of_mem_eraseIdx hx), fun p hp hb hno => ?_,
    fun p hp hb => ?_⟩
  · simp only [State.mounted, List.length_set] at hp
    rcases hpage p hp with ⟨hp, _⟩ | ⟨rfl, rfl⟩
    · exact hi.initial p hp hb hno
    · rw [Page.onResults_built] at hb
      rcases q.onResults_cases rows with ⟨r, hmem, hday, he⟩ | ⟨_, he⟩
      · rw [he] at hno
        have hd := hdays r hmem
        rw [hday] at hd
        exact absurd hd hno
      · rw [he] at hno ⊢
        exact hi.initial q hq hb hno
  · simp only [State.mounted, List.length_set] at hp
    have hold : ∃ p₀, s.pages[s.mounted]? = some p₀ ∧ p₀.built.isSome = true := by
      rcases hpage p hp with ⟨hp, _⟩ | ⟨rfl, rfl⟩
      · exact ⟨p, hp, hb⟩
      · rw [Page.onResults_built] at hb
        exact ⟨q, hq, hb⟩
    obtain ⟨p₀, hp₀, hb₀⟩ := hold
    cases hi.caught p₀ hp₀ hb₀ with
    | issued pre last hops hread =>
      refine .issued pre last hops fun h => ?_
      simp only [State.mounted, List.length_set]
      exact hread h
    | executed pre hops hlast =>
      cases pre with
      | nil =>
        -- the newest read reaches the mounted page
        rw [hlast] at hres
        cases hres
        rcases hpage p hp with ⟨_, hne⟩ | ⟨_, rfl⟩
        · exact absurd rfl hne
        · refine .delivered hops (by simp only [hlast]; rfl) ?_
          have hset : s.settled ra = s.db := by rw [State.settled, hops]; rfl
          rw [Page.onResults_built] at hb
          have hone := (oneRow_of_ownRow (fun _ _ h => InStep.ownRow h) hr).1
          refine agree_onResults hone fun hno => hi.initial q hq hb ?_
          rw [hset]
          exact hno
      | cons first pre =>
        refine .executed pre hops ?_
        simp only [State.mounted, List.length_set, hlast]
        rfl
    | delivered _ hnil _ =>
      rw [hnil] at hres
      cases hres

theorem syncInv_net {q : Page} {n : Net} (hq : s.pages[s.mounted]? = some q) (hi : SyncInv ra s) :
    SyncInv ra { s with pages := s.pages.set s.mounted { q with net := n } } := by
  have hpage : ∀ p, (s.pages.set s.mounted { q with net := n })[s.mounted]? = some p →
      p = { q with net := n } := by
    intro p hp
    rcases getElem?_set_cases hp with ⟨_, rfl⟩ | ⟨hne, _⟩
    · rfl
    · exact absurd rfl hne
  refine ⟨hi.days, fun p hp hb hno => ?_, fun p hp hb => ?_⟩
  · simp only [State.mounted, List.length_set] at hp
    obtain rfl := hpage p hp
    exact hi.initial q hq hb hno
  · simp only [State.mounted, List.length_set] at hp
    obtain rfl := hpage p hp
    refine (hi.caught q hq hb).congr rfl rfl rfl ?_ id
    simp only [State.mounted, List.length_set]

theorem syncInv_reachable (h : Reachable ra mode (InStep ra mode) s) : SyncInv ra s := by
  refine Reach.invariant ?_ ?_ h
  · exact ⟨fun _ hx => absurd hx List.not_mem_nil, fun _ hp => (nomatch hp), fun _ hp => (nomatch hp)⟩
  · intro s e s' hr hi ho hs
    cases move_of_step hs with
    | openPage => exact syncInv_openPage hi
    | build hp => exact syncInv_build hp ho hi
    | press _ _ _ =>
      exact ⟨hi.days, hi.initial, fun p hp hb => (hi.caught p hp hb).congr rfl rfl rfl rfl id⟩
    | expire hk hp => exact syncInv_expire hr hk hp ho hi
    | exec hops => exact syncInv_exec hr hops ho hi
    | deliver hres hp =>
      cases (show _ = 0 from ho)
      exact syncInv_deliver hr hres hp hi
    | net hp => exact syncInv_net hp hi

/-! ## Results -/

/-- In every run whose steps meet `InStep`, the fields of an idle page are those
of the row of the built day, or the initial ones when the day has no row. -/
theorem idle_page_agrees (h : Reachable ra mode (InStep ra mode) s) (hidle : Idle s p) :
    Agree p s.db := by
  cases (syncInv_reachable h).caught p hidle.page hidle.read with
  | issued pre op ho _ =>
    rw [hidle.ops] at ho
    exact absurd ho.symm (List.append_ne_nil_of_right_ne_nil pre (List.cons_ne_nil op []))
  | executed pre _ hr =>
    rw [hidle.results] at hr
    exact absurd hr.symm (List.append_ne_nil_of_right_ne_nil pre (List.cons_ne_nil _ []))
  | delivered _ _ ha => exact ha

instance (s : State) (p : Page) : Decidable (Idle s p) :=
  decidable_of_iff (s.pages[s.mounted]? = some p ∧ s.presses = [] ∧ s.ops = [] ∧ s.results = [] ∧
      p.built.isSome = true)
    ⟨fun ⟨h1, h2, h3, h4, h5⟩ => ⟨h1, h2, h3, h4, h5⟩,
      fun h => ⟨h.page, h.presses, h.ops, h.results, h.read⟩⟩

theorem idle_page_agrees_regular :
    ∃ s p, Reachable .succMax .debug (InStep .succMax .debug) s ∧ Idle s p ∧
      p.nowWorkout = "18時30分" ∧ Agree p s.db := by
  obtain ⟨s, hs, p, _, hidle, hout⟩ := exists_reach_of_run (step .succMax .debug)
    (InStep .succMax .debug) .init regularDay
    (p := fun s => ∃ p ∈ s.pages[s.mounted]?, Idle s p ∧ p.nowWorkout = "18時30分")
    (by decide)
  exact ⟨s, p, hs, hidle, hout, idle_page_agrees hs hidle⟩

/-- A page left open over midnight: the build of the next day reads a table
without a row for it, and the page keeps the id, the flag and the time of the day
before, so 出勤 stays disabled. -/
theorem idle_page_stale_next_day :
    ¬ ∀ s p, Reachable .succMax .debug anyStep s → Idle s p → Agree p s.db := by
  intro h
  obtain ⟨s, hs, p, _, hidle, hno⟩ := exists_reach_of_run (step .succMax .debug) anyStep .init
    (regularDay ++ [.build nextMorning, .exec, .deliver 0])
    (p := fun s => ∃ p ∈ s.pages[s.mounted]?, Idle s p ∧ ¬ Agree p s.db) (by decide)
  exact hno (h s p hs hidle)

end ShainManager
