import ShainManager.Attendance.Machine

/-!
# Invariants of every run of the attendance page

* `reachable_idsKnown`: an id held by a page, an issued operation or a pending
  result is the key of a stored row. So an insert with an id always fails and an
  update with an id always matches.
* `Carried`: a property of pages and records that survives the round trip page,
  record, row, result, page. One instance for each law about single records.
* `along_reachable`: a relation between tables that every issued write respects
  on the settled table holds for every operation of the queue.
-/

namespace ShainManager

open Machine Deferred

variable {ra : Rowid} {mode : Mode} {ok : State → Event → Prop} {s s' : State} {e : Event}

/-! ## Ids -/

/-- An id that is null or the key of a row. -/
def Known (t : Manageremps) (o : Option Int) : Prop := ∀ k, o = some k → k ∈ t.ids

def Op.id : Op → Option Int
  | .insert r => r.id
  | .update r => r.id
  | .read _ => none

structure IdsKnown (s : State) : Prop where
  pages : ∀ p ∈ s.pages, Known s.db p.id
  ops : ∀ op ∈ s.ops, Known s.db op.id
  results : ∀ x ∈ s.results, ∀ r ∈ x.2, Known s.db r.id

/-- No operation removes a key. -/
theorem ids_exec {t : Manageremps} {k : Int} (op : Op) (h : k ∈ t.ids) : k ∈ (op.exec ra t).ids := by
  cases op with
  | insert r =>
    obtain ⟨x, hx, hid⟩ := mem_ids.mp h
    exact mem_ids.mpr ⟨x, subset_insertManager hx, hid⟩
  | update r =>
    show k ∈ (updateManager t r).2.ids
    rw [ids_updateManager]
    exact h
  | read _ => exact h

theorem Known.exec {t : Manageremps} {o : Option Int} (op : Op) (h : Known t o) :
    Known (op.exec ra t) o :=
  fun k hk => ids_exec op (h k hk)

theorem Known.flush {t : Manageremps} {o : Option Int} (ops : List Op) (h : Known t o) :
    Known (flush (Op.exec ra) t ops) o := by
  induction ops generalizing t with
  | nil => exact h
  | cons op rest ih => exact ih (h.exec op)

theorem known_of_mem {t : Manageremps} {r : FetchDatafromSQLite} (h : r ∈ getManager t) :
    Known t r.id := by
  obtain ⟨k, hk, hid⟩ := id_of_mem h
  intro k' hk'
  rw [hid] at hk'
  cases hk'
  exact hk

namespace InvariantLemmas

theorem mem_of_mem_ite_set {l : List Page} {c : Bool} {i : Nat} {p q : Page}
    (h : q ∈ if c then l.set i p else l) : q ∈ l ∨ c = true ∧ q = p := by
  split at h
  · next hc => exact (List.mem_or_eq_of_mem_set h).imp_right fun he => ⟨hc, he⟩
  · exact .inl h

theorem mem_of_mem_ite_snoc {l : List Op} {c : Bool} {o o' : Op}
    (h : o' ∈ if c then l ++ [o] else l) : o' ∈ l ∨ c = true ∧ o' = o := by
  split at h
  · next hc => exact (List.mem_append.mp h).imp_right fun ho => ⟨hc, List.mem_singleton.mp ho⟩
  · exact .inl h

theorem op_id (b : Button) (r : FetchDatafromSQLite) : (b.op r).id = r.id := by
  cases b <;> rfl

theorem onResults_known {t : Manageremps} {p : Page} {rows : List FetchDatafromSQLite}
    (hp : Known t p.id) (hr : ∀ r ∈ rows, Known t r.id) : Known t (p.onResults rows).id := by
  rcases p.onResults_cases rows with ⟨r, hmem, _, he⟩ | ⟨_, he⟩
  · rw [he]
    exact hr r hmem
  · rw [he]
    exact hp

theorem mem_answer {op : Op} {t : Manageremps} {x : Nat × List FetchDatafromSQLite}
    (h : x ∈ op.answer t) : x.2 = getManager t := by
  cases op with
  | insert _ => exact absurd h List.not_mem_nil
  | update _ => exact absurd h List.not_mem_nil
  | read i =>
    rw [List.mem_singleton.mp h]

end InvariantLemmas

open InvariantLemmas

theorem idsKnown_move (h : Move ra mode s e s') (hi : IdsKnown s) : IdsKnown s' := by
  cases h with
  | openPage =>
    refine ⟨fun p hp => ?_, hi.ops, hi.results⟩
    rcases List.mem_append.mp hp with hp | hp
    · exact hi.pages p hp
    · rw [List.mem_singleton.mp hp]
      exact fun k hk => nomatch hk
  | @build t p hp =>
    refine ⟨fun q hq => ?_, fun op ho => ?_, hi.results⟩
    · rcases List.mem_or_eq_of_mem_set hq with hq | rfl
      · exact hi.pages q hq
      · exact hi.pages p (List.mem_of_getElem? hp)
    · rcases mem_of_mem_ite_snoc ho with ho | ⟨_, rfl⟩
      · exact hi.ops op ho
      · exact fun k hk => nomatch hk
  | press _ _ _ => exact ⟨hi.pages, hi.ops, hi.results⟩
  | @expire k i t b p hk hp =>
    have hb : Known s.db (p.body b t).id := by
      rw [Page.body_id]
      exact hi.pages p (List.mem_of_getElem? hp)
    refine ⟨fun q hq => ?_, fun op ho => ?_, hi.results⟩
    · rcases mem_of_mem_ite_set hq with hq | ⟨_, rfl⟩
      · exact hi.pages q hq
      · exact hb
    · rcases mem_of_mem_ite_snoc ho with ho | ⟨_, rfl⟩
      · exact hi.ops op ho
      · rw [op_id]
        exact hb
  | @exec op rest ho =>
    refine ⟨fun p hp => (hi.pages p hp).exec op, fun o hor => ?_, fun x hx r hr => ?_⟩
    · exact (hi.ops o (by rw [ho]; exact .tail _ hor)).exec op
    · rcases List.mem_append.mp hx with hx | hx
      · exact (hi.results x hx r hr).exec op
      · rw [mem_answer hx] at hr
        exact (known_of_mem hr).exec op
  | @deliver k i rows p hr hp =>
    refine ⟨fun q hq => ?_, hi.ops, fun x hx => hi.results x (List.mem_of_mem_eraseIdx hx)⟩
    rcases List.mem_or_eq_of_mem_set hq with hq | rfl
    · exact hi.pages q hq
    · exact onResults_known (hi.pages p (List.mem_of_getElem? hp))
        (hi.results _ (List.mem_of_getElem? hr))
  | @net _ p n hp =>
    refine ⟨fun q hq => ?_, hi.ops, hi.results⟩
    rcases List.mem_or_eq_of_mem_set hq with hq | rfl
    · exact hi.pages q hq
    · exact hi.pages p (List.mem_of_getElem? hp)

theorem reachable_idsKnown (h : Reachable ra mode ok s) : IdsKnown s := by
  refine Reach.invariant ?_ (fun _ hi _ hs => idsKnown_move (move_of_step hs) hi) h
  exact ⟨fun _ h => absurd h List.not_mem_nil, fun _ h => absurd h List.not_mem_nil,
    fun _ h => absurd h List.not_mem_nil⟩

/-- A page's id is known to the settled table too. -/
theorem known_settled (h : Reachable ra mode ok s) {i : Nat} {p : Page} (hp : s.pages[i]? = some p) :
    Known (s.settled ra) p.id :=
  ((reachable_idsKnown h).pages p (List.mem_of_getElem? hp)).flush s.ops

/-- So is the id of the record that a body writes. -/
theorem known_setdata (h : Reachable ra mode ok s) {i : Nat} {p : Page}
    (hp : s.pages[i]? = some p) (b : Button) (t : DateTime) :
    Known (s.settled ra) (p.body b t).setdata.id := by
  rw [Page.setdata_id, Page.body_id]
  exact known_settled h hp

/-! ## Writes that reach a row -/

/-- Whether the operation of a button reaches a row when the page holds the id
`o`: an insert needs a null id, an update a known one. -/
def Button.Writes (o : Option Int) : Button → Prop
  | .enter => o = none
  | .out => o ≠ none

instance (o : Option Int) (b : Button) : Decidable (b.Writes o) := by
  cases b
  · exact inferInstanceAs (Decidable (o = none))
  · exact inferInstanceAs (Decidable (o ≠ none))

/-- Otherwise the operation changes nothing. -/
theorem exec_of_not_writes {t : Manageremps} {r : FetchDatafromSQLite} {b : Button}
    (hk : Known t r.id) (h : ¬ b.Writes r.id) : (b.op r).exec ra t = t := by
  cases b with
  | enter =>
    obtain ⟨k, hid⟩ := Option.ne_none_iff_exists'.mp h
    show (insertManager ra t r).2 = t
    rw [insertManager_dup hid (hk k hid)]
  | out =>
    show (updateManager t r).2 = t
    rw [updateManager_none (not_not.mp h)]

/-! ## Properties carried by records -/

/-- `W` holds of the record of an operation that reaches a row. -/
def Op.Carries (W : FetchDatafromSQLite → Prop) : Op → Prop
  | .insert r => r.id = none → W r
  | .update r => r.id ≠ none → W r
  | .read _ => True

/-- `Q` of pages and `W` of records survive what the page does, in the runs
whose steps meet `ok`. -/
structure Carried (mode : Mode) (ok : State → Event → Prop) (Q : Page → Prop)
    (W : FetchDatafromSQLite → Prop) : Prop where
  fresh : Q {}
  build : ∀ {p} t, Q p → Q (p.build t)
  net : ∀ {p : Page} n, Q p → Q { p with net := n }
  load : ∀ {p r}, Q p → W r → Q (p.load r)
  body : ∀ {s k i b p t}, ok s (.expire k t) → s.presses[k]? = some (i, b) →
    s.pages[i]? = some p → s.runs mode i = true → Q p → Q (p.body b t)
  write : ∀ {s k i b p t}, ok s (.expire k t) → s.presses[k]? = some (i, b) →
    s.pages[i]? = some p → s.issues mode i b = true → Q p → b.Writes p.id →
    W (p.body b t).setdata
  stored : ∀ {r} k, W r → W { r with id := some k }

structure CarriedInv (Q : Page → Prop) (W : FetchDatafromSQLite → Prop) (s : State) : Prop where
  pages : ∀ p ∈ s.pages, Q p
  ops : ∀ op ∈ s.ops, op.Carries W
  results : ∀ x ∈ s.results, ∀ r ∈ x.2, W r
  rows : ∀ r ∈ getManager s.db, W r

variable {Q : Page → Prop} {W : FetchDatafromSQLite → Prop}

theorem rows_exec (hW : ∀ {r} k, W r → W { r with id := some k }) {t : Manageremps} {op : Op}
    (hk : Known t op.id) (hop : op.Carries W) (h : ∀ r ∈ getManager t, W r) :
    ∀ r ∈ getManager (op.exec ra t), W r := by
  cases op with
  | insert r =>
    by_cases hid : r.id = none
    · intro x hx
      rcases (mem_insertManager hid).mp hx with rfl | hx
      · exact hW _ (hop hid)
      · exact h x hx
    · rw [show (Op.insert r).exec ra t = t from exec_of_not_writes (b := .enter) hk hid]
      exact h
  | update r =>
    cases hid : r.id with
    | none =>
      show ∀ x ∈ getManager (updateManager t r).2, W x
      rw [updateManager_none hid]
      exact h
    | some k =>
      intro x hx
      obtain ⟨a, ha, rfl⟩ := (mem_updateManager hid).mp hx
      split
      · exact hop (by rw [hid]; exact Option.some_ne_none k)
      · exact h a ha
  | read _ => exact h

theorem Carried.move (c : Carried mode ok Q W) (hi : IdsKnown s) (ho : ok s e) (h : Move ra mode s e s')
    (hc : CarriedInv Q W s) : CarriedInv Q W s' := by
  cases h with
  | openPage =>
    refine ⟨fun p hp => ?_, hc.ops, hc.results, hc.rows⟩
    rcases List.mem_append.mp hp with hp | hp
    · exact hc.pages p hp
    · rw [List.mem_singleton.mp hp]
      exact c.fresh
  | @build t p hp =>
    refine ⟨fun q hq => ?_, fun op hop => ?_, hc.results, hc.rows⟩
    · rcases List.mem_or_eq_of_mem_set hq with hq | rfl
      · exact hc.pages q hq
      · exact c.build t (hc.pages p (List.mem_of_getElem? hp))
    · rcases mem_of_mem_ite_snoc hop with hop | ⟨_, rfl⟩
      · exact hc.ops op hop
      · trivial
  | press _ _ _ => exact ⟨hc.pages, hc.ops, hc.results, hc.rows⟩
  | @expire k i t b p hk hp =>
    have hq := hc.pages p (List.mem_of_getElem? hp)
    refine ⟨fun q hq' => ?_, fun op hop => ?_, hc.results, hc.rows⟩
    · rcases mem_of_mem_ite_set hq' with hq' | ⟨hrun, rfl⟩
      · exact hc.pages q hq'
      · exact c.body ho hk hp hrun hq
    · rcases mem_of_mem_ite_snoc hop with hop | ⟨hiss, rfl⟩
      · exact hc.ops op hop
      · have hw := c.write (t := t) ho hk hp hiss hq
        cases b with
        | enter => exact hw
        | out => exact hw
  | @exec op rest hops =>
    have hmem : op ∈ s.ops := by rw [hops]; exact List.mem_cons_self
    refine ⟨hc.pages, fun o hor => hc.ops o (by rw [hops]; exact .tail _ hor), fun x hx => ?_,
      rows_exec c.stored (hi.ops op hmem) (hc.ops op hmem) hc.rows⟩
    rcases List.mem_append.mp hx with hx | hx
    · exact hc.results x hx
    · rw [mem_answer hx]
      exact hc.rows
  | @deliver k i rows p hr hp =>
    refine ⟨fun q hq => ?_, hc.ops, fun x hx => hc.results x (List.mem_of_mem_eraseIdx hx), hc.rows⟩
    rcases List.mem_or_eq_of_mem_set hq with hq | rfl
    · exact hc.pages q hq
    · have hq' := hc.pages p (List.mem_of_getElem? hp)
      rcases p.onResults_cases rows with ⟨r, hmem, _, he⟩ | ⟨_, he⟩
      · rw [he]
        exact c.load hq' (hc.results _ (List.mem_of_getElem? hr) r hmem)
      · rw [he]
        exact hq'
  | @net _ p n hp =>
    refine ⟨fun q hq => ?_, hc.ops, hc.results, hc.rows⟩
    rcases List.mem_or_eq_of_mem_set hq with hq | rfl
    · exact hc.pages q hq
    · exact c.net n (hc.pages p (List.mem_of_getElem? hp))

theorem Carried.reachable (c : Carried mode ok Q W) (h : Reachable ra mode ok s) : CarriedInv Q W s := by
  refine Reach.invariant ?_
    (fun hr hc ho hs => c.move (reachable_idsKnown hr) ho (move_of_step hs) hc) h
  exact ⟨fun _ h => absurd h List.not_mem_nil, fun _ h => absurd h List.not_mem_nil,
    fun _ h => absurd h List.not_mem_nil, fun _ h => absurd h List.not_mem_nil⟩

/-! ## Relations kept along the queue -/

/-- A reflexive relation between tables that holds for each write when it is
issued, on the settled table, holds for each operation of the queue. -/
theorem along_reachable {R : Manageremps → Manageremps → Prop} (hrefl : ∀ t, R t t)
    (hwrite : ∀ {s k i b p t}, Reachable ra mode ok s → ok s (.expire k t) →
      s.presses[k]? = some (i, b) → s.pages[i]? = some p → s.issues mode i b = true →
      R (s.settled ra) ((b.op (p.body b t).setdata).exec ra (s.settled ra)))
    (h : Reachable ra mode ok s) : Along (Op.exec ra) R s.db s.ops := by
  have h0 : Along (Op.exec ra) R State.init.db State.init.ops := trivial
  refine Reach.invariant (I := fun s => Along (Op.exec ra) R s.db s.ops) h0 ?_ h
  intro s e s' hr ha ho hs
  cases move_of_step hs with
  | openPage => exact ha
  | build hp =>
    show Along _ R s.db (if _ then _ else _)
    split
    · exact along_snoc.mpr ⟨ha, hrefl _⟩
    · exact ha
  | press _ _ _ => exact ha
  | expire hk hp =>
    show Along _ R s.db (if _ then _ else _)
    split
    · next hi => exact along_snoc.mpr ⟨ha, hwrite hr ho hk hp hi⟩
    · exact ha
  | exec hops =>
    rw [hops] at ha
    exact along_tail ha
  | deliver _ _ => exact ha
  | net _ => exact ha

/-- A property of tables that each write keeps when it is issued, on the settled
table, holds of the table in every reachable state and after every pending
operation. -/
theorem table_reachable {P : Manageremps → Prop} (h0 : P onCreate)
    (hwrite : ∀ {s k i b p t}, Reachable ra mode ok s → ok s (.expire k t) →
      s.presses[k]? = some (i, b) → s.pages[i]? = some p → s.issues mode i b = true →
      P (s.settled ra) → P ((b.op (p.body b t).setdata).exec ra (s.settled ra)))
    (h : Reachable ra mode ok s) : P s.db ∧ P (s.settled ra) := by
  have halong : ∀ {s}, Reachable ra mode ok s →
      Along (Op.exec ra) (fun t t' => P t → P t') s.db s.ops :=
    fun hr => along_reachable (fun _ h => h) hwrite hr
  have hdb : P s.db := by
    refine Reach.invariant (I := fun s => P s.db) h0 ?_ h
    intro s e s' hr hP _ hs
    cases move_of_step hs with
    | exec hops =>
      have ha := halong hr
      rw [hops] at ha
      exact along_head ha hP
    | openPage | build _ | press _ _ _ | expire _ _ | deliver _ _ | net _ => exact hP
  exact ⟨hdb, along_flush (fun _ h => h) (fun h h' hP => h' (h hP)) (halong h) hdb⟩

/-! ## Every row has a clock-in time -/

theorem carried_entered (mode : Mode) : Carried mode anyStep (fun p => p.id ≠ none → p.nowWorkenter ≠ "")
    (fun r => r.nowWorkenter ≠ "") where
  fresh := fun h => absurd rfl h
  build := fun _ h => h
  net := fun _ h => h
  load := fun _ hr _ => hr
  body := by
    intro s k i b p t _ _ _ _ h hid
    cases b with
    | enter => exact t.timeString_ne_empty
    | out => exact h hid
  write := by
    intro s k i b p t _ _ _ _ h hw
    cases b with
    | enter => exact t.timeString_ne_empty
    | out => exact h hw
  stored := fun _ h => h

end ShainManager
