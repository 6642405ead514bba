import ShainManager.Attendance.Invariants
import ShainManager.Submission

/-!
# The table that the attendance page leaves is a local table

A submission reads the table that the attendance page writes. Every row is written
by the body of a press, a press needs a build, and a build sets `ymdWork` to the key
of its instant, so every stored key is a day key as long as the clock shows a year
from 1000 on.

* `reachable_keysHold`: what holds of the key of every instant at which the page is built
  holds of every stored key.
* `reachable_dayKeys`: the stored keys are day keys.
* `State.localTable`: the table of a reachable state, as a submission takes it.
-/

namespace ShainManager

open Machine Deferred InvariantLemmas

variable {ra : Rowid} {mode : Mode} {s s' : State} {e : Event}

/-- The clock shows a year from 1000 on when the page is built. -/
def YearsFrom1000 (_ : State) : Event → Prop
  | .build t => 1000 ≤ t.year
  | _ => True

/-- The key of a page with buttons and of a page with a pending press has `K`, and so have
the keys of all records that are written. -/
structure KeysHold (K : String → Prop) (s : State) : Prop where
  pages : ∀ p ∈ s.pages, p.built ≠ none → K p.ymdWork
  presses : ∀ x ∈ s.presses, ∃ p, s.pages[x.1]? = some p ∧ K p.ymdWork
  ops : ∀ op ∈ s.ops, op.Carries fun r => K r.ymdWork
  rows : ∀ r ∈ getManager s.db, K r.ymdWork

variable {K : String → Prop}

namespace DayKeysLemmas

/-- The pending presses keep their key when one page is rewritten. -/
theorem presses_set {pages : List Page} {i : Nat} {p p' : Page} (hp : pages[i]? = some p)
    (hkey : K p.ymdWork → K p'.ymdWork) {x : Nat × Button}
    (h : ∃ q, pages[x.1]? = some q ∧ K q.ymdWork) :
    ∃ q, (pages.set i p')[x.1]? = some q ∧ K q.ymdWork := by
  obtain ⟨q, hq, hday⟩ := h
  by_cases hi : i = x.1
  · subst hi
    obtain rfl : p = q := Option.some.inj (hp.symm.trans hq)
    have hlt : x.1 < pages.length := (List.getElem?_eq_some_iff.mp hp).1
    exact ⟨p', List.getElem?_set_self hlt, hkey hday⟩
  · exact ⟨q, by rw [List.getElem?_set_ne hi]; exact hq, hday⟩

/-- A page that is rewritten without its key and buttons. -/
theorem setPage_keysHold {s : State} (hd : KeysHold K s) {i : Nat} {p : Page}
    (hp : s.pages[i]? = some p) (p' : Page) (hymd : p'.ymdWork = p.ymdWork) (hbuilt : p'.built = p.built) :
    (∀ q ∈ s.pages.set i p', q.built ≠ none → K q.ymdWork) ∧
      ∀ x ∈ s.presses, ∃ q, (s.pages.set i p')[x.1]? = some q ∧ K q.ymdWork := by
  constructor
  · intro q hq
    rcases List.mem_or_eq_of_mem_set hq with hq | rfl
    · exact hd.pages q hq
    · rw [hymd, hbuilt]
      exact hd.pages p (List.mem_of_getElem? hp)
  · intro x hx
    exact presses_set hp (fun h => by rw [hymd]; exact h) (hd.presses x hx)

theorem carries_op {b : Button} {r : FetchDatafromSQLite} (h : K r.ymdWork) :
    (b.op r).Carries fun r => K r.ymdWork := by
  cases b with
  | enter => exact fun _ => h
  | out => exact fun _ => h

end DayKeysLemmas

open DayKeysLemmas

theorem keysHold_move (hi : IdsKnown s) (ho : ∀ t, e = .build t → K t.ymdKey)
    (h : Move ra mode s e s') (hd : KeysHold K s) : KeysHold K s' := by
  cases h with
  | openPage =>
    refine ⟨fun p hp => ?_, fun x hx => ?_, hd.ops, hd.rows⟩
    · rcases List.mem_append.mp hp with hp | hp
      · exact hd.pages p hp
      · rw [List.mem_singleton.mp hp]
        exact fun hne => absurd rfl hne
    · obtain ⟨p, hp, hday⟩ := hd.presses x hx
      have hlt := (List.getElem?_eq_some_iff.mp hp).1
      exact ⟨p, (List.getElem?_append_left hlt).trans hp, hday⟩
  | @build t p hp =>
    have hday : K (p.build t).ymdWork := ho t rfl
    refine ⟨fun q hq => ?_, fun x hx => ?_, fun op hop => ?_, hd.rows⟩
    · rcases List.mem_or_eq_of_mem_set hq with hq | rfl
      · exact hd.pages q hq
      · exact fun _ => hday
    · exact presses_set hp (fun _ => hday) (hd.presses x hx)
    · rcases mem_of_mem_ite_snoc hop with hop | ⟨_, rfl⟩
      · exact hd.ops op hop
      · trivial
  | @press b p w hp hw _ =>
    refine ⟨hd.pages, fun x hx => ?_, hd.ops, hd.rows⟩
    rcases List.mem_append.mp hx with hx | hx
    · exact hd.presses x hx
    · rw [List.mem_singleton.mp hx]
      exact ⟨p, hp, hd.pages p (List.mem_of_getElem? hp) (by rw [hw]; exact Option.some_ne_none w)⟩
  | @expire k i t b p hk hp =>
    have hday : K p.ymdWork := by
      obtain ⟨q, hq, hday⟩ := hd.presses _ (List.mem_of_getElem? hk)
      obtain rfl : p = q := Option.some.inj (hp.symm.trans hq)
      exact hday
    obtain ⟨hpages, hpresses⟩ := setPage_keysHold hd hp _ (p.body_ymdWork b t) (p.body_built b t)
    refine ⟨?_, fun x hx => ?_, fun op hop => ?_, hd.rows⟩
    · dsimp only
      split
      · exact hpages
      · exact hd.pages
    · have hx := List.mem_of_mem_eraseIdx hx
      dsimp only
      split
      · exact hpresses x hx
      · exact hd.presses x hx
    · rcases mem_of_mem_ite_snoc hop with hop | ⟨_, rfl⟩
      · exact hd.ops op hop
      · refine carries_op ?_
        rw [Page.setdata_ymdWork, Page.body_ymdWork]
        exact hday
  | @exec op rest hops =>
    have hmem : op ∈ s.ops := by rw [hops]; exact List.mem_cons_self
    exact ⟨hd.pages, hd.presses, fun o hor => hd.ops o (by rw [hops]; exact .tail _ hor),
      rows_exec (fun _ h => h) (hi.ops op hmem) (hd.ops op hmem) hd.rows⟩
  | @deliver k i rows p hr hp =>
    obtain ⟨hpages, hpresses⟩ :=
      setPage_keysHold hd hp _ (p.onResults_ymdWork rows) (p.onResults_built rows)
    exact ⟨hpages, hpresses, hd.ops, hd.rows⟩
  | @net _ p n hp =>
    obtain ⟨hpages, hpresses⟩ := setPage_keysHold hd hp { p with net := n } rfl rfl
    exact ⟨hpages, hpresses, hd.ops, hd.rows⟩

theorem reachable_keysHold {ok : State → Event → Prop} (hok : ∀ s t, ok s (.build t) → K t.ymdKey)
    (h : Reachable ra mode ok s) : KeysHold K s := by
  refine Reach.invariant ?_ (fun {s e s'} hr hd ho hs =>
    keysHold_move (reachable_idsKnown hr) (fun t he => hok s t (he ▸ ho)) (move_of_step hs) hd) h
  exact ⟨fun _ h => absurd h List.not_mem_nil, fun _ h => absurd h List.not_mem_nil,
    fun _ h => absurd h List.not_mem_nil, fun _ h => absurd h List.not_mem_nil⟩

theorem reachable_dayKeys (h : Reachable ra mode YearsFrom1000 s) : KeysHold DayKey s :=
  reachable_keysHold (fun _ t ho => t.dayKey_ymdKey ho) h

/-- The table of the attendance page, as a submission takes it. -/
def State.localTable (s : State) (h : Reachable ra mode YearsFrom1000 s) : LocalTable :=
  ⟨s.db, (reachable_dayKeys h).rows⟩

end ShainManager
