import Mathlib.Data.List.Basic

/-!
# Trees given by their leaves

A tree of maps with values at the leaves, as a partial function from paths to
values. It is the form of a document store in which a map without entries does not
exist: a place is empty exactly when no leaf lies at or below it.

`write p v` sets the leaf at `p`, or clears the place when `v` is `none`. A written
value replaces whatever lay below `p` and a leaf above it. `update p kvs` merges a
map of values into the place `p`, and `set p kvs` replaces the place by the map.

* `write_comm`, `sub_write_apart`: writes to places that do not lie in one another
  commute, and leave each other's place unchanged.
* `writes_perm`, `writes_writes`: so a batch of writes in which any two are apart or
  equal can be made in any order, and again, with the same result.
* `update_nil_eq_node`: merging a map into a place that holds no other keys leaves
  exactly the map.
-/

namespace PathTree

/-- The leaves of a tree by their paths. -/
def Tree (K V : Type) : Type := List K → Option V

variable {K V : Type} [DecidableEq K]

/-- Neither path lies below the other. -/
def Apart (p q : List K) : Prop := ¬ p <+: q ∧ ¬ q <+: p

/-- The tree at the place `p`. -/
def sub (p : List K) (t : Tree K V) : Tree K V := fun q => t (p ++ q)

def write (p : List K) (v : Option V) (t : Tree K V) : Tree K V := fun q =>
  if p <+: q then (if q = p then v else none)
  else if q <+: p ∧ v.isSome then none
  else t q

/-- The writes in turn. -/
def writes (ws : List (List K × Option V)) (t : Tree K V) : Tree K V :=
  ws.foldl (fun t w => write w.1 w.2 t) t

/-- Merges a map into the place `p`. A null value removes its key. -/
def update (p : List K) (kvs : List (K × Option V)) (t : Tree K V) : Tree K V :=
  writes (kvs.map fun kv => (p ++ [kv.1], kv.2)) t

/-- Replaces the place `p` by a map. -/
def set (p : List K) (kvs : List (K × Option V)) (t : Tree K V) : Tree K V :=
  update p kvs (write p none t)

/-- A place that is a value. -/
def leaf (v : V) : Tree K V := fun q => if q = [] then some v else none

/-- A place that is a map of values. -/
def node (kvs : List (K × Option V)) : Tree K V
  | [k] => (kvs.lookup k).join
  | _ => none

/-! ## Apart places -/

omit [DecidableEq K] in
theorem Apart.symm {p q : List K} (h : Apart p q) : Apart q p := ⟨h.2, h.1⟩

omit [DecidableEq K] in
/-- What lies below a place is apart from what the place is apart from. -/
theorem Apart.append_right {p q : List K} (h : Apart p q) (r : List K) : Apart p (q ++ r) := by
  refine ⟨fun hp => ?_, fun hq => h.2 ((List.prefix_append q r).trans hq)⟩
  rcases List.prefix_or_prefix_of_prefix hp (List.prefix_append q r) with hpq | hqp
  · exact h.1 hpq
  · exact h.2 hqp

omit [DecidableEq K] in
theorem Apart.append_left {p q : List K} (h : Apart p q) (r : List K) : Apart (p ++ r) q :=
  (h.symm.append_right r).symm

omit [DecidableEq K] in
theorem apart_snoc {k k' : K} (p : List K) (h : k ≠ k') : Apart (p ++ [k]) (p ++ [k']) := by
  constructor
  · rw [List.prefix_append_right_inj]
    intro hp
    exact h (by simpa using hp)
  · rw [List.prefix_append_right_inj]
    intro hp
    exact h.symm (by simpa using hp)

/-! ## Single writes -/

section

variable {p q : List K} {v w : Option V} {t : Tree K V}

@[simp] theorem write_self : write p v t p = v := by
  simp [write]

theorem write_of_apart (h : Apart p q) : write p v t q = t q := by
  simp [write, h.1, h.2]

/-- A write makes no leaf other than its own. -/
theorem write_eq_none (hq : t q = none) (hne : p ≠ q) : write p v t q = none := by
  unfold write
  split
  · rw [if_neg hne.symm]
  · split
    · rfl
    · exact hq

/-- A write looks at no other place of the tree. -/
theorem write_congr {t' : Tree K V} (h : t q = t' q) : write p v t q = write p v t' q := by
  unfold write
  rw [h]

/-- Off its own place it does not matter which value is written. -/
theorem write_value_congr {t' : Tree K V} (a b : V) (hne : q ≠ p) (h : t q = t' q) :
    write p (some a) t q = write p (some b) t' q := by
  unfold write
  rw [h, if_neg hne, if_neg hne]
  rfl

omit [DecidableEq K] in
theorem sub_sub (p q : List K) (t : Tree K V) : sub q (sub p t) = sub (p ++ q) t := by
  funext r
  simp [sub]

theorem sub_write_apart (h : Apart p q) : sub q (write p v t) = sub q t := by
  funext r
  exact write_of_apart (h.append_right r)

theorem sub_write_append (r : List K) :
    sub p (write (p ++ r) v t) = write r v (sub p t) := by
  funext q
  simp [sub, write, List.prefix_append_right_inj]

/-- The place of a written value is the value. -/
theorem sub_write_self (v : V) : sub p (write p (some v) t) = leaf v := by
  funext q
  simp [sub, write, leaf]

theorem write_write : write p v (write p v t) = write p v t := by
  funext r
  unfold write
  split_ifs <;> rfl

theorem write_comm (h : Apart p q) : write p v (write q w t) = write q w (write p v t) := by
  funext r
  by_cases hp : p <+: r
  · -- at or below `p`, only the write to `p` counts
    obtain ⟨s, rfl⟩ := hp
    rw [write_of_apart (t := write p v t) (h.symm.append_right s)]
    simp [write]
  · by_cases hq : q <+: r
    · obtain ⟨s, rfl⟩ := hq
      rw [write_of_apart (t := write q w t) (h.append_right s)]
      simp [write]
    · simp only [write, hp, hq, if_false]
      split_ifs <;> rfl

end

/-! ## Batches -/

section

variable {ws ws' : List (List K × Option V)} {q : List K} {t : Tree K V}

theorem writes_cons (w : List K × Option V) :
    writes (w :: ws) t = writes ws (write w.1 w.2 t) := rfl

theorem writes_append : writes (ws ++ ws') t = writes ws' (writes ws t) := by
  simp [writes, List.foldl_append]

theorem writes_congr {t' : Tree K V} {q : List K} (h : t q = t' q) :
    writes ws t q = writes ws t' q := by
  induction ws generalizing t t' with
  | nil => exact h
  | cons w ws ih => exact ih (write_congr h)

theorem sub_writes_apart (h : ∀ w ∈ ws, Apart w.1 q) : sub q (writes ws t) = sub q t := by
  induction ws generalizing t with
  | nil => rfl
  | cons w ws ih =>
    rw [writes_cons, ih fun w' hw' => h w' (List.mem_cons_of_mem _ hw'),
      sub_write_apart (h w List.mem_cons_self)]

theorem writes_eq_none (hq : t q = none) (hne : ∀ w ∈ ws, w.1 ≠ q) : writes ws t q = none := by
  induction ws generalizing t with
  | nil => exact hq
  | cons w ws ih =>
    rw [writes_cons]
    exact ih (write_eq_none hq (hne w List.mem_cons_self))
      fun w' hw' => hne w' (List.mem_cons_of_mem _ hw')

theorem sub_writes_append (p : List K) :
    sub p (writes (ws.map fun w => (p ++ w.1, w.2)) t) = writes ws (sub p t) := by
  induction ws generalizing t with
  | nil => rfl
  | cons w ws ih => rw [List.map_cons, writes_cons, writes_cons, ih, sub_write_append]

/-- Writes apart from each other are all there in the end. -/
theorem writes_apply (hap : ws.Pairwise fun w w' => Apart w.1 w'.1) {w : List K × Option V}
    (hw : w ∈ ws) : writes ws t w.1 = w.2 := by
  induction ws generalizing t with
  | nil => exact absurd hw List.not_mem_nil
  | cons a ws ih =>
    obtain ⟨ha, hws⟩ := List.pairwise_cons.mp hap
    rw [writes_cons]
    rcases List.mem_cons.mp hw with rfl | hw
    · have hsub : sub w.1 (writes ws (write w.1 w.2 t)) = sub w.1 (write w.1 w.2 t) :=
        sub_writes_apart fun w' hw' => (ha w' hw').symm
      simpa [sub] using congrFun hsub []
    · exact ih hws hw

/-- Any two of the writes are apart or equal. -/
def Compatible (ws : List (List K × Option V)) : Prop :=
  ∀ w ∈ ws, ∀ w' ∈ ws, Apart w.1 w'.1 ∨ w = w'

theorem Compatible.comm (h : Compatible ws) {w w' : List K × Option V} (hw : w ∈ ws)
    (hw' : w' ∈ ws) (t : Tree K V) :
    write w'.1 w'.2 (write w.1 w.2 t) = write w.1 w.2 (write w'.1 w'.2 t) := by
  rcases h w hw w' hw' with hap | rfl
  · exact write_comm hap.symm
  · rfl

theorem writes_perm (hc : Compatible ws) (h : ws.Perm ws') : writes ws t = writes ws' t :=
  h.foldl_eq' (fun _ hw _ hw' t => hc.comm hw hw' t) t

omit [DecidableEq K] in
theorem Compatible.tail {w : List K × Option V} (h : Compatible (w :: ws)) : Compatible ws :=
  fun a ha b hb => h a (List.mem_cons_of_mem _ ha) b (List.mem_cons_of_mem _ hb)

/-- A write of the batch can be made before or after the others. -/
theorem writes_write {w : List K × Option V} (hc : Compatible (w :: ws)) :
    writes ws (write w.1 w.2 t) = write w.1 w.2 (writes ws t) := by
  have hperm : (w :: ws).Perm (ws ++ [w]) := (List.perm_append_singleton w ws).symm
  have h := writes_perm (t := t) hc hperm
  rwa [writes_cons, writes_append] at h

theorem writes_writes (hc : Compatible ws) : writes ws (writes ws t) = writes ws t := by
  induction ws generalizing t with
  | nil => rfl
  | cons w ws ih =>
    rw [writes_cons, writes_cons, ← writes_write hc, write_write, ih hc.tail]

end

/-! ## Maps -/

section

variable {kvs : List (K × Option V)} {t : Tree K V}

theorem sub_update_append (p r : List K) :
    sub p (update (p ++ r) kvs t) = update r kvs (sub p t) := by
  unfold update
  rw [← sub_writes_append p, List.map_map]
  simp [Function.comp_def]

theorem sub_update_self (p : List K) : sub p (update p kvs t) = update [] kvs (sub p t) := by
  have h : sub p (update (p ++ []) kvs t) = update [] kvs (sub p t) := sub_update_append p []
  rwa [List.append_nil] at h

theorem sub_update_apart {p q : List K} (h : ∀ kv ∈ kvs, Apart (p ++ [kv.1]) q) :
    sub q (update p kvs t) = sub q t := by
  refine sub_writes_apart fun w hw => ?_
  obtain ⟨kv, hmem, rfl⟩ := List.mem_map.mp hw
  exact h kv hmem

/-- What a merge writes is there in the end. -/
theorem update_apply {p : List K} (hnd : (kvs.map Prod.fst).Nodup) {k : K} {v : Option V}
    (h : (k, v) ∈ kvs) : update p kvs t (p ++ [k]) = v := by
  have hpair : (kvs.map fun kv => (p ++ [kv.1], kv.2)).Pairwise fun w w' => Apart w.1 w'.1 := by
    rw [List.pairwise_map]
    exact (List.pairwise_map.mp hnd).imp fun hne => apart_snoc p hne
  exact writes_apply hpair (List.mem_map_of_mem h)

theorem lookup_of_mem (hnd : (kvs.map Prod.fst).Nodup) {k : K} {v : Option V}
    (h : (k, v) ∈ kvs) : kvs.lookup k = some v := by
  induction kvs with
  | nil => exact absurd h List.not_mem_nil
  | cons kv kvs ih =>
    obtain ⟨k', v'⟩ := kv
    rw [List.map_cons, List.nodup_cons] at hnd
    rcases List.mem_cons.mp h with he | h
    · cases he
      simp
    · have hne : k ≠ k' := fun he => hnd.1 (List.mem_map.mpr ⟨_, h, he⟩)
      rw [List.lookup_cons, beq_false_of_ne hne]
      exact ih hnd.2 h

/-- The leaves of a map lie at its keys. -/
theorem node_support {q : List K} (h : node kvs q ≠ none) : ∃ kv ∈ kvs, q = [kv.1] := by
  match q with
  | [] => exact absurd rfl h
  | _ :: _ :: _ => exact absurd rfl h
  | [k] =>
    by_contra hno
    refine h ?_
    have hlook : kvs.lookup k = none := by
      rw [List.lookup_eq_none_iff]
      intro kv hmem
      exact bne_iff_ne.mpr fun he => hno ⟨kv, hmem, by rw [he]⟩
    show (kvs.lookup k).join = none
    rw [hlook]
    rfl

/-- Merging a map into a place that holds at most its keys leaves the map. -/
theorem update_nil_eq_node (hnd : (kvs.map Prod.fst).Nodup)
    (ht : ∀ q, t q ≠ none → ∃ kv ∈ kvs, q = [kv.1]) : update [] kvs t = node kvs := by
  funext q
  by_cases hq : ∃ kv ∈ kvs, q = [kv.1]
  · obtain ⟨kv, hmem, rfl⟩ := hq
    show _ = (kvs.lookup kv.1).join
    rw [lookup_of_mem hnd hmem]
    exact update_apply hnd hmem
  · have hnone : t q = none := by
      by_contra hne
      exact hq (ht q hne)
    have hleft : update [] kvs t q = none := by
      refine writes_eq_none hnone fun w hw => ?_
      obtain ⟨kv, hmem, rfl⟩ := List.mem_map.mp hw
      exact fun he => hq ⟨kv, hmem, he.symm⟩
    have hright : node kvs q = none := by
      by_contra hne
      exact hq (node_support hne)
    rw [hleft, hright]

end

end PathTree
