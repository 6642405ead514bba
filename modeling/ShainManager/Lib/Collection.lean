import Mathlib.Data.List.Infix
import Mathlib.Data.List.Nodup
import Mathlib.Data.List.Perm.Subperm

/-!
# A shared collection of documents

A collection receives commits one after the other: a document is added, or the document with
a key is deleted. Its clients hear of the commits later, each at its own pace but in order, so
that what a client has heard is the collection after some number of commits.

* `contents_snoc`: the collection after one more commit.
* `contents_sublist_added`: it holds added documents only, in the order of their commits.
* `contents_eq_filter_add`, `contents_eq_filter_delete`: as long as no deleted key comes again, it
  holds the added documents whose keys have not been deleted.
* `seen_subperm`: where nothing is deleted, a client that hears of more loses sight of nothing.
-/

namespace Collection

variable {δ κ : Type}

/-- A commit. -/
inductive Commit (δ κ : Type)
  | add (d : δ)
  | delete (k : κ)
deriving DecidableEq, Repr

/-- The documents that have been added, in order. -/
def added (log : List (Commit δ κ)) : List δ :=
  log.filterMap fun
    | .add d => some d
    | .delete _ => none

/-- The keys that have been deleted, in order. -/
def deleted (log : List (Commit δ κ)) : List κ :=
  log.filterMap fun
    | .add _ => none
    | .delete k => some k

section

variable {log log' : List (Commit δ κ)} {d : δ} {k : κ}

@[simp] theorem added_append : added (log ++ log') = added log ++ added log' := List.filterMap_append

@[simp] theorem deleted_append : deleted (log ++ log') = deleted log ++ deleted log' :=
  List.filterMap_append

@[simp] theorem added_add : added [(.add d : Commit δ κ)] = [d] := rfl

@[simp] theorem added_delete : added [(.delete k : Commit δ κ)] = [] := rfl

@[simp] theorem deleted_add : deleted [(.add d : Commit δ κ)] = [] := rfl

@[simp] theorem deleted_delete : deleted [(.delete k : Commit δ κ)] = [k] := rfl

theorem mem_added_take {n : Nat} (h : d ∈ added (log.take n)) : d ∈ added log := by
  rw [← List.take_append_drop n log, added_append]
  exact List.mem_append_left _ h

end

variable [DecidableEq κ] (key : δ → κ)

/-- The effect of a commit on the documents. -/
def commit (docs : List δ) : Commit δ κ → List δ
  | .add d => docs ++ [d]
  | .delete k => docs.filter fun d => decide (key d ≠ k)

/-- The documents after the commits. -/
def contents (log : List (Commit δ κ)) : List δ := log.foldl (commit key) []

variable {key} {log : List (Commit δ κ)} {d : δ} {k : κ}

theorem contents_snoc (c : Commit δ κ) :
    contents key (log ++ [c]) = commit key (contents key log) c := List.foldl_append

/-- The collection holds added documents only. -/
theorem contents_sublist_added : (contents key log).Sublist (added log) := by
  induction log using List.reverseRecOn with
  | nil => exact .slnil
  | append_singleton log c ih =>
    rw [contents_snoc, added_append]
    cases c with
    | add d => exact ih.append (.refl _)
    | delete k =>
      rw [added_delete, List.append_nil]
      exact List.filter_sublist.trans ih

theorem mem_added_of_mem (h : d ∈ contents key log) : d ∈ added log :=
  contents_sublist_added.subset h

/-- What is left of the added documents, when one is added whose key has not been deleted. -/
theorem contents_eq_filter_add
    (h : contents key log = (added log).filter fun d => decide (key d ∉ deleted log))
    (hd : key d ∉ deleted log) :
    contents key (log ++ [.add d]) =
      (added (log ++ [.add d])).filter fun d' => decide (key d' ∉ deleted (log ++ [.add d])) := by
  rw [contents_snoc, added_append, deleted_append, added_add, deleted_add, List.append_nil,
    List.filter_append, ← h, List.filter_singleton, decide_eq_true hd]
  rfl

/-- What is left of the added documents, when a key is deleted. -/
theorem contents_eq_filter_delete
    (h : contents key log = (added log).filter fun d => decide (key d ∉ deleted log)) (k : κ) :
    contents key (log ++ [.delete k]) =
      (added (log ++ [.delete k])).filter fun d =>
        decide (key d ∉ deleted (log ++ [.delete k])) := by
  rw [contents_snoc, added_append, deleted_append, added_delete, deleted_delete, List.append_nil,
    commit, h, List.filter_filter]
  refine List.filter_congr fun d _ => ?_
  simp [and_comm]

/-! ## What a client sees of its own documents -/

section

variable {ε : Type} {f : δ → ε} {log pending : List δ} {received n : Nat}

/-- What a client sees where documents are only added: those that it has heard of and then its own
that it has not. -/
def seen (log : List δ) (received : Nat) (pending : List δ) : List δ := log.take received ++ pending

variable (key) in
/-- Its own documents that are not among those it hears of. -/
def unheard (heard pending : List δ) : List δ :=
  pending.filter fun d => decide (key d ∉ heard.map key)

theorem mem_unheard {heard : List δ} :
    d ∈ unheard key heard pending ↔ d ∈ pending ∧ key d ∉ heard.map key := by
  unfold unheard
  rw [List.mem_filter, decide_eq_true_iff]

/-- A client that hears of more commits loses sight of nothing: its documents that it hears of
stand among the new ones. A document may change when it is stored, except in its key and in what
`f` reads. -/
theorem seen_subperm (hn : received ≤ n) (hnodup : (pending.map f).Nodup)
    (hnew : ∀ d ∈ pending, key d ∉ (log.take received).map key)
    (hsame : ∀ d ∈ pending, ∀ d' ∈ log, key d = key d' → f d = f d') :
    ((seen log received pending).map f).Subperm
      ((seen log n (unheard key (log.take n) pending)).map f) := by
  -- the documents that the client hears of now
  have htake : log.take n = log.take received ++ (log.take n).drop received := by
    conv_lhs => rw [← List.take_append_drop received (log.take n)]
    rw [List.take_take, Nat.min_eq_left hn]
  let heard := pending.filter fun d => !decide (key d ∉ (log.take n).map key)
  have hsplit : (pending.map f).Perm
      (heard.map f ++ (unheard key (log.take n) pending).map f) := by
    rw [← List.map_append]
    refine List.Perm.map f (List.Perm.trans ?_ List.perm_append_comm)
    exact (List.filter_append_perm _ pending).symm
  have hsub : heard.map f ⊆ ((log.take n).drop received).map f := by
    intro x hx
    obtain ⟨d, hd, rfl⟩ := List.mem_map.mp hx
    obtain ⟨hd, hheard⟩ := List.mem_filter.mp hd
    have hmem : key d ∈ (log.take n).map key := by simpa using hheard
    rw [htake, List.map_append, List.mem_append] at hmem
    obtain ⟨d', hd', he⟩ := List.mem_map.mp (hmem.resolve_left (hnew d hd))
    have hlog : d' ∈ log := List.mem_of_mem_take (List.mem_of_mem_drop hd')
    rw [hsame d hd d' hlog he.symm]
    exact List.mem_map_of_mem hd'
  have hheard : (heard.map f).Nodup := hnodup.sublist (List.filter_sublist.map f)
  have hmap : (log.take n).map f =
      (log.take received).map f ++ ((log.take n).drop received).map f := by
    rw [← List.map_append, ← htake]
  unfold seen
  rw [List.map_append, List.map_append, hmap, List.append_assoc, List.subperm_append_left]
  exact hsplit.subperm.trans ((List.subperm_append_right _).mpr (hheard.subperm hsub))

end

end Collection
