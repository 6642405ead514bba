import ShainManager.Lib.PathTree

/-!
# The Realtime Database

The tree that the app keeps in the Realtime Database: `users/<uid>` is the profile
that `signUp` stores (`lib/services/authentication.dart`), and its entry `timework`
first is an empty text and later the map of submitted days.

A null in an update removes the key; an update below a value replaces the value by
a map (`ShainManager.Lib.PathTree`).
-/

namespace ShainManager

open PathTree

/-- A value of a leaf. -/
inductive Value
  | str (s : String)
  | int (n : Int)
  | bool (b : Bool)
deriving DecidableEq, Repr

abbrev RealtimeDb := Tree String Value

def userPath (uid : String) : List String := ["users", uid]

def timeworkPath (uid : String) : List String := ["users", uid, "timework"]

/-- The map that `signUp` stores for the new account `uid`. -/
def profileFields (uid email password nickname : String) : List (String × Option Value) :=
  [("userUID", some (.str uid)),
   ("name", some (.str nickname)),
   ("email", some (.str email)),
   ("password", some (.str password)),
   ("photo", some (.str "")),
   ("timework", some (.str ""))]

/-- The `set` of `signUp`. -/
def signUpSet (db : RealtimeDb) (uid email password nickname : String) : RealtimeDb :=
  set (userPath uid) (profileFields uid email password nickname) db

/-- After it there is no submitted day. -/
theorem signUpSet_timework (db : RealtimeDb) (uid email password nickname : String) :
    sub (timeworkPath uid) (signUpSet db uid email password nickname) = leaf (.str "") := by
  have hlast : signUpSet db uid email password nickname =
      write (timeworkPath uid) (some (.str "")) (update (userPath uid)
        [("userUID", some (.str uid)), ("name", some (.str nickname)),
         ("email", some (.str email)), ("password", some (.str password)),
         ("photo", some (.str ""))] (write (userPath uid) none db)) := rfl
  rw [hlast, sub_write_self]

/-! ## Reading a profile -/

/-- Profiles of different users are apart. -/
theorem apart_userPath {uid uid' : String} (h : uid ≠ uid') : Apart (userPath uid) (userPath uid') :=
  apart_snoc ["users"] h

/-- An entry of the profile after the `set`. -/
theorem signUpSet_field (db : RealtimeDb) {uid email password nickname f : String}
    {v : Option Value} (h : (f, v) ∈ profileFields uid email password nickname) :
    signUpSet db uid email password nickname (userPath uid ++ [f]) = v := by
  have hkeys : ((profileFields uid email password nickname).map Prod.fst).Nodup := by
    show ["userUID", "name", "email", "password", "photo", "timework"].Nodup
    decide
  exact update_apply hkeys h

/-- The `set` leaves nothing else in the profile. -/
theorem signUpSet_absent (db : RealtimeDb) {uid email password nickname f : String}
    (h : f ∉ (profileFields uid email password nickname).map Prod.fst) :
    signUpSet db uid email password nickname (userPath uid ++ [f]) = none := by
  refine writes_eq_none (by simp [write]) ?_
  intro w hw he
  obtain ⟨kv, hkv, rfl⟩ := List.mem_map.mp hw
  have hf : kv.1 = f := by simpa using he
  exact h (hf ▸ List.mem_map_of_mem hkv)

/-- The `set` leaves the other profiles alone. -/
theorem sub_signUpSet_other (db : RealtimeDb) {uid uid' : String} (h : uid ≠ uid')
    (email password nickname : String) :
    sub (userPath uid') (signUpSet db uid email password nickname) = sub (userPath uid') db := by
  unfold signUpSet PathTree.set
  rw [sub_update_apart, sub_write_apart (apart_userPath h)]
  intro kv _
  exact (apart_userPath h).append_left _

end ShainManager
