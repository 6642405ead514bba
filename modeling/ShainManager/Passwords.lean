import ShainManager.Receipt
import ShainManager.Submission

/-!
# Who receives the passwords

`signUp` (`lib/services/authentication.dart`) stores the password in the profile of the new
user. The chat-selection page (`lib/ui/choicechat.dart`) downloads the whole of `users` and
shows names, addresses and pictures of it. Besides `signUp`, the app writes below `users`
when a receipt is recorded and when a month is submitted.

Two runs of such operations that differ in the password of one user `b`:

* `received_same_iff`: when the page receives the same data in both.
* `received_elsewhere`: the entry `password` of `b` is the only difference.
-/

namespace ShainManager

open PathTree

/-- An operation on `users`. -/
inductive UserOp
  | signUp (uid email password nickname : String)
  | photo (uid url : String)
  | timework (uid : String) (data : FetchDatafromSQLite) (flag : String)
deriving DecidableEq, Repr

def UserOp.apply (db : RealtimeDb) : UserOp → RealtimeDb
  | .signUp uid email password nickname => signUpSet db uid email password nickname
  | .photo uid url => sendimageDatabase db (some uid) url
  | .timework uid data flag => sendtimeworkDatabase db (some uid) data flag

/-- The operations one after the other. -/
def applyAll (db : RealtimeDb) (ops : List UserOp) : RealtimeDb := ops.foldl UserOp.apply db

/-- The snapshot that `initState` of the page gets from `child('users').once()`. -/
def received (db : RealtimeDb) : Tree String Value := sub ["users"] db

/-- The operation registers `b`. -/
def UserOp.Registers (b : String) : UserOp → Prop
  | .signUp uid _ _ _ => uid = b
  | .photo _ _ => False
  | .timework _ _ _ => False

instance (b : String) : ∀ op : UserOp, Decidable (op.Registers b)
  | .signUp _ _ _ _ => inferInstanceAs (Decidable (_ = _))
  | .photo _ _ | .timework _ _ _ => .isFalse id

/-- The same operation, where `b` passes the password `p`. -/
def UserOp.withPassword (b p : String) : UserOp → UserOp
  | .signUp uid email password nickname =>
    .signUp uid email (if uid = b then p else password) nickname
  | op => op

def passwordPath (uid : String) : List String := userPath uid ++ ["password"]

/-- The entry `password` of a user. -/
def passwordOf (db : RealtimeDb) (uid : String) : Option Value := db (passwordPath uid)

namespace PasswordsLemmas

variable {db db' : RealtimeDb} {b p p' : String}

/-- Submissions and photos do not touch a password, and neither does a registration of
another user. -/
theorem password_apply {op : UserOp} (h : ¬ op.Registers b) :
    passwordOf (op.apply db) b = passwordOf db b := by
  have hentry : ∀ (uid f : String), f ≠ "password" → Apart (userPath uid ++ [f]) (passwordPath b) := by
    intro uid f hf
    rcases eq_or_ne uid b with rfl | hne
    · exact apart_snoc _ hf
    · exact ((apart_userPath hne).append_left _).append_right _
  cases op with
  | signUp uid email password nickname =>
    have hsub := sub_signUpSet_other db h email password nickname
    exact congrFun hsub ["password"]
  | photo uid url => exact write_of_apart (hentry uid "photo" (by decide))
  | timework uid data flag =>
    have htimework : ∀ r, Apart (timeworkPath uid ++ r) (passwordPath b) := fun r =>
      (hentry uid "timework" (by decide)).append_left r
    have hsub : sub (passwordPath b) (sendtimeworkDatabase db (some uid) data flag) =
        sub (passwordPath b) db := by
      unfold sendtimeworkDatabase
      rw [sub_update_apart, sub_update_apart]
      · intro kv _
        rw [List.append_assoc]
        exact htimework _
      · intro kv _
        exact htimework _
    have hleaf := congrFun hsub []
    simp only [sub, List.append_nil] at hleaf
    exact hleaf

/-- A registration stores the password. -/
theorem password_signUp (uid email password nickname : String) :
    passwordOf (signUpSet db uid email password nickname) uid = some (.str password) :=
  signUpSet_field db (by simp [profileFields])

/-- The entry after an operation in which `b` passes `p`. -/
theorem password_withPassword (op : UserOp) :
    passwordOf ((op.withPassword b p).apply db) b =
      if op.Registers b then some (.str p) else passwordOf db b := by
  split
  · next h =>
    cases op with
    | signUp uid email password nickname =>
      obtain rfl : uid = b := h
      simp only [UserOp.withPassword, if_true]
      exact password_signUp uid email p nickname
    | photo uid url => exact absurd h id
    | timework uid data flag => exact absurd h id
  · next h =>
    refine password_apply ?_
    cases op with
    | signUp uid email password nickname => exact h
    | photo uid url => exact h
    | timework uid data flag => exact h

/-- Once `b` has registered with `p`, the entry stays. -/
theorem password_stays {ops : List UserOp} (h : passwordOf db b = some (.str p)) :
    passwordOf (applyAll db (ops.map (UserOp.withPassword b p))) b = some (.str p) := by
  induction ops generalizing db with
  | nil => exact h
  | cons op ops ih =>
    refine ih ?_
    rw [password_withPassword, h, ite_self]

theorem password_registered {ops : List UserOp} {op : UserOp} (hop : op ∈ ops)
    (h : op.Registers b) :
    passwordOf (applyAll db (ops.map (UserOp.withPassword b p))) b = some (.str p) := by
  induction ops generalizing db with
  | nil => exact absurd hop List.not_mem_nil
  | cons op' ops ih =>
    rcases List.mem_cons.mp hop with rfl | hop
    · show passwordOf (applyAll ((op.withPassword b p).apply db) (ops.map _)) b = _
      refine password_stays ?_
      rw [password_withPassword, if_pos h]
    · exact ih hop

theorem withPassword_of_not_registers {op : UserOp} (h : ¬ op.Registers b) :
    op.withPassword b p = op := by
  cases op with
  | signUp uid email password nickname =>
    have hne : uid ≠ b := h
    simp [UserOp.withPassword, hne]
  | photo uid url => rfl
  | timework uid data flag => rfl

/-! ### The rest of the tree -/

theorem update_congr {q pos : List String} {kvs : List (String × Option Value)} (h : db q = db' q) :
    update pos kvs db q = update pos kvs db' q :=
  writes_congr h

theorem apply_congr {q : List String} (op : UserOp) (h : db q = db' q) :
    op.apply db q = op.apply db' q := by
  cases op with
  | signUp uid email password nickname => exact update_congr (write_congr h)
  | photo uid url => exact update_congr h
  | timework uid data flag => exact update_congr (update_congr h)

/-- The write of the password among those of `signUp`. -/
theorem signUpSet_eq (db : RealtimeDb) (uid email password nickname : String) :
    signUpSet db uid email password nickname =
      update (userPath uid) [("photo", some (.str "")), ("timework", some (.str ""))]
        (write (passwordPath uid) (some (.str password))
          (update (userPath uid) [("userUID", some (.str uid)), ("name", some (.str nickname)),
            ("email", some (.str email))] (write (userPath uid) none db))) :=
  rfl

/-- Off the entry `password` of `b` the password does not matter. -/
theorem apply_withPassword_congr {q : List String} (op : UserOp) (hq : q ≠ passwordPath b)
    (h : db q = db' q) : (op.withPassword b p).apply db q = (op.withPassword b p').apply db' q := by
  cases op with
  | signUp uid email password nickname =>
    simp only [UserOp.withPassword]
    split
    · next huid =>
      subst huid
      simp only [UserOp.apply, signUpSet_eq]
      exact update_congr (write_value_congr _ _ hq (update_congr (write_congr h)))
    · exact apply_congr (.signUp uid email password nickname) h
  | photo uid url => exact apply_congr (.photo uid url) h
  | timework uid data flag => exact apply_congr (.timework uid data flag) h

end PasswordsLemmas

open PasswordsLemmas

/-- For every sequence of registrations, photo updates and submissions by any users, from any
database, and every two passwords of `b`: the page of another user receives the same data if
and only if the passwords are the same or `b` does not register. -/
theorem received_same_iff (db : RealtimeDb) (ops : List UserOp) (b p p' : String) :
    received (applyAll db (ops.map (UserOp.withPassword b p))) =
      received (applyAll db (ops.map (UserOp.withPassword b p'))) ↔
      p = p' ∨ ∀ op ∈ ops, ¬ op.Registers b := by
  constructor
  · intro h
    refine or_iff_not_imp_right.mpr fun hreg => ?_
    obtain ⟨op, hop, hb⟩ : ∃ op ∈ ops, op.Registers b := by simpa using hreg
    have hleaf : passwordOf (applyAll db (ops.map (UserOp.withPassword b p))) b =
        passwordOf (applyAll db (ops.map (UserOp.withPassword b p'))) b := congrFun h [b, "password"]
    rw [password_registered hop hb, password_registered hop hb] at hleaf
    exact Value.str.inj (Option.some.inj hleaf)
  · rintro (rfl | hno)
    · rfl
    · have hmap : ∀ p : String, ops.map (UserOp.withPassword b p) = ops := fun p =>
        (List.map_congr_left fun op hop => withPassword_of_not_registers (hno op hop)).trans
          (List.map_id ops)
      rw [hmap, hmap]

/-- What the page receives besides the entry `password` of `b` does not depend on it. -/
theorem received_elsewhere (db : RealtimeDb) (ops : List UserOp) (b p p' : String)
    {q : List String} (hq : q ≠ [b, "password"]) :
    received (applyAll db (ops.map (UserOp.withPassword b p))) q =
      received (applyAll db (ops.map (UserOp.withPassword b p'))) q := by
  have hpath : "users" :: q ≠ passwordPath b := fun he => hq (List.cons.inj he).2
  have hall : ∀ (ops : List UserOp) {db db' : RealtimeDb}, db ("users" :: q) = db' ("users" :: q) →
      applyAll db (ops.map (UserOp.withPassword b p)) ("users" :: q) =
        applyAll db' (ops.map (UserOp.withPassword b p')) ("users" :: q) := by
    intro ops
    induction ops with
    | nil => exact id
    | cons op ops ih => exact fun h => ih (apply_withPassword_congr op hpath h)
  exact hall ops rfl

/-- `b` registers, and another user opens the chat-selection page. -/
theorem password_received :
    received (applyAll (fun _ => none) [.signUp "b" "b@x.com" "secret" "田中"]) ≠
      received (applyAll (fun _ => none) [.signUp "b" "b@x.com" "geheim" "田中"]) := by
  intro h
  have hleaf := congrFun h ["b", "password"]
  revert hleaf
  decide

end ShainManager
