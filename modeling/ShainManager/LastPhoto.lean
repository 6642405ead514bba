import Mathlib.Data.List.InsertIdx
import ShainManager.Lib.Run
import ShainManager.Receipt

/-!
# The last receipt of a user

Every press of Submit starts an `uploadPic` of its own, and each of them writes
`users/<uid>/photo` when it is done. Nothing makes one wait for another, and `uploadPic` reads
`_imageFile.path` without a test although a cancelled pick leaves `_imageFile` null.

* `last_photo_iff`: the runs in which the last submission stays.
* `last_photo_of_waits`: it does when the user waits for each upload.
* `earlier_photo_stays`: a run of one user in which it does not.
-/

namespace ShainManager

open Machine

variable {C : Type}

/-- The users of the suspended uploads. -/
def Receipts.pending (s : Receipts C) : List String :=
  s.uploads.map fun u => u.image.uid

/-- The image of the last Submit of a user that was made with an image selected. -/
def Receipts.lastImage (s : Receipts C) (uid : String) : Option (Submitted C) :=
  (s.submitted.filter fun x => x.uid = uid).getLast?

/-- Once none of the user's uploads is pending, the photo is the URL of the last image. -/
def Receipts.LastPhoto (bucket : Bucket) (uid : String) (s : Receipts C) : Prop :=
  uid ∉ s.pending → ∀ image ∈ s.lastImage uid,
    photoOf s.db uid = some (.str (bucket.url image.fileName))

/-- A Submit of the user finds an image. -/
def Receipts.ImageSelected (uid : String) (s : Receipts C) (e : ReceiptEvent C) : Prop :=
  e = .submit uid → s.picked uid ≠ none

/-- Every upload, lookup and update completes, and the update finds the user of its upload still
signed in. -/
def completes (s : Receipts C) : ReceiptEvent C → Prop
  | .record k user => ∀ u ∈ s.uploads[k]?, user = some u.image.uid
  | .fail _ => False
  | _ => True

/-- The user presses Submit with an image selected, and the upload of the user that is recorded
when no other is pending has the file name of the last one. -/
def lastInTurn (uid : String) (s : Receipts C) : ReceiptEvent C → Prop
  | .submit uid' => uid' = uid → s.picked uid ≠ none
  | .record k _ => ∀ u ∈ s.uploads[k]?, u.image.uid = uid → uid ∉ s.pending.eraseIdx k →
      ∀ image ∈ s.lastImage uid, u.image.fileName = image.fileName
  | _ => True

/-- The user presses Submit with an image selected and no upload pending, and stays signed in. -/
def waits (uid : String) (s : Receipts C) : ReceiptEvent C → Prop
  | .submit uid' => uid' = uid → s.picked uid ≠ none ∧ uid ∉ s.pending
  | .record k user => ∀ u ∈ s.uploads[k]?, user = some u.image.uid
  | .fail _ => False
  | _ => True

instance (s : Receipts C) : ∀ e, Decidable (completes s e)
  | .record k user => inferInstanceAs (Decidable (∀ u ∈ s.uploads[k]?, user = some u.image.uid))
  | .fail _ => .isFalse id
  | .pick _ _ | .submit _ | .put _ | .locate _ => .isTrue trivial

instance (uid : String) (s : Receipts C) : ∀ e, Decidable (lastInTurn uid s e)
  | .submit uid' =>
    match h : s.picked uid with
    | none => decidable_of_iff (uid' ≠ uid) (by simp [lastInTurn, h])
    | some _ => .isTrue (by simp [lastInTurn, h])
  | .record k _ => inferInstanceAs (Decidable (∀ u ∈ s.uploads[k]?, _ → _ → ∀ image ∈ s.lastImage uid, _))
  | .pick _ _ | .put _ | .locate _ | .fail _ => .isTrue trivial

namespace LastPhotoLemmas

variable {bucket : Bucket} {uid : String} {s s' : Receipts C} {e : ReceiptEvent C}

/-! ## The pending uploads -/

theorem pending_set {k : Nat} {image : Submitted C} {stage stage' : UploadStage}
    (hk : s.uploads[k]? = some ⟨image, stage⟩) :
    (s.uploads.set k ⟨image, stage'⟩).map (fun u => u.image.uid) = s.pending := by
  obtain ⟨hlt, hget⟩ := List.getElem?_eq_some_iff.mp hk
  have hself : (s.uploads.map fun u => u.image.uid).set k s.uploads[k].image.uid = s.pending := by
    rw [← List.map_set, List.set_getElem_self, Receipts.pending]
  rwa [hget, ← List.map_set (f := fun u : Upload C => u.image.uid) (a := ⟨image, stage'⟩)] at hself

theorem pending_eraseIdx (k : Nat) :
    (s.uploads.eraseIdx k).map (fun u => u.image.uid) = s.pending.eraseIdx k := by
  rw [Receipts.pending, List.eraseIdx_map]

theorem mem_eraseIdx_of_ne {α : Type} {l : List α} {k : Nat} {a b : α} (hk : l[k]? = some b)
    (hne : b ≠ a) : a ∈ l.eraseIdx k ↔ a ∈ l := by
  refine ⟨List.mem_of_mem_eraseIdx, fun h => ?_⟩
  obtain ⟨i, hi⟩ := List.mem_iff_getElem?.mp h
  refine List.mem_eraseIdx_iff_getElem?.mpr ⟨i, ?_, hi⟩
  rintro rfl
  exact hne (Option.some.inj (hk.symm.trans hi))

/-- A lookup gives the URL of the file that was uploaded. -/
def Located (bucket : Bucket) (s : Receipts C) : Prop :=
  ∀ u ∈ s.uploads, ∀ url, u.stage = .located url → url = bucket.url u.image.fileName

theorem located_move (h : Located bucket s) (hm : ReceiptMove bucket s e s') : Located bucket s' := by
  cases hm with
  | pick => exact h
  | throws => exact h
  | submit image hp hi =>
    intro u hu url hurl
    rcases List.mem_append.mp hu with hu | hu
    · exact h u hu url hurl
    · rw [List.mem_singleton.mp hu] at hurl
      cases hurl
  | put hk =>
    intro u hu url hurl
    rcases List.mem_or_eq_of_mem_set hu with hu | rfl
    · exact h u hu url hurl
    · cases hurl
  | locate hk =>
    intro u hu url hurl
    rcases List.mem_or_eq_of_mem_set hu with hu | rfl
    · exact h u hu url hurl
    · cases hurl
      rfl
  | record hk => exact fun u hu => h u (List.mem_of_mem_eraseIdx hu)
  | fail => exact fun u hu => h u (List.mem_of_mem_eraseIdx hu)

/-! ## What a step does to the photo -/

theorem lastImage_other {submitted : List (Submitted C)} {image : Submitted C}
    (h : image.uid ≠ uid) :
    ((submitted ++ [image]).filter fun x => x.uid = uid).getLast? =
      (submitted.filter fun x => x.uid = uid).getLast? := by
  rw [List.filter_append, List.filter_cons_of_neg (by simpa using h), List.filter_nil,
    List.append_nil]

/-- Submit starts an upload, so there is nothing to show. -/
theorem lastPhoto_submit {image : Submitted C} (h : s.LastPhoto bucket uid) :
    Receipts.LastPhoto bucket uid { s with
      uploads := s.uploads ++ [{ image, stage := .uploading }]
      submitted := s.submitted ++ [image] } := by
  intro hnone last hlast
  have hnone' : uid ∉ s.pending ++ [image.uid] := by
    rwa [Receipts.pending, List.map_append] at hnone
  obtain ⟨hpending, hne⟩ := not_or.mp (mt List.mem_append.mpr hnone')
  have hother : image.uid ≠ uid := fun he => hne (List.mem_singleton.mpr he.symm)
  refine h hpending last ?_
  rw [Receipts.lastImage, lastImage_other hother] at hlast
  exact hlast

theorem lastPhoto_record {k : Nat} {user : Option String} {image : Submitted C} {url : String}
    (hloc : Located bucket s) (h : s.LastPhoto bucket uid)
    (hk : s.uploads[k]? = some ⟨image, .located url⟩) (huser : user = some image.uid) :
    Receipts.LastPhoto bucket uid { s with
        db := sendimageDatabase s.db user url
        uploads := s.uploads.eraseIdx k } ↔
      lastInTurn uid s (.record k user) := by
  subst huser
  have hurl : url = bucket.url image.fileName := hloc _ (List.mem_of_getElem? hk) url rfl
  have hpk : s.pending[k]? = some image.uid := by
    rw [Receipts.pending, List.getElem?_map, hk, Option.map_some]
  rcases eq_or_ne image.uid uid with rfl | hne
  · constructor
    · intro hlast u hu _ hnone last hmem
      cases hk.symm.trans hu
      have hphoto := hlast (by rw [Receipts.pending, pending_eraseIdx]; exact hnone) last hmem
      rw [ReceiptLemmas.photoOf_sendimageDatabase, hurl] at hphoto
      exact bucket.url_injective (Value.str.inj (Option.some.inj hphoto))
    · intro hok hnone last hmem
      rw [Receipts.pending, pending_eraseIdx] at hnone
      rw [ReceiptLemmas.photoOf_sendimageDatabase, hurl, hok _ hk rfl hnone last hmem]
  · -- the photo and the pending uploads of the user stay as they are
    refine iff_of_true ?_ ?_
    · intro hnone last hmem
      rw [Receipts.pending, pending_eraseIdx, mem_eraseIdx_of_ne hpk hne] at hnone
      rw [ReceiptLemmas.photoOf_sendimageDatabase_other _ fun he => hne (Option.some.inj he)]
      exact h hnone last hmem
    · intro u hu huid
      cases hk.symm.trans hu
      exact absurd huid hne

theorem lastPhoto_move (hloc : Located bucket s) (h : s.LastPhoto bucket uid)
    (hdone : completes s e) (hm : ReceiptMove bucket s e s') :
    s.ImageSelected uid e ∧ s'.LastPhoto bucket uid ↔ lastInTurn uid s e := by
  cases hm with
  | pick => exact iff_of_true ⟨nofun, h⟩ trivial
  | throws hp =>
    constructor
    · rintro ⟨hsel, -⟩ rfl
      exact hsel rfl
    · intro hok
      refine ⟨fun he => ?_, h⟩
      exact hok (ReceiptEvent.submit.inj he)
  | submit image hp hi =>
    refine iff_of_true ⟨fun he => ?_, lastPhoto_submit h⟩ ?_
    · cases he
      rw [hp]
      exact Option.some_ne_none _
    · rintro rfl
      rw [hp]
      exact Option.some_ne_none _
  | put hk =>
    refine iff_of_true ⟨nofun, fun hnone => h ?_⟩ trivial
    rwa [Receipts.pending, pending_set hk] at hnone
  | locate hk =>
    refine iff_of_true ⟨nofun, fun hnone => h ?_⟩ trivial
    rwa [Receipts.pending, pending_set hk] at hnone
  | record hk =>
    rw [← lastPhoto_record hloc h hk (hdone _ hk)]
    exact and_iff_right nofun
  | fail => exact absurd hdone id

/-! ## A user that waits -/

/-- The pending uploads of the user are of the last image. -/
def PendingLast (uid : String) (s : Receipts C) : Prop :=
  ∀ u ∈ s.uploads, u.image.uid = uid → s.lastImage uid = some u.image

theorem pendingLast_set {k : Nat} {image : Submitted C} {stage stage' : UploadStage}
    (h : PendingLast uid s) (hk : s.uploads[k]? = some ⟨image, stage⟩) :
    ∀ u ∈ s.uploads.set k ⟨image, stage'⟩, u.image.uid = uid → s.lastImage uid = some u.image := by
  intro u hu
  rcases List.mem_or_eq_of_mem_set hu with hu | rfl
  · exact h u hu
  · exact h ⟨image, stage⟩ (List.mem_of_getElem? hk)

theorem pendingLast_move (h : PendingLast uid s) (hok : waits uid s e)
    (hm : ReceiptMove bucket s e s') : PendingLast uid s' := by
  cases hm with
  | pick => exact h
  | throws => exact h
  | submit image hp hi =>
    subst hi
    intro u hu huid
    dsimp only at hu
    rw [Receipts.lastImage]
    rcases List.mem_append.mp hu with hu | hu
    · -- the upload was pending, so that another user has pressed Submit
      have hother := mt (fun he => (hok he).2) (not_not.mpr (List.mem_map.mpr ⟨u, hu, huid⟩))
      rw [lastImage_other hother]
      exact h u hu huid
    · rw [List.mem_singleton.mp hu] at huid ⊢
      rw [List.filter_append, List.filter_cons_of_pos (by simpa using huid), List.filter_nil,
        List.getLast?_concat]
  | put hk => exact pendingLast_set h hk
  | locate hk => exact pendingLast_set h hk
  | record hk => exact fun u hu => h u (List.mem_of_mem_eraseIdx hu)
  | fail => exact absurd hok id

theorem completes_of_waits (h : waits uid s e) : completes s e := by
  cases e with
  | record k user => exact h
  | fail k => exact h
  | _ => trivial

theorem lastInTurn_of_waits (hlast : PendingLast uid s) (h : waits uid s e) :
    lastInTurn uid s e := by
  cases e with
  | submit uid' => exact fun he => (h he).1
  | record k user =>
    intro u hu huid _ image hi
    rw [hlast u (List.mem_of_getElem? hu) huid] at hi
    cases hi
    rfl
  | _ => trivial

end LastPhotoLemmas

open LastPhotoLemmas

variable {bucket : Bucket} {db : RealtimeDb} {uid : String} {es : List (ReceiptEvent C)}
  {s : Receipts C}

/-- For all picks and presses of all users, who stay signed in, from any database, and in every
order in which the uploads, the lookups and the updates complete: whenever none of a user's uploads is pending the
photo is the URL of the image of the last Submit, and no Submit of the user finds no image, if
and only if the upload that is recorded last has the file name of the last one submitted, and
the user always has an image selected. -/
theorem last_photo_iff (hrun : run (receiptStep bucket) completes { db } es = some s) :
    (∀ n s₁, run (receiptStep bucket) completes { db } (es.take n) = some s₁ →
      s₁.LastPhoto bucket uid ∧ ∀ e, es[n]? = some e → s₁.ImageSelected uid e) ↔
    run (receiptStep bucket) (lastInTurn uid) { db } es = some s := by
  refine forall_run_iff_run (I := Located bucket) ?_ ?_ ?_ ?_ hrun
  · exact fun hloc _ _ hs => located_move hloc (receiptMove_of_step hs)
  · exact fun hloc h hdone hs => lastPhoto_move hloc h hdone (receiptMove_of_step hs)
  · exact fun u hu => absurd hu List.not_mem_nil
  · intro _ image hi
    cases hi

/-- In every run in which the user submits the next image only when the upload of the last one
is done: whenever none is pending, the photo is the URL of the last image. -/
theorem last_photo_of_waits (h : Reach (receiptStep bucket) (waits uid) { db } s) :
    s.LastPhoto bucket uid := by
  have hinv : Located bucket s ∧ PendingLast uid s ∧ s.LastPhoto bucket uid := by
    refine h.invariant (I := fun s => Located bucket s ∧ PendingLast uid s ∧ s.LastPhoto bucket uid)
      ⟨?_, ?_, ?_⟩ ?_
    · exact fun u hu => absurd hu List.not_mem_nil
    · exact fun u hu => absurd hu List.not_mem_nil
    · intro _ image hi
      cases hi
    · rintro s e s' - ⟨hloc, hlast, hphoto⟩ hok hs
      have hm := receiptMove_of_step hs
      have hmove := lastPhoto_move hloc hphoto (completes_of_waits hok) hm
      exact ⟨located_move hloc hm, pendingLast_move hlast hok hm,
        (hmove.mpr (lastInTurn_of_waits hlast hok)).2⟩
  exact hinv.2.2

/-- A user submits two images before the first is uploaded. -/
def twoImages : List (ReceiptEvent String) :=
  [.pick "u" (some ⟨"/u/IMG_0001.jpg", "taxi"⟩), .submit "u",
   .pick "u" (some ⟨"/u/IMG_0002.jpg", "hotel"⟩), .submit "u"]

/-- The second image is uploaded first and recorded last. -/
def lastRecordedLast : List (ReceiptEvent String) :=
  twoImages ++ [.put 1, .put 0, .locate 0, .record 0 (some "u"), .locate 0, .record 0 (some "u")]

theorem last_photo_recordedLast :
    ∃ s : Receipts String,
      run (receiptStep rootBucket) completes { db := fun _ => none } lastRecordedLast = some s ∧
      photoOf s.db "u" = some (.str "storage/IMG_0002.jpg") ∧
      ∀ n s₁, run (receiptStep rootBucket) completes { db := fun _ => none }
          (lastRecordedLast.take n) = some s₁ →
        s₁.LastPhoto rootBucket "u" ∧
          ∀ e, lastRecordedLast[n]? = some e → s₁.ImageSelected "u" e := by
  obtain ⟨s, hs, hphoto⟩ := exists_run (receiptStep rootBucket) completes
    { db := fun _ => none } lastRecordedLast
    (p := fun s => photoOf s.db "u" = some (.str "storage/IMG_0002.jpg")) (by decide)
  obtain ⟨s', hs'⟩ := Option.isSome_iff_exists.mp
    (show (run (receiptStep rootBucket) (lastInTurn "u") { db := fun _ => none }
      lastRecordedLast).isSome by decide)
  obtain rfl : s = s' := run_unique hs hs'
  exact ⟨s, hs, hphoto, (last_photo_iff hs).mpr hs'⟩

/-- The second image is recorded first, and then the user cancels a pick. The photo is the first
image, and the next Submit finds none. -/
theorem earlier_photo_stays :
    ∃ s : Receipts String,
      run (receiptStep rootBucket) completes { db := fun _ => none }
        (twoImages ++ [.put 0, .put 1, .locate 0, .locate 1, .record 1 (some "u"), .record 0 (some "u"),
          .pick "u" none]) = some s ∧
      photoOf s.db "u" = some (.str (rootBucket.url "IMG_0001.jpg")) ∧
      ¬ s.LastPhoto rootBucket "u" ∧ ¬ s.ImageSelected "u" (.submit "u") := by
  obtain ⟨s, hs, hphoto, hnone, hlast, hpicked⟩ := exists_run (receiptStep rootBucket) completes
    { db := fun _ => none }
    (twoImages ++ [.put 0, .put 1, .locate 0, .locate 1, .record 1 (some "u"),
      .record 0 (some "u"), .pick "u" none])
    (p := fun s => photoOf s.db "u" = some (.str (rootBucket.url "IMG_0001.jpg")) ∧
      "u" ∉ s.pending ∧ s.lastImage "u" = some ⟨"u", "IMG_0002.jpg", "hotel"⟩ ∧
      s.picked "u" = none) (by decide)
  refine ⟨s, hs, hphoto, fun h => ?_, fun h => h rfl hpicked⟩
  have hsame := hphoto.symm.trans (h hnone _ hlast)
  exact absurd hsame (by decide)

end ShainManager
