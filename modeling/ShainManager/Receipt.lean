import Mathlib.Logic.Function.Basic
import ShainManager.Lib.Counting
import ShainManager.Lib.Run
import ShainManager.Users

/-!
# Receipts

`lib/ui/receiptphoto.dart`. A user picks an image and presses Submit. `uploadPic` puts the
file at the root of the bucket under the basename of its path, awaits the upload, asks for
the download URL, and only then for the signed-in user, in whose `users/<uid>/photo` it
records the URL. The uploads of all users go on side by side, users sign in and out
meanwhile, and any upload may fail on the way.

Firebase Storage is a map from paths to contents, `putFile` replaces the content at its
path, and the download URL is determined by the path.

* `photos_own`: the runs in which the image at every recorded URL is one that its user
  submitted.
* `photo_replaced`: a run in which it is not.
* `not_photosOwn_record`: nor is it when the user has changed before the URL is recorded.
-/

namespace ShainManager

open Machine PathTree

variable {C : Type}

/-- `basename` of package path, and the download URL of a path in the bucket. -/
structure Bucket where
  basename : String → String
  url : String → String
  url_injective : Function.Injective url

structure ImageFile (C : Type) where
  path : String
  content : C
deriving DecidableEq, Repr

/-- How far an `uploadPic` has come. -/
inductive UploadStage
  | uploading
  | uploaded
  | located (url : String)
deriving DecidableEq, Repr

/-- An image that a user has submitted, by the name that it is stored under. -/
structure Submitted (C : Type) where
  uid : String
  fileName : String
  content : C
deriving DecidableEq, Repr

/-- A suspended `uploadPic`. -/
structure Upload (C : Type) where
  image : Submitted C
  stage : UploadStage
deriving DecidableEq, Repr

/-- `picked` is `_imageFile` of every user, `submitted` everything submitted so far. -/
structure Receipts (C : Type) where
  picked : String → Option (ImageFile C) := fun _ => none
  uploads : List (Upload C) := []
  storage : String → Option C := fun _ => none
  db : RealtimeDb := fun _ => none
  submitted : List (Submitted C) := []

def photoPath (uid : String) : List String := userPath uid ++ ["photo"]

/-- The entry `photo` of a user. -/
def photoOf (db : RealtimeDb) (uid : String) : Option Value := db (photoPath uid)

/-- `sendimageDatabase` from the end of its await, with the `uid` of the user that it got.
Without a user `user.uid` throws. -/
def sendimageDatabase (db : RealtimeDb) (uid : Option String) (url : String) : RealtimeDb :=
  match uid with
  | none => db
  | some uid => update (userPath uid) [("photo", some (.str url))] db

/-- * `pick`, `submit`: `captureImage` and a press of Submit, by a user;
* `put k`, `locate k`: the upload of `uploads[k]` is done, its URL has been looked up;
* `record k user`: `currentUser` of `sendimageDatabase` comes back with the user of that moment;
* `fail k`: a step of the upload has failed. -/
inductive ReceiptEvent (C : Type)
  | pick (uid : String) (imageFile : Option (ImageFile C))
  | submit (uid : String)
  | put (k : Nat)
  | locate (k : Nat)
  | record (k : Nat) (user : Option String)
  | fail (k : Nat)
deriving DecidableEq, Repr

def receiptStep (bucket : Bucket) (s : Receipts C) : ReceiptEvent C → Option (Receipts C)
  | .pick uid imageFile => some { s with picked := Function.update s.picked uid imageFile }
  | .submit uid =>
    match s.picked uid with
    -- `_imageFile.path` throws
    | none => some s
    | some file =>
      let image := { uid, fileName := bucket.basename file.path, content := file.content }
      some { s with
        uploads := s.uploads ++ [{ image, stage := .uploading }]
        submitted := s.submitted ++ [image] }
  | .put k =>
    match s.uploads[k]? with
    | some ⟨image, .uploading⟩ =>
      some { s with
        uploads := s.uploads.set k { image, stage := .uploaded }
        storage := Function.update s.storage image.fileName (some image.content) }
    | _ => none
  | .locate k =>
    match s.uploads[k]? with
    | some ⟨image, .uploaded⟩ =>
      some { s with
        uploads := s.uploads.set k { image, stage := .located (bucket.url image.fileName) } }
    | _ => none
  | .record k user =>
    match s.uploads[k]? with
    | some ⟨_, .located url⟩ =>
      some { s with
        db := sendimageDatabase s.db user url
        uploads := s.uploads.eraseIdx k }
    | _ => none
  | .fail k =>
    (s.uploads[k]?).map fun _ => { s with uploads := s.uploads.eraseIdx k }

/-- The image at every recorded URL is one that its user submitted. -/
def PhotosOwn (bucket : Bucket) (s : Receipts C) : Prop :=
  ∀ uid fileName, photoOf s.db uid = some (.str (bucket.url fileName)) →
    ∃ c, s.storage fileName = some c ∧ ∃ x ∈ s.submitted, x.uid = uid ∧ x.content = c

/-- Under one name, two users have the same image. -/
def Submitted.Agrees (x y : Submitted C) : Prop :=
  x.fileName = y.fileName → x.uid = y.uid ∨ x.content = y.content

/-- A user submits an image under a name that no other user has used for another image, and a
URL is recorded while nobody is signed in or a user who has submitted an image under its name. -/
def ownNames (bucket : Bucket) (s : Receipts C) : ReceiptEvent C → Prop
  | .submit uid => ∀ file ∈ s.picked uid, ∀ x ∈ s.submitted,
      x.Agrees { uid, fileName := bucket.basename file.path, content := file.content }
  | .record k user => ∀ u ∈ s.uploads[k]?, ∀ uid ∈ user,
      ∃ x ∈ s.submitted, x.uid = uid ∧ x.fileName = u.image.fileName
  | _ => True

instance [DecidableEq C] (x y : Submitted C) : Decidable (x.Agrees y) :=
  inferInstanceAs (Decidable (_ → _))

instance [DecidableEq C] (bucket : Bucket) (s : Receipts C) :
    ∀ e, Decidable (ownNames bucket s e)
  | .submit uid => inferInstanceAs (Decidable (∀ file ∈ s.picked uid, ∀ x ∈ s.submitted, _))
  | .record k user => inferInstanceAs (Decidable (∀ u ∈ s.uploads[k]?, ∀ uid ∈ user,
      ∃ x ∈ s.submitted, x.uid = uid ∧ x.fileName = u.image.fileName))
  | .pick _ _ | .put _ | .locate _ | .fail _ => .isTrue trivial

/-! ## What a step can do -/

inductive ReceiptMove (bucket : Bucket) : Receipts C → ReceiptEvent C → Receipts C → Prop
  | pick {s : Receipts C} {uid : String} {imageFile : Option (ImageFile C)} :
      ReceiptMove bucket s (.pick uid imageFile)
        { s with picked := Function.update s.picked uid imageFile }
  | throws {s : Receipts C} {uid : String} (hp : s.picked uid = none) :
      ReceiptMove bucket s (.submit uid) s
  | submit {s : Receipts C} {uid : String} {file : ImageFile C} (image : Submitted C)
      (hp : s.picked uid = some file)
      (hi : image = { uid, fileName := bucket.basename file.path, content := file.content }) :
      ReceiptMove bucket s (.submit uid)
        { s with
          uploads := s.uploads ++ [{ image, stage := .uploading }]
          submitted := s.submitted ++ [image] }
  | put {s : Receipts C} {k : Nat} {image : Submitted C}
      (hk : s.uploads[k]? = some ⟨image, .uploading⟩) :
      ReceiptMove bucket s (.put k)
        { s with
          uploads := s.uploads.set k { image, stage := .uploaded }
          storage := Function.update s.storage image.fileName (some image.content) }
  | locate {s : Receipts C} {k : Nat} {image : Submitted C}
      (hk : s.uploads[k]? = some ⟨image, .uploaded⟩) :
      ReceiptMove bucket s (.locate k)
        { s with
          uploads := s.uploads.set k { image, stage := .located (bucket.url image.fileName) } }
  | record {s : Receipts C} {k : Nat} {user : Option String} {image : Submitted C} {url : String}
      (hk : s.uploads[k]? = some ⟨image, .located url⟩) :
      ReceiptMove bucket s (.record k user)
        { s with
          db := sendimageDatabase s.db user url
          uploads := s.uploads.eraseIdx k }
  | fail {s : Receipts C} {k : Nat} :
      ReceiptMove bucket s (.fail k) { s with uploads := s.uploads.eraseIdx k }

theorem receiptMove_of_step {bucket : Bucket} {s s' : Receipts C} {e : ReceiptEvent C}
    (h : receiptStep bucket s e = some s') : ReceiptMove bucket s e s' := by
  cases e with
  | pick uid imageFile =>
    cases h
    exact .pick
  | submit uid =>
    simp only [receiptStep] at h
    split at h
    · next hp =>
      cases h
      exact .throws hp
    · next file hp =>
      cases h
      exact .submit _ hp rfl
  | put k =>
    simp only [receiptStep] at h
    split at h
    · next image hk =>
      cases h
      exact .put hk
    · cases h
  | locate k =>
    simp only [receiptStep] at h
    split at h
    · next image hk =>
      cases h
      exact .locate hk
    · cases h
  | record k user =>
    simp only [receiptStep] at h
    split at h
    · next image url hk =>
      cases h
      exact .record hk
    · cases h
  | fail k =>
    obtain ⟨u, -, rfl⟩ := Option.map_eq_some_iff.mp h
    exact .fail

/-! ## The photo of a user -/

namespace ReceiptLemmas

theorem photoOf_sendimageDatabase (db : RealtimeDb) (uid url : String) :
    photoOf (sendimageDatabase db (some uid) url) uid = some (.str url) := by
  show write (photoPath uid) (some (.str url)) db (photoPath uid) = _
  simp [write]

theorem apart_photoPath {uid uid' : String} (h : uid ≠ uid') :
    Apart (photoPath uid) (photoPath uid') :=
  ((apart_snoc ["users"] h).append_left _).append_right _

theorem photoOf_sendimageDatabase_other (db : RealtimeDb) {user : Option String} {uid : String}
    (h : user ≠ some uid) (url : String) :
    photoOf (sendimageDatabase db user url) uid = photoOf db uid := by
  cases user with
  | none => rfl
  | some uid' => exact write_of_apart (apart_photoPath fun he => h (congrArg some he))

/-! ## The invariant -/

variable {bucket : Bucket} {s s' : Receipts C}

/-- What is known of a suspended upload. -/
structure UploadOk (bucket : Bucket) (storage : String → Option C) (submitted : List (Submitted C))
    (u : Upload C) : Prop where
  mem : u.image ∈ submitted
  stored : u.stage ≠ .uploading → ∃ c, storage u.image.fileName = some c
  located : ∀ url, u.stage = .located url → url = bucket.url u.image.fileName

structure OwnImages (bucket : Bucket) (s : Receipts C) : Prop where
  uploads : ∀ u ∈ s.uploads, UploadOk bucket s.storage s.submitted u
  storage : ∀ fileName c, s.storage fileName = some c →
    ∃ x ∈ s.submitted, x.fileName = fileName ∧ x.content = c
  photos : ∀ uid fileName, photoOf s.db uid = some (.str (bucket.url fileName)) →
    (∃ c, s.storage fileName = some c) ∧ ∃ x ∈ s.submitted, x.uid = uid ∧ x.fileName = fileName
  agree : ∀ x ∈ s.submitted, ∀ y ∈ s.submitted, x.Agrees y

/-- The invariant is enough: the stored image is one of two submitted under its name. -/
theorem OwnImages.photosOwn (h : OwnImages bucket s) : PhotosOwn bucket s := by
  intro uid fileName hphoto
  obtain ⟨⟨c, hc⟩, x, hx, hxuid, hxname⟩ := h.photos uid fileName hphoto
  refine ⟨c, hc, ?_⟩
  obtain ⟨y, hy, hyname, hycontent⟩ := h.storage fileName c hc
  rcases h.agree x hx y hy (hxname.trans hyname.symm) with huid | hcontent
  · exact ⟨y, hy, huid.symm.trans hxuid, hycontent⟩
  · exact ⟨x, hx, hxuid, hcontent.trans hycontent⟩

theorem agrees_symm {x y : Submitted C} (h : x.Agrees y) : y.Agrees x := by
  intro hname
  exact (h hname.symm).imp Eq.symm Eq.symm

/-- More images, and no path emptied. -/
theorem UploadOk.mono {storage storage' : String → Option C}
    {submitted submitted' : List (Submitted C)} {u : Upload C}
    (h : UploadOk bucket storage submitted u) (hsub : ∀ x ∈ submitted, x ∈ submitted')
    (hstore : ∀ fileName c, storage fileName = some c → ∃ c', storage' fileName = some c') :
    UploadOk bucket storage' submitted' u := by
  refine ⟨hsub _ h.mem, fun hs => ?_, h.located⟩
  obtain ⟨c, hc⟩ := h.stored hs
  exact hstore _ c hc

theorem ownImages_submit {image : Submitted C} (h : OwnImages bucket s)
    (hagree : ∀ x ∈ s.submitted, x.Agrees image) :
    OwnImages bucket { s with
      uploads := s.uploads ++ [{ image, stage := .uploading }]
      submitted := s.submitted ++ [image] } := by
  have hold : ∀ x ∈ s.submitted, x ∈ s.submitted ++ [image] := fun x hx =>
    List.mem_append_left _ hx
  have hnew : image ∈ s.submitted ++ [image] := List.mem_append_right _ (List.mem_singleton.mpr rfl)
  refine ⟨?_, ?_, ?_, ?_⟩
  · intro u hu
    rcases List.mem_append.mp hu with hu | hu
    · exact (h.uploads u hu).mono hold fun _ c hc => ⟨c, hc⟩
    · rw [List.mem_singleton.mp hu]
      exact ⟨hnew, fun hs => absurd rfl hs, fun url hurl => by cases hurl⟩
  · intro fileName c hc
    obtain ⟨x, hx, hxc⟩ := h.storage fileName c hc
    exact ⟨x, hold x hx, hxc⟩
  · intro uid fileName hphoto
    obtain ⟨hc, x, hx, hxu⟩ := h.photos uid fileName hphoto
    exact ⟨hc, x, hold x hx, hxu⟩
  · refine Counting.forall_pairs_snoc (fun _ _ => agrees_symm) h.agree hagree ?_
    exact fun _ => .inl rfl

theorem ownImages_put {k : Nat} {image : Submitted C} (h : OwnImages bucket s)
    (hk : s.uploads[k]? = some ⟨image, .uploading⟩) :
    OwnImages bucket { s with
      uploads := s.uploads.set k { image, stage := .uploaded }
      storage := Function.update s.storage image.fileName (some image.content) } := by
  have himage := (h.uploads _ (List.mem_of_getElem? hk)).mem
  have hstored : Function.update s.storage image.fileName (some image.content) image.fileName =
      some image.content := Function.update_self ..
  have hkept : ∀ fileName c, s.storage fileName = some c →
      ∃ c', Function.update s.storage image.fileName (some image.content) fileName = some c' := by
    intro fileName c hc
    rcases eq_or_ne fileName image.fileName with rfl | hne
    · exact ⟨_, hstored⟩
    · exact ⟨c, by rw [Function.update_of_ne hne, hc]⟩
  refine ⟨?_, ?_, ?_, h.agree⟩
  · intro u hu
    rcases List.mem_or_eq_of_mem_set hu with hu | rfl
    · exact (h.uploads u hu).mono (fun x hx => hx) hkept
    · exact ⟨himage, fun _ => ⟨_, hstored⟩, fun url hurl => by cases hurl⟩
  · intro fileName c hc
    dsimp only at hc
    rcases eq_or_ne fileName image.fileName with rfl | hne
    · rw [hstored] at hc
      cases hc
      exact ⟨image, himage, rfl, rfl⟩
    · rw [Function.update_of_ne hne] at hc
      exact h.storage fileName c hc
  · intro uid fileName hphoto
    obtain ⟨⟨c, hc⟩, hx⟩ := h.photos uid fileName hphoto
    exact ⟨hkept fileName c hc, hx⟩

theorem ownImages_locate {k : Nat} {image : Submitted C} (h : OwnImages bucket s)
    (hk : s.uploads[k]? = some ⟨image, .uploaded⟩) :
    OwnImages bucket { s with
      uploads := s.uploads.set k { image, stage := .located (bucket.url image.fileName) } } := by
  have hok := h.uploads _ (List.mem_of_getElem? hk)
  refine ⟨?_, h.storage, h.photos, h.agree⟩
  intro u hu
  rcases List.mem_or_eq_of_mem_set hu with hu | rfl
  · exact h.uploads u hu
  · refine ⟨hok.mem, fun _ => hok.stored nofun, ?_⟩
    intro url hurl
    cases hurl
    rfl

theorem ownImages_record {k : Nat} {user : Option String} {image : Submitted C} {url : String}
    (h : OwnImages bucket s) (hok : ownNames bucket s (.record k user))
    (hk : s.uploads[k]? = some ⟨image, .located url⟩) :
    OwnImages bucket { s with
      db := sendimageDatabase s.db user url
      uploads := s.uploads.eraseIdx k } := by
  have hupload := h.uploads _ (List.mem_of_getElem? hk)
  refine ⟨fun u hu => h.uploads u (List.mem_of_mem_eraseIdx hu), h.storage, ?_, h.agree⟩
  intro uid fileName hphoto
  by_cases huser : user = some uid
  · -- the URL that was recorded is that of the uploaded file
    subst huser
    rw [photoOf_sendimageDatabase, hupload.located url rfl] at hphoto
    obtain rfl : image.fileName = fileName :=
      bucket.url_injective (Value.str.inj (Option.some.inj hphoto))
    exact ⟨hupload.stored nofun, hok _ hk uid rfl⟩
  · rw [photoOf_sendimageDatabase_other _ huser] at hphoto
    exact h.photos uid fileName hphoto

theorem ownImages_move {e : ReceiptEvent C} (h : OwnImages bucket s) (hok : ownNames bucket s e)
    (hm : ReceiptMove bucket s e s') : OwnImages bucket s' := by
  cases hm with
  | pick => exact ⟨h.uploads, h.storage, h.photos, h.agree⟩
  | throws => exact h
  | submit image hp hi =>
    subst hi
    exact ownImages_submit h (hok _ hp)
  | put hk => exact ownImages_put h hk
  | locate hk => exact ownImages_locate h hk
  | record hk => exact ownImages_record h hok hk
  | fail =>
    exact ⟨fun u hu => h.uploads u (List.mem_of_mem_eraseIdx hu), h.storage, h.photos, h.agree⟩

end ReceiptLemmas

open ReceiptLemmas

/-- The users have recorded no photo yet. -/
def NoPhotos (bucket : Bucket) (db : RealtimeDb) : Prop :=
  ∀ uid fileName, photoOf db uid ≠ some (.str (bucket.url fileName))

/-- From any database without photos, in every run in which no user submits an image under a
name that another has used for another image, and no URL is recorded for a user who has
submitted nothing under its name: the image at every recorded URL is one that its user
submitted. -/
theorem photos_own {bucket : Bucket} {db : RealtimeDb} (hdb : NoPhotos bucket db) {s : Receipts C}
    (h : Reach (receiptStep bucket) (ownNames bucket) { db } s) : PhotosOwn bucket s := by
  have hinv : OwnImages bucket s := by
    refine h.invariant ⟨?_, ?_, ?_, ?_⟩ fun _ hi hok hs =>
      ownImages_move hi hok (receiptMove_of_step hs)
    · intro u hu
      exact absurd hu List.not_mem_nil
    · intro fileName c hc
      cases hc
    · intro uid fileName hphoto
      exact absurd hphoto (hdb uid fileName)
    · intro x hx
      exact absurd hx List.not_mem_nil
  exact hinv.photosOwn

/-- If the user who is signed in when a URL is recorded has submitted nothing like the image
there, the photo of that user leads to an image of another. -/
theorem not_photosOwn_record {bucket : Bucket} {s s' : Receipts C} {k : Nat} {uid : String}
    {image : Submitted C}
    (hk : s.uploads[k]? = some ⟨image, .located (bucket.url image.fileName)⟩)
    (hforeign : ∀ x ∈ s.submitted, x.uid = uid → s.storage image.fileName ≠ some x.content)
    (hs : receiptStep bucket s (.record k (some uid)) = some s') : ¬ PhotosOwn bucket s' := by
  simp only [receiptStep, hk, Option.some.injEq] at hs
  subst hs
  intro h
  obtain ⟨c, hc, x, hx, huid, hcontent⟩ :=
    h uid image.fileName (photoOf_sendimageDatabase s.db uid (bucket.url image.fileName))
  exact hforeign x hx huid (hcontent ▸ hc)

/-- The part of a path after its last separator, and a URL that names the file. -/
def rootBucket : Bucket where
  basename path :=
    String.ofList ((path.toList.reverse.dropWhile (· == '/')).takeWhile (· != '/')).reverse
  url fileName := "storage/" ++ fileName
  url_injective := by
    intro a b h
    have hlist := congrArg String.toList h
    rw [String.toList_append, String.toList_append] at hlist
    exact String.toList_injective (List.append_cancel_left hlist)

theorem noPhotos_empty : NoPhotos rootBucket fun _ => none := by
  intro uid fileName h
  cases h

/-- Two users submit the images at two paths, one after the other; the first has recorded
its photo before the second has uploaded. -/
def twoReceipts (path path' : String) : List (ReceiptEvent String) :=
  [.pick "u" (some ⟨path, "taxi"⟩), .submit "u", .put 0, .locate 0, .record 0 (some "u"),
   .pick "v" (some ⟨path', "hotel"⟩), .submit "v", .put 0]

theorem photos_own_camera :
    ∃ s : Receipts String,
      Reach (receiptStep rootBucket) (ownNames rootBucket) { db := fun _ => none } s ∧
      photoOf s.db "u" = some (.str "storage/IMG_0001.jpg") ∧ PhotosOwn rootBucket s := by
  obtain ⟨s, hr, hp⟩ := exists_reach_of_run (receiptStep rootBucket) (ownNames rootBucket)
    { db := fun _ => none } (twoReceipts "/u/IMG_0001.jpg" "/v/IMG_0002.jpg")
    (p := fun s => photoOf s.db "u" = some (.str "storage/IMG_0001.jpg")) (by decide)
  exact ⟨s, hr, hp, photos_own noPhotos_empty hr⟩

/-- Two phones number their pictures alike. The second upload replaces the image that the
photo of the first user leads to. -/
theorem photo_replaced :
    ∃ s : Receipts String,
      Reach (receiptStep rootBucket) anyStep { db := fun _ => none } s ∧
      photoOf s.db "u" = some (.str (rootBucket.url "IMG_0001.jpg")) ∧
      s.storage "IMG_0001.jpg" = some "hotel" ∧ ¬ PhotosOwn rootBucket s := by
  obtain ⟨s, hr, hphoto, hstorage, hsubmitted⟩ := exists_reach_of_run (receiptStep rootBucket)
    anyStep { db := fun _ => none } (twoReceipts "/u/IMG_0001.jpg" "/v/IMG_0001.jpg")
    (p := fun s => photoOf s.db "u" = some (.str (rootBucket.url "IMG_0001.jpg")) ∧
      s.storage "IMG_0001.jpg" = some "hotel" ∧
      s.submitted = [⟨"u", "IMG_0001.jpg", "taxi"⟩, ⟨"v", "IMG_0001.jpg", "hotel"⟩]) (by decide)
  refine ⟨s, hr, hphoto, hstorage, ?_⟩
  intro h
  obtain ⟨c, hc, x, hx, huid, hcontent⟩ := h "u" "IMG_0001.jpg" hphoto
  cases hstorage.symm.trans hc
  rw [hsubmitted] at hx
  have hnone : ∀ x ∈ [(⟨"u", "IMG_0001.jpg", "taxi"⟩ : Submitted String),
      ⟨"v", "IMG_0001.jpg", "hotel"⟩], ¬ (x.uid = "u" ∧ x.content = "hotel") := by decide
  exact hnone x hx ⟨huid, hcontent⟩

end ShainManager
