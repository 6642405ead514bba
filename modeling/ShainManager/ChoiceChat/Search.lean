import Mathlib.Data.List.DropRight
import ShainManager.ChoiceChat.Page
import ShainManager.Lib.Counting

/-!
# The user search

`fillout` filters the list that is shown, which earlier texts have filtered already; only the
empty text brings the others back. The download fills the list whatever has been typed.

* `search_iff`: the list shown is the one of the current text, in terms of the texts typed
  since the download or since the field was last empty.
* `shorter_text_hides`: two texts after which it is not.
-/

namespace ShainManager

/-- The name of the user contains the text. -/
def UserList.Contains (u : UserList) (query : String) : Prop :=
  ∃ username ∈ u.username, ShainManager.Contains username query

instance (u : UserList) (query : String) : Decidable (u.Contains query) :=
  inferInstanceAs (Decidable (∃ _ ∈ u.username, _))

/-- The users that a search text should show. -/
def matching (query : String) (users : List UserList) : List UserList :=
  if query = "" then users else users.filter fun u => decide (u.Contains query)

/-- The page after the texts `before`, the download of `datas` and the texts `later`. -/
def searched (before : List String) (datas : List Profile) (later : List String) : ChoicePage :=
  later.foldl ChoicePage.fillout ((before.foldl ChoicePage.fillout {}).onUsers datas)

/-- The text in the field. -/
def currentText (before later : List String) : String := (before ++ later).getLast?.getD ""

/-- The texts since the field was last empty. -/
def sinceEmpty (later : List String) : List String := later.rtakeWhile fun query => query ≠ ""

/-- The field is empty, or every user has a name and no name with the current text lacks one of
the texts since the field was last empty; when nothing has been typed since the download,
every name has the current text. -/
def NothingHidden (users : List UserList) (before later : List String) : Prop :=
  currentText before later = "" ∨
    (∀ u ∈ users, u.username ≠ none) ∧
    (∀ u ∈ users, u.Contains (currentText before later) → ∀ query ∈ sinceEmpty later, u.Contains query) ∧
    (later = [] → ∀ u ∈ users, u.Contains (currentText before later))

namespace SearchLemmas

variable {users : List UserList} {query : String}

/-! ## One search -/

/-- One user in the loop. -/
theorem dummyListData_snoc (query : String) (items : List UserList) (item : UserList) :
    dummyListData query (items ++ [item]) =
      (dummyListData query items).bind fun acc => item.username.map fun username =>
        if Contains username query then acc ++ [item] else acc := by
  unfold dummyListData
  rw [List.foldlM_append]
  congr 1
  funext acc
  cases hname : item.username with
  | none => simp [hname]
  | some username => simp [hname]

theorem contains_iff {u : UserList} {username : String} (h : u.username = some username) :
    u.Contains query ↔ ShainManager.Contains username query := by
  unfold UserList.Contains
  rw [h]
  simp

/-- With all names there, the loop collects the users whose name contains the text. -/
theorem dummyListData_eq (h : ∀ u ∈ users, u.username ≠ none) :
    dummyListData query users = some (users.filter fun u => decide (u.Contains query)) := by
  induction users using List.reverseRecOn with
  | nil => rfl
  | append_singleton users u ih =>
    obtain ⟨username, hname⟩ := Option.ne_none_iff_exists'.mp
      (h u (List.mem_append_right _ (List.mem_singleton.mpr rfl)))
    rw [dummyListData_snoc, ih fun v hv => h v (List.mem_append_left _ hv), hname,
      List.filter_append]
    by_cases hc : Contains username query
    · have hu : u.Contains query := (contains_iff hname).mpr hc
      simp [hc, hu]
    · have hu : ¬ u.Contains query := fun hu => hc ((contains_iff hname).mp hu)
      simp [hc, hu]

/-- A missing name makes the loop throw. -/
theorem dummyListData_eq_none (h : ∃ u ∈ users, u.username = none) :
    dummyListData query users = none := by
  induction users using List.reverseRecOn with
  | nil => simp at h
  | append_singleton users u ih =>
    rw [dummyListData_snoc]
    obtain ⟨v, hv, hname⟩ := h
    rcases List.mem_append.mp hv with hv | hv
    · rw [ih ⟨v, hv, hname⟩]
      rfl
    · obtain rfl := List.mem_singleton.mp hv
      rw [hname]
      cases dummyListData query users with
      | none => rfl
      | some acc => rfl

variable {p : ChoicePage}

theorem fillout_empty (p : ChoicePage) : p.fillout "" = { p with listdata := p.listdataback } := rfl

theorem fillout_found {found : List UserList} (hq : query ≠ "")
    (h : dummyListData query p.listdata = some found) :
    p.fillout query = { p with listdata := found } := by
  unfold ChoicePage.fillout
  rw [if_pos hq, h]

theorem fillout_throws (hq : query ≠ "") (h : dummyListData query p.listdata = none) :
    p.fillout query = p := by
  unfold ChoicePage.fillout
  rw [if_pos hq, h]

/-! ## Many searches -/

theorem fillout_listdataback (p : ChoicePage) (query : String) :
    (p.fillout query).listdataback = p.listdataback := by
  unfold ChoicePage.fillout
  split
  · split
    · rfl
    · rfl
  · rfl

theorem foldl_listdataback (p : ChoicePage) (queries : List String) :
    (queries.foldl ChoicePage.fillout p).listdataback = p.listdataback := by
  induction queries generalizing p with
  | nil => rfl
  | cons query queries ih =>
    rw [List.foldl_cons, ih, fillout_listdataback]

/-- Before the download there is nobody to find. -/
theorem foldl_empty (queries : List String) : (queries.foldl ChoicePage.fillout {}).listdata = [] := by
  induction queries using List.reverseRecOn with
  | nil => rfl
  | append_singleton queries query ih =>
    rw [List.foldl_append, List.foldl_cons, List.foldl_nil]
    rcases eq_or_ne query "" with rfl | hq
    · rw [fillout_empty]
      exact foldl_listdataback {} queries
    · have hnobody : dummyListData query (queries.foldl ChoicePage.fillout {}).listdata = some [] := by
        rw [ih]
        rfl
      rw [fillout_found hq hnobody]

/-- The download fills both lists, whatever has been typed. -/
theorem onUsers_eq (before : List String) (datas : List Profile) :
    ((before.foldl ChoicePage.fillout {}).onUsers datas).listdata = usersOf datas ∧
      ((before.foldl ChoicePage.fillout {}).onUsers datas).listdataback = usersOf datas := by
  have hempty := foldl_empty before
  have hback := foldl_listdataback {} before
  unfold ChoicePage.onUsers
  rw [if_pos (by rw [hempty]; rfl)]
  obtain ⟨hlist, hlistback⟩ := addUsers_eq (before.foldl ChoicePage.fillout {}) datas
  rw [hlist, hlistback, hempty, hback]
  exact ⟨rfl, rfl⟩

/-- With all names there, the list holds the users whose names contain every text since the
field was last empty. -/
theorem foldl_named (hnames : ∀ u ∈ p.listdataback, u.username ≠ none)
    (hp : p.listdata = p.listdataback) (later : List String) :
    (later.foldl ChoicePage.fillout p).listdata =
      p.listdataback.filter fun u => decide (∀ query ∈ sinceEmpty later, u.Contains query) := by
  induction later using List.reverseRecOn with
  | nil => simp [sinceEmpty, hp]
  | append_singleton later query ih =>
    rw [List.foldl_append, List.foldl_cons, List.foldl_nil]
    rcases eq_or_ne query "" with rfl | hq
    · have hsince : sinceEmpty (later ++ [""]) = [] :=
        List.rtakeWhile_concat_neg _ _ _ (by decide)
      rw [fillout_empty, hsince]
      simpa using foldl_listdataback p later
    · have hsince : sinceEmpty (later ++ [query]) = sinceEmpty later ++ [query] :=
        List.rtakeWhile_concat_pos _ _ _ (by simpa using hq)
      have hshown : ∀ u ∈ (later.foldl ChoicePage.fillout p).listdata, u.username ≠ none := by
        intro u hu
        rw [ih] at hu
        exact hnames u (List.mem_filter.mp hu).1
      rw [fillout_found hq (dummyListData_eq hshown), hsince]
      dsimp only
      rw [ih, List.filter_filter]
      refine List.filter_congr fun u _ => ?_
      rw [← Bool.decide_and]
      refine decide_eq_decide.mpr ?_
      rw [List.forall_mem_append, List.forall_mem_singleton, and_comm]

/-- A user without a name keeps the list from ever being filtered. -/
theorem foldl_unnamed (hname : ∃ u ∈ p.listdataback, u.username = none)
    (hp : p.listdata = p.listdataback) (later : List String) :
    (later.foldl ChoicePage.fillout p).listdata = p.listdataback := by
  induction later using List.reverseRecOn with
  | nil => exact hp
  | append_singleton later query ih =>
    rw [List.foldl_append, List.foldl_cons, List.foldl_nil]
    rcases eq_or_ne query "" with rfl | hq
    · rw [fillout_empty]
      exact foldl_listdataback p later
    · rw [fillout_throws hq (by rw [ih]; exact dummyListData_eq_none hname)]
      exact ih

/-! ## The text in the field -/

theorem currentText_snoc (before later : List String) (query : String) :
    currentText before (later ++ [query]) = query := by
  unfold currentText
  rw [← List.append_assoc, List.getLast?_concat]
  rfl

theorem sinceEmpty_of_currentText {before later : List String} (h : currentText before later = "") :
    sinceEmpty later = [] := by
  induction later using List.reverseRecOn with
  | nil => rfl
  | append_singleton later query =>
    rw [currentText_snoc] at h
    exact List.rtakeWhile_concat_neg _ _ _ (by simpa using h)

/-- A text that was typed after the download is one of those since the field was empty. -/
theorem currentText_mem {before later : List String} (hne : later ≠ [])
    (h : currentText before later ≠ "") : currentText before later ∈ sinceEmpty later := by
  induction later using List.reverseRecOn with
  | nil => exact absurd rfl hne
  | append_singleton later query =>
    rw [currentText_snoc] at h ⊢
    have hsince : sinceEmpty (later ++ [query]) = sinceEmpty later ++ [query] :=
      List.rtakeWhile_concat_pos _ _ _ (by simpa using h)
    rw [hsince]
    exact List.mem_append_right _ (List.mem_singleton.mpr rfl)

/-- The users that contain all texts since the field was empty are those that contain the
current one. -/
theorem since_iff_current {before later : List String} (h : currentText before later ≠ "") :
    (∀ u ∈ users, ((∀ query ∈ sinceEmpty later, u.Contains query) ↔
        u.Contains (currentText before later))) ↔
      (∀ u ∈ users, u.Contains (currentText before later) →
          ∀ query ∈ sinceEmpty later, u.Contains query) ∧
        (later = [] → ∀ u ∈ users, u.Contains (currentText before later)) := by
  constructor
  · intro hiff
    refine ⟨fun u hu => (hiff u hu).mpr, fun hlater u hu => (hiff u hu).mp ?_⟩
    rw [hlater]
    exact fun query hq => absurd hq List.not_mem_nil
  · rintro ⟨hall, hnone⟩ u hu
    refine ⟨fun hsince => ?_, hall u hu⟩
    rcases eq_or_ne later [] with hlater | hlater
    · exact hnone hlater u hu
    · exact hsince _ (currentText_mem hlater h)

end SearchLemmas

open SearchLemmas

/-- For all profiles and all texts typed before and after the download: the list shown is that
of the current text if and only if `NothingHidden` holds of the users and the texts. -/
theorem search_iff (before : List String) (datas : List Profile) (later : List String) :
    (searched before datas later).listdata =
        matching (currentText before later) (searched before datas later).listdataback ↔
      NothingHidden (usersOf datas) before later := by
  obtain ⟨hlist, hback⟩ := onUsers_eq before datas
  have hkept : (searched before datas later).listdataback = usersOf datas := by
    unfold searched
    rw [foldl_listdataback, hback]
  rw [hkept]
  by_cases hnames : ∀ u ∈ usersOf datas, u.username ≠ none
  · have hshown : (searched before datas later).listdata =
        (usersOf datas).filter fun u => decide (∀ query ∈ sinceEmpty later, u.Contains query) := by
      unfold searched
      rw [foldl_named (by rw [hback]; exact hnames) (hlist.trans hback.symm), hback]
    rw [hshown]
    rcases eq_or_ne (currentText before later) "" with hcur | hcur
    · refine iff_of_true ?_ (.inl hcur)
      rw [matching, if_pos hcur, sinceEmpty_of_currentText hcur]
      simp
    · rw [matching, if_neg hcur, Counting.filter_eq_filter_iff, since_iff_current hcur]
      exact ⟨fun h => .inr ⟨hnames, h⟩, fun h => (h.resolve_left hcur).2⟩
  · -- nothing is ever filtered
    obtain ⟨u, hu, hname⟩ : ∃ u ∈ usersOf datas, u.username = none := by simpa using hnames
    have hshown : (searched before datas later).listdata = usersOf datas := by
      unfold searched
      rw [foldl_unnamed (by rw [hback]; exact ⟨u, hu, hname⟩) (hlist.trans hback.symm), hback]
    rw [hshown]
    rcases eq_or_ne (currentText before later) "" with hcur | hcur
    · refine iff_of_true ?_ (.inl hcur)
      rw [matching, if_pos hcur]
    · refine iff_of_false ?_ fun h => (h.resolve_left hcur).1 u hu hname
      rw [matching, if_neg hcur]
      intro heq
      rw [heq] at hu
      obtain ⟨username, hmem, -⟩ := of_decide_eq_true (List.mem_filter.mp hu).2
      rw [hname] at hmem
      cases hmem

/-- Profiles with the names 田中 and 田村. -/
def twoProfiles : List Profile :=
  ["田中", "田村"].map fun name entry => if entry = "name" then some (.str name) else none

/-- 田中 is typed and then shortened to 田. The page still hides 田村. -/
theorem shorter_text_hides :
    (searched [] twoProfiles ["田中", "田"]).listdata.map UserList.username = [some "田中"] ∧
      (searched [] twoProfiles ["田中", "田"]).listdata ≠
        matching (currentText [] ["田中", "田"])
          (searched [] twoProfiles ["田中", "田"]).listdataback := by
  decide

end ShainManager
