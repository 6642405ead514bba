import ShainManager.Connectivity
import ShainManager.Lib.Run

/-!
# The last connectivity result

Results come to `_updateConnectionStatus` from the stream and from `initConnectivity`.
They are numbered from 0 in the order in which they are delivered, and the suspended
`wifi` handlers go on in any order. The handler that ends last has the last word, whatever
has been delivered since it started.

* `last_event_wins`: the runs in which the fields describe the newest result whenever no
  handler is suspended.
* `older_handler_wins`: a run in which they do not.
-/

namespace ShainManager

open Machine

inductive NetEvent
  | deliver (r : ConnectivityResult)
  | resume (k : Nat) (a : PlatformAnswer)
deriving DecidableEq, Repr

/-- The fields with the results delivered so far. `serials` are the numbers of the results
of the suspended handlers, `wrote` is the number of the result whose handler wrote last. -/
structure Numbered where
  net : Net := {}
  results : List ConnectivityResult := []
  serials : List Nat := []
  wrote : Option Nat := none
deriving DecidableEq, Repr

/-- The next answer ends the handler `k`. -/
def Net.completes (n : Net) (k : Nat) : Bool :=
  match n.handlers[k]? with
  | some (.wifiIP _ _) => true
  | _ => false

def netStep (s : Numbered) : NetEvent → Option Numbered
  | .deliver .wifi =>
    some { s with
      net := s.net.updateConnectionStatus (some .wifi)
      results := s.results ++ [.wifi]
      serials := s.serials ++ [s.results.length] }
  | .deliver r =>
    some { s with
      net := s.net.updateConnectionStatus (some r)
      results := s.results ++ [r]
      wrote := some s.results.length }
  | .resume k a =>
    (s.net.resume k a).map fun n =>
      if s.net.completes k then
        { s with net := n, serials := s.serials.eraseIdx k, wrote := s.serials[k]? }
      else { s with net := n }

/-- The fields are what the result has them be. -/
def Net.Shows (n : Net) : ConnectivityResult → Prop
  | .wifi => ∃ name bssid, n.connectionStatus = wifiStatus name bssid n.idwifi
  | r => n.connectionStatus = r.toString ∧ n.idwifi = some r.toString

/-- The fields describe the newest result: its handler wrote them. -/
def Numbered.Describes (s : Numbered) : Prop :=
  ∀ r, s.results.getLast? = some r → s.net.Shows r ∧ s.wrote = some (s.results.length - 1)

/-- A `mobile` or `none` result is delivered while no handler is suspended, and the handler
that started last ends when it is the only one. -/
def newestEndsLast (s : Numbered) : NetEvent → Prop
  | .deliver .wifi => True
  | .deliver _ => s.net.handlers = []
  | .resume k _ =>
    s.net.completes k = true → k + 1 = s.net.handlers.length → s.net.handlers.length = 1

instance (s : Numbered) : ∀ e, Decidable (newestEndsLast s e)
  | .deliver .wifi => .isTrue trivial
  | .deliver .mobile => inferInstanceAs (Decidable (_ = _))
  | .deliver .none => inferInstanceAs (Decidable (_ = _))
  | .resume _ _ => inferInstanceAs (Decidable (_ → _ → _))

/-! ## One step -/

namespace LastResultLemmas

variable {s s' : Numbered}

/-- What an answer does: it moves the handler on, or ends it. -/
theorem resume_cases {n n' : Net} {k : Nat} {a : PlatformAnswer} (h : n.resume k a = some n') :
    k < n.handlers.length ∧
      ((n.completes k = false ∧ ∃ w, n' = { n with handlers := n.handlers.set k w }) ∨
       (n.completes k = true ∧ n'.Shows .wifi ∧ n'.handlers = n.handlers.eraseIdx k)) := by
  unfold Net.resume at h
  unfold Net.completes
  split at h
  · cases h
  · next hk =>
    cases h
    rw [hk]
    exact ⟨(List.getElem?_eq_some_iff.mp hk).1, .inl ⟨rfl, _, rfl⟩⟩
  · next name hk =>
    cases h
    rw [hk]
    exact ⟨(List.getElem?_eq_some_iff.mp hk).1, .inl ⟨rfl, _, rfl⟩⟩
  · next name bssid hk =>
    cases h
    rw [hk]
    exact ⟨(List.getElem?_eq_some_iff.mp hk).1, .inr ⟨rfl, ⟨name, bssid, rfl⟩, rfl⟩⟩

theorem getLast?_eraseIdx {α : Type} {l : List α} {k : Nat} (h : k + 1 < l.length) :
    (l.eraseIdx k).getLast? = l.getLast? := by
  have hlen : (l.eraseIdx k).length = l.length - 1 := List.length_eraseIdx_of_lt (by omega)
  rw [List.getLast?_eq_getElem?, List.getLast?_eq_getElem?, hlen,
    List.getElem?_eraseIdx_of_ge (by omega)]
  congr 1
  omega

/-- The handler of the newest result is the last one to end. -/
structure NewestLast (s : Numbered) : Prop where
  length : s.serials.length = s.net.handlers.length
  idle : s.net.handlers = [] → s.Describes
  busy : s.net.handlers ≠ [] →
    s.results.getLast? = some .wifi ∧ s.serials.getLast? = some (s.results.length - 1)

theorem newestLast_deliver_wifi (hinv : NewestLast s) :
    NewestLast { s with
      net := s.net.updateConnectionStatus (some .wifi)
      results := s.results ++ [.wifi]
      serials := s.serials ++ [s.results.length] } := by
  refine ⟨?_, ?_, ?_⟩
  · simp [Net.updateConnectionStatus, hinv.length]
  · intro h
    exact absurd h (by simp [Net.updateConnectionStatus])
  · intro _
    simp

/-- A result that is written at once, while no handler is suspended. -/
theorem newestLast_written {r : ConnectivityResult} {n : Net} (hinv : NewestLast s)
    (hidle : s.net.handlers = []) (hn : n.handlers = s.net.handlers) (hshows : n.Shows r) :
    NewestLast { s with
      net := n, results := s.results ++ [r], wrote := some s.results.length } := by
  refine ⟨hinv.length.trans (congrArg List.length hn.symm), ?_, ?_⟩
  · intro _ r' hr'
    rw [List.getLast?_concat] at hr'
    cases hr'
    refine ⟨hshows, ?_⟩
    simp
  · intro h
    exact absurd (hn.trans hidle) h

theorem newestLast_resume {k : Nat} {a : PlatformAnswer} (hinv : NewestLast s)
    (hok : newestEndsLast s (.resume k a)) (hs : netStep s (.resume k a) = some s') : NewestLast s' := by
  obtain ⟨n, hn, rfl⟩ := Option.map_eq_some_iff.mp hs
  obtain ⟨hlt, hcases⟩ := resume_cases hn
  have hne : s.net.handlers ≠ [] := List.ne_nil_of_length_pos (by omega)
  obtain ⟨hlast, hserial⟩ := hinv.busy hne
  have hlen := hinv.length
  rcases hcases with ⟨hc, w, rfl⟩ | ⟨hc, hshows, hhandlers⟩
  · rw [hc]
    refine ⟨?_, ?_, fun _ => ⟨hlast, hserial⟩⟩
    · simpa using hlen
    · intro h
      exact absurd (by simpa using h) hne
  · rw [hc, if_pos rfl]
    refine ⟨?_, ?_, ?_⟩
    · dsimp only
      rw [hhandlers, List.length_eraseIdx_of_lt hlt, List.length_eraseIdx_of_lt (by omega), hlen]
    · -- the handler was the only one, so it was the newest
      intro h r hr
      dsimp only at h hr
      rw [hlast] at hr
      cases hr
      refine ⟨hshows, ?_⟩
      have hone : s.serials.length = 1 := by
        rw [hhandlers] at h
        have := congrArg List.length h
        rw [List.length_eraseIdx_of_lt hlt, List.length_nil] at this
        omega
      obtain rfl : k = s.serials.length - 1 := by omega
      rw [← hserial, List.getLast?_eq_getElem?]
    · intro h
      dsimp only at h ⊢
      refine ⟨hlast, ?_⟩
      have hmore : s.net.handlers.length ≠ 1 := by
        intro hone
        apply h
        rw [hhandlers, ← List.length_eq_zero_iff, List.length_eraseIdx_of_lt hlt, hone]
      have hnot : k + 1 ≠ s.net.handlers.length := fun he => hmore (hok hc he)
      rw [getLast?_eraseIdx (by omega), hserial]

theorem newestLast_step {e : NetEvent} (hinv : NewestLast s) (hok : newestEndsLast s e)
    (hs : netStep s e = some s') : NewestLast s' := by
  cases e with
  | deliver r =>
    cases r with
    | wifi =>
      cases hs
      exact newestLast_deliver_wifi hinv
    | mobile =>
      cases hs
      exact newestLast_written hinv hok rfl ⟨rfl, rfl⟩
    | none =>
      cases hs
      exact newestLast_written hinv hok rfl ⟨rfl, rfl⟩
  | resume k a => exact newestLast_resume hinv hok hs

end LastResultLemmas

open LastResultLemmas

/-! ## Runs -/

/-- In every run in which `mobile` and `none` results come while no handler is suspended and
the newest handler ends last: whenever no handler is suspended, the fields describe the
newest result. -/
theorem last_event_wins {s : Numbered} (h : Reach netStep newestEndsLast {} s)
    (hidle : s.net.handlers = []) : s.Describes := by
  have hinv : NewestLast s := by
    refine h.invariant ⟨rfl, ?_, ?_⟩ fun _ hi hok hs => newestLast_step hi hok hs
    · intro _ r hr
      cases hr
    · intro hne
      exact absurd rfl hne
  exact hinv.idle hidle

/-- The three answers to the handler `k` on a network. -/
def answersOf (k : Nat) (name bssid ip : String) : List NetEvent :=
  [.resume k (.value name), .resume k (.value bssid), .resume k (.value ip)]

/-- The phone leaves the mobile network for one Wi-Fi network and then for another. -/
def roaming : List NetEvent :=
  [.deliver .mobile, .deliver .wifi, .deliver .wifi] ++ answersOf 0 "guest" "a0" "10.0.0.7" ++
    answersOf 0 "office" "b1" "192.168.8.82"

theorem last_event_wins_roaming :
    ∃ s, Reach netStep newestEndsLast {} s ∧ s.results = [.mobile, .wifi, .wifi] ∧
      s.net.idwifi = some "192.168.8.82" ∧ s.wrote = some 2 ∧ s.Describes := by
  obtain ⟨s, hr, hidle, hresults, hip, hwrote⟩ := exists_reach_of_run netStep newestEndsLast {}
    roaming
    (p := fun s => s.net.handlers = [] ∧ s.results = [.mobile, .wifi, .wifi] ∧
      s.net.idwifi = some "192.168.8.82" ∧ s.wrote = some 2) (by decide)
  exact ⟨s, hr, hresults, hip, hwrote, last_event_wins hr hidle⟩

/-- The Wi-Fi goes away while the handler awaits its answers. -/
def wifiLost : List NetEvent :=
  [.deliver .wifi, .deliver .none] ++ answersOf 0 "office" "b1" "192.168.8.82"

/-- The handler of the older result ends last, and the page stays on Wi-Fi. -/
theorem older_handler_wins :
    ∃ s, Reach netStep anyStep {} s ∧ s.net.handlers = [] ∧ s.results = [.wifi, .none] ∧
      s.net.idwifi = some "192.168.8.82" ∧ ¬ s.Describes := by
  obtain ⟨s, hr, hidle, hresults, hip, hwrote⟩ := exists_reach_of_run netStep anyStep {} wifiLost
    (p := fun s => s.net.handlers = [] ∧ s.results = [.wifi, .none] ∧
      s.net.idwifi = some "192.168.8.82" ∧ s.wrote = some 0) (by decide)
  refine ⟨s, hr, hidle, hresults, hip, ?_⟩
  intro h
  have hshows := (h .none (by rw [hresults]; rfl)).1
  exact absurd (hip.symm.trans hshows.2) (by decide)

end ShainManager
