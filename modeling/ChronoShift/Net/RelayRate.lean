import ChronoShift.Net.RelayPins
import ChronoShift.ToMathlib.FixedWindow

/-!
# The rate of relayed messages

`RelayVerifier.check` counts the messages of a key in windows that open with a message of the key.
As long as the table of windows is not cleared, each key has a fixed-window counter of its own.

* `RelayVerifier.refused_unchanged`: a refused call leaves all tables as they are;
* `RelayVerifier.RateTracked`: the windows account for the admitted calls of each key;
* `RelayVerifier.rate_bound`: more than two windows full of messages take more than one window.
-/

namespace ChronoShift

open ToMathlib

deriving instance DecidableEq for RelayCheck

namespace RelayVerifier

variable {v : RelayVerifier} {keyHex : String} {nonce timestamp now : ℕ} {c : RelayCheck}

/-! ## Refused calls -/

theorem not_admits_of_error {e : String}
    (herror : (v.check keyHex nonce timestamp now).1 = .error e) :
    ¬ v.Admits keyHex nonce timestamp now := by
  intro hadmits
  have hok := (v.check_ok_iff keyHex nonce timestamp now).mpr hadmits
  cases hok.symm.trans herror

/-- A call that is refused leaves the nonces, the rates and the pins as they are, be the tables full
or not. -/
theorem refused_unchanged (v : RelayVerifier) (keyHex : String) (nonce timestamp now : ℕ)
    {e : String} (herror : (v.check keyHex nonce timestamp now).1 = .error e) :
    (v.check keyHex nonce timestamp now).2.lastNonce = v.lastNonce ∧
      (v.check keyHex nonce timestamp now).2.rate.entries.Perm v.rate.entries ∧
      (v.check keyHex nonce timestamp now).2.keyPins = v.keyPins := by
  have hsame := same_check_iff.mpr (not_admits_of_error herror)
  refine ⟨lastNonce_check_of_ne_ok ?_, HashMap.entries_perm_iff.mpr hsame.rate, keyPins_check ..⟩
  rw [herror]
  intro hok
  cases hok

/-- A key that has used up its window. -/
theorem refused_unchanged_full :
    let v : RelayVerifier := ⟨∅, AList.singleton "a" (0, relayMaxPerWindow), ∅⟩
    (v.check "a" 1 0 0).2.lastNonce = v.lastNonce ∧
      (v.check "a" 1 0 0).2.rate.entries.Perm v.rate.entries ∧
      (v.check "a" 1 0 0).2.keyPins = v.keyPins :=
  have herror : (RelayVerifier.check ⟨∅, AList.singleton "a" (0, relayMaxPerWindow), ∅⟩ "a" 1 0
      0).1 = .error "rate limit exceeded for identity key a" := by
    decide +kernel
  refused_unchanged ⟨∅, AList.singleton "a" (0, relayMaxPerWindow), ∅⟩ "a" 1 0 0 herror

/-! ## Admitted calls -/

/-- The calls of a sequence that are admitted. -/
def admitted : RelayVerifier → List RelayCheck → List RelayCheck
  | _, [] => []
  | v, c :: calls =>
    match v.checkCall c with
    | (.ok (), v) => c :: v.admitted calls
    | (.error _, v) => v.admitted calls

/-- The times of the calls of one key. -/
def timesOf (keyHex : String) (calls : List RelayCheck) : List ℕ :=
  (calls.filter (·.keyHex = keyHex)).map RelayCheck.now

theorem admitted_concat (v : RelayVerifier) (calls : List RelayCheck) (c : RelayCheck) :
    v.admitted (calls ++ [c]) =
      v.admitted calls ++ (v.runChecks calls).admitted [c] := by
  induction calls generalizing v with
  | nil => rfl
  | cons c' calls ih =>
    show (match v.checkCall c' with
      | (.ok (), v) => c' :: v.admitted (calls ++ [c])
      | (.error _, v) => v.admitted (calls ++ [c])) = _
    rw [admitted, runChecks, List.foldl_cons]
    cases v.checkCall c' with
    | mk res v' =>
      cases res with
      | ok => exact congrArg (c' :: ·) (ih v')
      | error e => exact ih v'

theorem admitted_sublist (v : RelayVerifier) (calls : List RelayCheck) :
    (v.admitted calls).Sublist calls := by
  induction calls generalizing v with
  | nil => exact List.Sublist.slnil
  | cons c calls ih =>
    rw [admitted]
    split
    · exact (ih _).cons_cons c
    · exact (ih _).cons c

theorem timesOf_concat (keyHex : String) (calls : List RelayCheck) (c : RelayCheck) :
    timesOf keyHex (calls ++ [c]) =
      if c.keyHex = keyHex then timesOf keyHex calls ++ [c.now] else timesOf keyHex calls := by
  unfold timesOf
  split
  next hkey => simp [hkey]
  next hkey => simp [hkey]

/-! ## The windows of a run -/

/-- The windows account for the admitted calls: a key without one has had no call admitted, and a
window has started with an admitted call. -/
structure RateTracked (v : RelayVerifier) (calls : List RelayCheck) : Prop where
  unseen : ∀ keyHex, v.rate.lookup keyHex = none → timesOf keyHex calls = []
  filled : ∀ keyHex start count, v.rate.lookup keyHex = some (start, count) →
    start ∈ timesOf keyHex calls ∧
      FixedWindow.Filled relayRateWindowSecs relayMaxPerWindow (timesOf keyHex calls) start count

theorem rateTracked_new : RateTracked new [] :=
  ⟨fun _ _ => rfl, fun _ _ _ h => by cases h⟩

variable {calls : List RelayCheck}

/-- Every key with a window has had a call admitted, so there are not more of them. -/
theorem RateTracked.length_rate_le (h : v.RateTracked calls) :
    v.rate.entries.length ≤ ((calls.map RelayCheck.keyHex).dedup).length := by
  have hlen : v.rate.entries.length = v.rate.keys.length := by
    rw [AList.keys, List.keys, List.length_map]
  rw [hlen]
  refine (v.rate.keys_nodup.subperm fun keyHex hmem => ?_).length_le
  obtain ⟨⟨start, count⟩, hlookup⟩ :=
    HashMap.mem_iff_exists_lookup.mp (AList.mem_keys.mp hmem)
  obtain ⟨c, hc, -⟩ := List.mem_map.mp (h.filled keyHex start count hlookup).1
  obtain ⟨hc, hkey⟩ := List.mem_filter.mp hc
  exact List.mem_dedup.mpr (List.mem_map.mpr ⟨c, hc, of_decide_eq_true hkey⟩)

/-- The window that an admitted call is counted in. -/
theorem RateTracked.window (h : v.RateTracked calls) (hlast : ∀ c' ∈ calls, c'.now ≤ c.now)
    (hroom : v.trimmedRate = v.rate) (hcount : (v.window c.keyHex c.now).2 < relayMaxPerWindow) :
    (v.window c.keyHex c.now).1 ∈ timesOf c.keyHex calls ++ [c.now] ∧
      FixedWindow.Filled relayRateWindowSecs relayMaxPerWindow
        (timesOf c.keyHex calls ++ [c.now]) (v.window c.keyHex c.now).1
          ((v.window c.keyHex c.now).2 + 1) := by
  have htimes : ∀ t ∈ timesOf c.keyHex calls, t ≤ c.now := by
    intro t ht
    obtain ⟨c', hc', rfl⟩ := List.mem_map.mp ht
    exact hlast c' (List.mem_of_mem_filter hc')
  rw [RelayVerifier.window, hroom] at hcount ⊢
  cases hlookup : v.rate.lookup c.keyHex with
  | none =>
    rw [Option.getD_none, ite_self, h.unseen _ hlookup]
    exact ⟨List.mem_singleton_self _, FixedWindow.Filled.first (by decide)⟩
  | some entry =>
    obtain ⟨start, count⟩ := entry
    obtain ⟨hmem, hfilled⟩ := h.filled _ start count hlookup
    have hstart := htimes start hmem
    rw [hlookup, Option.getD_some] at hcount
    rw [Option.getD_some]
    dsimp only at hcount ⊢
    split
    -- the window has run out
    next hout =>
      have hdiff : start + relayRateWindowSecs ≤ c.now := by
        rw [absDiff] at hout
        split at hout <;> omega
      exact ⟨List.mem_append_right _ (List.mem_singleton_self _),
        hfilled.opened (by decide) hdiff htimes⟩
    next hin =>
      rw [if_neg hin] at hcount
      exact ⟨List.mem_append_left _ hmem, hfilled.same hcount hstart⟩

/-- A refused call changes no window. -/
theorem RateTracked.same {v' : RelayVerifier} (h : v.RateTracked calls) (hsame : v'.Same v) :
    v'.RateTracked calls :=
  ⟨fun keyHex hlookup => h.unseen keyHex (hsame.rate keyHex ▸ hlookup),
    fun keyHex start count hlookup => h.filled keyHex start count (hsame.rate keyHex ▸ hlookup)⟩

/-- An admitted call changes the window of its key. -/
theorem RateTracked.insert {v' : RelayVerifier} {start count : ℕ} (h : v.RateTracked calls)
    (hrate : v'.rate = v.rate.insert c.keyHex (start, count))
    (hwindow : start ∈ timesOf c.keyHex calls ++ [c.now] ∧
      FixedWindow.Filled relayRateWindowSecs relayMaxPerWindow
        (timesOf c.keyHex calls ++ [c.now]) start count) :
    v'.RateTracked (calls ++ [c]) := by
  refine ⟨fun keyHex hlookup => ?_, fun keyHex start count hlookup => ?_⟩
  · rw [hrate, HashMap.lookup_insert_ite] at hlookup
    split at hlookup
    next => cases hlookup
    next hne =>
      rw [timesOf_concat, if_neg (Ne.symm hne)]
      exact h.unseen keyHex hlookup
  · rw [hrate, HashMap.lookup_insert_ite] at hlookup
    rw [timesOf_concat]
    split at hlookup
    next hkey =>
      subst hkey
      cases hlookup
      rw [if_pos rfl]
      exact hwindow
    next hne =>
      rw [if_neg (Ne.symm hne)]
      exact h.filled keyHex start count hlookup

/-- One call keeps account, as long as the table of windows is not full. -/
theorem RateTracked.check (h : v.RateTracked calls) (hlast : ∀ c' ∈ calls, c'.now ≤ c.now)
    (hroom : v.rate.entries.length < maxRelayTracked) :
    (v.checkCall c).2.RateTracked (calls ++ v.admitted [c]) := by
  have htrimmed : v.trimmedRate = v.rate := if_neg (not_le.mpr hroom)
  cases hres : v.checkCall c with
  | mk res v' =>
    rw [admitted, hres]
    cases res with
    | error e =>
      have hsame : v'.Same v := by
        have hcheck := same_check_iff.mpr (not_admits_of_error (congrArg Prod.fst hres))
        rwa [show v.check c.keyHex c.nonce c.timestamp c.now = (.error e, v') from hres] at hcheck
      show v'.RateTracked (calls ++ [])
      rw [List.append_nil]
      exact h.same hsame
    | ok =>
      have hcheck : v.check c.keyHex c.nonce c.timestamp c.now = (.ok (), v') := hres
      obtain ⟨e, heq⟩ | ⟨e, -, heq⟩ | ⟨-, -, hcount, heq⟩ :=
        v.check_cases c.keyHex c.nonce c.timestamp c.now
      · cases heq.symm.trans hcheck
      · cases heq.symm.trans hcheck
      · refine h.insert ?_ (h.window hlast htrimmed hcount)
        cases heq.symm.trans hcheck
        rw [htrimmed]

/-- A run keeps account, as long as fewer keys are admitted than the table of windows holds. -/
theorem rateTracked_run (calls : List RelayCheck)
    (hnow : (calls.map RelayCheck.now).Pairwise (· ≤ ·))
    (hkeys : ((new.admitted calls).map RelayCheck.keyHex).dedup.length < maxRelayTracked) :
    (new.runChecks calls).RateTracked (new.admitted calls) := by
  induction calls using List.reverseRecOn with
  | nil => exact rateTracked_new
  | append_singleton calls c ih =>
    rw [List.map_append, List.pairwise_append] at hnow
    have hfewer : ((new.admitted calls).map RelayCheck.keyHex).dedup.length ≤
        ((new.admitted (calls ++ [c])).map RelayCheck.keyHex).dedup.length := by
      refine ((List.nodup_dedup _).subperm fun keyHex hmem => ?_).length_le
      rw [admitted_concat, List.map_append, List.mem_dedup]
      exact List.mem_append_left _ (List.mem_dedup.mp hmem)
    have htracked := ih hnow.1 (hfewer.trans_lt hkeys)
    rw [runChecks_concat, admitted_concat]
    refine htracked.check (fun c' hc' => ?_)
      (htracked.length_rate_le.trans_lt (hfewer.trans_lt hkeys))
    exact hnow.2.2 c'.now (List.mem_map_of_mem ((admitted_sublist _ _).subset hc')) c.now
      (List.mem_singleton_self _)

/-- In every run in which the clock does not go back and fewer than 4096 keys have a message
admitted, any `2 * 60 + 1` admitted messages of one key, in order, span at least 60 seconds. -/
theorem rate_bound (calls : List RelayCheck)
    (hnow : (calls.map RelayCheck.now).Pairwise (· ≤ ·))
    (hkeys : ((new.admitted calls).map RelayCheck.keyHex).dedup.length < maxRelayTracked)
    (keyHex : String) (burst : List RelayCheck)
    (hburst : burst.Sublist ((new.admitted calls).filter (·.keyHex = keyHex)))
    (hlen : burst.length = 2 * relayMaxPerWindow + 1) {first last : RelayCheck}
    (hfirst : burst.head? = some first) (hlast : burst.getLast? = some last) :
    first.now + relayRateWindowSecs ≤ last.now := by
  have htracked := rateTracked_run calls hnow hkeys
  have hspread : FixedWindow.Spread relayRateWindowSecs relayMaxPerWindow
      (timesOf keyHex (new.admitted calls)) := by
    cases hlookup : (new.runChecks calls).rate.lookup keyHex with
    | none =>
      rw [htracked.unseen keyHex hlookup]
      exact FixedWindow.spread_nil
    | some entry => exact (htracked.filled keyHex entry.1 entry.2 hlookup).2.spread
  refine hspread (burst.map RelayCheck.now) (hburst.map _) ?_ first.now last.now ?_ ?_
  · rw [List.length_map, hlen]
  · rw [List.head?_map, hfirst, Option.map_some]
  · rw [List.getLast?_map, hlast, Option.map_some]

/-- One message in every second: two minutes full of messages are admitted. -/
theorem rate_bound_steady :
    0 + relayRateWindowSecs ≤ 120 :=
  rate_bound ((List.range 121).map fun i => ⟨"a", i + 1, i, i⟩) (by decide +kernel)
    (by decide +kernel) "a" ((List.range 121).map fun i => ⟨"a", i + 1, i, i⟩)
    (by decide +kernel) (by decide +kernel) rfl rfl

end RelayVerifier

end ChronoShift
