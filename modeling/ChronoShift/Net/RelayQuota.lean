import ChronoShift.HexText
import ChronoShift.Net.RelayNode

/-!
# Replay protection and accounts of relayed messages

`RelayVerifier.check` keeps one account for each text of an identity key: the highest nonce that it
has admitted, and a rate. A message is verified with the key that the text decodes to, and one key
has several texts.

* `RelayVerifier.replay_rejected`: a nonce is admitted once, as long as no call clears the nonces;
* `RelayVerifier.replay_admitted_after_flood`: 4096 other keys make the verifier forget a nonce;
* `RelayNode.one_account_per_key`: a key has one account while its texts are in lower case;
* `RelayNode.two_accounts_for_one_key`: an upper-case text opens a second account.
-/

namespace ChronoShift

/-! ## Replayed nonces -/

/-- The arguments of one call of `check`. -/
structure RelayCheck where
  keyHex : String
  nonce : ℕ
  timestamp : ℕ
  now : ℕ

namespace RelayVerifier

/-- One call of `check`. -/
def checkCall (v : RelayVerifier) (c : RelayCheck) : Except String Unit × RelayVerifier :=
  v.check c.keyHex c.nonce c.timestamp c.now

/-- The verifier after a sequence of calls. -/
def runChecks (v : RelayVerifier) (calls : List RelayCheck) : RelayVerifier :=
  calls.foldl (fun v c => (v.checkCall c).2) v

theorem runChecks_concat (v : RelayVerifier) (calls : List RelayCheck) (c : RelayCheck) :
    v.runChecks (calls ++ [c]) = ((v.runChecks calls).checkCall c).2 := by
  rw [runChecks, List.foldl_append]
  rfl

/-- No call of the sequence is admitted while the nonces are full. -/
def KeepsNonces : RelayVerifier → List RelayCheck → Prop
  | _, [] => True
  | v, c :: calls =>
    ((v.checkCall c).1 = .ok () → v.lastNonce.entries.length < maxRelayTracked) ∧
      (v.checkCall c).2.KeepsNonces calls

/-- The verifier has `nonce`, or a higher one, on record for the key. -/
def Remembers (v : RelayVerifier) (keyHex : String) (nonce : ℕ) : Prop :=
  ∃ last, v.lastNonce.lookup keyHex = some last ∧ nonce ≤ last

variable {v : RelayVerifier} {keyHex : String} {nonce : ℕ} {c : RelayCheck}

/-- What is on record is not admitted again. -/
theorem Remembers.check_ne_ok (h : v.Remembers keyHex nonce) (hkey : c.keyHex = keyHex)
    (hnonce : c.nonce ≤ nonce) : (v.checkCall c).1 ≠ .ok () := by
  intro hok
  obtain ⟨last, hlast, hle⟩ := h
  have hlt : last < c.nonce := ((v.check_ok_iff _ _ _ _).mp hok).1 last (hkey ▸ hlast)
  omega

/-- An admitted nonce goes on record. -/
theorem remembers_of_ok (hok : (v.checkCall c).1 = .ok ()) :
    (v.checkCall c).2.Remembers c.keyHex c.nonce := by
  refine ⟨c.nonce, ?_, le_rfl⟩
  rw [checkCall, lastNonce_check_of_ok hok, AList.lookup_insert]

/-- A call that does not clear the nonces keeps what is on record. -/
theorem Remembers.check (h : v.Remembers keyHex nonce)
    (hroom : (v.checkCall c).1 = .ok () → v.lastNonce.entries.length < maxRelayTracked) :
    (v.checkCall c).2.Remembers keyHex nonce := by
  obtain ⟨last, hlast, hle⟩ := h
  by_cases hok : (v.checkCall c).1 = .ok ()
  · have htrim : v.trimmedNonce = v.lastNonce := if_neg (not_le.mpr (hroom hok))
    by_cases hkey : keyHex = c.keyHex
    -- the key's own message has a higher nonce
    · subst hkey
      have hlt : last < c.nonce := ((v.check_ok_iff _ _ _ _).mp hok).1 last hlast
      refine ⟨c.nonce, ?_, by omega⟩
      rw [checkCall, lastNonce_check_of_ok hok, AList.lookup_insert]
    · refine ⟨last, ?_, hle⟩
      rw [checkCall, lastNonce_check_of_ok hok, htrim, AList.lookup_insert_ne hkey, hlast]
  · refine ⟨last, ?_, hle⟩
    rw [checkCall, lastNonce_check_of_ne_ok hok, hlast]

/-- A run that does not clear the nonces keeps what is on record. -/
theorem Remembers.runChecks {calls : List RelayCheck} (h : v.Remembers keyHex nonce)
    (hkept : v.KeepsNonces calls) : (v.runChecks calls).Remembers keyHex nonce := by
  induction calls generalizing v with
  | nil => exact h
  | cons c calls ih => exact ih (h.check hkept.1) hkept.2

/-- Once a call has admitted a nonce for a key, no later call for the key admits it or a lower
one, as long as no call between them is admitted while the nonces are full. -/
theorem replay_rejected (v : RelayVerifier) (first later : RelayCheck)
    (between : List RelayCheck) (hok : (v.checkCall first).1 = .ok ())
    (hkept : (v.checkCall first).2.KeepsNonces between) (hkey : later.keyHex = first.keyHex)
    (hnonce : later.nonce ≤ first.nonce) :
    ((v.runChecks (first :: between)).checkCall later).1 ≠ .ok () := by
  have hrun : (v.runChecks (first :: between)).Remembers first.keyHex first.nonce :=
    (remembers_of_ok hok).runChecks hkept
  exact hrun.check_ne_ok hkey hnonce

/-- A message of another key is admitted between a nonce and its replay. -/
theorem replay_rejected_two_keys :
    ((new.runChecks [⟨"a", 5, 0, 0⟩, ⟨"b", 9, 0, 0⟩]).checkCall ⟨"a", 5, 0, 0⟩).1 ≠ .ok () := by
  refine replay_rejected new ⟨"a", 5, 0, 0⟩ ⟨"a", 5, 0, 0⟩ [⟨"b", 9, 0, 0⟩] ?_ ⟨?_, trivial⟩ rfl
    le_rfl
  · rfl
  · intro _
    decide

/-! ### A flood of keys -/

/-- The keys of the flood are texts of different lengths. -/
def floodKey (i : ℕ) : String := String.ofList (List.replicate i '0')

/-- The call with the `i`-th key. -/
def floodCall (i : ℕ) : RelayCheck := ⟨floodKey i, 1, 0, 0⟩

theorem floodKey_injective : Function.Injective floodKey := by
  intro i j h
  have hlist : List.replicate i '0' = List.replicate j '0' := String.ofList_inj.mp h
  simpa using congrArg List.length hlist

/-- The verifier after the first `n` keys: both tables hold one entry each, and nothing of the
keys to come. -/
structure Flooded (v : RelayVerifier) (n : ℕ) : Prop where
  nonces : v.lastNonce.entries.length = n
  rates : v.rate.entries.length = n
  nonce_new : ∀ i, n ≤ i → floodKey i ∉ v.lastNonce
  rate_new : ∀ i, n ≤ i → floodKey i ∉ v.rate

/-- A key that is in neither table is admitted, and its entries are added. -/
theorem check_floodCall {i : ℕ} (hnonce : floodKey i ∉ v.lastNonce)
    (hrate : floodKey i ∉ v.trimmedRate) :
    v.checkCall (floodCall i) = (.ok (), { v with
      rate := v.trimmedRate.insert (floodKey i) (0, 1)
      lastNonce := v.trimmedNonce.insert (floodKey i) 1 }) := by
  have hlast : v.lastNonce.lookup (floodKey i) = none := AList.lookup_eq_none.mpr hnonce
  have hwindow : v.window (floodKey i) 0 = (0, 0) := by
    rw [window, AList.lookup_eq_none.mpr hrate]
    rfl
  rw [checkCall, floodCall, check, hlast, Option.filter_none]
  dsimp only
  rw [hwindow]
  rfl

theorem Flooded.check {n : ℕ} (h : v.Flooded n) (hn : n < maxRelayTracked) :
    (v.checkCall (floodCall n)).2.Flooded (n + 1) := by
  have hrates : v.trimmedRate = v.rate := if_neg (by rw [h.rates]; omega)
  have hnonces : v.trimmedNonce = v.lastNonce := if_neg (by rw [h.nonces]; omega)
  have hne : ∀ i, n + 1 ≤ i → floodKey i ≠ floodKey n := by
    intro i hi heq
    have := floodKey_injective heq
    omega
  rw [check_floodCall (h.nonce_new n le_rfl) (hrates ▸ h.rate_new n le_rfl), hrates, hnonces]
  refine ⟨?_, ?_, ?_, ?_⟩
  · rw [AList.entries_insert_of_notMem (h.nonce_new n le_rfl), List.length_cons, h.nonces]
  · rw [AList.entries_insert_of_notMem (h.rate_new n le_rfl), List.length_cons, h.rates]
  · intro i hi hmem
    exact (AList.mem_insert _).mp hmem |>.elim (hne i hi) (h.nonce_new i (by omega))
  · intro i hi hmem
    exact (AList.mem_insert _).mp hmem |>.elim (hne i hi) (h.rate_new i (by omega))

theorem flooded_runChecks (n : ℕ) (hn : n ≤ maxRelayTracked) :
    (new.runChecks ((List.range n).map floodCall)).Flooded n := by
  induction n with
  | zero => exact ⟨rfl, rfl, fun i _ => AList.notMem_empty _, fun i _ => AList.notMem_empty _⟩
  | succ n ih =>
    rw [List.range_succ, List.map_append, List.map_singleton, runChecks_concat]
    exact (ih (by omega)).check (by omega)

/-- With full tables, the message of one more key makes the verifier forget the first key. -/
theorem Flooded.replay_ok (h : v.Flooded maxRelayTracked) :
    ((v.checkCall (floodCall maxRelayTracked)).2.checkCall (floodCall 0)).1 = .ok () := by
  have hne : floodKey 0 ≠ floodKey maxRelayTracked := fun heq => by cases floodKey_injective heq
  have hrates : v.trimmedRate = ∅ := if_pos h.rates.ge
  have hnonces : v.trimmedNonce = ∅ := if_pos h.nonces.ge
  rw [check_floodCall (h.nonce_new _ le_rfl) (hrates ▸ AList.notMem_empty _), hrates, hnonces,
    check_floodCall]
  · exact fun hmem => (AList.mem_insert _).mp hmem |>.elim hne (AList.notMem_empty _)
  · intro hmem
    rw [trimmedRate] at hmem
    split at hmem
    · exact AList.notMem_empty _ hmem
    · exact (AList.mem_insert _).mp hmem |>.elim hne (AList.notMem_empty _)

/-- After the message of one more key than the tables hold, the first nonce is admitted a second
time. -/
theorem replay_admitted_after_flood :
    (new.checkCall (floodCall 0)).1 = .ok () ∧
      ((new.runChecks ((List.range (maxRelayTracked + 1)).map floodCall)).checkCall
        (floodCall 0)).1 = .ok () := by
  constructor
  · rfl
  · rw [List.range_succ, List.map_append, List.map_singleton, runChecks_concat]
    exact (flooded_runChecks maxRelayTracked le_rfl).replay_ok

end RelayVerifier

/-! ## Accounts -/

namespace RelayVerifier

/-- There is a nonce or a rate under this text. -/
def HasAccount (v : RelayVerifier) (keyHex : String) : Prop :=
  keyHex ∈ v.lastNonce ∨ keyHex ∈ v.rate

/-- Pinning a key opens no account. -/
theorem hasAccount_pinKey {v : RelayVerifier} {sender keyHex text : String}
    (h : (v.pinKey sender keyHex).2.HasAccount text) : v.HasAccount text := by
  rw [pinKey] at h
  split at h
  · exact h
  · split at h
    · exact h
    · exact h

theorem mem_of_mem_trimmedRate {v : RelayVerifier} {text : String} (h : text ∈ v.trimmedRate) :
    text ∈ v.rate := by
  rw [trimmedRate] at h
  split at h
  · exact absurd h (AList.notMem_empty _)
  · exact h

theorem mem_of_mem_trimmedNonce {v : RelayVerifier} {text : String}
    (h : text ∈ v.trimmedNonce) : text ∈ v.lastNonce := by
  rw [trimmedNonce] at h
  split at h
  · exact absurd h (AList.notMem_empty _)
  · exact h

/-- A message opens no account but that of the text it is charged to. -/
theorem hasAccount_check {v : RelayVerifier} {keyHex text : String} {nonce timestamp now : ℕ}
    (h : (v.check keyHex nonce timestamp now).2.HasAccount text) :
    text = keyHex ∨ v.HasAccount text := by
  have hrate : ∀ {entry : ℕ × ℕ}, text ∈ v.trimmedRate.insert keyHex entry →
      text = keyHex ∨ v.HasAccount text := by
    intro entry hmem
    obtain heq | hmem := (AList.mem_insert _).mp hmem
    · exact .inl heq
    · exact .inr (.inr (mem_of_mem_trimmedRate hmem))
  obtain ⟨e, heq⟩ | ⟨e, -, heq⟩ | ⟨-, -, -, heq⟩ := v.check_cases keyHex nonce timestamp now
  · rw [heq] at h
    exact .inr h
  · rw [heq] at h
    obtain hnonce | hmem := h
    · exact .inr (.inl hnonce)
    · exact hrate hmem
  · rw [heq] at h
    obtain hmem | hmem := h
    · obtain heq | hmem := (AList.mem_insert _).mp hmem
      · exact .inl heq
      · exact .inr (.inl (mem_of_mem_trimmedNonce hmem))
    · exact hrate hmem

theorem keyPins_check (v : RelayVerifier) (keyHex : String) (nonce timestamp now : ℕ) :
    (v.check keyHex nonce timestamp now).2.keyPins = v.keyPins := by
  obtain ⟨e, heq⟩ | ⟨e, -, heq⟩ | ⟨-, -, -, heq⟩ := v.check_cases keyHex nonce timestamp now
  · rw [heq]
  · rw [heq]
  · rw [heq]

end RelayVerifier

namespace RelayNode

/-- The text that the key of a message is read from. -/
def keyText (cm : ConnectionManager) (m : RelayFields) : String :=
  (cm.knownPeerKeys.lookup m.fromUid).getD m.originKeyHex

/-- What a node does between two relayed messages is to change its name or its paths, and to
originate messages of its own. -/
inductive Call where
  | handle (env : RelayEnv) (msg : PeerMessage)
  | update (identity : Identity) (relay : RelayRouter) (relayNonce : ℕ)

/-- The node after a call. -/
def call (prim : Primitives) (node : RelayNode) : Call → RelayNode
  | .handle env msg => (handleRelayMessage prim env node msg).1
  | .update identity relay relayNonce => ⟨identity, relay, node.relayVerifier, relayNonce⟩

/-- The key that a message verifies under, and the text whose account it is charged to. -/
def charge (prim : Primitives) (node : RelayNode) : Call → Option (Bytes32 × String)
  | .handle env msg => (RelayFields.ofMessage msg).bind fun m =>
    (verifiedKey prim env.connectionManager node.relayVerifier m).1
  | .update _ _ _ => none

/-- The node after a sequence of calls. -/
def runCalls (prim : Primitives) (node : RelayNode) (calls : List Call) : RelayNode :=
  calls.foldl (call prim) node

/-- The charges of a sequence of calls. -/
def charges (prim : Primitives) : RelayNode → List Call → List (Bytes32 × String)
  | _, [] => []
  | node, c :: calls => (node.charge prim c).toList ++ (node.call prim c).charges prim calls

/-- If the call handles a message that verifies, the text of its key is in lower case. -/
def LowerCaseKey (prim : Primitives) : Call → Prop
  | .handle env msg => ∀ m vk, RelayFields.ofMessage msg = some m →
      parseVerifyingKey prim (keyText env.connectionManager m) = some vk →
      verifyRelay prim vk m.fromUid m.toUid m.nonce m.timestamp m.payload m.signature = true →
        isLowerHex (keyText env.connectionManager m) = true
  | .update _ _ _ => True

/-- A text in lower case from which the key can be read. -/
def IsKeyText (prim : Primitives) (vk : Bytes32) (keyHex : String) : Prop :=
  parseVerifyingKey prim keyHex = some vk ∧ isLowerHex keyHex = true

/-- A key has one such text. -/
theorem IsKeyText.eq {prim : Primitives} {vk : Bytes32} {a b : String}
    (ha : IsKeyText prim vk a) (hb : IsKeyText prim vk b) : a = b := by
  have hencode : ∀ {text : String}, IsKeyText prim vk text → hexEncode vk.toList = text := by
    rintro text ⟨hparse, hlower⟩
    rw [parseVerifyingKey, Option.filter_eq_some_iff, Option.bind_eq_some_iff] at hparse
    obtain ⟨⟨bytes, hdecode, h32⟩, -⟩ := hparse
    rw [toBytes32] at h32
    split at h32
    · cases h32
      rw [← hexEncode_of_hexDecode hdecode hlower]
      rfl
    · cases h32
  rw [← hencode ha, hencode hb]

variable {prim : Primitives} {node : RelayNode} {c : Call}

/-- A message that verifies does so under the key that its text stands for. -/
theorem verifiedKey_eq_some {cm : ConnectionManager} {v : RelayVerifier} {m : RelayFields}
    {vk : Bytes32} {keyHex : String} (h : (verifiedKey prim cm v m).1 = some (vk, keyHex)) :
    keyHex = keyText cm m ∧ parseVerifyingKey prim keyHex = some vk ∧
      verifyRelay prim vk m.fromUid m.toUid m.nonce m.timestamp m.payload m.signature = true := by
  have hresolve : ∀ {key v'}, resolveKey cm v m = (some key, v') → key = keyText cm m := by
    intro key v' heq
    rw [resolveKey] at heq
    rw [keyText]
    split at heq
    next known hknown =>
      cases heq
      rw [hknown, Option.getD_some]
    next hnone =>
      split at heq
      · cases heq
      · cases heq
        rw [hnone, Option.getD_none]
  -- a key comes out only if it parses and the signature verifies
  rw [verifiedKey] at h
  split at h
  · cases h
  next key v' hkey =>
    split at h
    · cases h
    next vk' hparse =>
      split at h
      next hverify =>
        cases h
        exact ⟨hresolve hkey, hparse, hverify⟩
      next => cases h

/-- A message is charged to the account of a text that its key can be read from. -/
theorem isKeyText_of_charge (hlower : LowerCaseKey prim c) {vk : Bytes32} {keyHex : String}
    (h : node.charge prim c = some (vk, keyHex)) : IsKeyText prim vk keyHex := by
  cases c with
  | handle env msg =>
    obtain ⟨m, hm, hkey⟩ := Option.bind_eq_some_iff.mp h
    obtain ⟨rfl, hparse, hverify⟩ := verifiedKey_eq_some hkey
    exact ⟨hparse, hlower m vk hm hparse hverify⟩
  | update identity relay relayNonce => cases h

/-- Looking up a key opens no account. -/
theorem hasAccount_resolveKey {cm : ConnectionManager} {v : RelayVerifier} {m : RelayFields}
    {text : String} (h : (resolveKey cm v m).2.HasAccount text) : v.HasAccount text := by
  rw [resolveKey] at h
  split at h
  · exact h
  · split at h
    next heq => exact RelayVerifier.hasAccount_pinKey (by rw [heq]; exact h)
    next heq => exact RelayVerifier.hasAccount_pinKey (by rw [heq]; exact h)

/-- Verifying a message opens no account. -/
theorem hasAccount_verifiedKey {cm : ConnectionManager} {v : RelayVerifier} {m : RelayFields}
    {text : String} (h : (verifiedKey prim cm v m).2.HasAccount text) : v.HasAccount text := by
  have hverifier : (verifiedKey prim cm v m).2 = (resolveKey cm v m).2 := by
    rw [verifiedKey]
    split
    next heq => rw [heq]
    next heq =>
      rw [heq]
      split
      · rfl
      · split <;> rfl
  exact hasAccount_resolveKey (hverifier ▸ h)

/-- A call opens no account but the one that it is charged to. -/
theorem hasAccount_call {text : String}
    (h : (node.call prim c).relayVerifier.HasAccount text) :
    node.relayVerifier.HasAccount text ∨ ∃ vk, node.charge prim c = some (vk, text) := by
  cases c with
  | update identity relay relayNonce => exact .inl h
  | handle env msg =>
    rw [call, handleRelayMessage] at h
    split at h
    · exact .inl h
    next m hm =>
      split at h
      next v heq => exact .inl (hasAccount_verifiedKey (by rw [heq]; exact h))
      next vk keyHex v heq =>
        -- the message verifies, and whatever `check` answers it touches this account only
        have hcheck : (v.check keyHex m.nonce m.timestamp env.now).2.HasAccount text := by
          split at h
          next hres => rw [hres]; exact h
          next hres => rw [hres]; exact h
        obtain rfl | hacc := RelayVerifier.hasAccount_check hcheck
        · exact .inr ⟨vk, Option.bind_eq_some_iff.mpr ⟨m, hm, by rw [heq]⟩⟩
        · exact .inl (hasAccount_verifiedKey (by rw [heq]; exact hacc))

/-- The texts of the accounts of a node are such texts. -/
def AccountsLower (prim : Primitives) (node : RelayNode) : Prop :=
  ∀ text, node.relayVerifier.HasAccount text → ∃ vk, IsKeyText prim vk text

theorem AccountsLower.call (h : node.AccountsLower prim) (hlower : LowerCaseKey prim c) :
    (node.call prim c).AccountsLower prim := by
  intro text hacc
  obtain hacc | ⟨vk, hcharge⟩ := hasAccount_call hacc
  · exact h text hacc
  · exact ⟨vk, isKeyText_of_charge hlower hcharge⟩

theorem AccountsLower.runCalls {calls : List Call} (h : node.AccountsLower prim)
    (hlower : ∀ c ∈ calls, LowerCaseKey prim c) :
    (node.runCalls prim calls).AccountsLower prim := by
  induction calls generalizing node with
  | nil => exact h
  | cons c calls ih =>
    exact ih (h.call (hlower c List.mem_cons_self)) fun c' hc' =>
      hlower c' (List.mem_cons_of_mem _ hc')

theorem isKeyText_of_mem_charges {calls : List Call}
    (hlower : ∀ c ∈ calls, LowerCaseKey prim c) {vk : Bytes32} {text : String}
    (h : (vk, text) ∈ node.charges prim calls) : IsKeyText prim vk text := by
  induction calls generalizing node with
  | nil => cases h
  | cons c calls ih =>
    obtain hhead | htail := List.mem_append.mp h
    · exact isKeyText_of_charge (hlower c List.mem_cons_self) (Option.mem_toList.mp hhead)
    · exact ih (fun c' hc' => hlower c' (List.mem_cons_of_mem _ hc')) htail

/-- In a run in which the keys of the messages that verify are in lower case, the messages that
verify under one key are charged to one account, and no key has two accounts. -/
theorem one_account_per_key (prim : Primitives) (node : RelayNode)
    (hnew : node.relayVerifier = .new) (calls : List Call)
    (hlower : ∀ c ∈ calls, LowerCaseKey prim c) :
    (∀ vk text text', (vk, text) ∈ node.charges prim calls →
      (vk, text') ∈ node.charges prim calls → text = text') ∧
    ∀ text text', (node.runCalls prim calls).relayVerifier.HasAccount text →
      (node.runCalls prim calls).relayVerifier.HasAccount text' →
      parseVerifyingKey prim text = parseVerifyingKey prim text' → text = text' := by
  have hstart : node.AccountsLower prim := by
    intro text hacc
    rw [hnew] at hacc
    exact absurd hacc (by simp [RelayVerifier.HasAccount, RelayVerifier.new])
  have hend := hstart.runCalls hlower
  constructor
  · intro vk text text' h h'
    exact (isKeyText_of_mem_charges hlower h).eq (isKeyText_of_mem_charges hlower h')
  · intro text text' hacc hacc' hparse
    obtain ⟨vk, hkey⟩ := hend text hacc
    obtain ⟨vk', hkey'⟩ := hend text' hacc'
    have hvk : vk = vk' := by
      rw [hkey.1, hkey'.1] at hparse
      exact Option.some.inj hparse
    exact hkey.eq (hvk ▸ hkey')

/-- A key of 64 equal digits. -/
def sampleText (digit : Char) : String := String.ofList (List.replicate 64 digit)

/-- A message of `fromUid` whose key is such a text. -/
def sampleFields (fromUid : String) (digit : Char) : RelayFields :=
  ⟨fromUid, "z", sampleText digit, 1, 0, relayMaxHops, [], [], true⟩

def sampleEnv : RelayEnv := ⟨.new, 0, true⟩

def sampleNode : RelayNode := ⟨⟨"node", "", "", 0⟩, .new, .new, 0⟩

theorem parse_sampleText (digit : Char) (h : digit = 'a' ∨ digit = 'A') :
    parseVerifyingKey .const (sampleText digit) = some (.replicate 32 0xaa) := by
  have hascii : ∀ c ∈ List.replicate 64 digit, c.toNat < 128 := by
    intro c hc
    rw [List.eq_of_mem_replicate hc]
    rcases h with rfl | rfl <;> decide
  have hpairs : hexPairs (List.replicate 64 digit) = some (List.replicate 32 0xaa) := by
    rcases h with rfl | rfl <;> rfl
  rw [parseVerifyingKey, sampleText, hexDecode_ofList hascii (by simp), hpairs]
  rfl

/-- The call that handles such a message. -/
def sampleCall (fromUid : String) (digit : Char) : Call :=
  .handle sampleEnv (sampleFields fromUid digit).toMessage

/-- Two senders with one key, in lower case: one account. -/
theorem one_account_per_key_two_senders :
    sampleNode.relayVerifier = .new ∧ ∀ vk text text',
      (vk, text) ∈ sampleNode.charges .const [sampleCall "a" 'a', sampleCall "b" 'a'] →
      (vk, text') ∈ sampleNode.charges .const [sampleCall "a" 'a', sampleCall "b" 'a'] →
        text = text' := by
  have hlower : ∀ fromUid, LowerCaseKey .const (sampleCall fromUid 'a') := by
    intro fromUid m vk hm _ _
    rw [RelayFields.ofMessage_toMessage] at hm
    cases hm
    show isLowerHex (sampleText 'a') = true
    decide
  refine ⟨rfl, (one_account_per_key .const sampleNode rfl _ ?_).1⟩
  intro c hc
  simp only [List.mem_cons, List.not_mem_nil, or_false] at hc
  rcases hc with rfl | rfl
  · exact hlower "a"
  · exact hlower "b"

/-- A sender that is neither on record nor pinned is taken by the key that it carries. -/
theorem verifiedKey_of_unpinned {cm : ConnectionManager} {v : RelayVerifier} {m : RelayFields}
    {vk : Bytes32} (hknown : cm.knownPeerKeys.lookup m.fromUid = none)
    (hpin : v.keyPins.lookup m.fromUid = none)
    (hparse : parseVerifyingKey prim m.originKeyHex = some vk)
    (hverify : verifyRelay prim vk m.fromUid m.toUid m.nonce m.timestamp m.payload m.signature =
      true) :
    verifiedKey prim cm v m =
      (some (vk, m.originKeyHex), (v.pinKey m.fromUid m.originKeyHex).2) := by
  have hresolve : resolveKey cm v m =
      (some m.originKeyHex, (v.pinKey m.fromUid m.originKeyHex).2) := by
    rw [resolveKey, hknown, RelayVerifier.pinKey, hpin]
  rw [verifiedKey, hresolve]
  dsimp only
  rw [hparse]
  dsimp only
  rw [if_pos hverify]

/-- Admission leaves the pinned keys alone. -/
theorem keyPins_handleRelayMessage {env : RelayEnv} (m : RelayFields) :
    (handleRelayMessage prim env node m.toMessage).1.relayVerifier.keyPins =
      (verifiedKey prim env.connectionManager node.relayVerifier m).2.keyPins := by
  rw [handleRelayMessage, RelayFields.ofMessage_toMessage]
  dsimp only
  split
  next heq => rw [heq]
  next vk keyHex v heq =>
    rw [heq, ← v.keyPins_check keyHex m.nonce m.timestamp env.now]
    split
    next hres => rw [hres]
    next hres => rw [hres]

/-- Two senders with one key, once in lower and once in upper case: two accounts. -/
theorem two_accounts_for_one_key :
    sampleNode.charges .const [sampleCall "a" 'a', sampleCall "b" 'A'] =
      [(.replicate 32 0xaa, sampleText 'a'), (.replicate 32 0xaa, sampleText 'A')] ∧
    sampleText 'a' ≠ sampleText 'A' := by
  have hkey : ∀ {v : RelayVerifier} (fromUid digit), digit = 'a' ∨ digit = 'A' →
      v.keyPins.lookup fromUid = none →
      verifiedKey .const sampleEnv.connectionManager v (sampleFields fromUid digit) =
        (some (.replicate 32 0xaa, sampleText digit), (v.pinKey fromUid (sampleText digit)).2) :=
    fun fromUid digit hdigit hpin =>
      verifiedKey_of_unpinned rfl hpin (parse_sampleText digit hdigit) rfl
  have hfirst := hkey (v := sampleNode.relayVerifier) "a" 'a' (.inl rfl) rfl
  -- the first sender's pin does not concern the second one
  have hpin : (sampleNode.call .const (sampleCall "a" 'a')).relayVerifier.keyPins.lookup "b" =
      none := by
    rw [sampleCall, call, keyPins_handleRelayMessage, hfirst]
    rfl
  constructor
  · have hcharge : ∀ {node : RelayNode} (fromUid digit),
        node.charge .const (sampleCall fromUid digit) =
          (verifiedKey .const sampleEnv.connectionManager node.relayVerifier
            (sampleFields fromUid digit)).1 := by
      intro node fromUid digit
      rw [sampleCall, charge, RelayFields.ofMessage_toMessage, Option.bind_some]
    rw [charges, charges, charges, hcharge, hcharge, hfirst, hkey "b" 'A' (.inr rfl) hpin]
    rfl
  · intro h
    exact absurd (String.ofList_inj.mp h) (by decide)

end RelayNode

end ChronoShift
