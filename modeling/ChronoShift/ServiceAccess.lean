import ChronoShift.Service
import Mathlib.Data.Fintype.EquivFin
import Mathlib.Data.List.Perm.Basic

/-!
# Access lists

`allow_client` and `deny_client` look for a proxy whose target has a service of the given name, so
of the proxies of an owner they take any one. And `deny_client` takes a client off the list of a
proxy that does not ask its list as long as all members are allowed.

* `ServiceManager.findProxy_some`: the proxies that are taken for a service;
* `ServiceManager.Governs`: what is expected of the two functions for a service and its proxy;
* `ServiceManager.governs_iff`: when they do what is expected.
-/

namespace ChronoShift

open ToMathlib

namespace ProxyConfig

/-- The proxy may be used by the client. -/
def admits (proxy : ProxyConfig) (uid : String) : Bool :=
  proxy.allowAllMembers || uid ∈ proxy.allowedClients

/-- The proxy after `allow_client`. -/
def allow (proxy : ProxyConfig) (uid : String) : ProxyConfig :=
  { proxy with
    allowAllMembers := false
    allowedClients :=
      if uid ∈ proxy.allowedClients then proxy.allowedClients else proxy.allowedClients ++ [uid] }

/-- The proxy after `deny_client`. -/
def deny (proxy : ProxyConfig) (uid : String) : ProxyConfig :=
  { proxy with allowedClients := proxy.allowedClients.filter (· ≠ uid) }

/-- Who is on the list is admitted, and nobody else any more. -/
theorem admits_allow (proxy : ProxyConfig) (uid uid' : String) :
    (proxy.allow uid).admits uid' = true ↔ uid' ∈ proxy.allowedClients ∨ uid' = uid := by
  rw [admits, allow, Bool.false_or, decide_eq_true_eq]
  split
  next hmem => exact ⟨Or.inl, fun h => h.elim (fun h => h) fun heq => heq ▸ hmem⟩
  next => rw [List.mem_append, List.mem_singleton]

/-- Who is taken off the list is still admitted if all members are. -/
theorem admits_deny_self (proxy : ProxyConfig) (uid : String) :
    (proxy.deny uid).admits uid = proxy.allowAllMembers := by
  simp [admits, deny]

end ProxyConfig

namespace ServiceManager

/-- The access at the other ports is as before. -/
def SameElsewhere (m m' : ServiceManager) (localPort : ℕ) : Prop :=
  ∀ port, port ≠ localPort → ∀ uid, m'.canAccess uid port = m.canAccess uid port

/-- In every order of the visit, `allow_client` opens the port to the client, `deny_client` closes
it, and the other ports are left alone. -/
structure Governs (m : ServiceManager) (serviceName : String) (localPort : ℕ) (uid : String) :
    Prop where
  allow : ∀ order m', m.allowClient order serviceName uid = (.ok (), m') →
    m'.canAccess uid localPort = true ∧ m.SameElsewhere m' localPort
  deny : ∀ order m', m.denyClient order serviceName uid = (.ok (), m') →
    m'.canAccess uid localPort = false ∧ m.SameElsewhere m' localPort

/-- The visit begins with the entries at the port. -/
def firstAt (port : ℕ) : IterOrder (ℕ × ProxyConfig) :=
  ⟨fun l => l.filter (·.1 = port) ++ l.filter fun p => !(p.1 = port : Bool),
    fun l => List.filter_append_perm _ l⟩

variable {m : ServiceManager} {id : String} {s : F2fService} {port : ℕ} {proxy : ProxyConfig}

/-- A name that only one service has stands for the owner of the service. -/
theorem offers_iff (hs : m.services.lookup id = some s)
    (hunique : ∀ id' s', m.services.lookup id' = some s' → s'.name = s.name → id' = id)
    (proxy : ProxyConfig) : m.offers s.name proxy = true ↔ proxy.targetUid = s.ownerUid := by
  simp only [offers, List.any_eq_true, HashMap.mem_values, Bool.and_eq_true, decide_eq_true_eq]
  constructor
  · rintro ⟨s', ⟨id', hs'⟩, hname, howner⟩
    obtain rfl := hunique id' s' hs' hname
    rw [hs] at hs'
    obtain rfl := Option.some.inj hs'
    exact howner.symm
  · intro howner
    exact ⟨s, ⟨id, hs⟩, rfl, howner.symm⟩

/-- A proxy at a port that is visited first is found. -/
theorem findProxy_firstAt {serviceName : String} (hproxy : m.proxies.lookup port = some proxy)
    (hoffers : m.offers serviceName proxy = true) :
    m.findProxy (firstAt port) serviceName = some (port, proxy) := by
  have hfirst : ∀ p ∈ (HashMap.pairs m.proxies).filter (·.1 = port), p = (port, proxy) := by
    rintro ⟨port', proxy'⟩ hp
    obtain ⟨hmem, hport⟩ := List.mem_filter.mp hp
    obtain rfl : port' = port := of_decide_eq_true hport
    have hproxy' := HashMap.mem_pairs_iff.mp hmem
    rw [hproxy] at hproxy'
    rw [Option.some.inj hproxy']
  have hmem : (port, proxy) ∈ (HashMap.pairs m.proxies).filter (·.1 = port) :=
    List.mem_filter.mpr ⟨HashMap.mem_pairs_iff.mpr hproxy, decide_eq_true rfl⟩
  rw [findProxy, firstAt, List.find?_append]
  obtain ⟨rest, hrest⟩ : ∃ rest, (HashMap.pairs m.proxies).filter (·.1 = port) =
      (port, proxy) :: rest := by
    obtain ⟨p, rest, heq⟩ := List.exists_cons_of_ne_nil (List.ne_nil_of_mem hmem)
    rw [heq] at hfirst ⊢
    exact ⟨rest, by rw [hfirst p List.mem_cons_self]⟩
  rw [hrest, List.find?_cons, hoffers]
  rfl

/-- Every proxy of the owner may be found, and no other one. -/
theorem findProxy_some (hs : m.services.lookup id = some s)
    (hunique : ∀ id' s', m.services.lookup id' = some s' → s'.name = s.name → id' = id)
    {order : IterOrder (ℕ × ProxyConfig)} (h : m.findProxy order s.name = some (port, proxy)) :
    m.proxies.lookup port = some proxy ∧ proxy.targetUid = s.ownerUid :=
  ⟨lookup_of_findProxy h, (offers_iff hs hunique proxy).mp (List.find?_some (a := (port, proxy)) h)⟩

/-- A proxy that is replaced decides about its own port. -/
theorem canAccess_insert (m : ServiceManager) (port : ℕ) (proxy : ProxyConfig) (uid : String)
    (port' : ℕ) : canAccess { m with proxies := m.proxies.insert port proxy } uid port' =
      if port' = port then proxy.admits uid else m.canAccess uid port' := by
  rw [canAccess, HashMap.lookup_insert_ite]
  by_cases h : port' = port
  · rw [if_pos h, if_pos h]
    rfl
  · rw [if_neg h, if_neg h]
    rfl

theorem sameElsewhere_insert (m : ServiceManager) (port : ℕ) (proxy : ProxyConfig) :
    m.SameElsewhere { m with proxies := m.proxies.insert port proxy } port :=
  fun port' hne uid => by rw [canAccess_insert, if_neg hne]

/-- Where the owner has one proxy, nothing else is found, whatever is visited first. -/
theorem findProxy_of_only (hs : m.services.lookup id = some s)
    (hunique : ∀ id' s', m.services.lookup id' = some s' → s'.name = s.name → id' = id)
    (hproxy : m.proxies.lookup port = some proxy)
    (honly : ∀ port' proxy', m.proxies.lookup port' = some proxy' →
      proxy'.targetUid = s.ownerUid → port' = port) (order : IterOrder (ℕ × ProxyConfig)) :
    m.findProxy order s.name = none ∨ m.findProxy order s.name = some (port, proxy) := by
  cases hfound : m.findProxy order s.name with
  | none => exact Or.inl rfl
  | some p =>
    obtain ⟨hproxy', howner⟩ := @findProxy_some m id s p.1 p.2 hs hunique order hfound
    obtain rfl := honly p.1 p.2 hproxy' howner
    rw [hproxy] at hproxy'
    rw [Option.some.inj hproxy']
    exact Or.inr rfl

theorem allowClient_of_found {order : IterOrder (ℕ × ProxyConfig)} {serviceName : String}
    (h : m.findProxy order serviceName = some (port, proxy)) (uid : String) :
    m.allowClient order serviceName uid =
      (.ok (), { m with proxies := m.proxies.insert port (proxy.allow uid) }) := by
  rw [allowClient, h]
  rfl

theorem denyClient_of_found {order : IterOrder (ℕ × ProxyConfig)} {serviceName : String}
    (h : m.findProxy order serviceName = some (port, proxy)) (uid : String) :
    m.denyClient order serviceName uid =
      (.ok (), { m with proxies := m.proxies.insert port (proxy.deny uid) }) := by
  rw [denyClient, h]
  rfl

/-- The access at a port that is left alone is what the replaced proxy admits. -/
theorem SameElsewhere.admits_eq {localPort : ℕ} {proxy' : ProxyConfig}
    (h : m.SameElsewhere { m with proxies := m.proxies.insert port proxy' } localPort)
    (hproxy : m.proxies.lookup port = some proxy) (hne : port ≠ localPort) (uid : String) :
    proxy'.admits uid = proxy.admits uid := by
  have hsame := h port hne uid
  rw [canAccess_insert, if_pos rfl, canAccess, hproxy] at hsame
  exact hsame

/-- If both functions do what is expected, another proxy of the owner cannot be left alone by both
of them. -/
theorem Governs.only_proxy {uid : String} {localPort : ℕ} (h : m.Governs s.name localPort uid)
    (hproxy : m.proxies.lookup port = some proxy) (hoffers : m.offers s.name proxy = true) :
    port = localPort := by
  by_contra hne
  have hfound := findProxy_firstAt hproxy hoffers
  have hallow := (h.allow _ _ (allowClient_of_found hfound uid)).2.admits_eq hproxy hne
  have hdeny := (h.deny _ _ (denyClient_of_found hfound uid)).2.admits_eq hproxy hne
  -- the client is admitted before, as after `allow_client`, so all members are
  have hclient : proxy.admits uid = true := by
    rw [← hallow]
    exact (proxy.admits_allow uid uid).mpr (Or.inr rfl)
  have hall : proxy.allowAllMembers = true := by
    rw [← proxy.admits_deny_self uid, hdeny, hclient]
  -- then `allow_client` shuts somebody out
  obtain ⟨stranger, hstranger⟩ :=
    Infinite.exists_notMem_finset (uid :: proxy.allowedClients).toFinset
  rw [List.mem_toFinset, List.mem_cons, not_or] at hstranger
  have hadmitted : (proxy.allow uid).admits stranger = true := by
    rw [hallow, ProxyConfig.admits, hall, Bool.true_or]
  exact ((proxy.admits_allow uid stranger).mp hadmitted).elim hstranger.2 hstranger.1

/-- For a service whose name is its own, and its proxy, `allow_client` and `deny_client` do what is
expected in every order if and only if the owner has no other proxy, and the proxy is restricted to
its list. -/
theorem governs_iff (hs : m.services.lookup id = some s)
    (hunique : ∀ id' s', m.services.lookup id' = some s' → s'.name = s.name → id' = id)
    (hproxy : m.proxies.lookup port = some proxy) (htargets : Targets proxy s.ownerUid s.ownerPort)
    (uid : String) :
    m.Governs s.name port uid ↔ proxy.allowAllMembers = false ∧
      ∀ port' proxy', m.proxies.lookup port' = some proxy' → proxy'.targetUid = s.ownerUid →
        port' = port := by
  constructor
  · intro h
    -- in an order that lists our proxy first, it is the one that is found
    have hfound := findProxy_firstAt hproxy ((offers_iff hs hunique proxy).mpr htargets.1)
    refine ⟨?_, fun port' proxy' hproxy' howner =>
      h.only_proxy hproxy' ((offers_iff hs hunique proxy').mpr howner)⟩
    have hdenied := (h.deny _ _ (denyClient_of_found hfound uid)).1
    rwa [canAccess_insert, if_pos rfl, ProxyConfig.admits_deny_self] at hdenied
  · rintro ⟨hrestricted, honly⟩
    refine ⟨fun order m' hok => ?_, fun order m' hok => ?_⟩
    -- no other proxy of the owner can be found
    · rcases findProxy_of_only hs hunique hproxy honly order with hnone | hfound
      · rw [allowClient, hnone] at hok
        cases hok
      · rw [allowClient_of_found hfound] at hok
        obtain rfl := (Prod.mk.inj hok).2
        refine ⟨?_, sameElsewhere_insert m port _⟩
        rw [canAccess_insert, if_pos rfl]
        exact (proxy.admits_allow uid uid).mpr (Or.inr rfl)
    · rcases findProxy_of_only hs hunique hproxy honly order with hnone | hfound
      · rw [denyClient, hnone] at hok
        cases hok
      · rw [denyClient_of_found hfound] at hok
        obtain rfl := (Prod.mk.inj hok).2
        refine ⟨?_, sameElsewhere_insert m port _⟩
        rw [canAccess_insert, if_pos rfl, ProxyConfig.admits_deny_self, hrestricted]

/-- The service of `acceptedRun`. -/
def bbs : F2fService := ⟨"a", "bbs", "alice", "net", 8080, .active, 0⟩

/-- It is the only one. -/
theorem bbs_unique (id : String) (s : F2fService)
    (hs : (acceptedRun.foldl call new).services.lookup id = some s) : id = "a" := by
  have hkeys : id ∈ (acceptedRun.foldl call new).services.keys :=
    AList.mem_keys.mp (AList.lookup_isSome.mp (Option.isSome_of_eq_some hs))
  exact List.mem_singleton.mp hkeys

/-- Its proxy, once `carol` has been allowed. -/
theorem governs_iff_restricted :
    (acceptedRun.foldl call new |>.allowClient .stored "bbs" "carol").2.Governs "bbs" 18080
        "mallory" ↔
      false = false ∧ ∀ port proxy,
        (acceptedRun.foldl call new |>.allowClient .stored "bbs" "carol").2.proxies.lookup port =
          some proxy → proxy.targetUid = "alice" → port = 18080 :=
  @governs_iff (acceptedRun.foldl call new |>.allowClient .stored "bbs" "carol").2 "a" bbs 18080
    ⟨"alice", 8080, ["carol"], false⟩ rfl (fun id s hs _ => bbs_unique id s hs) rfl ⟨rfl, rfl⟩
    "mallory"

/-- A second service of `alice` is accepted. -/
def twoServices : ServiceManager :=
  (acceptedRun ++ [ServiceCall.createService "b" 0 "files" "alice" "net" 9090,
    ServiceCall.acceptService "b"]).foldl call new

/-- As long as all members are allowed, a client that has been denied keeps its access. With two
services of one owner, to allow `carol` for one of them shuts `dave` out of the other one. -/
theorem access_lists_misdirected :
    (¬ ∀ (calls : List ServiceCall) (id : String) (s : F2fService) (port : ℕ)
      (proxy : ProxyConfig) (uid : String), let m := calls.foldl call new
      m.services.lookup id = some s → s.status = .active →
      (∀ id' s', m.services.lookup id' = some s' → s'.name = s.name → id' = id) →
      m.proxies.lookup port = some proxy → Targets proxy s.ownerUid s.ownerPort →
      m.Governs s.name port uid) ∧
    twoServices.canAccess "dave" 18080 = true ∧
    (twoServices.allowClient (firstAt 18080) "files" "carol").2.canAccess "dave" 18080 = false := by
  refine ⟨fun hclaim => ?_, rfl, rfl⟩
  have hgoverns := hclaim acceptedRun "a" bbs 18080 ⟨"alice", 8080, [], true⟩ "mallory" rfl rfl
    (fun id s hs _ => bbs_unique id s hs) rfl ⟨rfl, rfl⟩
  have hdenied := (hgoverns.deny .stored _ rfl).1
  revert hdenied
  decide

end ServiceManager

end ChronoShift
