import ChronoShift.Basic
import ChronoShift.ToMathlib.HashCount
import ChronoShift.ToMathlib.Runs

/-!
# Services and their proxies

The services of `service.rs`. An accepted service gets a proxy: a local port that forwards to the
port of its owner. Services and proxies are linked by the uid of the owner only.

The id of a new service and the clock are arguments, and so is the order in which the proxies are
visited. Ports are numbers below `2 ^ 16`, and the next port wraps around.

* `ServiceManager.Backed`: every proxy forwards to an active service;
* `ServiceManager.backed_run_iff`: in which runs this holds throughout;
* `ServiceManager.Matched`: there are as many proxies as active services;
* `ServiceManager.matched_run_iff`: in which runs this holds throughout.
-/

namespace ChronoShift

/-- The status of a service. -/
inductive ServiceStatus where
  | pending
  | active
  | rejected
  | closed
  deriving DecidableEq

/-- A service inside a network. -/
structure F2fService where
  id : String
  name : String
  ownerUid : String
  networkName : String
  /-- The port of the owner at which the service runs. -/
  ownerPort : ℕ
  status : ServiceStatus
  created : ℕ

/-- What a local port forwards to, and for whom. -/
structure ProxyConfig where
  targetUid : String
  targetPort : ℕ
  allowedClients : List String
  allowAllMembers : Bool

/-- The services by id, and the proxies by local port. -/
structure ServiceManager where
  services : HashMap String F2fService
  proxies : HashMap ℕ ProxyConfig
  nextPort : ℕ

namespace ServiceManager

def new : ServiceManager := ⟨∅, ∅, 18080⟩

/-- Ask for a new service. -/
def createService (m : ServiceManager) (id : String) (now : ℕ)
    (name ownerUid networkName : String) (ownerPort : ℕ) : F2fService × ServiceManager :=
  let service := {
    id, name, ownerUid, networkName, ownerPort
    status := .pending
    created := now }
  (service, { m with services := m.services.insert id service })

/-- Accept a pending service, and open a proxy for it. -/
def acceptService (m : ServiceManager) (serviceId : String) :
    Except String (ℕ × ProxyConfig) × ServiceManager :=
  match m.services.lookup serviceId with
  | none => (.error "服务不存在", m)
  | some service =>
    if service.status ≠ .pending then (.error "服务不在待批准状态", m)
    else
      let localPort := m.nextPort
      let config := {
        targetUid := service.ownerUid
        targetPort := service.ownerPort
        allowedClients := []
        allowAllMembers := true }
      (.ok (localPort, config), {
        services := m.services.insert serviceId { service with status := .active }
        proxies := m.proxies.insert localPort config
        nextPort := (m.nextPort + 1) % 2 ^ 16 })

/-- Reject a service, whatever its status. -/
def rejectService (m : ServiceManager) (serviceId : String) : Except String Unit × ServiceManager :=
  match m.services.lookup serviceId with
  | none => (.error "服务不存在", m)
  | some service =>
    (.ok (), { m with
      services := m.services.insert serviceId { service with status := .rejected } })

/-- Close a service; only its owner may. -/
def closeService (m : ServiceManager) (serviceId requester : String) :
    Except String Unit × ServiceManager :=
  match m.services.lookup serviceId with
  | none => (.error "服务不存在", m)
  | some service =>
    if service.ownerUid ≠ requester then (.error "只有服务创建者可以关闭", m)
    else
      (.ok (), { m with
        services := m.services.insert serviceId { service with status := .closed }
        -- the proxies of all services of the owner are removed
        proxies := m.proxies.retain fun _ cfg => cfg.targetUid ≠ service.ownerUid })

/-- The owner of the proxy's target has a service of this name. -/
def offers (m : ServiceManager) (serviceName : String) (proxy : ProxyConfig) : Bool :=
  m.services.values.any fun s => s.name = serviceName && s.ownerUid = proxy.targetUid

/-- The first proxy of a service of this name, in the order of the visit. -/
def findProxy (m : ServiceManager) (order : IterOrder (ℕ × ProxyConfig)) (serviceName : String) :
    Option (ℕ × ProxyConfig) :=
  (order.visit m.proxies.pairs).find? fun p => m.offers serviceName p.2

/-- Let a client use the proxy of a service, and no longer all members. -/
def allowClient (m : ServiceManager) (order : IterOrder (ℕ × ProxyConfig))
    (serviceName uid : String) : Except String Unit × ServiceManager :=
  match m.findProxy order serviceName with
  | none => (.error "服务代理不存在", m)
  | some (localPort, proxy) =>
    let allowedClients :=
      if uid ∈ proxy.allowedClients then proxy.allowedClients else proxy.allowedClients ++ [uid]
    (.ok (), { m with
      proxies := m.proxies.insert localPort
        { proxy with allowAllMembers := false, allowedClients } })

/-- Take a client off the list of a proxy. -/
def denyClient (m : ServiceManager) (order : IterOrder (ℕ × ProxyConfig))
    (serviceName uid : String) : Except String Unit × ServiceManager :=
  match m.findProxy order serviceName with
  | none => (.error "服务代理不存在", m)
  | some (localPort, proxy) =>
    (.ok (), { m with
      proxies := m.proxies.insert localPort
        { proxy with allowedClients := proxy.allowedClients.filter (· ≠ uid) } })

/-- A client may use a local port. -/
def canAccess (m : ServiceManager) (uid : String) (localPort : ℕ) : Bool :=
  match m.proxies.lookup localPort with
  | some cfg => cfg.allowAllMembers || uid ∈ cfg.allowedClients
  | none => false

end ServiceManager

/-- An operation on services. -/
inductive ServiceCall where
  | createService (id : String) (now : ℕ) (name ownerUid networkName : String) (ownerPort : ℕ)
  | acceptService (serviceId : String)
  | rejectService (serviceId : String)
  | closeService (serviceId requester : String)
  | allowClient (order : IterOrder (ℕ × ProxyConfig)) (serviceName uid : String)
  | denyClient (order : IterOrder (ℕ × ProxyConfig)) (serviceName uid : String)

namespace ServiceManager

/-- The services and proxies after an operation, successful or not. -/
def call (m : ServiceManager) : ServiceCall → ServiceManager
  | .createService id now name ownerUid networkName ownerPort =>
    (m.createService id now name ownerUid networkName ownerPort).2
  | .acceptService serviceId => (m.acceptService serviceId).2
  | .rejectService serviceId => (m.rejectService serviceId).2
  | .closeService serviceId requester => (m.closeService serviceId requester).2
  | .allowClient order serviceName uid => (m.allowClient order serviceName uid).2
  | .denyClient order serviceName uid => (m.denyClient order serviceName uid).2

/-- An acceptance is refused, or opens a proxy at the next port for a service that was pending. -/
theorem acceptService_cases (m : ServiceManager) (serviceId : String) :
    (∃ e, m.acceptService serviceId = (.error e, m)) ∨
      ∃ service config, m.services.lookup serviceId = some service ∧ service.status = .pending ∧
        config = ⟨service.ownerUid, service.ownerPort, [], true⟩ ∧
        m.acceptService serviceId = (.ok (m.nextPort, config), {
          services := m.services.insert serviceId { service with status := .active }
          proxies := m.proxies.insert m.nextPort config
          nextPort := (m.nextPort + 1) % 2 ^ 16 }) := by
  rw [acceptService]
  split
  next => exact .inl ⟨_, rfl⟩
  next service hservice =>
    split
    next => exact .inl ⟨_, rfl⟩
    next hpending => exact .inr ⟨service, _, hservice, not_not.mp hpending, rfl, rfl⟩

/-- The clients of one proxy have been changed, if anything. -/
def ClientsChanged (m m' : ServiceManager) : Prop :=
  m' = m ∨ ∃ localPort proxy proxy', m.proxies.lookup localPort = some proxy ∧
    proxy'.targetUid = proxy.targetUid ∧ proxy'.targetPort = proxy.targetPort ∧
      m' = { m with proxies := m.proxies.insert localPort proxy' }

theorem lookup_of_findProxy {m : ServiceManager} {order : IterOrder (ℕ × ProxyConfig)}
    {serviceName : String} {localPort : ℕ} {proxy : ProxyConfig}
    (h : m.findProxy order serviceName = some (localPort, proxy)) :
    m.proxies.lookup localPort = some proxy :=
  ToMathlib.HashMap.mem_pairs_iff.mp (order.mem_visit.mp (List.mem_of_find?_eq_some h))

theorem clientsChanged_allowClient (m : ServiceManager) (order : IterOrder (ℕ × ProxyConfig))
    (serviceName uid : String) : m.ClientsChanged (m.allowClient order serviceName uid).2 := by
  rw [allowClient]
  split
  next => exact .inl rfl
  next hfound =>
    refine .inr ⟨_, _, _, lookup_of_findProxy hfound, ?_, ?_, rfl⟩
    · rfl
    · rfl

theorem clientsChanged_denyClient (m : ServiceManager) (order : IterOrder (ℕ × ProxyConfig))
    (serviceName uid : String) : m.ClientsChanged (m.denyClient order serviceName uid).2 := by
  rw [denyClient]
  split
  next => exact .inl rfl
  next hfound =>
    refine .inr ⟨_, _, _, lookup_of_findProxy hfound, ?_, ?_, rfl⟩
    · rfl
    · rfl

/-- The service is active, and belongs to this port of this owner. -/
def Serves (s : F2fService) (uid : String) (port : ℕ) : Prop :=
  s.status = .active ∧ s.ownerUid = uid ∧ s.ownerPort = port
  deriving Decidable

/-- There is an active service at this port of this owner. -/
def HasActive (m : ServiceManager) (uid : String) (port : ℕ) : Prop :=
  ∃ id s, m.services.lookup id = some s ∧ Serves s uid port

/-- Every proxy forwards to an active service. -/
def Backed (m : ServiceManager) : Prop :=
  ∀ localPort proxy, m.proxies.lookup localPort = some proxy →
    m.HasActive proxy.targetUid proxy.targetPort

/-- There is one apart from this service. -/
def ActiveApart (m : ServiceManager) (id uid : String) (port : ℕ) : Prop :=
  ∃ id' s, id' ≠ id ∧ m.services.lookup id' = some s ∧ Serves s uid port

/-- Every proxy that the service serves is served by another one, too. -/
def Dispensable (m : ServiceManager) (id : String) : Prop :=
  ∀ localPort proxy s, m.proxies.lookup localPort = some proxy →
    m.services.lookup id = some s → Serves s proxy.targetUid proxy.targetPort →
      m.ActiveApart id proxy.targetUid proxy.targetPort

/-- The operation does not take the service away from a proxy: it is not the rejection of the only
active service behind a proxy, and no new service takes its id. -/
def KeepsBacked (m : ServiceManager) : ServiceCall → Prop
  | .createService id _ _ _ _ _ => m.Dispensable id
  | .rejectService serviceId => m.Dispensable serviceId
  | _ => True

variable {m m' : ServiceManager} {id uid : String} {port : ℕ} {s : F2fService}

/-- An active service is this one, or there is one apart from it. -/
theorem HasActive.cases (h : m.HasActive uid port) (id : String) :
    (∃ s, m.services.lookup id = some s ∧ Serves s uid port) ∨ m.ActiveApart id uid port := by
  obtain ⟨id', s, hs, hserves⟩ := h
  by_cases hid : id' = id
  · subst hid
    exact .inl ⟨s, hs, hserves⟩
  · exact .inr ⟨id', s, hid, hs, hserves⟩

/-- When a service is replaced, it counts for itself, and the others as before. -/
theorem hasActive_iff_of_insert (h : m'.services = m.services.insert id s) :
    m'.HasActive uid port ↔ Serves s uid port ∨ m.ActiveApart id uid port := by
  have hlookup (id' : String) : m'.services.lookup id' =
      if id' = id then some s else m.services.lookup id' := by
    rw [h, ToMathlib.HashMap.lookup_insert_ite]
  constructor
  · rintro ⟨id', s', hs', hserves⟩
    rw [hlookup] at hs'
    split at hs'
    next =>
      obtain rfl := Option.some.inj hs'
      exact .inl hserves
    next hid => exact .inr ⟨id', s', hid, hs', hserves⟩
  · rintro (hserves | ⟨id', s', hid, hs', hserves⟩)
    · exact ⟨id, s, (hlookup id).trans (if_pos rfl), hserves⟩
    · exact ⟨id', s', (hlookup id').trans ((if_neg hid).trans hs'), hserves⟩

/-- When a service is replaced by one that is not active, its proxies need another one. -/
theorem backed_iff_of_insert (hbacked : m.Backed) (h : m'.services = m.services.insert id s)
    (hproxies : m'.proxies = m.proxies) (hs : s.status ≠ .active) :
    m'.Backed ↔ m.Dispensable id := by
  have hactive {uid : String} {port : ℕ} :
      m'.HasActive uid port ↔ m.ActiveApart id uid port := by
    rw [hasActive_iff_of_insert h]
    exact or_iff_right fun hserves => hs hserves.1
  constructor
  · intro hbacked' localPort proxy _ hproxy _ _
    exact hactive.mp (hbacked' localPort proxy (hproxies ▸ hproxy))
  · intro hdispensable localPort proxy hproxy
    rw [hproxies] at hproxy
    rw [hactive]
    rcases (hbacked localPort proxy hproxy).cases id with ⟨s', hs', hserves⟩ | hapart
    · exact hdispensable localPort proxy s' hproxy hs' hserves
    · exact hapart

/-- The clients of a proxy do not matter. -/
theorem Backed.clientsChanged (hbacked : m.Backed) (h : m.ClientsChanged m') : m'.Backed := by
  rcases h with rfl | ⟨localPort, proxy, proxy', hproxy, huid, hport, rfl⟩
  · exact hbacked
  · intro localPort' proxy'' hproxy''
    dsimp only at hproxy''
    rw [ToMathlib.HashMap.lookup_insert_ite] at hproxy''
    split at hproxy''
    next =>
      obtain rfl := Option.some.inj hproxy''
      rw [huid, hport]
      exact hbacked localPort proxy hproxy
    next => exact hbacked localPort' proxy'' hproxy''

theorem Backed.acceptService (hbacked : m.Backed) (serviceId : String) :
    (m.acceptService serviceId).2.Backed := by
  obtain ⟨e, h⟩ | ⟨service, config, hservice, hpending, rfl, h⟩ := m.acceptService_cases serviceId
  · rw [h]
    exact hbacked
  · rw [h]
    intro localPort proxy hproxy
    dsimp only at hproxy
    rw [hasActive_iff_of_insert (m := m) rfl]
    rw [ToMathlib.HashMap.lookup_insert_ite] at hproxy
    split at hproxy
    next =>
      obtain rfl := Option.some.inj hproxy
      exact .inl ⟨rfl, rfl, rfl⟩
    -- a pending service did not serve a proxy
    next =>
      rcases (hbacked localPort proxy hproxy).cases serviceId with ⟨s, hs, hserves⟩ | hapart
      · rw [hservice] at hs
        obtain rfl := Option.some.inj hs
        exact absurd (hpending.symm.trans hserves.1) nofun
      · exact .inr hapart

/-- No proxy of the owner is left that would need the service. -/
theorem Backed.closeService (hbacked : m.Backed) (serviceId requester : String) :
    (m.closeService serviceId requester).2.Backed := by
  rw [ServiceManager.closeService]
  split
  next => exact hbacked
  next service hservice =>
    split
    next => exact hbacked
    next =>
      intro localPort proxy hproxy
      obtain ⟨hproxy, hother⟩ := ToMathlib.HashMap.lookup_retain_eq_some.mp hproxy
      rw [hasActive_iff_of_insert (m := m) rfl]
      rcases (hbacked localPort proxy hproxy).cases serviceId with ⟨s, hs, hserves⟩ | hapart
      · rw [hservice] at hs
        obtain rfl := Option.some.inj hs
        exact absurd hserves.2.1.symm (of_decide_eq_true hother)
      · exact .inr hapart

/-- Which operations keep every proxy backed. -/
theorem backed_call_iff (hbacked : m.Backed) (c : ServiceCall) :
    (m.call c).Backed ↔ m.KeepsBacked c := by
  cases c with
  | createService id now name ownerUid networkName ownerPort =>
    exact backed_iff_of_insert hbacked rfl rfl nofun
  | acceptService serviceId => exact iff_of_true (hbacked.acceptService serviceId) trivial
  | rejectService serviceId =>
    rw [call, rejectService, KeepsBacked]
    split
    next hnone =>
      refine iff_of_true hbacked fun localPort proxy s _ hs => ?_
      rw [hnone] at hs
      cases hs
    next service hservice => exact backed_iff_of_insert hbacked rfl rfl nofun
  | closeService serviceId requester =>
    exact iff_of_true (hbacked.closeService serviceId requester) trivial
  | allowClient order serviceName uid =>
    exact iff_of_true (hbacked.clientsChanged (m.clientsChanged_allowClient _ _ _)) trivial
  | denyClient order serviceName uid =>
    exact iff_of_true (hbacked.clientsChanged (m.clientsChanged_denyClient _ _ _)) trivial

theorem backed_new : new.Backed := by
  intro localPort proxy hproxy
  cases hproxy

/-- In a run from a new manager, every proxy forwards to an active service throughout if and only if
no operation rejects the only active service behind a proxy, or takes its id for a new service. -/
theorem backed_run_iff (calls : List ServiceCall) :
    ToMathlib.AllStates call Backed new calls ↔ ToMathlib.AllSteps call KeepsBacked new calls :=
  ToMathlib.allStates_iff_allSteps (J := fun _ _ => True) (fun _ _ _ _ => trivial)
    (fun _ c _ _ hbacked => backed_call_iff hbacked c) trivial backed_new

/-- A service of `alice` is accepted. -/
def acceptedRun : List ServiceCall :=
  [.createService "a" 0 "bbs" "alice" "net" 8080, .acceptService "a"]

/-- Once it is rejected, everybody can still use its proxy, and nothing is active behind it. -/
theorem rejected_service_reachable :
    ¬ (∀ calls : List ServiceCall, (calls.foldl call new).Backed) ∧
      ((acceptedRun.foldl call new).rejectService "a").2.canAccess "mallory" 18080 = true := by
  refine ⟨fun hclaim => ?_, rfl⟩
  obtain ⟨id, s, hs, hactive, -⟩ :=
    hclaim (acceptedRun ++ [.rejectService "a"]) 18080 ⟨"alice", 8080, [], true⟩ rfl
  obtain rfl : s = ⟨"a", "bbs", "alice", "net", 8080, .rejected, 0⟩ :=
    List.mem_singleton.mp (ToMathlib.HashMap.mem_values.mpr ⟨id, hs⟩)
  cases hactive

/-! ## Counting -/

/-- The proxy forwards to this port of this owner. -/
def Targets (proxy : ProxyConfig) (uid : String) (port : ℕ) : Prop :=
  proxy.targetUid = uid ∧ proxy.targetPort = port
  deriving Decidable

/-- The number of active services at this port of this owner. -/
def activeCount (m : ServiceManager) (uid : String) (port : ℕ) : ℕ :=
  m.services.countValues fun s => Serves s uid port

/-- The number of proxies to it. -/
def proxyCount (m : ServiceManager) (uid : String) (port : ℕ) : ℕ :=
  m.proxies.countValues fun proxy => Targets proxy uid port

/-- There are as many proxies as active services. -/
def Matched (m : ServiceManager) : Prop :=
  ∀ uid port, m.activeCount uid port = m.proxyCount uid port

/-- The service is not active. -/
def Inactive (m : ServiceManager) (id : String) : Prop :=
  ∀ s, m.services.lookup id = some s → s.status ≠ .active

/-- The operation does not part an active service from its proxy: it does not reject an active
service, no new service takes the id of one, and no owner closes a service and has another one that
is active. -/
def KeepsMatched (m : ServiceManager) : ServiceCall → Prop
  | .createService id _ _ _ _ _ => m.Inactive id
  | .rejectService serviceId => m.Inactive serviceId
  | .closeService serviceId requester =>
    ∀ s, m.services.lookup serviceId = some s → s.ownerUid = requester →
      ∀ port, ¬ m.ActiveApart serviceId requester port
  | _ => True

/-- Every proxy is at a port below the next one. -/
def PortsBelow (m : ServiceManager) : Prop :=
  ∀ localPort proxy, m.proxies.lookup localPort = some proxy → localPort < m.nextPort

/-- The operation accepts a service. -/
def accepts (m : ServiceManager) : ServiceCall → Bool
  | .acceptService serviceId => (m.acceptService serviceId).1.toBool
  | _ => false

/-- The number of services that the operations accept. -/
def acceptances (m : ServiceManager) : List ServiceCall → ℕ
  | [] => 0
  | c :: calls => (m.accepts c).toNat + (m.call c).acceptances calls

theorem activeCount_eq_zero_iff : m.activeCount uid port = 0 ↔ ¬ m.HasActive uid port := by
  rw [activeCount, ToMathlib.HashMap.countValues_eq_zero_iff]
  simp only [decide_eq_false_iff_not, HasActive, not_exists, not_and]

variable (m m') in
/-- When a service is replaced, it is counted for itself, and no longer for what it was. -/
theorem activeCount_of_insert {s' : F2fService} (h : m'.services = m.services.insert id s')
    (hs : m.services.lookup id = some s) (uid : String) (port : ℕ) :
    m'.activeCount uid port + (decide (Serves s uid port)).toNat =
      m.activeCount uid port + (decide (Serves s' uid port)).toNat := by
  rw [activeCount, h]
  exact ToMathlib.HashMap.countValues_insert_of_some hs

/-- A service that is not active is not counted. -/
theorem toNat_serves_of_ne (hs : s.status ≠ .active) (uid : String) (port : ℕ) :
    (decide (Serves s uid port)).toNat = 0 := by
  rw [decide_eq_false fun hserves => hs hserves.1]
  rfl

/-- When a service is replaced by one that is not active, with the proxies as they are, it must not
have been active. -/
theorem matched_iff_of_insert {s' : F2fService} (hmatched : m.Matched)
    (h : m'.services = m.services.insert id s') (hproxies : m'.proxies = m.proxies)
    (hs' : s'.status ≠ .active) : m'.Matched ↔ m.Inactive id := by
  have hproxyCount (uid : String) (port : ℕ) :
      m'.proxyCount uid port = m.proxyCount uid port := by
    rw [proxyCount, hproxies, proxyCount]
  constructor
  · intro hmatched' s hs hactive
    have hcount := activeCount_of_insert m m' h hs s.ownerUid s.ownerPort
    rw [hmatched', hproxyCount, ← hmatched, toNat_serves_of_ne hs',
      decide_eq_true ⟨hactive, rfl, rfl⟩] at hcount
    exact absurd hcount (Nat.succ_ne_self _)
  · intro hinactive uid port
    rw [hproxyCount, ← hmatched]
    cases hs : m.services.lookup id with
    | none =>
      rw [activeCount, h, ToMathlib.HashMap.countValues_insert_of_none hs,
        toNat_serves_of_ne hs', add_zero, activeCount]
    | some s =>
      have hcount := activeCount_of_insert m m' h hs uid port
      rwa [toNat_serves_of_ne hs', toNat_serves_of_ne (hinactive s hs)] at hcount

/-- A proxy whose target stays is counted as before. -/
theorem Matched.clientsChanged (hmatched : m.Matched) (h : m.ClientsChanged m') : m'.Matched := by
  rcases h with rfl | ⟨localPort, proxy, proxy', hproxy, huid, hport, rfl⟩
  · exact hmatched
  · intro uid port
    have hcount := ToMathlib.HashMap.countValues_insert_of_some (b := proxy')
      (p := fun proxy => decide (Targets proxy uid port)) hproxy
    simp only [Targets, huid, hport] at hcount
    exact (hmatched uid port).trans (Nat.add_right_cancel hcount).symm

/-- An accepted service and its proxy are counted together. -/
theorem Matched.acceptService (hmatched : m.Matched) (hbelow : m.PortsBelow)
    (serviceId : String) : (m.acceptService serviceId).2.Matched := by
  obtain ⟨e, h⟩ | ⟨service, config, hservice, hpending, rfl, h⟩ := m.acceptService_cases serviceId
  · rw [h]
    exact hmatched
  · rw [h]
    intro uid port
    have hnew : m.proxies.lookup m.nextPort = none :=
      Option.eq_none_iff_forall_ne_some.mpr fun proxy hproxy =>
        lt_irrefl _ (hbelow m.nextPort proxy hproxy)
    have hactive := activeCount_of_insert m
      ⟨m.services.insert serviceId { service with status := .active }, m.proxies, 0⟩
      rfl hservice uid port
    rw [toNat_serves_of_ne (hpending ▸ nofun), add_zero, hmatched] at hactive
    rw [proxyCount, ToMathlib.HashMap.countValues_insert_of_none hnew]
    have hsame : Serves { service with status := .active } uid port ↔
        Targets ⟨service.ownerUid, service.ownerPort, [], true⟩ uid port :=
      ⟨fun hserves => hserves.2, fun htargets => ⟨rfl, htargets⟩⟩
    rw [decide_eq_decide.mpr hsame] at hactive
    exact hactive

variable (m m') in
/-- The proxies of other owners are left. -/
theorem proxyCount_retain (owner : String) (hproxies : m'.proxies =
      m.proxies.retain fun _ cfg => cfg.targetUid ≠ owner) (uid : String) (port : ℕ) :
    m'.proxyCount uid port = if uid = owner then 0 else m.proxyCount uid port := by
  rw [proxyCount, hproxies, ToMathlib.HashMap.countValues_retain]
  split
  next huid =>
    subst huid
    refine ToMathlib.HashMap.countValues_eq_zero_iff.mpr fun localPort proxy _ => ?_
    by_cases htarget : proxy.targetUid = uid <;> simp [Targets, htarget]
  next huid =>
    rw [proxyCount]
    congr 1
    funext proxy
    by_cases htarget : proxy.targetUid = uid <;> simp [Targets, htarget, huid]

/-- An owner that closes a service must not have another one that is active. -/
theorem matched_closeService_iff (hmatched : m.Matched) (serviceId requester : String) :
    (m.closeService serviceId requester).2.Matched ↔
      m.KeepsMatched (.closeService serviceId requester) := by
  rw [closeService, KeepsMatched]
  split
  next hnone =>
    refine iff_of_true hmatched fun s hs => ?_
    rw [hnone] at hs
    cases hs
  next service hservice =>
    split
    next howner =>
      refine iff_of_true hmatched fun s hs hsowner => ?_
      rw [hservice] at hs
      obtain rfl := Option.some.inj hs
      exact absurd hsowner howner
    next howner =>
      obtain rfl := not_not.mp howner
      have hproxies := proxyCount_retain m
        ⟨m.services.insert serviceId { service with status := .closed },
          m.proxies.retain fun _ cfg => cfg.targetUid ≠ service.ownerUid, m.nextPort⟩
        service.ownerUid rfl
      constructor
      · intro hmatched' s _ _ port hapart
        -- the owner has no proxies left
        have hzero := hmatched' service.ownerUid port
        rw [hproxies, if_pos rfl, activeCount_eq_zero_iff] at hzero
        exact hzero ((hasActive_iff_of_insert (m := m) rfl).mpr (.inr hapart))
      · intro hlast uid port
        rw [hproxies]
        split
        next huid =>
          subst huid
          rw [activeCount_eq_zero_iff, hasActive_iff_of_insert (m := m) rfl, not_or]
          exact ⟨fun hserves => (nomatch hserves.1), hlast service hservice rfl port⟩
        next huid =>
          have hcount := activeCount_of_insert m
            ⟨m.services.insert serviceId { service with status := .closed },
              m.proxies.retain fun _ cfg => cfg.targetUid ≠ service.ownerUid, m.nextPort⟩
            rfl hservice uid port
          rw [toNat_serves_of_ne (s := { service with status := .closed }) nofun,
            decide_eq_false fun hserves => huid hserves.2.1.symm] at hcount
          exact hcount.trans (hmatched uid port)

/-- Which operations keep services and proxies matched. -/
theorem matched_call_iff (hmatched : m.Matched) (hbelow : m.PortsBelow) (c : ServiceCall) :
    (m.call c).Matched ↔ m.KeepsMatched c := by
  cases c with
  | createService id now name ownerUid networkName ownerPort =>
    exact matched_iff_of_insert hmatched rfl rfl nofun
  | acceptService serviceId => exact iff_of_true (hmatched.acceptService hbelow serviceId) trivial
  | rejectService serviceId =>
    rw [call, rejectService, KeepsMatched]
    split
    next hnone =>
      refine iff_of_true hmatched fun s hs => ?_
      rw [hnone] at hs
      cases hs
    next => exact matched_iff_of_insert hmatched rfl rfl nofun
  | closeService serviceId requester => exact matched_closeService_iff hmatched serviceId requester
  | allowClient order serviceName uid =>
    exact iff_of_true (hmatched.clientsChanged (m.clientsChanged_allowClient _ _ _)) trivial
  | denyClient order serviceName uid =>
    exact iff_of_true (hmatched.clientsChanged (m.clientsChanged_denyClient _ _ _)) trivial

/-- A proxy that is changed stays where it is. -/
theorem PortsBelow.clientsChanged (hbelow : m.PortsBelow) (h : m.ClientsChanged m') :
    m'.PortsBelow ∧ m'.nextPort = m.nextPort := by
  rcases h with rfl | ⟨localPort, proxy, proxy', hproxy, -, -, rfl⟩
  · exact ⟨hbelow, rfl⟩
  · refine ⟨fun localPort' proxy'' hproxy'' => ?_, rfl⟩
    dsimp only at hproxy''
    rw [ToMathlib.HashMap.lookup_insert_ite] at hproxy''
    split at hproxy''
    next hport => exact hport ▸ hbelow localPort proxy hproxy
    next => exact hbelow localPort' proxy'' hproxy''

/-- An acceptance takes the next port, which is a new one. -/
theorem PortsBelow.acceptService (hbelow : m.PortsBelow) {serviceId : String}
    (hwrap : m.nextPort + (m.acceptService serviceId).1.toBool.toNat < 2 ^ 16) :
    (m.acceptService serviceId).2.PortsBelow ∧
      (m.acceptService serviceId).2.nextPort =
        m.nextPort + (m.acceptService serviceId).1.toBool.toNat := by
  obtain ⟨e, h⟩ | ⟨service, config, -, -, -, h⟩ := m.acceptService_cases serviceId
  · rw [h]
    exact ⟨hbelow, rfl⟩
  · rw [h, Except.toBool, Bool.toNat_true] at hwrap
    rw [h, Except.toBool, Bool.toNat_true]
    dsimp only
    rw [Nat.mod_eq_of_lt hwrap]
    refine ⟨fun localPort proxy hproxy => ?_, rfl⟩
    dsimp only at hproxy ⊢
    rw [ToMathlib.HashMap.lookup_insert_ite] at hproxy
    split at hproxy
    next hport => omega
    next => exact (hbelow localPort proxy hproxy).trans (Nat.lt_succ_self _)

/-- As long as the next port does not wrap around, it counts the acceptances, and every proxy is
below it. -/
theorem PortsBelow.call (hbelow : m.PortsBelow) {c : ServiceCall}
    (hwrap : m.nextPort + (m.accepts c).toNat < 2 ^ 16) :
    (m.call c).PortsBelow ∧ (m.call c).nextPort = m.nextPort + (m.accepts c).toNat := by
  cases c with
  | acceptService serviceId => exact hbelow.acceptService hwrap
  | createService id now name ownerUid networkName ownerPort => exact ⟨hbelow, rfl⟩
  | rejectService serviceId =>
    rw [ServiceManager.call, rejectService]
    split
    next => exact ⟨hbelow, rfl⟩
    next => exact ⟨hbelow, rfl⟩
  | closeService serviceId requester =>
    rw [ServiceManager.call, closeService]
    split
    next => exact ⟨hbelow, rfl⟩
    next =>
      split
      next => exact ⟨hbelow, rfl⟩
      next =>
        refine ⟨fun localPort proxy hproxy => ?_, rfl⟩
        exact hbelow localPort proxy (ToMathlib.HashMap.lookup_retain_eq_some.mp hproxy).1
  | allowClient order serviceName uid =>
    exact hbelow.clientsChanged (m.clientsChanged_allowClient _ _ _)
  | denyClient order serviceName uid =>
    exact hbelow.clientsChanged (m.clientsChanged_denyClient _ _ _)

/-- There is room for the proxies of `n` more acceptances, up to port 58080. -/
def Room (m : ServiceManager) (n : ℕ) : Prop := m.PortsBelow ∧ m.nextPort + n ≤ 58080

/-- An operation uses up the room for the acceptance that it is, if it is one. -/
theorem Room.call {c : ServiceCall} {n : ℕ} (hroom : m.Room ((m.accepts c).toNat + n)) :
    (m.call c).Room n := by
  obtain ⟨hbelow, hnext⟩ := hroom
  obtain ⟨hbelow', hnext'⟩ := hbelow.call (show m.nextPort + (m.accepts c).toNat < 2 ^ 16 by omega)
  exact ⟨hbelow', by omega⟩

theorem matched_new : new.Matched := fun _ _ => rfl

/-- In a run from a new manager with at most 40000 acceptances, there are as many proxies as active
services throughout if and only if no operation rejects an active service, takes the id of one for a
new service, or closes a service whose owner has another one that is active. -/
theorem matched_run_iff (calls : List ServiceCall) (hbound : new.acceptances calls ≤ 40000) :
    ToMathlib.AllStates call Matched new calls ↔
      ToMathlib.AllSteps call KeepsMatched new calls := by
  have hroom : new.Room (new.acceptances calls) :=
    ⟨fun _ _ hproxy => (nomatch hproxy), Nat.add_le_add_left hbound 18080⟩
  exact ToMathlib.allStates_iff_allSteps (J := fun m calls => m.Room (m.acceptances calls))
    (fun _ _ _ hroom => hroom.call)
    (fun _ c _ hroom hmatched => matched_call_iff hmatched hroom.1 c) hroom matched_new

/-- The only service of `alice` is accepted and closed. -/
theorem matched_run_one :
    ToMathlib.AllStates call Matched new (acceptedRun ++ [.closeService "a" "alice"]) := by
  refine (matched_run_iff _ (by decide)).mpr ⟨?_, trivial, ?_, trivial⟩
  · intro s hs
    cases hs
  · rintro s - - port ⟨id, s', hid, hs', -⟩
    have hkeys : id ∈ (acceptedRun.foldl call new).services.keys :=
      AList.mem_keys.mp (AList.lookup_isSome.mp (Option.isSome_of_eq_some hs'))
    exact hid (List.mem_singleton.mp hkeys)

/-- Of two services of `alice`, she closes one, and the other is left without a proxy. -/
theorem closed_service_takes_proxies :
    ¬ ∀ calls : List ServiceCall, new.acceptances calls ≤ 40000 →
      (calls.foldl call new).Matched := by
  intro hclaim
  have hcount := hclaim (acceptedRun ++ [.createService "b" 0 "files" "alice" "net" 9090,
    .acceptService "b", .closeService "a" "alice"]) (by decide) "alice" 9090
  revert hcount
  decide

end ServiceManager

end ChronoShift
