import ChronoShift.Service

/-!
# The ports of proxies

Every accepted service takes the next port, and no port is ever given back. The counter has 16 bits
and starts at 18080. It goes over the last port with the 47456th acceptance: a debug build panics
there, and a release build goes on at port 0, where the ports of live proxies come by again.

* `ServiceManager.TakesFreePort`: what is expected of an acceptance;
* `ServiceManager.takesFreePort_iff`: when one does what is expected;
* `ServiceManager.ports_free_iff`: in which runs all of them do.
-/

namespace ChronoShift.ServiceManager

/-- If the operation accepts a service, there is no proxy at the port that it returns, the counter
moves on by one, and every live proxy stays. -/
def TakesFreePort (m : ServiceManager) : ServiceCall → Prop
  | .acceptService serviceId => ∀ localPort config m',
    m.acceptService serviceId = (.ok (localPort, config), m') →
      m.proxies.lookup localPort = none ∧ m'.nextPort = m.nextPort + 1 ∧
        ∀ port proxy, m.proxies.lookup port = some proxy → m'.proxies.lookup port = some proxy
  | _ => True

variable {m : ServiceManager}

/-- An operation that accepts nothing takes no port. -/
theorem takesFreePort_of_not_accepts {c : ServiceCall} (h : m.accepts c = false) :
    m.TakesFreePort c := by
  cases c with
  | acceptService serviceId =>
    intro localPort config m' haccept
    rw [accepts, haccept] at h
    cases h
  | _ => trivial

/-- With all proxies below the next port, an acceptance takes a free port if and only if the counter
does not wrap around. -/
theorem takesFreePort_iff (hbelow : m.PortsBelow) {c : ServiceCall} (h : m.accepts c = true) :
    m.TakesFreePort c ↔ (m.nextPort + 1) % 2 ^ 16 = m.nextPort + 1 := by
  cases c with
  | acceptService serviceId =>
    obtain ⟨e, heq⟩ | ⟨service, config, -, -, -, heq⟩ := m.acceptService_cases serviceId
    · rw [accepts, heq] at h
      cases h
    · rw [TakesFreePort, heq]
      constructor
      · exact fun hfree => (hfree _ _ _ rfl).2.1
      · rintro hwrap localPort config' m' hok
        obtain ⟨hresult, rfl⟩ := Prod.mk.inj hok
        obtain ⟨rfl, rfl⟩ := Prod.mk.inj (Except.ok.inj hresult)
        -- all live proxies are below the port that is taken
        have hnew : m.proxies.lookup m.nextPort = none :=
          Option.eq_none_iff_forall_ne_some.mpr fun proxy hproxy =>
            lt_irrefl _ (hbelow m.nextPort proxy hproxy)
        refine ⟨hnew, hwrap, fun port proxy hproxy => ?_⟩
        dsimp only
        rw [ToMathlib.HashMap.lookup_insert_ite, if_neg]
        · exact hproxy
        · rintro rfl
          rw [hnew] at hproxy
          cases hproxy
  | _ => cases h

/-- With all proxies below the next port, the acceptances of a run take free ports if and only if
there are ports left for all of them. -/
theorem allSteps_takesFreePort_iff (hbelow : m.PortsBelow) (hport : m.nextPort < 2 ^ 16)
    (calls : List ServiceCall) :
    ToMathlib.AllSteps call TakesFreePort m calls ↔
      m.nextPort + m.acceptances calls < 2 ^ 16 := by
  induction calls generalizing m with
  | nil => exact iff_of_true trivial hport
  | cons c calls ih =>
    rw [ToMathlib.AllSteps, acceptances]
    cases haccepts : m.accepts c with
    | false =>
      have hstep := @PortsBelow.call m hbelow c (by rwa [haccepts])
      rw [haccepts, Bool.toNat_false, add_zero] at hstep
      rw [and_iff_right (takesFreePort_of_not_accepts haccepts),
        ih hstep.1 (hstep.2.symm ▸ hport), hstep.2, Bool.toNat_false, zero_add]
    | true =>
      rw [takesFreePort_iff hbelow haccepts, Bool.toNat_true]
      by_cases hwrap : m.nextPort + 1 < 2 ^ 16
      · have hstep := @PortsBelow.call m hbelow c (by rwa [haccepts])
        rw [haccepts, Bool.toNat_true] at hstep
        rw [and_iff_right (Nat.mod_eq_of_lt hwrap), ih hstep.1 (hstep.2.symm ▸ hwrap), hstep.2,
          add_assoc]
      -- the last port has been taken
      · refine iff_of_false (fun h => hwrap ?_) (by omega)
        rw [← h.1]
        exact Nat.mod_lt _ (by norm_num)

theorem portsBelow_new : new.PortsBelow := by
  intro localPort proxy hproxy
  cases hproxy

/-- In a run from a new manager, every acceptance takes a port at which there is no proxy, and keeps
the others, if and only if there are at most 47455 of them. -/
theorem ports_free_iff (calls : List ServiceCall) :
    ToMathlib.AllSteps call TakesFreePort new calls ↔ new.acceptances calls ≤ 47455 := by
  have hstart : new.nextPort = 18080 := rfl
  rw [allSteps_takesFreePort_iff portsBelow_new (by decide), hstart]
  omega

/-- `n` services of `alice`, one accepted after the other. -/
def acceptMany : ℕ → List ServiceCall
  | 0 => []
  | n + 1 => .createService (toString n) 0 (toString n) "alice" "net" 8080 ::
      .acceptService (toString n) :: acceptMany n

/-- Every new service is accepted. -/
theorem acceptances_acceptMany (m : ServiceManager) (n : ℕ) : m.acceptances (acceptMany n) = n := by
  induction n generalizing m with
  | zero => rfl
  | succ n ih =>
    have haccepts : (m.call (.createService (toString n) 0 (toString n) "alice" "net" 8080)).accepts
        (.acceptService (toString n)) = true := by
      rw [accepts, call, createService, acceptService]
      dsimp only
      rw [AList.lookup_insert]
      rfl
    have hcreates : m.accepts
        (.createService (toString n) 0 (toString n) "alice" "net" 8080) = false := rfl
    rw [acceptMany, acceptances, acceptances, haccepts, hcreates, ih, Bool.toNat_false,
      Bool.toNat_true]
    omega

/-- The 47456th acceptance takes the last port, and the counter does not move on. -/
theorem ports_run_out :
    ¬ ∀ calls : List ServiceCall, ToMathlib.AllSteps call TakesFreePort new calls := by
  intro hclaim
  have hfree := (allSteps_takesFreePort_iff portsBelow_new (by decide) _).mp
    (hclaim (acceptMany 47456))
  rw [acceptances_acceptMany] at hfree
  revert hfree
  decide

end ChronoShift.ServiceManager
