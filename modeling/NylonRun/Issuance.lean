import NylonRun.Frames
import NylonRun.Orders
import NylonRun.Lib.Simulation

/-!
# What orders do to the daemon

Seen from the daemon, an order writes to the disk at some of its steps, and puts a certificate in
the store in its last one: the events of a run with its orders in detail come down to events of
the daemon alone. An order puts the certificate of its own host, and returns Ok in that step, so
an order that fails leaves what is served as it was.
-/

namespace Acme.Order

variable {os : AcmeOs} {s : Shared} {o : Order} {cert : TlsCertificate}

/-- A step that leaves the store, and in which the order does not return Ok. -/
structure Withholds (s : Shared) (o : Order) (next : Shared × Order) : Prop where
  store : next.1.certStore = s.certStore
  asked : (next.2.hostname, next.2.email) = (o.hostname, o.email)
  done : next.2.stage = .finished (.ok ()) → o.stage = .finished (.ok ())

theorem Does.withholds {next : Shared × Order} (h : Does os s o next)
    (hissues : o.issues os s = none) : Withholds s o next := by
  cases h with
  | registers hstage =>
    obtain ⟨configs, heq⟩ := s.register_eq o.hostname o.email
    rw [heq]
    exact ⟨rfl, rfl, nofun⟩
  | stays hstage => exact ⟨rfl, rfl, id⟩
  | goesOn disk stage hstage hnew hok => exact ⟨rfl, rfl, fun hdone => absurd hdone hok⟩
  | posts c hstage hgiven => exact ⟨rfl, rfl, nofun⟩
  | handsOver e hstage hpoll => exact ⟨rfl, rfl, nofun⟩
  | removes status token rest hstage htokens => exact ⟨rfl, rfl, id⟩
  | issues cert h =>
    rw [hissues] at h
    cases h

theorem advance_of_not_issues (h : o.issues os s = none) : Withholds s o (o.advance os s) :=
  (advance_does os s o).withholds h

/-- What a step of an order is to the daemon. -/
def events (os : AcmeOs) (s : Shared) (o : Order) : List Event :=
  .disk (o.advance os s).1.disk :: ((o.issues os s).map (Event.issued o.hostname)).toList

/-- An order stays that of its host and contact. -/
theorem advance_asked (os : AcmeOs) (s : Shared) (o : Order) :
    ((o.advance os s).2.hostname, (o.advance os s).2.email) = (o.hostname, o.email) := by
  cases hissues : o.issues os s with
  | none => exact (advance_of_not_issues hissues).asked
  | some cert =>
    rw [advance_of_issues hissues]
    rfl

end Acme.Order

namespace AcmeHost

open Acme

variable {s : AcmeHost} {e : AcmeEvent} {i : Nat}

/-- What an event comes to for the daemon. -/
def trace (s : AcmeHost) : AcmeEvent → List Event
  | .request os r => [.request os r]
  | .tick os => [.tick os]
  | .disk t => [.disk t]
  | .advance i os =>
    match s.orders[i]? with
    | none => []
    | some o => o.events os s.shared
  | .cleanUp _ | .renew => []

theorem trace_of_some {o : Order} (h : s.orders[i]? = some o) (os : AcmeOs) :
    s.trace (.advance i os) = o.events os s.shared := by
  simp only [trace, h]

theorem trace_of_none (h : s.orders[i]? = none) (os : AcmeOs) : s.trace (.advance i os) = [] := by
  simp only [trace, h]

theorem daemon_advance {o : Order} (h : s.orders[i]? = some o) (os : AcmeOs) :
    (s.advance i os).daemon = Daemon.machine.run s.daemon (s.trace (.advance i os)) := by
  rw [advance_of_some h, trace_of_some h, Order.events]
  cases hissues : o.issues os s.shared with
  | none =>
    have hstore : (o.advance os s.shared).1.certStore = s.daemon.proxyMgr.certStore :=
      (Order.advance_of_not_issues hissues).store
    change (s.withShared (o.advance os s.shared).1).daemon = _
    unfold withShared
    dsimp only
    rw [hstore]
    rfl
  | some cert =>
    rw [Order.advance_of_issues hissues]
    rfl

/-- An event with the orders in detail is its trace, seen from the daemon. -/
theorem simulates : machine.Simulates Daemon.machine AcmeHost.daemon trace := by
  intro s e
  cases e with
  | request os r => rfl
  | tick os => rfl
  | disk t => rfl
  | advance i os =>
    change (s.advance i os).daemon = _
    cases ho : s.orders[i]? with
    | none =>
      rw [advance_of_none ho, trace_of_none ho]
      rfl
    | some o => exact daemon_advance ho os
  | cleanUp i =>
    change (s.cleanUp i).daemon = s.daemon
    unfold cleanUp
    split <;> rfl
  | renew =>
    change s.renew.daemon = s.daemon
    rcases renew_cases s with heq | ⟨_ | ⟨c, rest⟩, heq⟩ <;> rw [heq] <;> rfl

/-- An order that has returned stays in the list, as it is. -/
theorem finished_run {es : List AcmeEvent} {o : Order} (h : s.orders[i]? = some o) (hover : o.Over) :
    (machine.run s es).orders[i]? = some o := by
  induction es generalizing s with
  | nil => exact h
  | cons e es ih =>
    rw [Machine.run_cons]
    rcases order_next e h with hsame | ⟨os, -, hstep⟩
    · exact ih hsame
    · obtain ⟨result, hresult⟩ := hover
      rw [Order.advance_finished hresult] at hstep
      exact ih hstep

/-- Every certificate that is issued is that of an order for its host that returns Ok. -/
theorem ok_of_issued {es : List AcmeEvent} {hostname : String} {cert : TlsCertificate}
    (hissued : Event.issued hostname cert ∈ machine.traces trace s es) :
    ∃ o ∈ (machine.run s es).orders, o.hostname = hostname ∧ o.stage = .finished (.ok ()) := by
  obtain ⟨front, e, back, rfl, hmem⟩ := Machine.mem_traces hissued
  cases e with
  | request os r => exact nomatch List.mem_singleton.1 hmem
  | tick os => exact nomatch List.mem_singleton.1 hmem
  | disk t => exact nomatch List.mem_singleton.1 hmem
  | cleanUp i => cases hmem
  | renew => cases hmem
  | advance i os =>
    cases ho : (machine.run s front).orders[i]? with
    | none =>
      rw [trace_of_none ho] at hmem
      cases hmem
    | some o =>
      rw [trace_of_some ho] at hmem
      rcases List.mem_cons.1 hmem with hdisk | hcert
      · exact nomatch hdisk
      · rw [Option.mem_toList, Option.map_eq_some_iff] at hcert
        obtain ⟨cert', hissues, heq⟩ := hcert
        cases heq
        obtain ⟨hi, -⟩ := List.getElem?_eq_some_iff.1 ho
        have hnext : (machine.next (machine.run s front) (.advance i os)).orders[i]? =
            some (o.goto (.finished (.ok ()))) := by
          change (AcmeHost.advance _ i os).orders[i]? = _
          rw [advance_of_some ho, Order.advance_of_issues hissues]
          exact List.getElem?_set_self hi
        have hend : (machine.run (machine.next (machine.run s front) (.advance i os)) back).orders[i]? =
            some (o.goto (.finished (.ok ()))) := finished_run hnext ⟨_, rfl⟩
        rw [Machine.run_append, Machine.run_cons]
        exact ⟨_, List.mem_of_getElem? hend, rfl, rfl⟩

/-- An order returns Ok in the step in which it issues its certificate. -/
theorem issued_of_ok {es : List AcmeEvent} {o : Order} (ho : o ∈ (machine.run s es).orders)
    (hok : o.stage = .finished (.ok ())) :
    o ∈ s.orders ∨ ∃ cert, Event.issued o.hostname cert ∈ machine.traces trace s es := by
  induction es generalizing s with
  | nil => exact .inl ho
  | cons e es ih =>
    rw [Machine.run_cons] at ho
    rcases ih ho with hnext | ⟨cert, hlater⟩
    · rcases orders_next hnext with hold | ⟨-, hstart⟩ | ⟨i, os, o', rfl, ho', heq⟩
      · exact .inl hold
      · rw [hok] at hstart
        rcases hstart with hstage | hstage <;> cases hstage
      · cases hissues : o'.issues os s.shared with
        | none =>
          have hdone : o'.stage = .finished (.ok ()) := by
            refine (Order.advance_of_not_issues hissues).done ?_
            rw [← heq, hok]
          rw [Order.advance_finished hdone] at heq
          rw [heq]
          exact .inl (List.mem_of_getElem? ho')
        | some cert =>
          refine .inr ⟨cert, List.mem_append_left _ ?_⟩
          rw [heq, Order.advance_of_issues hissues, trace_of_some ho', Order.events, hissues]
          exact List.mem_cons_of_mem _ (List.mem_singleton.2 rfl)
    · exact .inr ⟨cert, List.mem_append_right _ hlater⟩

/-- Through any interleaving, what happens to the daemon is what events of its own do to it, and
the certificates that are issued in them are those of the orders that return Ok. -/
theorem orders_refine_daemon (s : AcmeHost) (es : List AcmeEvent) :
    (machine.run s es).daemon = Daemon.machine.run s.daemon (machine.traces trace s es) ∧
      (∀ hostname cert, Event.issued hostname cert ∈ machine.traces trace s es →
        ∃ o ∈ (machine.run s es).orders, o.hostname = hostname ∧ o.stage = .finished (.ok ())) ∧
      ∀ o ∈ (machine.run s es).orders, o.stage = .finished (.ok ()) →
        o ∈ s.orders ∨ ∃ cert, Event.issued o.hostname cert ∈ machine.traces trace s es :=
  ⟨simulates.run, fun _ _ => ok_of_issued, fun _ => issued_of_ok⟩

/-! ## An order that fails -/

/-- The event is a run with a certificate of its own for the host. -/
def RunsFor (hostname : String) : AcmeEvent → Prop
  | .request _ (.run config) => config.ssl.isSome = true ∧
      ∃ pm, config.portMapping = some pm ∧ Daemon.certName pm.host = hostname
  | _ => False

/-- What is kept for a host changes by such a run, or by a step in which an order for the host
issues a certificate. -/
theorem get_next {hostname : String} (hrun : ¬RunsFor hostname e)
    (hissue : ∀ i os o, e = .advance i os → s.orders[i]? = some o → o.hostname = hostname →
      o.issues os s.shared = none) :
    (machine.next s e).daemon.proxyMgr.certStore.get hostname =
      s.daemon.proxyMgr.certStore.get hostname := by
  rw [simulates s e]
  cases e with
  | request os r =>
    change (Server.handleRequest os s.daemon r).1.proxyMgr.certStore.get hostname = _
    rcases Server.certStore_request os s.daemon r with hsame | ⟨config, pm, cert, rfl, hssl, hpm, hput⟩
    · rw [hsame]
    · have hne : hostname ≠ Daemon.certName pm.host := fun heq => hrun ⟨hssl, pm, hpm, heq.symm⟩
      rw [hput, CertStore.get_put, if_neg hne]
  | tick os =>
    have hsteady := Server.steady_managed s.daemon (Process.checkAndRestart os.launch os.tryWait)
    change (s.daemon.managed _).1.proxyMgr.certStore.get hostname = _
    rw [hsteady.certs]
  | disk t => rfl
  | cleanUp i => rfl
  | renew => rfl
  | advance i os =>
    cases ho : s.orders[i]? with
    | none =>
      rw [trace_of_none ho]
      rfl
    | some o =>
      rw [trace_of_some ho, Order.events]
      cases hissues : o.issues os s.shared with
      | none => rfl
      | some cert =>
        have hne : hostname ≠ o.hostname := by
          intro heq
          rw [hissue i os o rfl ho heq.symm] at hissues
          cases hissues
        change (s.daemon.proxyMgr.certStore.put o.hostname cert).get hostname = _
        rw [CertStore.get_put, if_neg hne]

/-- Whatever orders fail, renewals and first orders, for the host and for others, and whatever
requests are made in between, the certificate of a host stays the one it was until an order for
the host has returned Ok or a run brings one along. -/
theorem certificate_kept (s : AcmeHost) (es : List AcmeEvent) (hostname : String)
    (hruns : ∀ e ∈ es, ¬RunsFor hostname e)
    (hfailed : ∀ (i : Nat) (o : Order), (machine.run s es).orders[i]? = some o →
      o.hostname = hostname → o.stage = .finished (.ok ()) → s.orders[i]? = some o) :
    (machine.run s es).daemon.proxyMgr.certStore.get hostname =
      s.daemon.proxyMgr.certStore.get hostname := by
  induction es generalizing s with
  | nil => rfl
  | cons e es ih =>
    have hstep : (machine.next s e).daemon.proxyMgr.certStore.get hostname =
        s.daemon.proxyMgr.certStore.get hostname := by
      refine get_next (hruns e List.mem_cons_self) fun i os o he ho hhost => ?_
      cases hissues : o.issues os s.shared with
      | none => rfl
      | some cert =>
        subst he
        obtain ⟨hi, -⟩ := List.getElem?_eq_some_iff.1 ho
        have hnext : (machine.next s (.advance i os)).orders[i]? =
            some (o.goto (.finished (.ok ()))) := by
          change (s.advance i os).orders[i]? = _
          rw [advance_of_some ho, Order.advance_of_issues hissues]
          exact List.getElem?_set_self hi
        have hend : (machine.run (machine.next s (.advance i os)) es).orders[i]? =
            some (o.goto (.finished (.ok ()))) := finished_run hnext ⟨_, rfl⟩
        have hbefore := hfailed i _ hend hhost rfl
        have hstage : o.stage = .finished (.ok ()) :=
          congrArg Order.stage (Option.some.inj (ho.symm.trans hbefore))
        unfold Order.issues at hissues
        rw [hstage] at hissues
        cases hissues
    rw [Machine.run_cons, ih (machine.next s e) (fun e' he' => hruns e' (List.mem_cons_of_mem e he')) ?_]
    · exact hstep
    · intro i o ho hhost hdone
      have hbefore := hfailed i o ho hhost hdone
      have hafter : (machine.run s [e]).orders[i]? = some o := finished_run hbefore ⟨_, hdone⟩
      exact hafter

/-- A daemon that serves a certificate, of a host that is to be renewed. -/
def serving : DaemonState :=
  { DaemonState.initial .empty .empty with
    acmeConfigs := [("example.com", "me@example.com")]
    proxyMgr.certStore := CertStore.empty.put "example.com" ⟨[1], [2], []⟩ }

/-- Its renewal, while the authority cannot be reached. -/
def offlineRenewal : List AcmeEvent :=
  [.renew, .advance 0 (.granting none), .advance 0 (.granting none),
    .advance 0 { AcmeOs.granting none with createAccount := fun _ => .error "offline" }]

/-- The certificate is still served. -/
theorem certificate_kept_offline :
    (machine.run (start serving) offlineRenewal).daemon.proxyMgr.certStore.get "example.com" =
      some ⟨[1], [2], []⟩ := by
  have hstages : (machine.run (start serving) offlineRenewal).orders.map Order.stage =
      [.finished (.error "failed to create ACME account: offline")] := by
    decide +kernel
  have hruns : ∀ e ∈ offlineRenewal, ¬RunsFor "example.com" e := by
    intro e he
    simp only [offlineRenewal, List.mem_cons, List.not_mem_nil, or_false] at he
    rcases he with rfl | rfl | rfl | rfl <;> exact id
  refine (certificate_kept (start serving) offlineRenewal "example.com" hruns ?_).trans rfl
  intro i o ho _ hdone
  have hstage := List.mem_map_of_mem (f := Order.stage) (List.mem_of_getElem? ho)
  rw [hstages, List.mem_singleton, hdone] at hstage
  exact nomatch hstage

end AcmeHost
