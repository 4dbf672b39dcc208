import NylonRun.Issuance

/-!
# The hosts that the tasks of the runs register

A run that asks for a certificate is answered before the task it spawns has begun, and the task
puts its host on the list of the renewal loop. So the hosts that the daemon has to renew are those
on the list and those for which a task is yet to begin. A host is registered once, whatever else
is run for it.
-/

namespace Acme

theorem Shared.mem_register {s : Shared} {hostname email host : String} :
    host ∈ (s.register hostname email).acmeConfigs.map Prod.fst ↔
      host ∈ s.acmeConfigs.map Prod.fst ∨ host = hostname := by
  unfold Shared.register
  split
  · rename_i hany
    rw [or_iff_left_of_imp]
    rintro rfl
    obtain ⟨c, hc, hhost⟩ := List.any_eq_true.1 hany
    exact List.mem_map.2 ⟨c, hc, of_decide_eq_true hhost⟩
  · rw [List.map_append, List.mem_append, List.map_singleton, List.mem_singleton]

/-- A host that is registered again stays on the list once. -/
theorem Shared.nodup_register {s : Shared} (hostname email : String)
    (h : (s.acmeConfigs.map Prod.fst).Nodup) :
    ((s.register hostname email).acmeConfigs.map Prod.fst).Nodup := by
  unfold Shared.register
  split
  · exact h
  · rename_i hnew
    rw [List.map_append, List.map_singleton, List.nodup_append_comm]
    refine List.nodup_cons.2 ⟨fun hmem => hnew ?_, h⟩
    obtain ⟨c, hc, hhost⟩ := List.mem_map.1 hmem
    exact List.any_eq_true.2 ⟨c, hc, decide_eq_true hhost⟩

namespace Order

variable {os : AcmeOs} {s : Shared} {o : Order}

/-- A task registers its host in its first step, and does not come back to it. -/
theorem Does.registration {next : Shared × Order} (h : Does os s o next) :
    next.2.stage ≠ .spawned ∧ next.1.acmeConfigs =
      if o.stage = .spawned then (s.register o.hostname o.email).acmeConfigs else s.acmeConfigs := by
  have hother : ∀ {stage : Stage}, o.stage = stage → stage ≠ .spawned → s.acmeConfigs =
      if o.stage = .spawned then (s.register o.hostname o.email).acmeConfigs
      else s.acmeConfigs := by
    intro stage hstage hne
    rw [if_neg (hstage ▸ hne)]
  cases h with
  | registers hstage => exact ⟨nofun, by rw [if_pos hstage]⟩
  | stays hstage => exact ⟨hstage, hother rfl hstage⟩
  | goesOn disk stage hstage hnew hok => exact ⟨hnew, hother rfl hstage⟩
  | posts c hstage hgiven => exact ⟨nofun, hother hstage nofun⟩
  | handsOver e hstage hpoll => exact ⟨nofun, hother hstage nofun⟩
  | removes status token rest hstage htokens =>
    exact ⟨by rw [hstage]; exact nofun, hother hstage nofun⟩
  | issues cert h =>
    refine ⟨nofun, hother rfl fun hstage => ?_⟩
    unfold Order.issues at h
    rw [hstage] at h
    cases h

theorem advance_registers (os : AcmeOs) (s : Shared) (o : Order) :
    (o.advance os s).2.stage ≠ .spawned ∧ (o.advance os s).1.acmeConfigs =
      if o.stage = .spawned then (s.register o.hostname o.email).acmeConfigs else s.acmeConfigs :=
  (advance_does os s o).registration

end Order

end Acme

namespace AcmeHost

open Acme

variable {s : AcmeHost} {i : Nat} {hostname : String}

/-- The host is on the list that the renewal loop reads. -/
def Listed (s : AcmeHost) (hostname : String) : Prop := hostname ∈ s.acmeConfigs.map Prod.fst

/-- A task for the host has been spawned, and has not begun. -/
def Awaited (s : AcmeHost) (hostname : String) : Prop :=
  ∃ o ∈ s.orders, o.stage = .spawned ∧ o.hostname = hostname

/-- The hosts that the daemon has to renew are on the list of the renewal loop, or a task is about
to put them there. -/
def Known (s : AcmeHost) : Prop :=
  ∀ hostname, Daemon.ToRenew s.daemon hostname ↔ s.Listed hostname ∨ s.Awaited hostname

/-- No host is registered twice. -/
def Distinct (s : AcmeHost) : Prop := (s.acmeConfigs.map Prod.fst).Nodup

theorem listed_iff_toRenew (daemon : DaemonState) :
    (start daemon).Listed hostname ↔ Daemon.ToRenew daemon hostname := by
  unfold Listed Daemon.ToRenew
  simp [start]

theorem known_start (daemon : DaemonState) : (start daemon).Known := by
  intro hostname
  rw [listed_iff_toRenew, or_iff_left]
  · exact Iff.rfl
  · rintro ⟨o, ho, -⟩
    cases ho

/-- More orders, none of which is spawned. -/
theorem awaited_append {orders more : List Order} (h : ∀ o ∈ more, o.stage ≠ .spawned) :
    (∃ o ∈ orders ++ more, o.stage = .spawned ∧ o.hostname = hostname) ↔
      ∃ o ∈ orders, o.stage = .spawned ∧ o.hostname = hostname := by
  constructor
  · rintro ⟨o, ho, hstage, hhost⟩
    rcases List.mem_append.1 ho with hold | hnew
    · exact ⟨o, hold, hstage, hhost⟩
    · exact absurd hstage (h o hnew)
  · rintro ⟨o, ho, hspawned⟩
    exact ⟨o, List.mem_append_left _ ho, hspawned⟩

/-- A run that is answered Ok spawns a task for the host that it asks a certificate for. -/
theorem spawned_request {os : Os} {st : DaemonState} {r : Request} :
    (∃ o ∈ spawned (.request os r) (Server.handleRequest os st r).2,
        o.stage = .spawned ∧ o.hostname = hostname) ↔
      ∃ config, r = .run config ∧ (Server.handleRun os st config).2.isOk = true ∧
        config.acme.isSome = true ∧ config.portMapping.bind (·.host) = some hostname := by
  constructor
  · rintro ⟨o, ho, -, rfl⟩
    unfold spawned at ho
    split at ho
    · rename_i config msg hrequest hanswer
      cases hrequest
      split at ho
      · rename_i email host hacme hhost
        rw [List.mem_singleton.1 ho]
        have hok : (Server.handleRun os st config).2 = .ok msg := Option.some.inj hanswer
        exact ⟨config, rfl, by rw [hok]; rfl, by rw [hacme]; rfl, hhost⟩
      · cases ho
    · cases ho
  · rintro ⟨config, rfl, hok, hacme, hhost⟩
    obtain ⟨email, hemail⟩ := Option.isSome_iff_exists.1 hacme
    have hspawned : spawned (.request os (.run config)) (some (Server.handleRun os st config).2) =
        [.spawn hostname email] := by
      cases hanswer : (Server.handleRun os st config).2 with
      | ok msg => simp only [spawned, hemail, hhost]
      | _ =>
        rw [hanswer] at hok
        cases hok
    refine ⟨.spawn hostname email, ?_, rfl, rfl⟩
    change _ ∈ spawned (.request os (.run config)) (some (Server.handleRun os st config).2)
    rw [hspawned]
    exact List.mem_singleton.2 rfl

theorem known_managed (h : s.Known) (e : Event)
    (hrenew : ∀ hostname, Daemon.ToRenew (Daemon.step s.daemon e).1 hostname ↔
      Daemon.ToRenew s.daemon hostname ∨ ∃ o ∈ spawned e (Daemon.step s.daemon e).2,
        o.stage = .spawned ∧ o.hostname = hostname) : (s.managed e).1.Known := by
  intro hostname
  have hawaited : (s.managed e).1.Awaited hostname ↔ s.Awaited hostname ∨
      ∃ o ∈ spawned e (Daemon.step s.daemon e).2, o.stage = .spawned ∧ o.hostname = hostname := by
    change (∃ o ∈ s.orders ++ spawned e (Daemon.step s.daemon e).2, _) ↔ _
    simp only [List.mem_append, or_and_right, exists_or]
    exact Iff.rfl
  refine (hrenew hostname).trans ?_
  rw [hawaited, h hostname, or_assoc]
  exact Iff.rfl

/-- The step in which a task registers its host takes the host from the one to the other. -/
theorem known_advance (h : s.Known) (i : Nat) (os : AcmeOs) : (s.advance i os).Known := by
  cases ho : s.orders[i]? with
  | none => rwa [advance_of_none ho]
  | some o =>
    obtain ⟨hne, hconfigs⟩ := Order.advance_registers os s.shared o
    obtain ⟨hi, -⟩ := List.getElem?_eq_some_iff.1 ho
    intro hostname
    have hrenew : Daemon.ToRenew (s.advance i os).daemon hostname ↔
        Daemon.ToRenew s.daemon hostname := by
      rw [advance_of_some ho]
      exact Iff.rfl
    have hlisted : (s.advance i os).Listed hostname ↔
        s.Listed hostname ∨ o.stage = .spawned ∧ hostname = o.hostname := by
      have hshared : (s.advance i os).acmeConfigs = (o.advance os s.shared).1.acmeConfigs := by
        rw [advance_of_some ho]
        rfl
      unfold Listed
      rw [hshared, hconfigs]
      split
      · rename_i hstage
        rw [Shared.mem_register, and_iff_right hstage]
        exact Iff.rfl
      · rename_i hstage
        rw [or_iff_left fun h => hstage h.1]
        exact Iff.rfl
    have horders : (s.advance i os).orders = s.orders.set i (o.advance os s.shared).2 := by
      rw [advance_of_some ho]
    rw [hrenew, h hostname, hlisted, or_assoc]
    refine or_congr_right ?_
    unfold Awaited
    rw [horders]
    constructor
    · rintro ⟨o', ho', hstage, hhost⟩
      obtain ⟨j, hj⟩ := List.mem_iff_getElem?.1 ho'
      by_cases hij : i = j
      · subst hij
        obtain rfl : o = o' := Option.some.inj (ho.symm.trans hj)
        exact .inl ⟨hstage, hhost.symm⟩
      · refine .inr ⟨o', List.mem_iff_getElem?.2 ⟨j, ?_⟩, hstage, hhost⟩
        rw [List.getElem?_set_ne hij, hj]
    · rintro (⟨hstage, hhost⟩ | ⟨o', ho', hstage, hhost⟩)
      · exact ⟨o, List.mem_of_getElem? ho, hstage, hhost.symm⟩
      · rcases List.mem_or_eq_of_mem_set ho' with hold | rfl
        · exact ⟨o', hold, hstage, hhost⟩
        · exact absurd hstage hne

/-- The order of a pass registers nothing. -/
theorem known_renewNext (h : s.Known) (rest : List (String × String)) :
    (s.renewNext rest).Known := by
  cases rest with
  | nil => exact h
  | cons c rest =>
    intro hostname
    refine (h hostname).trans (or_congr_right (awaited_append ?_).symm)
    intro o ho
    rw [List.mem_singleton.1 ho]
    exact nofun

theorem known_next (e : AcmeEvent) (h : s.Known) : (machine.next s e).Known := by
  cases e with
  | request os r =>
    refine known_managed h _ fun hostname => ?_
    refine (Server.toRenew_request os s.daemon r hostname).trans (or_congr_right ?_)
    exact spawned_request.symm
  | tick os =>
    refine known_managed h _ fun hostname => ?_
    have hacme := (Server.steady_managed s.daemon
      (Process.checkAndRestart os.launch os.tryWait)).acme
    unfold Daemon.ToRenew
    simp [Daemon.step, spawned, hacme]
  | disk t =>
    refine known_managed h _ fun hostname => ?_
    simp [Daemon.step, Daemon.ToRenew, spawned]
  | advance i os => exact known_advance h i os
  | cleanUp i =>
    change (s.cleanUp i).Known
    unfold cleanUp
    split
    · exact h
    · exact h
  | renew =>
    change s.renew.Known
    rcases renew_cases s with heq | ⟨rest, heq⟩
    · rwa [heq]
    · rw [heq]
      exact known_renewNext h rest

/-- Only the tasks of the runs register hosts. -/
theorem acmeConfigs_next (s : AcmeHost) (e : AcmeEvent) :
    (machine.next s e).acmeConfigs = s.acmeConfigs ∨ ∃ hostname email,
      (machine.next s e).acmeConfigs = (s.shared.register hostname email).acmeConfigs := by
  cases e with
  | request os r => exact .inl rfl
  | tick os => exact .inl rfl
  | disk t => exact .inl rfl
  | advance i os =>
    change (s.advance i os).acmeConfigs = _ ∨ ∃ _ _, (s.advance i os).acmeConfigs = _
    cases ho : s.orders[i]? with
    | none =>
      rw [advance_of_none ho]
      exact .inl rfl
    | some o =>
      rw [advance_of_some ho]
      obtain ⟨-, hconfigs⟩ := Order.advance_registers os s.shared o
      split at hconfigs
      · exact .inr ⟨_, _, hconfigs⟩
      · exact .inl hconfigs
  | cleanUp i =>
    refine .inl ?_
    change (s.cleanUp i).acmeConfigs = s.acmeConfigs
    unfold cleanUp
    split <;> rfl
  | renew =>
    refine .inl ?_
    change s.renew.acmeConfigs = s.acmeConfigs
    rcases renew_cases s with heq | ⟨_ | ⟨c, rest⟩, heq⟩ <;> rw [heq] <;> rfl

theorem distinct_next (e : AcmeEvent) (h : s.Distinct) : (machine.next s e).Distinct := by
  unfold Distinct
  rcases acmeConfigs_next s e with hsame | ⟨hostname, email, heq⟩
  · rwa [hsame]
  · rw [heq]
    exact Shared.nodup_register hostname email h

end AcmeHost
