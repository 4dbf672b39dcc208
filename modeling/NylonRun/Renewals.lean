import NylonRun.AcmeTasks
import NylonRun.Restore

/-!
# The passes of the renewal loop

Twice a day the loop goes through the hosts that are registered at that moment, with one order
after the other; an order that fails is only warned of. No host is registered twice, so that a pass
comes to each of them once.
-/

open FileTree Effect

/-- The daemon with the history of its renewal loop: the hosts that were registered when each pass
began, and the ones the loop has come to, with the number of the order for each. -/
structure RenewalLedger where
  host : AcmeHost
  due : List (String × String)
  begun : List (Nat × String × String)

namespace RenewalLedger

open Acme

def initial (daemon : DaemonState) : RenewalLedger := ⟨.start daemon, [], []⟩

/-- The hosts of a pass that begins. -/
def dueAt (s : AcmeHost) : List (String × String) :=
  match s.renewal with
  | none => s.acmeConfigs
  | some _ => []

/-- The hosts that a pass has yet to come to. -/
def left (s : AcmeHost) : List (String × String) :=
  match s.renewal with
  | none => []
  | some (_, rest) => rest

/-- The order that a step of the loop begins. -/
def beginning (before after : AcmeHost) : List (Nat × String × String) :=
  (after.orders.drop before.orders.length).map fun o =>
    (before.orders.length, o.hostname, o.email)

def step (l : RenewalLedger) (e : AcmeEvent) : RenewalLedger × Option Response :=
  let (host, answer) := AcmeHost.machine.step l.host e
  match e with
  | .renew => (⟨host, l.due ++ dueAt l.host, l.begun ++ beginning l.host host⟩, answer)
  | _ => ({ l with host := host }, answer)

def machine : Machine RenewalLedger AcmeEvent (Option Response) := ⟨step⟩

/-- The hosts on the list are the ones to renew whose tasks have begun, each of them once. The
passes come to the hosts that are due, in their order, none left out and none twice, and each of
their orders has returned before the next one begins. -/
structure InOrder (l : RenewalLedger) : Prop where
  known : l.host.Known
  distinct : l.host.Distinct
  due : l.begun.map Prod.snd ++ left l.host = l.due
  placed : ∀ b ∈ l.begun, ∃ o, l.host.orders[b.1]? = some o ∧ (o.hostname, o.email) = b.2
  waited : ∀ b ∈ l.begun, (∃ rest, l.host.renewal = some (b.1, rest)) ∨
    ∃ o, l.host.orders[b.1]? = some o ∧ o.Over

variable {l : RenewalLedger} {s : AcmeHost} {e : AcmeEvent}

/-! ## The orders of a pass -/

/-- An order of the list stays that of its host, and stays returned. -/
theorem order_kept {i : Nat} {o : Order} (e : AcmeEvent) (h : s.orders[i]? = some o) :
    ∃ o', (AcmeHost.machine.next s e).orders[i]? = some o' ∧
      (o'.hostname, o'.email) = (o.hostname, o.email) ∧ (o.Over → o'.Over) := by
  rcases AcmeHost.order_next e h with hsame | ⟨os, -, hstep⟩
  · exact ⟨o, hsame, rfl, id⟩
  · refine ⟨_, hstep, Order.advance_asked os s.shared o, fun hover => ?_⟩
    obtain ⟨result, hresult⟩ := hover
    rw [Order.advance_finished hresult]
    exact ⟨result, hresult⟩

/-- Only the renewal loop moves the renewal loop. -/
theorem renewal_next (h : e ≠ .renew) : (AcmeHost.machine.next s e).renewal = s.renewal := by
  cases e with
  | request os r => rfl
  | tick os => rfl
  | disk t => rfl
  | renew => exact absurd rfl h
  | advance i os =>
    change (s.advance i os).renewal = s.renewal
    cases ho : s.orders[i]? with
    | none => rw [AcmeHost.advance_of_none ho]
    | some o =>
      rw [AcmeHost.advance_of_some ho]
      rfl
  | cleanUp i =>
    change (s.cleanUp i).renewal = s.renewal
    unfold AcmeHost.cleanUp
    split <;> rfl

theorem next_of_ne (h : e ≠ .renew) :
    machine.next l e = { l with host := AcmeHost.machine.next l.host e } := by
  cases e with
  | renew => exact absurd rfl h
  | request os r => rfl
  | tick os => rfl
  | disk t => rfl
  | advance i os => rfl
  | cleanUp i => rfl

/-- An event that is not of the loop keeps the orders of its passes where they are. -/
theorem inOrder_of_ne (hl : l.InOrder) (h : e ≠ .renew) : (machine.next l e).InOrder := by
  rw [next_of_ne h]
  have hrenewal := renewal_next (s := l.host) h
  refine ⟨AcmeHost.known_next e hl.known, AcmeHost.distinct_next e hl.distinct, ?_, fun b hb => ?_, fun b hb => ?_⟩
  · unfold left
    rw [hrenewal]
    exact hl.due
  · obtain ⟨o, ho, hasked⟩ := hl.placed b hb
    obtain ⟨o', ho', hasked', -⟩ := order_kept e ho
    exact ⟨o', ho', hasked'.trans hasked⟩
  · rcases hl.waited b hb with ⟨rest, hrest⟩ | ⟨o, ho, hover⟩
    · exact .inl ⟨rest, hrenewal.trans hrest⟩
    · obtain ⟨o', ho', -, hover'⟩ := order_kept e ho
      exact .inr ⟨o', ho', hover' hover⟩

/-- The loop at its next host, all the orders of the pass so far having returned. -/
theorem inOrder_renewNext {rest : List (String × String)} (hl : l.InOrder)
    (hover : ∀ b ∈ l.begun, ∃ o, l.host.orders[b.1]? = some o ∧ o.Over)
    {due : List (String × String)} (hdue : l.begun.map Prod.snd ++ rest = due) :
    InOrder ⟨l.host.renewNext rest, due, l.begun ++ beginning l.host (l.host.renewNext rest)⟩ := by
  cases rest with
  | nil =>
    have hnone : beginning l.host (l.host.renewNext []) = [] := by
      change (l.host.orders.drop _).map _ = []
      rw [List.drop_length, List.map_nil]
    rw [hnone, List.append_nil]
    refine ⟨hl.known, hl.distinct, hdue, hl.placed, fun b hb => .inr (hover b hb)⟩
  | cons c rest =>
    have hone : beginning l.host (l.host.renewNext (c :: rest)) =
        [(l.host.orders.length, c.1, c.2)] := by
      change ((l.host.orders ++ [Order.new c.1 c.2]).drop _).map _ = _
      rw [List.drop_left]
      rfl
    have hkept : ∀ {i : Nat} {o : Order}, l.host.orders[i]? = some o →
        (l.host.renewNext (c :: rest)).orders[i]? = some o := by
      intro i o ho
      obtain ⟨hi, -⟩ := List.getElem?_eq_some_iff.1 ho
      exact (List.getElem?_append_left hi).trans ho
    have hnew : (l.host.renewNext (c :: rest)).orders[l.host.orders.length]? =
        some (Order.new c.1 c.2) := List.getElem?_concat_length
    rw [hone]
    refine ⟨AcmeHost.known_renewNext hl.known _, hl.distinct, ?_, fun b hb => ?_, fun b hb => ?_⟩
    · change (l.begun ++ [(_, c)]).map Prod.snd ++ rest = due
      rw [List.map_append, List.append_assoc]
      exact hdue
    · rcases List.mem_append.1 hb with hold | hnewb
      · obtain ⟨o, ho, hasked⟩ := hl.placed b hold
        exact ⟨o, hkept ho, hasked⟩
      · rw [List.mem_singleton.1 hnewb]
        exact ⟨_, hnew, rfl⟩
    · rcases List.mem_append.1 hb with hold | hnewb
      · obtain ⟨o, ho, hdone⟩ := hover b hold
        exact .inr ⟨o, hkept ho, hdone⟩
      · rw [List.mem_singleton.1 hnewb]
        exact .inl ⟨rest, rfl⟩

theorem inOrder_renew (hl : l.InOrder) : (machine.next l .renew).InOrder := by
  change InOrder ⟨l.host.renew, l.due ++ dueAt l.host, l.begun ++ beginning l.host l.host.renew⟩
  unfold AcmeHost.renew
  cases hrenewal : l.host.renewal with
  | none =>
    refine inOrder_renewNext hl (fun b hb => ?_) ?_
    · rcases hl.waited b hb with ⟨rest, hrest⟩ | hover
      · exact nomatch hrenewal.symm.trans hrest
      · exact hover
    · have hdue := hl.due
      unfold left at hdue
      unfold dueAt
      rw [hrenewal] at hdue ⊢
      rw [← hdue, List.append_nil]
  | some pass =>
    obtain ⟨i, rest⟩ := pass
    have hdue : l.begun.map Prod.snd ++ rest = l.due ++ dueAt l.host := by
      have hdue := hl.due
      unfold left at hdue
      unfold dueAt
      rw [hrenewal] at hdue ⊢
      rw [List.append_nil]
      exact hdue
    have hnone : beginning l.host l.host = [] := by
      unfold beginning
      rw [List.drop_length, List.map_nil]
    have hsame : InOrder ⟨l.host, l.due ++ dueAt l.host, l.begun ++ beginning l.host l.host⟩ := by
      rw [hnone, List.append_nil]
      refine ⟨hl.known, hl.distinct, ?_, hl.placed, hl.waited⟩
      unfold left
      rw [hrenewal]
      exact hdue
    dsimp only
    cases ho : l.host.orders[i]? with
    | none => exact hsame
    | some o =>
      dsimp only
      split
      · rename_i hover
        refine inOrder_renewNext hl (fun b hb => ?_) hdue
        rcases hl.waited b hb with ⟨rest', hrest⟩ | hdone
        · obtain rfl : i = b.1 := by
            rw [hrenewal] at hrest
            cases hrest
            rfl
          exact ⟨o, ho, hover⟩
        · exact hdone
      · exact hsame

theorem inOrder_next (hl : l.InOrder) (e : AcmeEvent) : (machine.next l e).InOrder := by
  by_cases h : e = .renew
  · rw [h]
    exact inOrder_renew hl
  · exact inOrder_of_ne hl h

/-! ## From the start of a daemon -/

theorem acmeConfigs_migrateJson (os : Os) (st : DaemonState) :
    (Daemon.migrateJson os st).acmeConfigs = st.acmeConfigs := by
  unfold Daemon.migrateJson
  split
  · rfl
  · split
    · rfl
    · rw [DaemonState.managed_onDisk]
    · rename_i configs _ _
      have hsaved := DaemonState.stored_fst st (StateStore.save configs)
      split <;> rename_i heq <;> rw [heq] at hsaved <;> subst hsaved
      · rw [DaemonState.managed_onDisk]
      · rfl

/-- A daemon starts with no host to renew, whatever it restores. -/
theorem acmeConfigs_runDaemon (os : Os) (store : StateStore) (disk : FileTree) :
    (Daemon.runDaemon os store disk).acmeConfigs = [] := by
  have hstarted : (Daemon.startUp os store disk).1.acmeConfigs = [] := by
    rw [Daemon.startUp_eq, Daemon.loadConfigs_fst]
    dsimp only
    rw [acmeConfigs_migrateJson]
    rfl
  unfold Daemon.runDaemon
  generalize Daemon.startUp os store disk = started at hstarted ⊢
  obtain ⟨st, saved⟩ := started
  dsimp only at hstarted ⊢
  rw [DaemonState.managed_fst]
  generalize hst : ({ st with toHost := _ } : DaemonState) = st'
  have hkept : st'.acmeConfigs = [] := by
    rw [← hst]
    exact hstarted
  have hcloud := DaemonState.stored_fst st' Cloud.loadCloudConfig
  split <;> rename_i heq <;> rw [heq] at hcloud <;> subst hcloud <;> exact hkept

/-- From the start of a daemon on, whatever interleaves, the passes of the renewal loop come to
each host that is registered when they begin, once and in order, one order at a time, whether the
orders before it have failed or not. The hosts that are registered are those of the runs that have
asked for a certificate, less the ones whose task is yet to begin. -/
theorem renewals_in_order (os : Os) (store : StateStore) (disk : FileTree)
    (es : List AcmeEvent) :
    machine.Throughout InOrder (initial (Daemon.runDaemon os store disk)) es := by
  refine Machine.throughout_of_invariant (Q := fun _ _ => True) (fun l e hl _ => inOrder_next hl e)
    ?_ Machine.along_true
  refine ⟨AcmeHost.known_start _, ?_, rfl, (fun b hb => nomatch hb), (fun b hb => nomatch hb)⟩
  unfold AcmeHost.Distinct
  rw [initial, AcmeHost.start, acmeConfigs_runDaemon]
  exact List.nodup_nil

end RenewalLedger
