import NylonRun.Lib.Custody
import NylonRun.Orders
import NylonRun.Ports

/-!
# The challenge store while orders interleave

A token stands in the challenge store from the moment an order puts it there until that same
order, or the clean-up it has spawned, takes it out. The authority never hands out a token
twice, so no order and no clean-up takes out a token of another. An order that fails among its
authorizations is the exception: nobody takes its tokens out any more.
-/

open scoped List

namespace Acme.Order

variable {os : AcmeOs} {s : Shared} {o : Order}

/-- A step that has nothing to do with the challenges. -/
structure Keeps (s : Shared) (o : Order) (next : Shared × Order) : Prop where
  challenges : next.1.challenges = s.challenges
  cleanups : next.1.cleanups = s.cleanups
  posted : next.1.posted = s.posted
  tokens : next.2.tokens = o.tokens

/-- The order puts a challenge in the store. -/
def Posts (os : AcmeOs) (s : Shared) (o : Order) (c : Challenge) (next : Shared × Order) : Prop :=
  o.stage = .authorizing ∧ os.nextAuthorization = some (.ok (.unproven (some c))) ∧
    next = ({ s with
        challenges := s.challenges.insert c.token c.keyAuth
        posted := s.posted ++ [(c.token, c.keyAuth)] },
      { o with tokens := o.tokens ++ [c.token], stage := .answering })

/-- The order leaves its tokens to a clean-up. -/
def HandsOver (os : AcmeOs) (s : Shared) (o : Order) (next : Shared × Order) : Prop :=
  ∃ e, o.stage = .polling ∧ os.pollReady = .error e ∧
    next = ({ s with cleanups := s.cleanups ++ [o.tokens] },
      { o with tokens := [] }.fail s!"order poll_ready failed: {e}")

/-- The order takes a token out of the store. -/
def Removes (s : Shared) (o : Order) (next : Shared × Order) : Prop :=
  ∃ status token rest, o.stage = .cleaning status ∧ o.tokens = token :: rest ∧
    next = ({ s with challenges := s.challenges.erase token }, { o with tokens := rest })

/-- What a step comes to, as far as the challenges go. -/
theorem Does.on_challenges {next : Shared × Order} (h : Does os s o next) :
    Keeps s o next ∨ (∃ c, Posts os s o c next) ∨ HandsOver os s o next ∨ Removes s o next := by
  cases h with
  | registers hstage =>
    obtain ⟨configs, heq⟩ := s.register_eq o.hostname o.email
    rw [heq]
    exact .inl ⟨rfl, rfl, rfl, rfl⟩
  | stays hstage => exact .inl ⟨rfl, rfl, rfl, rfl⟩
  | goesOn disk stage hstage hnew hok => exact .inl ⟨rfl, rfl, rfl, rfl⟩
  | issues cert h => exact .inl ⟨rfl, rfl, rfl, rfl⟩
  | posts c hstage hgiven => exact .inr (.inl ⟨c, hstage, hgiven, rfl⟩)
  | handsOver e hstage hpoll => exact .inr (.inr (.inl ⟨e, hstage, hpoll, rfl⟩))
  | removes status token rest hstage htokens =>
    exact .inr (.inr (.inr ⟨status, token, rest, hstage, htokens, rfl⟩))

theorem advance_cases (os : AcmeOs) (s : Shared) (o : Order) :
    Keeps s o (o.advance os s) ∨ (∃ c, Posts os s o c (o.advance os s)) ∨
      HandsOver os s o (o.advance os s) ∨ Removes s o (o.advance os s) :=
  (advance_does os s o).on_challenges

end Acme.Order

namespace AcmeHost

open Acme

variable {s : AcmeHost} {e : AcmeEvent} {i : Nat}

/-- The tokens that an order, or a clean-up that is not done, has in its hands. -/
def held (s : AcmeHost) : List String := s.orders.flatMap Order.tokens ++ s.cleanups.flatten

/-- The challenge store holds the tokens that are in somebody's hands, with their answers. -/
def Accounted (s : AcmeHost) : Prop := Dict.InCustody s.challenges s.posted s.held

/-- The event is a step of an order that the authority gives a challenge in. -/
def Gives (s : AcmeHost) (i : Nat) (c : Challenge) : AcmeEvent → Prop
  | .advance j os => j = i ∧ os.nextAuthorization = some (.ok (.unproven (some c))) ∧
      ∃ o, s.orders[i]? = some o ∧ o.stage = .authorizing
  | _ => False

/-- No token is handed out a second time. -/
def Fresh (s : AcmeHost) (e : AcmeEvent) : Prop :=
  ∀ i c, s.Gives i c e → c.token ∉ s.posted.map Prod.fst

/-- The order comes to the clean-up of its tokens, by itself or in a task of its own. -/
def TakesBack (i : Nat) (s : AcmeHost) : AcmeEvent → Prop
  | .advance j os => j = i ∧ ∃ o, s.orders[i]? = some o ∧
      ((∃ status, o.stage = .cleaning status) ∨ o.stage = .polling ∧ ∃ e, os.pollReady = .error e)
  | _ => False

theorem accounted_start (daemon : DaemonState) : (start daemon).Accounted := Dict.InCustody.empty

theorem flatMap_spawned (e : Event) (answer : Option Response) :
    (spawned e answer).flatMap Order.tokens = [] := by
  rw [List.flatMap_eq_nil_iff]
  intro o ho
  exact (mem_spawned ho).1

theorem managed_held (s : AcmeHost) (e : Event) : (s.managed e).1.held = s.held := by
  change (s.orders ++ spawned _ _).flatMap Order.tokens ++ _ = _
  rw [List.flatMap_append, flatMap_spawned, List.append_nil]
  rfl

theorem accounted_managed (hs : s.Accounted) (e : Event) : (s.managed e).1.Accounted := by
  rw [Accounted, managed_held]
  exact hs

theorem renewNext_cases (s : AcmeHost) (rest : List (String × String)) :
    (s.renewNext rest).challenges = s.challenges ∧ (s.renewNext rest).posted = s.posted ∧
      (s.renewNext rest).held = s.held := by
  cases rest with
  | nil => exact ⟨rfl, rfl, rfl⟩
  | cons c rest =>
    refine ⟨rfl, rfl, ?_⟩
    change (s.orders ++ [Order.new c.1 c.2]).flatMap Order.tokens ++ _ = _
    rw [List.flatMap_append]
    exact congrArg (· ++ _) (List.append_nil _)

/-- The hands that an order's tokens are in, apart from all the others. -/
theorem held_perm {o : Order} (h : s.orders[i]? = some o) :
    s.held ~ o.tokens ++ ((s.orders.eraseIdx i).flatMap Order.tokens ++ s.cleanups.flatten) := by
  rw [← List.append_assoc]
  exact (List.flatMap_perm_of_getElem? _ h).append_right _

/-- What is held once an order has gone a step. -/
theorem held_advance {o : Order} (h : s.orders[i]? = some o) (os : AcmeOs) :
    (s.advance i os).held ~ (o.advance os s.shared).2.tokens ++
      ((s.orders.eraseIdx i).flatMap Order.tokens ++ (o.advance os s.shared).1.cleanups.flatten) := by
  rw [advance_of_some h, ← List.append_assoc]
  exact (List.flatMap_set_perm _ _ h).append_right _

theorem accounted_advance (hs : s.Accounted) {os : AcmeOs}
    (hfresh : s.Fresh (.advance i os)) : (s.advance i os).Accounted := by
  cases ho : s.orders[i]? with
  | none => rwa [advance_of_none ho]
  | some o =>
    have hheld := held_advance ho os
    have hbefore := held_perm ho
    have hnext : (s.advance i os).challenges = (o.advance os s.shared).1.challenges ∧
        (s.advance i os).posted = (o.advance os s.shared).1.posted := by
      rw [advance_of_some ho]
      exact ⟨rfl, rfl⟩
    unfold Accounted
    rw [hnext.1, hnext.2]
    refine Dict.InCustody.perm ?_ hheld.symm
    rcases Order.advance_cases os s.shared o with hkeeps | ⟨c, hstage, hgiven, heq⟩ |
      ⟨e, hstage, hpoll, heq⟩ | ⟨status, token, rest, hstage, htokens, heq⟩
    · rw [hkeeps.challenges, hkeeps.posted, hkeeps.tokens, hkeeps.cleanups]
      exact hs.perm hbefore
    · rw [heq]
      have hnew := hfresh i c ⟨rfl, hgiven, o, ho, hstage⟩
      refine (Dict.InCustody.insert hs hnew c.keyAuth).perm ?_
      calc c.token :: s.held
          _ ~ c.token :: (o.tokens ++ _) := hbefore.cons _
          _ ~ o.tokens ++ c.token :: _ := List.perm_middle.symm
          _ = o.tokens ++ [c.token] ++ _ := by rw [List.append_assoc]; rfl
    · rw [heq]
      refine hs.perm (hbefore.trans ?_)
      change o.tokens ++ (_ ++ s.cleanups.flatten) ~ [] ++ (_ ++ (s.cleanups ++ [o.tokens]).flatten)
      rw [List.flatten_append, List.flatten_singleton, List.nil_append,
        ← List.append_assoc _ _ o.tokens]
      exact List.perm_append_comm
    · rw [heq]
      rw [htokens] at hbefore
      exact Dict.InCustody.erase (hs.perm hbefore)

theorem accounted_cleanUp (hs : s.Accounted) (i : Nat) : (s.cleanUp i).Accounted := by
  unfold cleanUp
  split
  · rename_i token rest htask
    have hbefore : s.cleanups.flatten ~ token :: rest ++ (s.cleanups.eraseIdx i).flatten := by
      have h := List.flatMap_perm_of_getElem? id htask
      rwa [List.flatMap_id, List.flatMap_id] at h
    have hafter : (s.cleanups.set i rest).flatten ~ rest ++ (s.cleanups.eraseIdx i).flatten := by
      have h := List.flatMap_set_perm id rest htask
      rwa [List.flatMap_id, List.flatMap_id] at h
    have hheld : s.held ~
        token :: (s.orders.flatMap Order.tokens ++ (s.cleanups.set i rest).flatten) := by
      refine (hbefore.append_left _).trans (List.perm_middle.trans ?_)
      exact (hafter.symm.append_left _).cons _
    exact Dict.InCustody.erase (hs.perm hheld)
  · exact hs

theorem accounted_next (hs : s.Accounted) (hfresh : s.Fresh e) : (machine.next s e).Accounted := by
  cases e with
  | request os r => exact accounted_managed hs _
  | tick os => exact accounted_managed hs _
  | disk t => exact accounted_managed hs _
  | advance i os => exact accounted_advance hs hfresh
  | cleanUp i => exact accounted_cleanUp hs i
  | renew =>
    change s.renew.Accounted
    rcases renew_cases s with heq | ⟨rest, heq⟩
    · rwa [heq]
    · obtain ⟨hchallenges, hposted, hheld⟩ := renewNext_cases s rest
      rw [heq, Accounted, hchallenges, hposted, hheld]
      exact hs

/-- In every state that a run comes to, whatever interleaves, the challenge store holds exactly
the tokens in the hands of an order or of a clean-up. -/
theorem accounted_run (daemon : DaemonState) {es : List AcmeEvent}
    (h : machine.Along Fresh (start daemon) es) : (machine.run (start daemon) es).Accounted :=
  Machine.run_invariant (fun _ _ hs hfresh => accounted_next hs hfresh) (accounted_start daemon) h

/-! ## What the proxies answer -/

/-- The proxies of the daemon, with the challenge store. -/
def proxy (s : AcmeHost) : NyrunProxy := s.daemon.proxyMgr.proxy s.challenges

/-- The path that the authority fetches for a token. -/
def challengePath (token : String) : String := "/.well-known/acme-challenge/" ++ token

theorem challenge_eq_some {r : HttpRequest} {keyAuth : String} :
    s.proxy.challenge r = some keyAuth ↔
      ∃ token, r.path = challengePath token ∧ s.challenges.lookup token = some keyAuth := by
  unfold NyrunProxy.challenge
  rw [Option.bind_eq_some_iff]
  simp only [Text.stripPrefix_eq_some]
  rfl

/-- The proxy answers by itself, and not that there is no route, exactly with a challenge. -/
theorem respond_iff {r : HttpRequest} {cache : Dict String CachedResponse} {ctx : ProxyCtx}
    {body : String} :
    (s.proxy.requestFilter cache r ctx).2 = .respond (NyrunProxy.plainText 200 body) body ↔
      r.listenPort ∉ s.daemon.proxyMgr.deadPorts ∧ s.proxy.challenge r = some body := by
  change _ ↔ r.listenPort ∉ s.proxy.deadPorts ∧ _
  unfold NyrunProxy.requestFilter
  by_cases hdead : r.listenPort ∈ s.proxy.deadPorts
  · rw [if_pos hdead]
    exact iff_of_false nofun fun h => h.1 hdead
  · rw [if_neg hdead]
    cases hchallenge : s.proxy.challenge r with
    | some keyAuth =>
      dsimp only
      rw [FilterOutcome.respond.injEq, Option.some.injEq]
      exact ⟨fun h => ⟨hdead, h.2⟩, fun h => ⟨by rw [h.2], h.2⟩⟩
    | none =>
      refine iff_of_false ?_ fun h => nomatch h.2
      dsimp only
      rcases s.proxy.backendOf r with _ | port | dir
      · intro h
        have hstatus : (404 : Nat) = 200 := by
          simp only [FilterOutcome.respond.injEq, NyrunProxy.plainText, ResponseHeader.mk.injEq] at h
          exact h.1.1
        exact absurd hstatus (by decide)
      · dsimp only
        unfold NyrunProxy.consultCache
        split
        · exact nofun
        · dsimp only
          split <;> exact nofun
      · exact nofun

/-- Through any interleaving of orders, clean-ups, renewals and requests, a proxy answers a path
of the authority on a live port exactly while the token is in the hands of an order or of a
clean-up, and with the key authorization that was given for it. -/
theorem validation_answered_iff (daemon : DaemonState) {es : List AcmeEvent}
    (h : machine.Along Fresh (start daemon) es) (cache : Dict String CachedResponse)
    (r : HttpRequest) (ctx : ProxyCtx) (body : String) :
    ((machine.run (start daemon) es).proxy.requestFilter cache r ctx).2 =
        .respond (NyrunProxy.plainText 200 body) body ↔
      r.listenPort ∉ (machine.run (start daemon) es).daemon.proxyMgr.deadPorts ∧
        ∃ token, r.path = challengePath token ∧
          (token, body) ∈ (machine.run (start daemon) es).posted ∧
          token ∈ (machine.run (start daemon) es).held := by
  have haccounted := accounted_run daemon h
  rw [respond_iff, challenge_eq_some]
  simp only [haccounted.lookup_iff]

/-! ## From the challenge to its clean-up -/

/-- The order has the token in its hands, with what is to be answered for it. -/
structure Waits (i : Nat) (c : Challenge) (s : AcmeHost) : Prop where
  posted : (c.token, c.keyAuth) ∈ s.posted
  order : ∃ o, s.orders[i]? = some o ∧ c.token ∈ o.tokens

theorem Waits.mem_held {c : Challenge} (h : Waits i c s) : c.token ∈ s.held := by
  obtain ⟨o, ho, htoken⟩ := h.order
  have hmem : o ∈ s.orders := List.mem_of_getElem? ho
  exact List.mem_append_left _ (List.mem_flatMap.2 ⟨o, hmem, htoken⟩)

/-- More orders leave the ones there are. -/
theorem Waits.append {c : Challenge} {s' : AcmeHost} (h : Waits i c s) {more : List Order}
    (hposted : s'.posted = s.posted) (horders : s'.orders = s.orders ++ more) : Waits i c s' := by
  obtain ⟨o, ho, htoken⟩ := h.order
  obtain ⟨hi, -⟩ := List.getElem?_eq_some_iff.1 ho
  refine ⟨hposted ▸ h.posted, o, ?_, htoken⟩
  rw [horders, List.getElem?_append_left hi, ho]

theorem waits_advance {c : Challenge} (h : Waits i c s) {j : Nat} {os : AcmeOs}
    (hkept : ¬TakesBack i s (.advance j os)) : Waits i c (s.advance j os) := by
  cases hj : s.orders[j]? with
  | none => rwa [advance_of_none hj]
  | some o =>
    have hcases := Order.advance_cases os s.shared o
    have hposted : (s.advance j os).posted = (o.advance os s.shared).1.posted := by
      rw [advance_of_some hj]
      rfl
    have horders : (s.advance j os).orders = s.orders.set j (o.advance os s.shared).2 := by
      rw [advance_of_some hj]
    have hgrows : (c.token, c.keyAuth) ∈ (o.advance os s.shared).1.posted := by
      have hbefore : (c.token, c.keyAuth) ∈ s.shared.posted := h.posted
      rcases hcases with hkeeps | ⟨c', -, -, heq⟩ | ⟨e, -, -, heq⟩ | ⟨status, token, rest, -, -, heq⟩
      · rwa [hkeeps.posted]
      · rw [heq]
        exact List.mem_append_left _ hbefore
      · rwa [heq]
      · rwa [heq]
    refine ⟨hposted ▸ hgrows, ?_⟩
    obtain ⟨o', ho', htoken⟩ := h.order
    rw [horders]
    by_cases hij : j = i
    · subst hij
      obtain rfl : o = o' := Option.some.inj (hj.symm.trans ho')
      obtain ⟨hi, -⟩ := List.getElem?_eq_some_iff.1 hj
      refine ⟨_, List.getElem?_set_self hi, ?_⟩
      rcases hcases with hkeeps | ⟨c', -, -, heq⟩ | ⟨e, hstage, hpoll, -⟩ |
        ⟨status, token, rest, hstage, -, -⟩
      · rwa [hkeeps.tokens]
      · rw [heq]
        exact List.mem_append_left _ htoken
      · exact absurd ⟨rfl, o, hj, .inr ⟨hstage, e, hpoll⟩⟩ hkept
      · exact absurd ⟨rfl, o, hj, .inl ⟨status, hstage⟩⟩ hkept
    · exact ⟨o', by rw [List.getElem?_set_ne hij, ho'], htoken⟩

theorem waits_next {c : Challenge} (h : Waits i c s) (hkept : ¬TakesBack i s e) :
    Waits i c (machine.next s e) := by
  cases e with
  | request os r => exact h.append rfl rfl
  | tick os => exact h.append rfl rfl
  | disk t => exact h.append rfl rfl
  | advance j os => exact waits_advance h hkept
  | cleanUp j =>
    change Waits i c (s.cleanUp j)
    unfold cleanUp
    split
    · exact ⟨h.posted, h.order⟩
    · exact h
  | renew =>
    change Waits i c s.renew
    rcases renew_cases s with heq | ⟨_ | ⟨c', rest⟩, heq⟩
    · rwa [heq]
    · rw [heq]
      exact ⟨h.posted, h.order⟩
    · rw [heq]
      exact h.append rfl rfl

/-- The challenge that the authority gives an order is in the hands of that order then. -/
theorem waits_of_gives {c : Challenge} (h : s.Gives i c e) : Waits i c (machine.next s e) := by
  cases e with
  | advance j os =>
    obtain ⟨rfl, hgiven, o, ho, hstage⟩ := h
    obtain ⟨hi, -⟩ := List.getElem?_eq_some_iff.1 ho
    have heq : o.advance os s.shared = ({ s.shared with
          challenges := s.challenges.insert c.token c.keyAuth
          posted := s.posted ++ [(c.token, c.keyAuth)] },
        { o with tokens := o.tokens ++ [c.token], stage := .answering }) := by
      unfold Order.advance Order.authorize
      rw [hstage, hgiven]
      rfl
    change Waits j c (s.advance j os)
    rw [advance_of_some ho, heq]
    refine ⟨List.mem_append_right _ (List.mem_singleton.2 rfl), _, List.getElem?_set_self hi, ?_⟩
    exact List.mem_append_right _ (List.mem_singleton.2 rfl)
  | request os r => cases h
  | tick os => cases h
  | disk t => cases h
  | cleanUp j => cases h
  | renew => cases h

/-- From the step in which an order is given a challenge until that order comes to its own
clean-up, every live port answers the authority with the key authorization of the challenge,
whatever other orders, clean-ups, renewals and requests do in between. -/
theorem challenge_answered (daemon : DaemonState) {before after : List AcmeEvent} {e : AcmeEvent}
    {i : Nat} {c : Challenge} (hfresh : machine.Along Fresh (start daemon) (before ++ e :: after))
    (hgives : (machine.run (start daemon) before).Gives i c e)
    (hkept : machine.Along (fun s e => ¬TakesBack i s e)
      (machine.run (start daemon) (before ++ [e])) after)
    (cache : Dict String CachedResponse) {r : HttpRequest} (ctx : ProxyCtx)
    (hpath : r.path = challengePath c.token)
    (hlive : r.listenPort ∉
      (machine.run (start daemon) (before ++ e :: after)).daemon.proxyMgr.deadPorts) :
    ((machine.run (start daemon) (before ++ e :: after)).proxy.requestFilter cache r ctx).2 =
      .respond (NyrunProxy.plainText 200 c.keyAuth) c.keyAuth := by
  have hwaits : Waits i c (machine.run (start daemon) (before ++ e :: after)) := by
    have hsplit : before ++ e :: after = before ++ [e] ++ after := by simp
    rw [hsplit, Machine.run_append]
    refine Machine.run_invariant (fun _ _ h hk => waits_next h hk) ?_ hkept
    rw [Machine.run_append]
    exact waits_of_gives hgives
  exact (validation_answered_iff daemon hfresh cache r ctx c.keyAuth).2
    ⟨hlive, c.token, hpath, hwaits.posted, hwaits.mem_held⟩

/-- A daemon with one host to be renewed, on an empty disk. -/
def registered : DaemonState :=
  { DaemonState.initial .empty .empty with acmeConfigs := [("example.com", "me@example.com")] }

/-- The renewal of the host, up to its authorizations. -/
def renewing : List AcmeEvent := .renew :: List.replicate 5 (.advance 0 (.granting none))

def firstChallenge : Challenge := ⟨"token", "token.key"⟩

/-- The authority gives the first challenge. -/
def givesFirst : AcmeEvent := .advance 0 (.granting (some (.ok (.unproven (some firstChallenge)))))

theorem fresh_granting_none (s : AcmeHost) (i : Nat) : s.Fresh (.advance i (.granting none)) := by
  intro j c hgives
  exact nomatch hgives.2.1

theorem fresh_renew (s : AcmeHost) : s.Fresh .renew := fun _ _ hgives => hgives.elim

theorem fresh_of_posted_nil (h : s.posted = []) (e : AcmeEvent) : s.Fresh e := by
  intro i c _
  rw [h]
  exact List.not_mem_nil

theorem fresh_renewing (s : AcmeHost) : machine.Along Fresh s renewing :=
  ⟨fresh_renew _, fresh_granting_none _ 0, fresh_granting_none _ 0, fresh_granting_none _ 0,
    fresh_granting_none _ 0, fresh_granting_none _ 0, trivial⟩

theorem posted_renewing : (machine.run (start registered) renewing).posted = [] := by
  decide +kernel

/-- The challenge given, and the authority told that it is ready. -/
theorem fresh_challenged : machine.Along Fresh (start registered)
    (renewing ++ givesFirst :: [.advance 0 (.granting none)]) :=
  (Machine.along_append _ _).2 ⟨fresh_renewing _, fresh_of_posted_nil posted_renewing _,
    fresh_granting_none _ 0, trivial⟩

/-- The request of the authority. -/
def validation : HttpRequest := ⟨80, "GET", none, challengePath "token", none⟩

theorem authorizing_renewing :
    (machine.run (start registered) renewing).orders[0]?.map Order.stage = some .authorizing := by
  decide +kernel

theorem answering_challenged :
    (machine.run (start registered) (renewing ++ [givesFirst])).orders[0]?.map Order.stage =
      some .answering := by
  decide +kernel

/-- The authority is answered. -/
theorem first_challenge_answered :
    ((machine.run (start registered) (renewing ++ givesFirst ::
        [.advance 0 (.granting none)])).proxy.requestFilter ∅ validation .new).2 =
      .respond (NyrunProxy.plainText 200 "token.key") "token.key" := by
  have hgives : (machine.run (start registered) renewing).Gives 0 firstChallenge givesFirst := by
    obtain ⟨o, ho, hstage⟩ := Option.map_eq_some_iff.1 authorizing_renewing
    exact ⟨rfl, rfl, o, ho, hstage⟩
  have hkept : ¬TakesBack 0 (machine.run (start registered) (renewing ++ [givesFirst]))
      (.advance 0 (.granting none)) := by
    obtain ⟨o, ho, hstage⟩ := Option.map_eq_some_iff.1 answering_challenged
    rintro ⟨-, o', ho', hcase⟩
    obtain rfl : o = o' := Option.some.inj (ho.symm.trans ho')
    rcases hcase with ⟨status, hother⟩ | ⟨hother, -⟩
    · exact nomatch hstage.symm.trans hother
    · exact nomatch hstage.symm.trans hother
  have hlive : validation.listenPort ∉ (machine.run (start registered) (renewing ++ givesFirst ::
      [.advance 0 (.granting none)])).daemon.proxyMgr.deadPorts := by
    decide +kernel
  exact challenge_answered registered fresh_challenged hgives ⟨hkept, trivial⟩ ∅ .new rfl hlive

theorem posted_challenged : (machine.run (start registered) (renewing ++ givesFirst ::
    [.advance 0 (.granting none)])).posted = [("token", "token.key")] := by
  decide +kernel

/-- Nobody else's path is answered with it. -/
theorem other_token_not_answered :
    ((machine.run (start registered) (renewing ++ givesFirst ::
        [.advance 0 (.granting none)])).proxy.requestFilter ∅
          { validation with path := challengePath "other" } .new).2 ≠
      .respond (NyrunProxy.plainText 200 "token.key") "token.key" := by
  intro h
  obtain ⟨-, token, hpath, hposted, -⟩ := (validation_answered_iff registered fresh_challenged
    ∅ { validation with path := challengePath "other" } .new "token.key").1 h
  rw [posted_challenged, List.mem_singleton, Prod.mk.injEq] at hposted
  rw [hposted.1] at hpath
  exact absurd hpath (by decide)

end AcmeHost
