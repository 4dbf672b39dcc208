import NylonRun.Challenges

/-!
# Challenges that nobody takes back

`issue_cert` returns from inside the loop over the authorizations when the authority refuses one,
has no HTTP-01 challenge for it, or cannot be told that a challenge is ready. The tokens that it
has put in the challenge store by then stay there.
-/

namespace Acme.Order

variable {os : AcmeOs} {s : Shared} {o : Order}

/-- The stages in which an order can have tokens in its hands; one that ends in the last of them
is left with its tokens. -/
def MayHold (stage : Stage) : Prop :=
  stage = .authorizing ∨ stage = .answering ∨ stage = .polling ∨
    (∃ status, stage = .cleaning status) ∨ ∃ result, stage = .finished result

/-- An order has tokens in its hands only in the stages for it. -/
def Tidy (o : Order) : Prop := o.tokens ≠ [] → MayHold o.stage

/-- The order is at work, or has ended without tokens. -/
def Emptied (o : Order) : Prop := o.Over → o.tokens = []

/-- The order has been given a challenge, and fails before it has gone through all of its
authorizations. -/
def Strands (os : AcmeOs) (o : Order) : Prop :=
  o.tokens ≠ [] ∧
    (o.stage = .authorizing ∧ ((∃ e, os.nextAuthorization = some (.error e)) ∨
        os.nextAuthorization = some (.ok (.unproven none))) ∨
      o.stage = .answering ∧ ∃ e, os.setReady = .error e)

/-- Outside of the stages for it, an order gets no token into its hands. -/
theorem tokens_advance_of_not_mayHold (htidy : o.Tidy) (h : ¬MayHold o.stage) :
    (o.advance os s).2.tokens = [] := by
  have hnone : o.tokens = [] := by
    by_contra htokens
    exact h (htidy htokens)
  rcases advance_cases os s o with hkeeps | ⟨c, hstage, -⟩ | ⟨e, hstage, -⟩ | ⟨status, _, _, hstage, -⟩
  · rw [hkeeps.tokens, hnone]
  · exact absurd (.inl hstage) h
  · exact absurd (.inr (.inr (.inl hstage))) h
  · exact absurd (.inr (.inr (.inr (.inl ⟨status, hstage⟩)))) h

/-- An order that may hold tokens stays in the stages for it until it has none left. -/
theorem mayHold_advance (h : MayHold o.stage) :
    MayHold (o.advance os s).2.stage ∨ (o.advance os s).2.tokens = [] := by
  have hfinished : ∀ {stage : Stage} {result}, stage = .finished result → MayHold stage :=
    fun h => .inr (.inr (.inr (.inr ⟨_, h⟩)))
  rcases h with hstage | hstage | hstage | ⟨status, hstage⟩ | ⟨result, hstage⟩
  · rw [advance_authorizing hstage]
    unfold authorize
    rcases os.nextAuthorization with _ | _ | _ | _ | c
    · exact .inl (.inr (.inr (.inl rfl)))
    · exact .inl (hfinished rfl)
    · exact .inl (.inl hstage)
    · exact .inl (hfinished rfl)
    · exact .inl (.inr (.inl rfl))
  · rw [advance_answering hstage]
    cases os.setReady with
    | ok _ => exact .inl (.inl rfl)
    | error e => exact .inl (hfinished rfl)
  · rw [advance_polling hstage]
    unfold poll
    cases os.pollReady with
    | ok status => exact .inl (.inr (.inr (.inr (.inl ⟨status, rfl⟩))))
    | error e => exact .inr rfl
  · rw [advance_cleaning hstage]
    unfold clean
    cases htokens : o.tokens with
    | cons token rest => exact .inl (.inr (.inr (.inr (.inl ⟨status, hstage⟩))))
    | nil =>
      refine .inr ?_
      dsimp only
      split <;> exact htokens
  · rw [advance_finished hstage]
    exact .inl (hfinished hstage)

theorem tidy_advance (htidy : o.Tidy) : (o.advance os s).2.Tidy := by
  intro htokens
  by_cases h : MayHold o.stage
  · exact (mayHold_advance h).resolve_right htokens
  · exact absurd (tokens_advance_of_not_mayHold htidy h) htokens

theorem not_over_of_stage {stage : Stage} (h : o.stage = stage)
    (hstage : ∀ result, stage ≠ .finished result) : ¬o.Over := by
  rintro ⟨result, hresult⟩
  exact hstage result (h.symm.trans hresult)

theorem over_fail (o : Order) (e : String) : (o.fail e).Over := ⟨_, rfl⟩

theorem emptied_fail_iff (e : String) : (o.fail e).Emptied ↔ o.tokens = [] :=
  ⟨fun h => h (over_fail o e), fun h _ => h⟩

/-- What an order that has returned is left with: nothing, exactly if it is not stranded now. -/
theorem emptied_advance_iff (os : AcmeOs) (s : Shared) (htidy : o.Tidy) (hempty : o.Emptied) :
    (o.advance os s).2.Emptied ↔ ¬o.Strands os := by
  by_cases hholds : MayHold o.stage
  · rcases hholds with hstage | hstage | hstage | ⟨status, hstage⟩ | ⟨result, hstage⟩
    · have hstrands : o.Strands os ↔ o.tokens ≠ [] ∧ ((∃ e, os.nextAuthorization = some (.error e)) ∨
          os.nextAuthorization = some (.ok (.unproven none))) := by
        unfold Strands
        rw [hstage]
        simp
      rw [advance_authorizing hstage, hstrands]
      unfold authorize
      rcases os.nextAuthorization with _ | _ | _ | _ | c
      · exact iff_of_true (fun h => absurd h (not_over_of_stage rfl nofun)) (by simp)
      · rw [emptied_fail_iff]
        simp
      · exact iff_of_true hempty (by simp)
      · rw [emptied_fail_iff]
        simp
      · exact iff_of_true (fun h => absurd h (not_over_of_stage rfl nofun)) (by simp)
    · have hstrands : o.Strands os ↔ o.tokens ≠ [] ∧ ∃ e, os.setReady = .error e := by
        unfold Strands
        rw [hstage]
        simp
      rw [advance_answering hstage, hstrands]
      cases os.setReady with
      | ok _ => exact iff_of_true (fun h => absurd h (not_over_of_stage rfl nofun)) (by simp)
      | error e =>
        refine (emptied_fail_iff _).trans ?_
        simp
    · have hstrands : ¬o.Strands os := by
        unfold Strands
        rw [hstage]
        simp
      refine iff_of_true ?_ hstrands
      rw [advance_polling hstage]
      unfold poll
      cases os.pollReady with
      | ok status => exact fun h => absurd h (not_over_of_stage rfl nofun)
      | error e => exact fun _ => rfl
    · have hstrands : ¬o.Strands os := by
        unfold Strands
        rw [hstage]
        simp
      refine iff_of_true ?_ hstrands
      rw [advance_cleaning hstage]
      unfold clean
      cases htokens : o.tokens with
      | cons token rest => exact fun h => absurd h (not_over_of_stage hstage nofun)
      | nil =>
        dsimp only
        split <;> exact fun _ => htokens
    · have hstrands : ¬o.Strands os := by
        unfold Strands
        rw [hstage]
        simp
      rw [advance_finished hstage]
      exact iff_of_true hempty hstrands
  · refine iff_of_true (fun _ => tokens_advance_of_not_mayHold htidy hholds) ?_
    rintro ⟨-, ⟨hstage, -⟩ | ⟨hstage, -⟩⟩
    · exact hholds (.inl hstage)
    · exact hholds (.inr (.inl hstage))

end Acme.Order

namespace AcmeHost

open Acme

variable {s : AcmeHost} {e : AcmeEvent} {i : Nat}

/-- Every order has returned, and every clean-up is done. -/
def Quiet (s : AcmeHost) : Prop := (∀ o ∈ s.orders, o.Over) ∧ ∀ task ∈ s.cleanups, task = []

/-- No order that has returned has tokens in its hands. -/
def NoneLeft (s : AcmeHost) : Prop := ∀ o ∈ s.orders, o.Emptied

/-- An order that has been given a challenge fails before it has gone through all of its
authorizations. -/
def Strands (s : AcmeHost) : AcmeEvent → Prop
  | .advance i os => ∃ o, s.orders[i]? = some o ∧ o.Strands os
  | _ => False

theorem tidy_next (h : ∀ o ∈ s.orders, o.Tidy) : ∀ o ∈ (machine.next s e).orders, o.Tidy := by
  intro o ho
  rcases orders_next ho with ho | hstart | ⟨i, os, o', rfl, ho', rfl⟩
  · exact h o ho
  · exact fun htokens => absurd hstart.1 htokens
  · exact Order.tidy_advance (h o' (List.mem_of_getElem? ho'))

/-- No order that has returned is left with tokens after an event exactly if the event strands
none. -/
theorem noneLeft_next_iff (htidy : ∀ o ∈ s.orders, o.Tidy) (h : s.NoneLeft) :
    (machine.next s e).NoneLeft ↔ ¬s.Strands e := by
  constructor
  · intro hnext hstrands
    cases e with
    | advance i os =>
      obtain ⟨o, ho, hstrands⟩ := hstrands
      have hmem := List.mem_of_getElem? ho
      obtain ⟨hi, -⟩ := List.getElem?_eq_some_iff.1 ho
      refine (Order.emptied_advance_iff os s.shared (htidy o hmem) (h o hmem)).1 (hnext _ ?_) hstrands
      change _ ∈ (s.advance i os).orders
      rw [advance_of_some ho]
      exact List.mem_of_getElem? (List.getElem?_set_self hi)
    | request os r => cases hstrands
    | tick os => cases hstrands
    | disk t => cases hstrands
    | cleanUp j => cases hstrands
    | renew => cases hstrands
  · intro hstrands o ho
    rcases orders_next ho with ho | hstart | ⟨i, os, o', rfl, ho', rfl⟩
    · exact h o ho
    · exact fun _ => hstart.1
    · have hmem := List.mem_of_getElem? ho'
      refine (Order.emptied_advance_iff os s.shared (htidy o' hmem) (h o' hmem)).2 fun hs => ?_
      exact hstrands ⟨o', ho', hs⟩

/-- An order that has returned stays as it is. -/
theorem noneLeft_back (s : AcmeHost) (e : AcmeEvent) (h : (machine.next s e).NoneLeft) :
    s.NoneLeft := by
  intro o ho hover
  obtain ⟨i, hi⟩ := List.mem_iff_getElem?.1 ho
  rcases order_next e hi with hsame | ⟨os, -, hstep⟩
  · exact h o (List.mem_of_getElem? hsame) hover
  · obtain ⟨result, hresult⟩ := hover
    rw [Order.advance_finished hresult] at hstep
    exact h o (List.mem_of_getElem? hstep) ⟨result, hresult⟩

/-- When everything has come to an end, nothing is left in the challenge store exactly if no order
failed with a challenge among its authorizations. -/
theorem challenges_empty_iff (daemon : DaemonState) {es : List AcmeEvent}
    (hfresh : machine.Along Fresh (start daemon) es) (hquiet : (machine.run (start daemon) es).Quiet) :
    (∀ token, (machine.run (start daemon) es).challenges.lookup token = none) ↔
      machine.Along (fun s e => ¬s.Strands e) (start daemon) es := by
  have hempty : (start daemon).NoneLeft := fun o ho => nomatch ho
  have htidy : ∀ o ∈ (start daemon).orders, o.Tidy := fun o ho => nomatch ho
  have halong : machine.Throughout NoneLeft (start daemon) es ↔
      machine.Along (fun s e => ¬s.Strands e) (start daemon) es :=
    Machine.throughout_iff_along (I := fun s => ∀ o ∈ s.orders, o.Tidy) (H := fun _ _ => True)
      (fun _ _ hi _ _ _ => tidy_next hi) (fun _ _ hi _ hp => noneLeft_next_iff hi hp) htidy hempty
      Machine.along_true
  rw [(accounted_run daemon hfresh).lookup_eq_none_iff, ← halong]
  have hheld : (machine.run (start daemon) es).held = [] ↔
      (machine.run (start daemon) es).NoneLeft := by
    unfold held
    rw [List.append_eq_nil_iff, List.flatMap_eq_nil_iff, List.flatten_eq_nil_iff,
      and_iff_left hquiet.2]
    exact ⟨fun h o ho _ => h o ho, fun h o ho => h o ho (hquiet.1 o ho)⟩
  rw [hheld]
  exact ⟨Machine.throughout_of_end noneLeft_back, Machine.Throughout.end⟩

/-- The authority cannot be told that the challenge is ready. -/
def refused : AcmeOs := { AcmeOs.granting none with setReady := .error "refused" }

def strandedRun : List AcmeEvent := renewing ++ givesFirst :: [.advance 0 refused]

theorem over_strandedRun : (machine.run (start registered) strandedRun).orders.map Order.stage =
    [.finished (.error "failed to set challenge ready: refused")] := by
  decide +kernel

theorem cleanups_strandedRun : (machine.run (start registered) strandedRun).cleanups = [] := by
  decide +kernel

/-- The order has failed, and its token is still answered. -/
theorem stranded_token_stays :
    (machine.run (start registered) strandedRun).challenges.lookup "token" = some "token.key" ∧
      ¬machine.Along (fun s e => ¬s.Strands e) (start registered) strandedRun := by
  have hlookup : (machine.run (start registered) strandedRun).challenges.lookup "token" =
      some "token.key" := by
    decide +kernel
  have hfresh : machine.Along Fresh (start registered) strandedRun :=
    (Machine.along_append _ _).2 ⟨fresh_renewing _, fresh_of_posted_nil posted_renewing _,
      (fun _ _ hgives => nomatch hgives.2.1), trivial⟩
  have hquiet : (machine.run (start registered) strandedRun).Quiet := by
    refine ⟨fun o ho => ?_, fun task htask => ?_⟩
    · have hstage := List.mem_map_of_mem (f := Order.stage) ho
      rw [over_strandedRun, List.mem_singleton] at hstage
      exact ⟨_, hstage⟩
    · rw [cleanups_strandedRun] at htask
      exact nomatch htask
  refine ⟨hlookup, fun halong => ?_⟩
  have hnone := (challenges_empty_iff registered hfresh hquiet).2 halong "token"
  exact nomatch hnone.symm.trans hlookup

end AcmeHost
