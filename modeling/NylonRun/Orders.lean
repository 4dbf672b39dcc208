import NylonRun.Acme

/-!
# What a step of an order does

Of what they share, orders touch five things: a task registers its host, the loop over the
authorizations posts challenges, the clean-up removes them or is handed over, the last step of an
order that returns Ok puts its certificate in the store, and the steps between write to the disk.
-/

namespace Acme.Order

variable {os : AcmeOs} {s : Shared} {o : Order} {cert : TlsCertificate}

/-- The certificate that the next step of an order puts in the store. -/
def issues (os : AcmeOs) (s : Shared) (o : Order) : Option TlsCertificate :=
  match o.stage with
  | .reusing =>
    (CertStore.loadCert os.toOs s.disk (certPath o.hostname) (keyPath o.hostname)).toOption
  | .installing key chain => (Shared.certFromPem os chain key).toOption
  | _ => none

theorem install_put (s : Shared) (o : Order) (r : Except String TlsCertificate) :
    install s o (do return s.certStore.put o.hostname (← r)) =
      match r with
      | .ok cert => ({ s with certStore := s.certStore.put o.hostname cert },
          o.goto (.finished (.ok ())))
      | .error e => (s, o.fail e) := by
  cases r <;> rfl

/-- An order that issues a certificate puts it under its own host, and has returned Ok. -/
theorem advance_of_issues (h : o.issues os s = some cert) : o.advance os s =
    ({ s with certStore := s.certStore.put o.hostname cert }, o.goto (.finished (.ok ()))) := by
  unfold issues at h
  unfold advance
  split at h
  · rename_i hstage
    rw [hstage]
    refine (install_put s o _).trans ?_
    cases hload : CertStore.loadCert os.toOs s.disk (certPath o.hostname) (keyPath o.hostname) with
    | error e =>
      rw [hload] at h
      cases h
    | ok c =>
      rw [hload] at h
      cases h
      rfl
  · rename_i key chain hstage
    rw [hstage]
    refine (install_put s o _).trans ?_
    cases hpem : Shared.certFromPem os chain key with
    | error e =>
      rw [hpem] at h
      cases h
    | ok c =>
      rw [hpem] at h
      cases h
      rfl
  · cases h

/-- What a step of an order comes to, with the answers it goes by. -/
inductive Does (os : AcmeOs) (s : Shared) (o : Order) : Shared × Order → Prop where
  | registers (hstage : o.stage = .spawned) :
    Does os s o (s.register o.hostname o.email, o.goto .checking)
  /-- The order has returned, or passes over an authorization that is valid already. -/
  | stays (hstage : o.stage ≠ .spawned) : Does os s o (s, o)
  /-- The order goes on or fails, and has written to the disk at most. -/
  | goesOn (disk : FileTree) (stage : Stage) (hstage : o.stage ≠ .spawned)
      (hnew : stage ≠ .spawned) (hok : stage ≠ .finished (.ok ())) :
    Does os s o ({ s with disk := disk }, o.goto stage)
  | posts (c : Challenge) (hstage : o.stage = .authorizing)
      (hgiven : os.nextAuthorization = some (.ok (.unproven (some c)))) :
    Does os s o ({ s with
        challenges := s.challenges.insert c.token c.keyAuth
        posted := s.posted ++ [(c.token, c.keyAuth)] },
      { o with tokens := o.tokens ++ [c.token], stage := .answering })
  | handsOver (e : String) (hstage : o.stage = .polling) (hpoll : os.pollReady = .error e) :
    Does os s o ({ s with cleanups := s.cleanups ++ [o.tokens] },
      { o with tokens := [] }.fail s!"order poll_ready failed: {e}")
  | removes (status : OrderStatus) (token : String) (rest : List String)
      (hstage : o.stage = .cleaning status) (htokens : o.tokens = token :: rest) :
    Does os s o ({ s with challenges := s.challenges.erase token }, { o with tokens := rest })
  | issues (cert : TlsCertificate) (h : o.issues os s = some cert) :
    Does os s o ({ s with certStore := s.certStore.put o.hostname cert },
      o.goto (.finished (.ok ())))

theorem does_fail (hstage : o.stage ≠ .spawned) (e : String) : Does os s o (s, o.fail e) :=
  .goesOn s.disk _ hstage nofun nofun

theorem does_proceed {α : Type} {stage : α → Stage} (hstage : o.stage ≠ .spawned)
    (hnew : ∀ a, stage a ≠ .spawned) (hok : ∀ a, stage a ≠ .finished (.ok ())) (disk : FileTree)
    (r : Except String α) : Does os s o ({ s with disk := disk }, o.proceed stage r) := by
  cases r with
  | ok a => exact .goesOn disk _ hstage (hnew a) (hok a)
  | error e => exact .goesOn disk _ hstage nofun nofun

/-- Every step of an order is one of these. -/
theorem advance_does (os : AcmeOs) (s : Shared) (o : Order) : Does os s o (o.advance os s) := by
  cases hissues : o.issues os s with
  | some cert =>
    rw [advance_of_issues hissues]
    exact .issues cert hissues
  | none =>
    by_cases hspawned : o.stage = .spawned
    · unfold advance
      rw [hspawned]
      exact .registers hspawned
    · unfold issues at hissues
      unfold advance
      cases hstage : o.stage with
      | spawned => exact absurd hstage hspawned
      | reusing =>
        rw [hstage] at hissues
        dsimp only at hissues ⊢
        unfold CertStore.addCert
        rw [install_put]
        cases hload : CertStore.loadCert os.toOs s.disk (certPath o.hostname) (keyPath o.hostname) with
        | error e => exact does_fail hspawned e
        | ok cert =>
          rw [hload] at hissues
          cases hissues
      | installing key chain =>
        rw [hstage] at hissues
        dsimp only at hissues ⊢
        unfold Shared.addCertFromPem
        rw [install_put]
        cases hpem : Shared.certFromPem os chain key with
        | error e => exact does_fail hspawned e
        | ok cert =>
          rw [hpem] at hissues
          cases hissues
      | account =>
        dsimp only [findAccount]
        split
        · exact does_proceed hspawned nofun nofun s.disk _
        · exact .goesOn s.disk _ hspawned nofun nofun
      | authorizing =>
        dsimp only [authorize]
        rcases hnext : os.nextAuthorization with _ | _ | _ | _ | c
        · exact .goesOn s.disk _ hspawned nofun nofun
        · exact does_fail hspawned _
        · exact .stays hspawned
        · exact does_fail hspawned _
        · exact .posts c hstage hnext
      | polling =>
        dsimp only [poll]
        cases hpoll : os.pollReady with
        | ok status => exact .goesOn s.disk _ hspawned nofun nofun
        | error e => exact .handsOver e hstage hpoll
      | cleaning status =>
        dsimp only [clean]
        cases htokens : o.tokens with
        | cons token rest => exact .removes status token rest hstage htokens
        | nil =>
          dsimp only
          split
          · exact does_fail hspawned _
          · exact .goesOn s.disk _ hspawned nofun nofun
      | checking =>
        refine does_proceed hspawned ?_ ?_ s.disk _ <;> exact fun valid => by cases valid <;> exact nofun
      | keeping account =>
        refine does_proceed hspawned ?_ ?_ _ _ <;> exact fun _ => nofun
      | savingCert key chain =>
        refine does_proceed hspawned ?_ ?_ _ _ <;> exact fun _ => nofun
      | savingKey key chain =>
        refine does_proceed hspawned ?_ ?_ _ _ <;> exact fun _ => nofun
      | restoring creds => exact does_proceed hspawned nofun nofun s.disk _
      | registering => exact does_proceed hspawned nofun nofun s.disk _
      | ordering account => exact does_proceed hspawned nofun nofun s.disk _
      | answering => exact does_proceed hspawned nofun nofun s.disk _
      | finalizing => exact does_proceed hspawned nofun nofun s.disk _
      | downloading key => exact does_proceed hspawned nofun nofun s.disk _
      | finished result => exact .stays hspawned

end Acme.Order
