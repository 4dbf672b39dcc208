import NylonRun.Daemon

/-!
# Certificates by ACME

`src/acme.rs`: an order for a certificate goes on in the background of the daemon, next to the
orders of other hosts, the renewal loop and the requests. `issue_cert` is cut at the points where
it waits or touches what it shares, so that a run of the machine below is any interleaving of
all of these. What the authority answers, and what openssl makes of a text, is part of the step.
-/

open UnixPath FileTree Effect

/-- The HTTP-01 challenge of an authorization. -/
structure Challenge where
  token : String
  keyAuth : String
  deriving DecidableEq, Repr

/-- `AuthorizationStatus`, with the challenge of one that is not valid yet. -/
inductive Authorization where
  | valid
  | unproven (http01 : Option Challenge)
  deriving DecidableEq, Repr

/-- `OrderStatus` of instant_acme. -/
inductive OrderStatus where
  | pending
  | ready
  | processing
  | valid
  | invalid
  deriving DecidableEq, Repr

/-- An account of the authority, by its credentials. -/
abbrev Account : Type := String

/-- The answers of the authority, openssl and the clock to one step of an order. -/
structure AcmeOs extends Os where
  stackFromPem : Bytes → Except String (List X509)
  notAfter : X509 → Int
  daysFromNow : Nat → Except String Int
  parseCredentials : String → Except String Account
  toStringPretty : Account → Except String String
  /-- `Account::builder`, where it returns; a panic of it, which would end the task, is left out. -/
  builder : Except String Unit
  fromCredentials : Account → Except String Account
  /-- A new account for a contact. -/
  createAccount : String → Except String Account
  newOrder : Account → String → Except String Unit
  nextAuthorization : Option (Except String Authorization)
  setReady : Except String Unit
  pollReady : Except String OrderStatus
  finalize : Except String Bytes
  pollCertificate : Except String Bytes

/-- An outside on which every call works, with the next authorization of the order. -/
def AcmeOs.granting (next : Option (Except String Authorization)) : AcmeOs where
  toOs := .serving 7 4000
  stackFromPem chain := .ok [chain]
  notAfter _ := 0
  daysFromNow days := .ok days
  parseCredentials := .ok
  toStringPretty := .ok
  builder := .ok ()
  fromCredentials := .ok
  createAccount := .ok
  newOrder _ _ := .ok ()
  nextAuthorization := next
  setReady := .ok ()
  pollReady := .ok .ready
  finalize := .ok [1]
  pollCertificate := .ok [2]

namespace Acme

def certsDir : String := "/var/run/nyrun/certs"

def renewBeforeDays : Nat := 30

def certDir (hostname : String) : String := join certsDir hostname

def certPath (hostname : String) : String := join (certDir hostname) "cert.pem"

def keyPath (hostname : String) : String := join (certDir hostname) "key.pem"

def accountPath : String := join certsDir "account.json"

/-- Where `issue_cert` stands. -/
inductive Stage where
  /-- Spawned by a run, before the host is registered for renewal. -/
  | spawned
  /-- Before the check of the certificate on the disk. -/
  | checking
  /-- That certificate is to be loaded as it is. -/
  | reusing
  | account
  | restoring (creds : Account)
  | registering
  | keeping (account : Account)
  | ordering (account : Account)
  /-- At the head of the loop over the authorizations. -/
  | authorizing
  /-- A challenge is set, and the authority not told yet. -/
  | answering
  | polling
  /-- The clean-up of the tokens, with the status of the order. -/
  | cleaning (status : OrderStatus)
  | finalizing
  | downloading (key : Bytes)
  | savingCert (key chain : Bytes)
  | savingKey (key chain : Bytes)
  | installing (key chain : Bytes)
  | finished (result : Except String Unit)
  deriving DecidableEq

/-- A call of `issue_cert`, in a task that a run has spawned or in the renewal loop. -/
structure Order where
  hostname : String
  email : String
  stage : Stage
  /-- `challenge_tokens`, without the ones that the clean-up has removed or was given. -/
  tokens : List String

namespace Order

/-- The order of a task that a run spawns. -/
def spawn (hostname email : String) : Order := ⟨hostname, email, .spawned, []⟩

/-- The order that the renewal loop begins. -/
def new (hostname email : String) : Order := ⟨hostname, email, .checking, []⟩

def goto (o : Order) (stage : Stage) : Order := { o with stage := stage }

def fail (o : Order) (e : String) : Order := o.goto (.finished (.error e))

end Order

/-- What the orders share: the disk, the store of certificates, the hosts registered for renewal,
the challenge store (src/acme.rs:18-37), and the clean-ups they have spawned, as the tokens each
has yet to remove. `posted` is history: every token that was put in the challenge store, with its
answer. -/
structure Shared where
  disk : FileTree
  certStore : CertStore
  acmeConfigs : List (String × String)
  challenges : Dict String String
  cleanups : List (List String)
  posted : List (String × String)

namespace Shared

/-- A program on the disk that all share. -/
def onDisk {α : Type} (s : Shared) (x : Fs α) : Shared × Except String α :=
  ({ s with disk := final x s.disk }, result x s.disk)

/-- A host is registered for renewal, once (src/server.rs:590-596). -/
def register (s : Shared) (hostname email : String) : Shared :=
  if s.acmeConfigs.any (·.1 = hostname) then s
  else { s with acmeConfigs := s.acmeConfigs ++ [(hostname, email)] }

/-- A registration touches nothing else that is shared. -/
theorem register_eq (s : Shared) (hostname email : String) :
    ∃ configs, s.register hostname email = { s with acmeConfigs := configs } := by
  unfold register
  split
  · exact ⟨_, rfl⟩
  · exact ⟨_, rfl⟩

/-- Parsing a certificate with its chain and its key (src/tls.rs:75-85). -/
def certFromPem (os : AcmeOs) (chain key : Bytes) : Except String TlsCertificate := do
  let certs ← (os.stackFromPem chain).mapError fun e => s!"failed to parse cert chain: {e}"
  let key ← (os.parseKey key).mapError fun e => s!"failed to parse key: {e}"
  match certs with
  | [] => throw "empty certificate chain"
  | cert :: rest => return { cert := cert, key := key, chain := rest }

/-- `add_cert_from_pem` (src/tls.rs:69-98). -/
def addCertFromPem (os : AcmeOs) (store : CertStore) (hostname : String) (chain key : Bytes) :
    Except String CertStore := do
  return store.put hostname (← certFromPem os chain key)

end Shared

/-- Whether the certificate on the disk is still good for `RENEW_BEFORE_DAYS`
(src/acme.rs:50-63). -/
def stillValid (os : AcmeOs) (t : FileTree) (hostname : String) : Except String Bool :=
  if t.pathExists (certPath hostname) ∧ t.pathExists (keyPath hostname) then
    match (t.read (certPath hostname)).bind os.parseCert with
    | .error _ => .ok false
    | .ok cert => do
      let _ ← (os.daysFromNow 0).mapError fun e => s!"time error: {e}"
      let renewAt ← (os.daysFromNow renewBeforeDays).mapError fun e => s!"time error: {e}"
      return decide (renewAt < os.notAfter cert)
  else .ok false

namespace Order

/-- The outcome of a step that goes on with what it got, or ends the order. -/
def proceed {α : Type} (o : Order) (stage : α → Stage) : Except String α → Order
  | .ok a => o.goto (stage a)
  | .error e => o.fail e

/-- The credentials on the disk, if there are any (src/acme.rs:82-86). -/
def findAccount (os : AcmeOs) (t : FileTree) (o : Order) : Order :=
  if t.pathExists accountPath then
    o.proceed .restoring do
      let json ← (t.readToString accountPath).mapError fun e => s!"failed to read account: {e}"
      (os.parseCredentials json).mapError fun e => s!"failed to parse account: {e}"
  else o.goto .registering

/-- The account of those credentials (src/acme.rs:87-91). -/
def restoreAccount (os : AcmeOs) (creds : Account) (o : Order) : Order :=
  o.proceed .ordering do
    os.builder.mapError fun e => s!"failed to create account builder: {e}"
    (os.fromCredentials creds).mapError fun e => s!"failed to load account: {e}"

/-- A new account (src/acme.rs:93-105). -/
def createAccount (os : AcmeOs) (o : Order) : Order :=
  o.proceed .keeping do
    os.builder.mapError fun e => s!"failed to create account builder: {e}"
    (os.createAccount s!"mailto:{o.email}").mapError fun e => s!"failed to create ACME account: {e}"

/-- Its credentials kept (src/acme.rs:107-113). -/
def keepAccount (os : AcmeOs) (account : Account) : Fs Unit := do
  let _ ← mapError (fun e => s!"failed to create certs dir: {e}") (createDirAll (components certsDir))
  let json ← demand (fun e => s!"serialize error: {e}") (os.toStringPretty account)
  mapError (fun e => s!"failed to save account: {e}") (write accountPath json.toUTF8.toList)

/-- A turn of the loop over the authorizations, up to the call that tells the authority
(src/acme.rs:127-146). -/
def authorize (os : AcmeOs) (s : Shared) (o : Order) : Shared × Order :=
  match os.nextAuthorization with
  | none => (s, o.goto .polling)
  | some (.error e) => (s, o.fail s!"authorization error: {e}")
  | some (.ok .valid) => (s, o)
  | some (.ok (.unproven none)) => (s, o.fail "no HTTP-01 challenge found")
  | some (.ok (.unproven (some c))) =>
    ({ s with
        challenges := s.challenges.insert c.token c.keyAuth
        posted := s.posted ++ [(c.token, c.keyAuth)] },
      { o with tokens := o.tokens ++ [c.token], stage := .answering })

/-- The order polled; an error hands the tokens to a clean-up of their own
(src/acme.rs:159-169). -/
def poll (os : AcmeOs) (s : Shared) (o : Order) : Shared × Order :=
  match os.pollReady with
  | .ok status => (s, o.goto (.cleaning status))
  | .error e =>
    ({ s with cleanups := s.cleanups ++ [o.tokens] },
      { o with tokens := [] }.fail s!"order poll_ready failed: {e}")

/-- One token removed, or what follows the clean-up (src/acme.rs:171-178). -/
def clean (status : OrderStatus) (s : Shared) (o : Order) : Shared × Order :=
  match o.tokens with
  | token :: rest =>
    ({ s with challenges := s.challenges.erase token }, { o with tokens := rest })
  | [] =>
    if status = .invalid then (s, o.fail "ACME order became invalid") else (s, o.goto .finalizing)

/-- The certificate written (src/acme.rs:193-195). -/
def saveCert (hostname : String) (chain : Bytes) : Fs Unit := do
  let _ ← mapError (fun e => s!"failed to create cert dir: {e}")
    (createDirAll (components (certDir hostname)))
  mapError (fun e => s!"failed to write cert: {e}") (write (certPath hostname) chain)

/-- The key written (src/acme.rs:196). -/
def saveKey (hostname : String) (key : Bytes) : Fs Unit :=
  mapError (fun e => s!"failed to write key: {e}") (write (keyPath hostname) key)

/-- The store with a certificate, or the error that ends the order. -/
def install (s : Shared) (o : Order) : Except String CertStore → Shared × Order
  | .ok store => ({ s with certStore := store }, o.goto (.finished (.ok ())))
  | .error e => (s, o.fail e)

/-- One step of a spawned task (src/server.rs:589-602), or of `issue_cert`
(src/acme.rs:39-205). -/
def advance (os : AcmeOs) (s : Shared) (o : Order) : Shared × Order :=
  match o.stage with
  | .spawned => (s.register o.hostname o.email, o.goto .checking)
  | .checking =>
    (s, o.proceed (fun valid => if valid then .reusing else .account)
      (stillValid os s.disk o.hostname))
  | .reusing =>
    install s o (s.certStore.addCert os.toOs s.disk o.hostname (certPath o.hostname)
      (keyPath o.hostname))
  | .account => (s, o.findAccount os s.disk)
  | .restoring creds => (s, o.restoreAccount os creds)
  | .registering => (s, o.createAccount os)
  | .keeping account =>
    let (s, kept) := s.onDisk (keepAccount os account)
    (s, o.proceed (fun _ => .ordering account) kept)
  | .ordering account =>
    (s, o.proceed (fun _ => .authorizing)
      ((os.newOrder account o.hostname).mapError fun e => s!"failed to create order: {e}"))
  | .authorizing => o.authorize os s
  | .answering =>
    (s, o.proceed (fun _ => .authorizing)
      (os.setReady.mapError fun e => s!"failed to set challenge ready: {e}"))
  | .polling => o.poll os s
  | .cleaning status => o.clean status s
  | .finalizing =>
    (s, o.proceed .downloading (os.finalize.mapError fun e => s!"failed to finalize order: {e}"))
  | .downloading key =>
    (s, o.proceed (.savingCert key)
      (os.pollCertificate.mapError fun e => s!"failed to get certificate: {e}"))
  | .savingCert key chain =>
    let (s, saved) := s.onDisk (saveCert o.hostname chain)
    (s, o.proceed (fun _ => .savingKey key chain) saved)
  | .savingKey key chain =>
    let (s, saved) := s.onDisk (saveKey o.hostname key)
    (s, o.proceed (fun _ => .installing key chain) saved)
  | .installing key chain =>
    install s o (Shared.addCertFromPem os s.certStore o.hostname chain key)
  | .finished _ => (s, o)

/-- The order has not done anything yet. -/
def AtStart (o : Order) : Prop := o.tokens = [] ∧ (o.stage = .spawned ∨ o.stage = .checking)

/-- The order has returned. -/
def Over (o : Order) : Prop := ∃ result, o.stage = .finished result

instance (o : Order) : Decidable o.Over :=
  match h : o.stage with
  | .finished result => .isTrue ⟨result, h⟩
  | .spawned | .checking | .reusing | .account | .restoring _ | .registering | .keeping _
  | .ordering _ | .authorizing | .answering | .polling | .cleaning _ | .finalizing
  | .downloading _ | .savingCert _ _ | .savingKey _ _ | .installing _ _ =>
    .isFalse fun hover => by
      obtain ⟨result, hresult⟩ := hover
      rw [h] at hresult
      cases hresult

section

variable {os : AcmeOs} {s : Shared} {o : Order}

theorem advance_authorizing (h : o.stage = .authorizing) : o.advance os s = o.authorize os s := by
  unfold advance
  rw [h]

theorem advance_answering (h : o.stage = .answering) :
    o.advance os s = (s, o.proceed (fun _ => .authorizing)
      (os.setReady.mapError fun e => s!"failed to set challenge ready: {e}")) := by
  unfold advance
  rw [h]

theorem advance_polling (h : o.stage = .polling) : o.advance os s = o.poll os s := by
  unfold advance
  rw [h]

theorem advance_cleaning {status : OrderStatus} (h : o.stage = .cleaning status) :
    o.advance os s = o.clean status s := by
  unfold advance
  rw [h]

theorem advance_finished {result : Except String Unit} (h : o.stage = .finished result) :
    o.advance os s = (s, o) := by
  unfold advance
  rw [h]

end

end Order

end Acme

/-- The daemon with the orders that go on in its background, and the hosts that the tasks of its
runs have registered for renewal so far. The renewal loop waits for its next tick, or for an order,
by its number, with the hosts that it still has to come to. -/
structure AcmeHost where
  daemon : DaemonState
  acmeConfigs : List (String × String)
  challenges : Dict String String
  cleanups : List (List String)
  posted : List (String × String)
  orders : List Acme.Order
  renewal : Option (Nat × List (String × String))

inductive AcmeEvent where
  | request (os : Os) (request : Request)
  | tick (os : Os)
  | disk (t : FileTree)
  /-- An order, by its number, goes on. -/
  | advance (order : Nat) (os : AcmeOs)
  /-- A spawned clean-up, by its number, goes on. -/
  | cleanUp (task : Nat)
  /-- The renewal loop goes on (src/acme.rs:207-227). -/
  | renew

namespace AcmeHost

open Acme

/-- A daemon with no order under way. -/
def start (daemon : DaemonState) : AcmeHost := ⟨daemon, daemon.acmeConfigs, ∅, [], [], [], none⟩

def shared (s : AcmeHost) : Shared where
  disk := s.daemon.disk
  certStore := s.daemon.proxyMgr.certStore
  acmeConfigs := s.acmeConfigs
  challenges := s.challenges
  cleanups := s.cleanups
  posted := s.posted

def withShared (s : AcmeHost) (h : Shared) : AcmeHost :=
  { s with
    daemon.disk := h.disk
    daemon.proxyMgr.certStore := h.certStore
    acmeConfigs := h.acmeConfigs
    challenges := h.challenges
    cleanups := h.cleanups
    posted := h.posted }

/-- The task that `spawn_acme_issue` spawns (src/server.rs:585-603): one for every run that asks
for a certificate and is answered Ok, whether its host is registered already or not. -/
def spawned : Event → Option Response → List Order
  | .request _ (.run config), some (.ok _) =>
    match config.acme, config.portMapping.bind (·.host) with
    | some email, some hostname => [.spawn hostname email]
    | _, _ => []
  | _, _ => []

theorem mem_spawned {e : Event} {answer : Option Response} {o : Order} (h : o ∈ spawned e answer) :
    o.AtStart := by
  unfold spawned at h
  split at h
  · split at h
    · rw [List.mem_singleton.1 h]
      exact ⟨rfl, .inl rfl⟩
    · cases h
  · cases h

/-- A step of the daemon itself, with the task that it spawns. -/
def managed (s : AcmeHost) (e : Event) : AcmeHost × Option Response :=
  let (daemon, answer) := Daemon.step s.daemon e
  ({ s with daemon := daemon, orders := s.orders ++ spawned e answer }, answer)

/-- The order for the next host of a pass, or the end of the pass. -/
def renewNext (s : AcmeHost) : List (String × String) → AcmeHost
  | [] => { s with renewal := none }
  | (hostname, email) :: rest =>
    { s with
      orders := s.orders ++ [.new hostname email]
      renewal := some (s.orders.length, rest) }

def renew (s : AcmeHost) : AcmeHost :=
  match s.renewal with
  | none => s.renewNext s.acmeConfigs
  | some (i, rest) =>
    match s.orders[i]? with
    | some o => if o.Over then s.renewNext rest else s
    | none => s

def advance (s : AcmeHost) (i : Nat) (os : AcmeOs) : AcmeHost :=
  match s.orders[i]? with
  | none => s
  | some o =>
    let (shared, o) := o.advance os s.shared
    { s.withShared shared with orders := s.orders.set i o }

/-- A spawned clean-up removes its next token (src/acme.rs:163-167). -/
def cleanUp (s : AcmeHost) (i : Nat) : AcmeHost :=
  match s.cleanups[i]? with
  | some (token :: rest) =>
    { s with challenges := s.challenges.erase token, cleanups := s.cleanups.set i rest }
  | _ => s

def step (s : AcmeHost) : AcmeEvent → AcmeHost × Option Response
  | .request os r => s.managed (.request os r)
  | .tick os => s.managed (.tick os)
  | .disk t => s.managed (.disk t)
  | .advance i os => (s.advance i os, none)
  | .cleanUp i => (s.cleanUp i, none)
  | .renew => (s.renew, none)

def machine : Machine AcmeHost AcmeEvent (Option Response) := ⟨step⟩

/-! ## The orders after an event -/

section

variable {s : AcmeHost} {e : AcmeEvent} {i : Nat}

/-- The renewal loop is either at the next host or where it was. -/
theorem renew_cases (s : AcmeHost) : s.renew = s ∨ ∃ rest, s.renew = s.renewNext rest := by
  unfold renew
  split
  · exact .inr ⟨_, rfl⟩
  · split
    · split
      · exact .inr ⟨_, rfl⟩
      · exact .inl rfl
    · exact .inl rfl

theorem advance_of_some {o : Order} (h : s.orders[i]? = some o) (os : AcmeOs) :
    s.advance i os = { s.withShared (o.advance os s.shared).1 with
      orders := s.orders.set i (o.advance os s.shared).2 } := by
  unfold advance
  rw [h]

theorem advance_of_none (h : s.orders[i]? = none) (os : AcmeOs) : s.advance i os = s := by
  unfold advance
  rw [h]

/-- The orders after an event: the ones before, one of which may have gone a step, and new ones. -/
theorem orders_next {o : Order} (h : o ∈ (machine.next s e).orders) :
    o ∈ s.orders ∨ o.AtStart ∨
      ∃ i os o', e = .advance i os ∧ s.orders[i]? = some o' ∧ o = (o'.advance os s.shared).2 := by
  have hspawned : ∀ {e' : Event} {answer : Option Response} {p : Prop},
      o ∈ s.orders ++ spawned e' answer →
      o ∈ s.orders ∨ o.AtStart ∨ p := by
    intro e' answer p hmem
    rcases List.mem_append.1 hmem with hmem | hmem
    · exact .inl hmem
    · exact .inr (.inl (mem_spawned hmem))
  cases e with
  | request os r => exact hspawned h
  | tick os => exact hspawned h
  | disk t => exact hspawned h
  | advance i os =>
    change o ∈ (s.advance i os).orders at h
    cases ho : s.orders[i]? with
    | none =>
      rw [advance_of_none ho] at h
      exact .inl h
    | some o' =>
      rw [advance_of_some ho] at h
      rcases List.mem_or_eq_of_mem_set h with hmem | heq
      · exact .inl hmem
      · exact .inr (.inr ⟨i, os, o', rfl, ho, heq⟩)
  | cleanUp i =>
    change o ∈ (s.cleanUp i).orders at h
    unfold cleanUp at h
    split at h
    · exact .inl h
    · exact .inl h
  | renew =>
    change o ∈ s.renew.orders at h
    rcases renew_cases s with heq | ⟨_ | ⟨c, rest⟩, heq⟩
    · rw [heq] at h
      exact .inl h
    · rw [heq] at h
      exact .inl h
    · rw [heq] at h
      rcases List.mem_append.1 h with hmem | hmem
      · exact .inl hmem
      · refine .inr (.inl ?_)
        rw [List.mem_singleton.1 hmem]
        exact ⟨rfl, .inr rfl⟩

/-- An order stays where it is in the list, at most a step further. -/
theorem order_next {o : Order} (e : AcmeEvent) (h : s.orders[i]? = some o) :
    (machine.next s e).orders[i]? = some o ∨
      ∃ os, e = .advance i os ∧
        (machine.next s e).orders[i]? = some (o.advance os s.shared).2 := by
  obtain ⟨hi, -⟩ := List.getElem?_eq_some_iff.1 h
  have happend : ∀ more : List Order, (s.orders ++ more)[i]? = some o := fun more => by
    rw [List.getElem?_append_left hi, h]
  cases e with
  | request os r => exact .inl (happend _)
  | tick os => exact .inl (happend _)
  | disk t => exact .inl (happend _)
  | advance j os =>
    change (s.advance j os).orders[i]? = some o ∨ _
    by_cases hij : j = i
    · subst hij
      refine .inr ⟨os, rfl, ?_⟩
      change (s.advance j os).orders[j]? = _
      rw [advance_of_some h]
      exact List.getElem?_set_self hi
    · refine .inl ?_
      cases hj : s.orders[j]? with
      | none => rwa [advance_of_none hj]
      | some o' =>
        rw [advance_of_some hj]
        exact (List.getElem?_set_ne hij).trans h
  | cleanUp j =>
    refine .inl ?_
    change (s.cleanUp j).orders[i]? = some o
    unfold cleanUp
    split <;> exact h
  | renew =>
    refine .inl ?_
    change s.renew.orders[i]? = some o
    rcases renew_cases s with heq | ⟨_ | ⟨c, rest⟩, heq⟩
    · rwa [heq]
    · rwa [heq]
    · rw [heq]
      exact happend _

end

end AcmeHost
