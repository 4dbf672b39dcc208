import NylonRun.Agreement

/-!
# Whose certificate a handshake is given

Certificates are kept by host name, with one for all the names without their own, while routes
belong to apps. A run puts a certificate under its host, over whatever another app has put
there; an update neither loads the new certificate nor moves the old one to a new host; and a
deletion leaves the certificates where they are.
-/

open UnixPath FileTree Effect

namespace CertStore

variable {s : CertStore} {key : String} {cert : TlsCertificate}

/-- A handshake for a route's host is given the certificate, or every handshake for a name
without its own, where the route has no host. -/
def Served (s : CertStore) (host : Option String) (cert : TlsCertificate) : Prop :=
  match host with
  | some h => s.select (some h) = some cert
  | none => ∀ name, s.certs.lookup (name.getD "localhost") = none → s.select name = some cert

/-- The handshakes of a route are answered from what is kept under the key. -/
def Reads (s : CertStore) (key : String) : Option String → Prop
  | some h => h = key ∨ (key = "default" ∧ s.certs.lookup h = none)
  | none => key = "default"

/-- No host is kept under the name of the fallback. -/
def Tidy (s : CertStore) : Prop := s.certs.lookup "default" = none

theorem lookup_put (s : CertStore) (key : String) (cert : TlsCertificate) (h : String) :
    (s.put key cert).certs.lookup h =
      if h = key ∧ key ≠ "default" then some cert else s.certs.lookup h := by
  unfold put
  by_cases hkey : key = "default"
  · rw [if_pos hkey, if_neg fun h => h.2 hkey]
  · rw [if_neg hkey]
    change (s.certs.insert key cert).lookup h = _
    rw [Dict.lookup_insert_eq]
    simp [hkey]

theorem defaultCert_put (s : CertStore) (key : String) (cert : TlsCertificate) :
    (s.put key cert).defaultCert = if key = "default" then some cert else s.defaultCert := by
  unfold put
  split <;> rfl

theorem tidy_put (hs : s.Tidy) (key : String) (cert : TlsCertificate) : (s.put key cert).Tidy := by
  unfold Tidy
  rw [lookup_put, if_neg fun h => h.2 h.1.symm, hs]

/-- What a handshake is given once a certificate is put under a key. -/
theorem select_put (s : CertStore) (key : String) (cert : TlsCertificate) (name : Option String) :
    (s.put key cert).select name =
      if name.getD "localhost" = key ∧ key ≠ "default" ∨
        key = "default" ∧ s.certs.lookup (name.getD "localhost") = none then some cert
      else s.select name := by
  unfold select
  rw [lookup_put, defaultCert_put]
  by_cases hkey : key = "default"
  · cases hown : s.certs.lookup (name.getD "localhost") with
    | none => simp [hkey]
    | some c => simp [hkey]
  · by_cases hname : name.getD "localhost" = key
    · simp [hkey, hname]
    · simp [hkey, hname]

/-- A route is given its own certificate once that is put under its host. -/
theorem served_put_own (hs : s.Tidy) (host : Option String) (cert : TlsCertificate) :
    (s.put (host.getD "default") cert).Served host cert := by
  cases host with
  | some h =>
    change (s.put h cert).select (some h) = some cert
    rw [select_put, if_pos]
    by_cases hh : h = "default"
    · exact .inr ⟨hh, by rw [Option.getD_some, hh]; exact hs⟩
    · exact .inl ⟨rfl, hh⟩
  | none =>
    intro name hname
    change (s.put "default" cert).certs.lookup _ = none at hname
    rw [lookup_put, if_neg fun h => h.2 rfl] at hname
    change (s.put "default" cert).select name = some cert
    rw [select_put, if_pos (.inr ⟨rfl, hname⟩)]

/-- A route is still given its certificate, once another is put under a key, exactly if it does
not read that key or the certificates are the same. -/
theorem served_put_iff (hs : s.Tidy) {host : Option String} {own : TlsCertificate}
    (hown : s.Served host own) :
    (s.put key cert).Served host own ↔ (s.Reads key host → own = cert) := by
  cases host with
  | some h =>
    change (s.put key cert).select (some h) = some own ↔ _
    have hselect : s.select (some h) = some own := hown
    rw [select_put, Option.getD_some]
    by_cases hreads : s.Reads key (some h)
    · have hcond : h = key ∧ key ≠ "default" ∨ key = "default" ∧ s.certs.lookup h = none := by
        rcases hreads with rfl | hdefault
        · by_cases hh : h = "default"
          · exact .inr ⟨hh, by rw [hh]; exact hs⟩
          · exact .inl ⟨rfl, hh⟩
        · exact .inr hdefault
      rw [if_pos hcond, Option.some.injEq]
      exact ⟨fun heq _ => heq.symm, fun heq => (heq hreads).symm⟩
    · have hcond : ¬(h = key ∧ key ≠ "default" ∨ key = "default" ∧ s.certs.lookup h = none) := by
        rintro (hkey | hdefault)
        · exact hreads (.inl hkey.1)
        · exact hreads (.inr hdefault)
      rw [if_neg hcond]
      exact iff_of_true hselect fun h => absurd h hreads
  | none =>
    have hselect : ∀ name, s.certs.lookup (name.getD "localhost") = none →
        s.select name = some own := hown
    by_cases hkey : key = "default"
    · constructor
      · intro h _
        have hname := h (some "default") (tidy_put hs key cert)
        rw [select_put, if_pos (.inr ⟨hkey, hs⟩)] at hname
        exact (Option.some.inj hname).symm
      · intro h name hname
        rw [lookup_put, if_neg fun h => h.2 hkey] at hname
        rw [select_put, if_pos (.inr ⟨hkey, hname⟩), h hkey]
    · refine iff_of_true (fun name hname => ?_) fun h => absurd h hkey
      rw [lookup_put] at hname
      split at hname
      · cases hname
      · rename_i hother
        rw [select_put, if_neg, hselect name hname]
        rintro (h | h)
        · exact hother h
        · exact hkey h.1

end CertStore

namespace Daemon

/-- The paths of an update's `--ssl` (src/server.rs:314-318). -/
def updateSsl (paths : List String) : SslConfig where
  certPath := (paths[0]?).getD ""
  keyPath := (paths[1]?).getD ""

/-- The daemon with the history of its certificates. -/
structure Ledger where
  daemon : DaemonState
  /-- The `ssl` config of each app, and the certificate in its files when it was given. -/
  current : Dict String (SslConfig × TlsCertificate)
  /-- Every certificate that a live app was given, the ones before the last included. -/
  given : List (String × TlsCertificate)

namespace Ledger

def initial (store : StateStore) (disk : FileTree) : Ledger := ⟨.initial store disk, ∅, []⟩

/-- An app is given the certificate in the files that a request names. -/
def give (s : Ledger) (os : Os) (disk : FileTree) (name : String) : Option SslConfig → Ledger
  | none => s
  | some ssl =>
    match CertStore.loadCert os disk ssl.certPath ssl.keyPath with
    | .ok cert => { s with
        current := s.current.insert name (ssl, cert)
        given := s.given ++ [(name, cert)] }
    | .error _ => s

def forget (s : Ledger) (name : String) : Ledger :=
  { s with current := s.current.erase name, given := s.given.filter (·.1 ≠ name) }

/-- What an event does, where the requests are answered Ok. A run reads the files on the disk
that its launch leaves. -/
def step (s : Ledger) (e : Event) : Ledger × Option Response :=
  let (st, answer) := Daemon.step s.daemon e
  let s' := { s with daemon := st }
  match e with
  | .request os (.run config) => (s'.give os st.disk config.name config.ssl, answer)
  | .request os (.update name _ ssl _ _ _ _) =>
    (s'.give os s.daemon.disk name (ssl.map updateSsl), answer)
  | .request _ (.del name) => (s'.forget name, answer)
  | _ => (s', answer)

def machine : Machine Ledger Event (Option Response) := ⟨step⟩

@[simp] theorem give_daemon (s : Ledger) (os : Os) (disk : FileTree) (name : String)
    (ssl : Option SslConfig) : (s.give os disk name ssl).daemon = s.daemon := by
  unfold give
  split
  · rfl
  · split <;> rfl

/-- Every route of an app with an `ssl` config is given the certificate of that config, and every
certificate that a handshake is given is that of a live app. -/
structure CertsServed (s : Ledger) : Prop where
  own : ∀ r ∈ s.daemon.proxyMgr.routes, ∀ p ssl,
    s.daemon.processMgr.lookup r.name = some p → p.config.ssl = some ssl →
    ∃ cert, s.current.lookup r.name = some (ssl, cert) ∧
      s.daemon.proxyMgr.certStore.Served r.host cert
  alive : ∀ name cert, s.daemon.proxyMgr.certStore.select name = some cert →
    ∃ app, (app, cert) ∈ s.given ∧ (s.daemon.processMgr.lookup app).isSome = true

/-- The events of a run: runs, updates and deletions answered Ok, with certificate files that
load, while the disk changes. -/
def Allowed (s : Ledger) : Event → Prop
  | .request os (.run config) => (Server.handleRun os s.daemon config).2.isOk = true
  | .request os (.update name port ssl acme envFile args image) =>
    (Server.handleUpdate os s.daemon name ⟨port, ssl, acme, envFile, args, image⟩).2.isOk = true ∧
      ∀ paths ∈ ssl, (CertStore.loadCert os s.daemon.disk (updateSsl paths).certPath
        (updateSsl paths).keyPath).isOk = true
  | .request _ (.del _) | .disk _ => True
  | _ => False

instance (s : Ledger) : (e : Event) → Decidable (Allowed s e)
  | .request os (.run config) =>
    instDecidableEqBool (Server.handleRun os s.daemon config).2.isOk true
  | .request os (.update name port ssl acme envFile args image) =>
    @instDecidableAnd _ _
      (instDecidableEqBool
        (Server.handleUpdate os s.daemon name ⟨port, ssl, acme, envFile, args, image⟩).2.isOk true)
      (Option.decidableForallMem ssl)
  | .request _ (.del _) | .disk _ => .isTrue trivial
  | .request _ (.bin _) | .request _ .ls | .request _ (.restart _) | .request _ (.reload _)
  | .request _ (.logs ..) | .request _ (.set ..) | .request _ .export | .request _ .save
  | .request _ .kill | .request _ (.link _) | .request _ .unlink | .request _ (.metricsEnable _)
  | .request _ .metricsDisable | .tick _ | .issued .. => .isFalse id

/-- What is invariant: the ledger has the `ssl` config of every app, and only live apps. -/
structure Kept (s : Ledger) : Prop where
  agrees : Agrees s.daemon.processMgr s.daemon.proxyMgr.routes
  mapped : ∀ n p, s.daemon.processMgr.lookup n = some p → p.config.portMapping.isSome = true
  tidy : s.daemon.proxyMgr.certStore.Tidy
  current : ∀ n p, s.daemon.processMgr.lookup n = some p →
    p.config.ssl = (s.current.lookup n).map (·.1)
  free : ∀ n, s.daemon.processMgr.lookup n = none → s.current.lookup n = none
  given : ∀ n cert, (n, cert) ∈ s.given → (s.daemon.processMgr.lookup n).isSome = true

/-- Where the ledger is kept, it tells what is to be served. -/
theorem certsServed_iff {s : Ledger} (h : s.Kept) :
    s.CertsServed ↔
      (∀ r ∈ s.daemon.proxyMgr.routes, ∀ x, s.current.lookup r.name = some x →
        s.daemon.proxyMgr.certStore.Served r.host x.2) ∧
      ∀ name cert, s.daemon.proxyMgr.certStore.select name = some cert →
        ∃ app, (app, cert) ∈ s.given := by
  constructor
  · intro hserved
    refine ⟨fun r hr x hx => ?_, fun name cert hselect => ?_⟩
    · obtain ⟨ssl, own⟩ := x
      cases hp : s.daemon.processMgr.lookup r.name with
      | none =>
        rw [h.free _ hp] at hx
        cases hx
      | some p =>
        have hssl := h.current _ p hp
        rw [hx] at hssl
        obtain ⟨cert, hcurrent, hown⟩ := hserved.own r hr p ssl hp hssl
        rw [hx] at hcurrent
        cases hcurrent
        exact hown
    · obtain ⟨app, hgiven, -⟩ := hserved.alive name cert hselect
      exact ⟨app, hgiven⟩
  · rintro ⟨hown, halive⟩
    refine ⟨fun r hr p ssl hp hssl => ?_, fun name cert hselect => ?_⟩
    · rw [h.current _ p hp] at hssl
      obtain ⟨x, hx, rfl⟩ := Option.map_eq_some_iff.1 hssl
      exact ⟨x.2, hx, hown r hr x hx⟩
    · obtain ⟨app, hgiven⟩ := halive name cert hselect
      exact ⟨app, hgiven, h.given app cert hgiven⟩

/-! ## A run -/

/-- A run with a certificate puts it where no other app's handshakes are answered from, unless
they are to be given the same certificate. -/
def RunFits (os : Os) (s : Ledger) (config : ProcessConfig) : Prop :=
  ∀ ssl cert pm, config.ssl = some ssl → config.portMapping = some pm →
    CertStore.loadCert os (Server.handleRun os s.daemon config).1.disk ssl.certPath ssl.keyPath =
      .ok cert →
    ∀ r ∈ s.daemon.proxyMgr.routes, ∀ x, s.current.lookup r.name = some x →
      s.daemon.proxyMgr.certStore.Reads (pm.host.getD "default") r.host → x.2 = cert

section

variable {os : Os} {s : Ledger} {config c : ProcessConfig} {pm : PortMapping}
  {p : ManagedProcess} {disk : FileTree} {m : ProxyManager}

theorem loadTls_certStore {t : FileTree} {m m' : ProxyManager} {entry : RouteEntry}
    {ssl : Option SslConfig} (h : m.loadTls os t entry ssl = .ok m') :
    (ssl = none ∧ m'.certStore = m.certStore) ∨
    ∃ c cert, ssl = some c ∧ CertStore.loadCert os t c.certPath c.keyPath = .ok cert ∧
      m'.certStore = m.certStore.put (entry.host.getD "default") cert := by
  rcases ProxyManager.loadTls_eq_ok h with ⟨rfl, rfl⟩ | ⟨c, cert, rfl, hload, rfl⟩
  · exact .inl ⟨rfl, rfl⟩
  · exact .inr ⟨c, cert, rfl, hload, rfl⟩

/-- What a run does to the certificates, and what the ledger notes of it. -/
theorem certs_ran (hran : Server.RanOk os s.daemon config c pm p disk m) :
    (config.ssl = none ∧
      (Server.handleRun os s.daemon config).1.proxyMgr.certStore = s.daemon.proxyMgr.certStore ∧
      (machine.next s (.request os (.run config))).current = s.current ∧
      (machine.next s (.request os (.run config))).given = s.given) ∨
    ∃ ssl cert, config.ssl = some ssl ∧
      CertStore.loadCert os (Server.handleRun os s.daemon config).1.disk ssl.certPath ssl.keyPath =
        .ok cert ∧
      (Server.handleRun os s.daemon config).1.proxyMgr.certStore =
        s.daemon.proxyMgr.certStore.put (pm.host.getD "default") cert ∧
      (machine.next s (.request os (.run config))).current =
        s.current.insert config.name (ssl, cert) ∧
      (machine.next s (.request os (.run config))).given = s.given ++ [(config.name, cert)] := by
  have hdisk : (Server.handleRun os s.daemon config).1.disk = disk := by
    rw [hran.state, Server.registerAcme_toHost]
  have hnext : machine.next s (.request os (.run config)) =
      Ledger.give { s with daemon := (Server.handleRun os s.daemon config).1 } os
        (Server.handleRun os s.daemon config).1.disk config.name config.ssl := rfl
  rw [hnext, hdisk, hran.proxyMgr, ProxyManager.listen_certStore,
    ← (Server.prepareRun_asked hran.prepared).1]
  rcases loadTls_certStore hran.loaded with ⟨hnone, hstore⟩ | ⟨ssl, cert, hsome, hload, hstore⟩
  · rw [hnone]
    exact .inl ⟨rfl, hstore, rfl, rfl⟩
  · refine .inr ⟨ssl, cert, hsome, hload, ?_, ?_⟩
    · rw [hstore, Server.runRoute_host]
      rfl
    · rw [hsome]
      unfold give
      dsimp only
      rw [hload]
      exact ⟨rfl, rfl⟩

theorem daemon_ran (os : Os) (s : Ledger) (config : ProcessConfig) :
    (machine.next s (.request os (.run config))).daemon =
      (Server.handleRun os s.daemon config).1 := give_daemon ..

theorem kept_ran (hran : Server.RanOk os s.daemon config c pm p disk m)
    (hok : (Server.handleRun os s.daemon config).2.isOk = true) (hkept : s.Kept) :
    (machine.next s (.request os (.run config))).Kept := by
  have hlookup : ∀ n, (Server.handleRun os s.daemon config).1.processMgr.lookup n =
      if n = config.name then some p else s.daemon.processMgr.lookup n := by
    intro n
    rw [hran.processMgr, ProcessManager.lookup_insert, hran.name]
  have hfree : s.daemon.processMgr.lookup config.name = none := by rw [← hran.name, hran.free]
  have hssl : p.config.ssl = config.ssl := by
    rw [hran.same.ssl, (Server.prepareRun_asked hran.prepared).1]
  have hcurrent : ∀ n, (machine.next s (.request os (.run config))).current.lookup n =
      if n = config.name then (machine.next s (.request os (.run config))).current.lookup n
      else s.current.lookup n := by
    intro n
    split
    · rfl
    · rename_i hn
      rcases certs_ran hran with ⟨-, -, hcurrent, -⟩ | ⟨ssl, cert, -, -, -, hcurrent, -⟩
      · rw [hcurrent]
      · rw [hcurrent, Dict.lookup_insert_eq, if_neg hn]
  refine ⟨?_, fun n q hq => ?_, ?_, fun n q hq => ?_, fun n hn => ?_, fun n cert hgiven => ?_⟩
  · rw [daemon_ran]
    exact agrees_run hkept.agrees hok
  · rw [daemon_ran, hlookup] at hq
    split at hq
    · cases hq
      rw [hran.same.portMapping, hran.portMapping]
      rfl
    · exact hkept.mapped n q hq
  · rw [daemon_ran]
    rcases certs_ran hran with ⟨-, hstore, -⟩ | ⟨ssl, cert, -, -, hstore, -⟩ <;> rw [hstore]
    · exact hkept.tidy
    · exact CertStore.tidy_put hkept.tidy ..
  · rw [daemon_ran, hlookup] at hq
    split at hq
    · rename_i hn
      cases hq
      rw [hssl, hn]
      rcases certs_ran hran with ⟨hnone, -, hsame, -⟩ | ⟨ssl, cert, hsome, -, -, hsame, -⟩
      · rw [hnone, hsame, hkept.free _ hfree]
        rfl
      · rw [hsome, hsame, Dict.lookup_insert_eq, if_pos rfl]
        rfl
    · rename_i hn
      rw [hcurrent, if_neg hn]
      exact hkept.current n q hq
  · rw [daemon_ran, hlookup] at hn
    split at hn
    · cases hn
    · rename_i hne
      rw [hcurrent, if_neg hne]
      exact hkept.free n hn
  · rw [daemon_ran, hlookup]
    by_cases hn : n = config.name
    · rw [if_pos hn]
      rfl
    · rw [if_neg hn]
      rcases certs_ran hran with ⟨-, -, -, hsame⟩ | ⟨ssl, cert', -, -, -, -, hsame⟩ <;>
        rw [hsame] at hgiven
      · exact hkept.given n cert hgiven
      · rcases List.mem_append.1 hgiven with hgiven | hgiven
        · exact hkept.given n cert hgiven
        · cases List.mem_singleton.1 hgiven
          exact absurd rfl hn

/-- After a run the certificates are served exactly if its own does not take the place of
another app's. -/
theorem certsServed_ran_iff (hran : Server.RanOk os s.daemon config c pm p disk m)
    (hok : (Server.handleRun os s.daemon config).2.isOk = true) (hkept : s.Kept)
    (hold : s.CertsServed) :
    (machine.next s (.request os (.run config))).CertsServed ↔ RunFits os s config := by
  obtain ⟨hown, halive⟩ := (certsServed_iff hkept).1 hold
  rw [certsServed_iff (kept_ran hran hok hkept), daemon_ran]
  have hfree : s.daemon.processMgr.lookup config.name = none := by rw [← hran.name, hran.free]
  have hroutes : ∀ r, r ∈ (Server.handleRun os s.daemon config).1.proxyMgr.routes ↔
      r ∈ s.daemon.proxyMgr.routes ∨ r = Server.runRoute s.daemon c pm := by
    intro r
    rw [hran.routes, RouteTable.mem_replace, Server.runRoute_name]
    exact or_congr_left ⟨And.left, fun hr => ⟨hr, hkept.agrees.name_ne hran.free r hr⟩⟩
  have hother := hkept.agrees.name_ne hfree
  rcases certs_ran hran with
    ⟨hnone, hstore, hcurrent, hgiven⟩ | ⟨ssl, cert, hsome, hload, hstore, hcurrent, hgiven⟩
  · rw [hstore, hcurrent, hgiven]
    refine iff_of_true ⟨fun r hr x hx => ?_, halive⟩ fun ssl cert pm hsome => ?_
    · rcases (hroutes r).1 hr with hr | rfl
      · exact hown r hr x hx
      · rw [Server.runRoute_name, hran.name, hkept.free _ hfree] at hx
        cases hx
    · rw [hnone] at hsome
      cases hsome
  · obtain ⟨-, -, pm₀, hpm₀, -, hhost⟩ := Server.prepareRun_asked hran.prepared
    have hfits : RunFits os s config ↔ ∀ r ∈ s.daemon.proxyMgr.routes, ∀ x,
        s.current.lookup r.name = some x →
        s.daemon.proxyMgr.certStore.Reads (pm.host.getD "default") r.host → x.2 = cert := by
      rw [hhost]
      constructor
      · intro h
        exact h ssl cert pm₀ hsome hpm₀ hload
      · intro h ssl' cert' pm' hsome' hpm' hload'
        rw [hsome] at hsome'
        cases hsome'
        rw [hload] at hload'
        cases hload'
        rw [hpm₀] at hpm'
        cases hpm'
        exact h
    rw [hfits, hstore, hcurrent, hgiven]
    constructor
    · rintro ⟨hserved, -⟩ r hr x hx
      have hx' : (s.current.insert config.name (ssl, cert)).lookup r.name = some x := by
        rw [Dict.lookup_insert_eq, if_neg (hother r hr), hx]
      have hr' := (hroutes r).2 (.inl hr)
      exact (CertStore.served_put_iff hkept.tidy (hown r hr x hx)).1 (hserved r hr' x hx')
    · intro h
      refine ⟨fun r hr x hx => ?_, fun name own hselect => ?_⟩
      · rw [Dict.lookup_insert_eq] at hx
        rcases (hroutes r).1 hr with hr | rfl
        · rw [if_neg (hother r hr)] at hx
          exact (CertStore.served_put_iff hkept.tidy (hown r hr x hx)).2 (h r hr x hx)
        · rw [Server.runRoute_name, hran.name, if_pos rfl] at hx
          cases hx
          rw [Server.runRoute_host]
          exact CertStore.served_put_own hkept.tidy pm.host cert
      · rw [CertStore.select_put] at hselect
        split at hselect
        · cases hselect
          exact ⟨config.name, by simp⟩
        · obtain ⟨app, happ⟩ := halive name own hselect
          exact ⟨app, List.mem_append_left _ happ⟩

end

/-! ## An update -/

/-- The host of an app's route after an update. -/
def hostAfter (port : Option String) (host : Option String) : Option String :=
  match port.map Server.parsePortMappingStr with
  | some (.ok pm) => pm.host
  | _ => host

/-- The certificate that is an app's own after an update. -/
def certAfter (os : Os) (s : Ledger) (name : String) (ssl : Option (List String)) :
    Option TlsCertificate :=
  match ssl with
  | some paths => (CertStore.loadCert os s.daemon.disk (updateSsl paths).certPath
      (updateSsl paths).keyPath).toOption
  | none => (s.current.lookup name).map (·.2)

/-- The host that an app is updated to is served the certificate that the app is to have, before
the update. -/
def UpdateFits (os : Os) (s : Ledger) (name : String) (port : Option String)
    (ssl : Option (List String)) : Prop :=
  ∀ r ∈ s.daemon.proxyMgr.routes, r.name = name → ∀ cert ∈ certAfter os s name ssl,
    s.daemon.proxyMgr.certStore.Served (hostAfter port r.host) cert

section

variable {os : Os} {s : Ledger} {name : String} {u : Server.UpdateRequest}
  {change : Process.ConfigChange} {image : Option (String × String)} {p p' : ManagedProcess}
  {t disk : FileTree}

theorem reroutedTo_certStore (t : FileTree) (m : ProxyManager) (name : String)
    (config : ProcessConfig) (pm : Option PortMapping) :
    (Server.reroutedTo t m name config pm).certStore = m.certStore := by
  cases pm with
  | none => rfl
  | some pm =>
    unfold Server.reroutedTo
    rw [ProxyManager.listen_certStore]
    rfl

/-- An update moves the route of its app to the host asked for. -/
theorem mem_reroutedTo (t : FileTree) (m : ProxyManager) (name : String) (config : ProcessConfig)
    (pm : Option PortMapping) (r : RouteEntry) :
    r ∈ (Server.reroutedTo t m name config pm).routes ↔
      match pm with
      | none => r ∈ m.routes
      | some pm => (r ∈ m.routes ∧ r.name ≠ name) ∨
          r = Server.routeOf name pm (Server.updatedBackend t config pm) := by
  cases pm with
  | none => rfl
  | some pm =>
    unfold Server.reroutedTo
    rw [ProxyManager.listen_routes, ProxyManager.pushRoute_routes, RouteTable.mem_replace,
      ProxyManager.removeRoutes_routes, RouteTable.mem_without]
    refine or_congr_left ⟨And.left, fun hr => ⟨hr, hr.2⟩⟩

/-- What the ledger notes of an update whose certificate loads. -/
theorem give_loaded (s : Ledger) (os : Os) (disk : FileTree) (name : String)
    {ssl : Option SslConfig}
    (hload : ∀ c ∈ ssl, (CertStore.loadCert os disk c.certPath c.keyPath).isOk = true) :
    (ssl = none ∧ s.give os disk name ssl = s) ∨
    ∃ c cert, ssl = some c ∧ CertStore.loadCert os disk c.certPath c.keyPath = .ok cert ∧
      (s.give os disk name ssl).current = s.current.insert name (c, cert) ∧
      (s.give os disk name ssl).given = s.given ++ [(name, cert)] := by
  cases ssl with
  | none => exact .inl ⟨rfl, rfl⟩
  | some c =>
    refine .inr ⟨c, ?_⟩
    cases hc : CertStore.loadCert os disk c.certPath c.keyPath with
    | error e =>
      have hfail := hload c rfl
      rw [hc] at hfail
      cases hfail
    | ok cert =>
      unfold give
      dsimp only
      rw [hc]
      exact ⟨cert, rfl, rfl, rfl, rfl⟩

/-- The state after an update: the daemon's, with the certificate given. -/
def updated (os : Os) (s : Ledger) (name : String) (u : Server.UpdateRequest) : Ledger :=
  Ledger.give { s with daemon := (Server.handleUpdate os s.daemon name u).1 } os s.daemon.disk name
    (u.ssl.map updateSsl)

/-- What the ledger has for an app after an update. -/
theorem updated_current (hload : ∀ paths ∈ u.ssl, (CertStore.loadCert os s.daemon.disk
      (updateSsl paths).certPath (updateSsl paths).keyPath).isOk = true) (n : String) :
    ((updated os s name u).current.lookup n).map (·.1) =
        (if n = name then (u.ssl.map updateSsl).or ((s.current.lookup n).map (·.1))
          else (s.current.lookup n).map (·.1)) ∧
      ((updated os s name u).current.lookup n).map (·.2) =
        if n = name then certAfter os s name u.ssl else (s.current.lookup n).map (·.2) := by
  unfold updated certAfter
  cases hssl : u.ssl with
  | none =>
    change Option.map _ (s.current.lookup n) = _ ∧ Option.map _ (s.current.lookup n) = _
    by_cases hn : n = name
    · subst hn
      simp
    · simp [hn]
  | some paths =>
    have hloaded : ∀ c ∈ some (updateSsl paths),
        (CertStore.loadCert os s.daemon.disk c.certPath c.keyPath).isOk = true := by
      rintro c ⟨⟩
      exact hload paths hssl
    rcases give_loaded { s with daemon := (Server.handleUpdate os s.daemon name u).1 } os
        s.daemon.disk name hloaded with ⟨hnone, -⟩ | ⟨c, cert, hsome, hc, hcurrent, -⟩
    · cases hnone
    · cases hsome
      rw [Option.map_some, hcurrent, Dict.lookup_insert_eq]
      by_cases hn : n = name
      · simp [hn, hc, Except.toOption]
      · simp [hn]

theorem updated_given (n : String) (cert : TlsCertificate) :
    ((n, cert) ∈ s.given → (n, cert) ∈ (updated os s name u).given) ∧
      ((n, cert) ∈ (updated os s name u).given → (n, cert) ∈ s.given ∨ n = name) := by
  unfold updated give
  split
  · exact ⟨id, .inl⟩
  · split
    · refine ⟨fun h => List.mem_append_left _ h, fun h => ?_⟩
      rcases List.mem_append.1 h with h | h
      · exact .inl h
      · cases List.mem_singleton.1 h
        exact .inr rfl
    · exact ⟨id, .inl⟩

theorem updatedConfig_ssl (change : Process.ConfigChange) (image : Option (String × String))
    (config : ProcessConfig) :
    (Server.updatedConfig change image config).ssl = change.ssl.or config.ssl := by
  cases image <;> rfl

theorem updatedConfig_portMapping (change : Process.ConfigChange)
    (image : Option (String × String)) (config : ProcessConfig) :
    (Server.updatedConfig change image config).portMapping =
      change.portMapping.or config.portMapping := by
  cases image <;> rfl

theorem kept_updated (hdone : Server.UpdatedOk os s.daemon name u change image p p' t disk)
    (hload : ∀ paths ∈ u.ssl, (CertStore.loadCert os s.daemon.disk
      (updateSsl paths).certPath (updateSsl paths).keyPath).isOk = true) (hkept : s.Kept) :
    (updated os s name u).Kept := by
  have hdaemon : (updated os s name u).daemon = (Server.handleUpdate os s.daemon name u).1 :=
    give_daemon ..
  have hlookup : ∀ n, (Server.handleUpdate os s.daemon name u).1.processMgr.lookup n =
      if n = name then some p' else s.daemon.processMgr.lookup n := by
    intro n
    rw [hdone.state]
    exact ProcessManager.lookup_insert ..
  have hsame := hdone.relaunched.same
  have hssl : p'.config.ssl = (u.ssl.map updateSsl).or p.config.ssl := by
    rw [hsame.ssl, updatedConfig_ssl, (Server.configChange_ok hdone.changed).2.2.1]
    rfl
  refine ⟨?_, fun n q hq => ?_, ?_, fun n q hq => ?_, fun n hn => ?_, fun n cert hgiven => ?_⟩
  · rw [hdaemon]
    exact agrees_update os name u hkept.agrees
  · rw [hdaemon, hlookup] at hq
    split at hq
    · cases hq
      rw [hsame.portMapping, updatedConfig_portMapping]
      have hmapped := hkept.mapped name p hdone.found
      cases change.portMapping with
      | none => exact hmapped
      | some pm => rfl
    · exact hkept.mapped n q hq
  · rw [hdaemon, hdone.state, reroutedTo_certStore]
    exact hkept.tidy
  · rw [hdaemon, hlookup] at hq
    rw [(updated_current hload n).1]
    split at hq
    · rename_i hn
      cases hq
      rw [if_pos hn, hssl, hn, hkept.current name p hdone.found]
    · rename_i hn
      rw [if_neg hn]
      exact hkept.current n q hq
  · rw [hdaemon, hlookup] at hn
    split at hn
    · cases hn
    · rename_i hne
      have hnone : ((updated os s name u).current.lookup n).map (·.1) = _ :=
        (updated_current hload n).1
      rw [if_neg hne, hkept.free n hn] at hnone
      exact Option.map_eq_none_iff.1 hnone
  · rw [hdaemon, hlookup]
    split
    · rfl
    · rename_i hne
      exact hkept.given n cert (((updated_given n cert).2 hgiven).resolve_right hne)

/-- An update leaves its app one route, for the host asked for. -/
theorem routes_updated (hdone : Server.UpdatedOk os s.daemon name u change image p p' t disk)
    {r₀ : RouteEntry} (hthe : ∀ r, r ∈ s.daemon.proxyMgr.routes ∧ r.name = name ↔ r = r₀) :
    ∃ r', r'.name = name ∧ r'.host = hostAfter u.port r₀.host ∧
      ∀ r, r ∈ (Server.handleUpdate os s.daemon name u).1.proxyMgr.routes ↔
        (r ∈ s.daemon.proxyMgr.routes ∧ r.name ≠ name) ∨ r = r' := by
  have hmem := fun r => mem_reroutedTo t s.daemon.proxyMgr name
    (Server.updatedConfig change image p.config) change.portMapping r
  have hport := (Server.configChange_ok hdone.changed).1
  rw [hdone.state]
  cases hu : u.port with
  | none =>
    rw [hu] at hport
    have hnone : change.portMapping = none := (Except.ok.inj hport).symm
    refine ⟨r₀, ((hthe r₀).2 rfl).2, rfl, fun r => ?_⟩
    rw [hmem, hnone, ← hthe r]
    by_cases hname : r.name = name
    · simp [hname]
    · simp [hname]
  | some text =>
    rw [hu] at hport
    cases hparse : Server.parsePortMappingStr text with
    | error e =>
      simp only [Option.mapM_some, hparse] at hport
      cases hport
    | ok pm =>
      have hsome : change.portMapping = some pm := by
        simp only [Option.mapM_some, hparse] at hport
        exact (Except.ok.inj hport).symm
      refine ⟨Server.routeOf name pm (Server.updatedBackend t
        (Server.updatedConfig change image p.config) pm), rfl, ?_, fun r => ?_⟩
      · unfold hostAfter
        rw [Option.map_some, hparse]
        rfl
      · rw [hmem, hsome]

/-- After an update the certificates are served exactly if the host of its app is already served
what the app is to have. -/
theorem certsServed_updated_iff
    (hdone : Server.UpdatedOk os s.daemon name u change image p p' t disk)
    (hload : ∀ paths ∈ u.ssl, (CertStore.loadCert os s.daemon.disk
      (updateSsl paths).certPath (updateSsl paths).keyPath).isOk = true) (hkept : s.Kept)
    (hold : s.CertsServed) :
    (updated os s name u).CertsServed ↔ UpdateFits os s name u.port u.ssl := by
  obtain ⟨hown, halive⟩ := (certsServed_iff hkept).1 hold
  have hdaemon : (updated os s name u).daemon = (Server.handleUpdate os s.daemon name u).1 :=
    give_daemon ..
  have hcerts : ∀ n x, (updated os s name u).current.lookup n = some x →
      (if n = name then certAfter os s name u.ssl else (s.current.lookup n).map (·.2)) =
        some x.2 := by
    intro n x hx
    rw [← (updated_current hload n).2, hx]
    rfl
  have hback : ∀ n cert, (if n = name then certAfter os s name u.ssl
      else (s.current.lookup n).map (·.2)) = some cert →
        ∃ x, (updated os s name u).current.lookup n = some x ∧ x.2 = cert := by
    intro n cert hcert
    rw [← (updated_current hload n).2] at hcert
    exact Option.map_eq_some_iff.1 hcert
  -- the app has one route before, and one for the host asked for after
  obtain ⟨r₀, hroute₀⟩ : ∃ r₀, s.daemon.proxyMgr.routes.of name = [r₀] := by
    have hrouted := hkept.agrees.routed name p hdone.found
    obtain ⟨pm, hpm⟩ := Option.isSome_iff_exists.1 (hkept.mapped name p hdone.found)
    unfold RoutedAs at hrouted
    rw [hpm] at hrouted
    obtain ⟨r₀, hroute₀, -⟩ := hrouted
    exact ⟨r₀, hroute₀⟩
  have hthe : ∀ r, r ∈ s.daemon.proxyMgr.routes ∧ r.name = name ↔ r = r₀ := by
    intro r
    have hmem : r ∈ s.daemon.proxyMgr.routes.of name ↔
        r ∈ s.daemon.proxyMgr.routes ∧ r.name = name := by simp [RouteTable.of]
    rw [← hmem, hroute₀, List.mem_singleton]
  obtain ⟨r', hname', hhost', hroutes⟩ := routes_updated hdone hthe
  have hfits : UpdateFits os s name u.port u.ssl ↔ ∀ cert ∈ certAfter os s name u.ssl,
      s.daemon.proxyMgr.certStore.Served (hostAfter u.port r₀.host) cert := by
    constructor
    · intro h
      obtain ⟨hr, hname⟩ := (hthe r₀).2 rfl
      exact h r₀ hr hname
    · intro h r hr hname
      rw [(hthe r).1 ⟨hr, hname⟩]
      exact h
  have hstore : (Server.handleUpdate os s.daemon name u).1.proxyMgr.certStore =
      s.daemon.proxyMgr.certStore := by
    rw [hdone.state]
    exact reroutedTo_certStore ..
  rw [certsServed_iff (kept_updated hdone hload hkept), hdaemon, hfits, hstore]
  constructor
  · rintro ⟨hserved, -⟩ cert hcert
    obtain ⟨x, hx, hx2⟩ := hback r'.name cert (by rw [if_pos hname']; exact hcert)
    rw [← hhost', ← hx2]
    exact hserved r' ((hroutes r').2 (.inr rfl)) x hx
  · intro h
    refine ⟨fun r hr x hx => ?_, fun sni cert hselect => ?_⟩
    · have hcert := hcerts r.name x hx
      rcases (hroutes r).1 hr with ⟨hr, hname⟩ | rfl
      · rw [if_neg hname] at hcert
        obtain ⟨y, hy, hxy⟩ := Option.map_eq_some_iff.1 hcert
        rw [← hxy]
        exact hown r hr y hy
      · rw [if_pos hname'] at hcert
        rw [hhost']
        exact h x.2 hcert
    · obtain ⟨app, happ⟩ := halive sni cert hselect
      exact ⟨app, (updated_given app cert).1 happ⟩

end

/-! ## A deletion -/

/-- Every certificate of the app that a handshake is given is also that of another live app. -/
def DelFits (s : Ledger) (name : String) : Prop :=
  ∀ sni cert, s.daemon.proxyMgr.certStore.select sni = some cert → (name, cert) ∈ s.given →
    ∃ app, app ≠ name ∧ (app, cert) ∈ s.given

/-- The state after a deletion. -/
def deleted (s : Ledger) (name : String) : Ledger :=
  Ledger.forget { s with daemon := (Server.handleDel s.daemon name).1 } name

theorem kept_deleted {s : Ledger} (name : String) (hkept : s.Kept) : (s.deleted name).Kept := by
  obtain ⟨htable, hproxy⟩ := Server.handleDel_tables s.daemon name
  have hlookup : ∀ n, (s.deleted name).daemon.processMgr.lookup n =
      if n = name then none else s.daemon.processMgr.lookup n := by
    intro n
    change (Server.handleDel s.daemon name).1.processMgr.lookup n = _
    rw [htable, ProcessManager.lookup_erase]
  have hcurrent : ∀ n, (s.deleted name).current.lookup n =
      if n = name then none else s.current.lookup n := fun n => Dict.lookup_erase_eq n
  refine ⟨agrees_del name hkept.agrees, fun n p hp => ?_, ?_, fun n p hp => ?_, fun n hn => ?_,
    fun n cert hgiven => ?_⟩
  · rw [hlookup] at hp
    split at hp
    · cases hp
    · exact hkept.mapped n p hp
  · change (Server.handleDel s.daemon name).1.proxyMgr.certStore.Tidy
    rw [hproxy]
    exact hkept.tidy
  · rw [hlookup] at hp
    rw [hcurrent]
    split at hp
    · cases hp
    · rename_i hne
      rw [if_neg hne]
      exact hkept.current n p hp
  · rw [hlookup] at hn
    rw [hcurrent]
    split at hn
    · rename_i heq
      rw [if_pos heq]
    · rename_i hne
      rw [if_neg hne]
      exact hkept.free n hn
  · obtain ⟨hgiven, hne⟩ := List.mem_filter.1 hgiven
    rw [hlookup, if_neg (by simpa using hne)]
    exact hkept.given n cert hgiven

/-- After a deletion the certificates are served exactly if those of its app that are left are
also another's. -/
theorem certsServed_deleted_iff {s : Ledger} (name : String) (hkept : s.Kept)
    (hold : s.CertsServed) : (s.deleted name).CertsServed ↔ s.DelFits name := by
  obtain ⟨hown, halive⟩ := (certsServed_iff hkept).1 hold
  have hproxy : (s.deleted name).daemon.proxyMgr = s.daemon.proxyMgr.removeRoutes name :=
    (Server.handleDel_tables s.daemon name).2
  have hgiven : ∀ app cert, (app, cert) ∈ (s.deleted name).given ↔
      (app, cert) ∈ s.given ∧ app ≠ name := by
    intro app cert
    change (app, cert) ∈ s.given.filter _ ↔ _
    simp
  rw [certsServed_iff (kept_deleted name hkept), hproxy]
  constructor
  · rintro ⟨-, hlive⟩ sni cert hselect -
    obtain ⟨app, happ⟩ := hlive sni cert hselect
    obtain ⟨happ, hne⟩ := (hgiven app cert).1 happ
    exact ⟨app, hne, happ⟩
  · intro h
    refine ⟨fun r hr x hx => ?_, fun sni cert hselect => ?_⟩
    · obtain ⟨hr, hname⟩ := RouteTable.mem_without.1 hr
      have hx : (s.current.erase name).lookup r.name = some x := hx
      rw [Dict.lookup_erase_eq, if_neg hname] at hx
      exact hown r hr x hx
    · obtain ⟨app, happ⟩ := halive sni cert hselect
      by_cases hne : app = name
      · rw [hne] at happ
        obtain ⟨app', hne', happ'⟩ := h sni cert hselect happ
        exact ⟨app', (hgiven app' cert).2 ⟨happ', hne'⟩⟩
      · exact ⟨app, (hgiven app cert).2 ⟨happ, hne⟩⟩

/-! ## Runs -/

/-- The condition on an event: what a run puts into the store takes no other app's place, what an
update asks for is served already, and what a deletion leaves is another app's too. -/
def Fits (s : Ledger) : Event → Prop
  | .request os (.run config) => RunFits os s config
  | .request os (.update name port ssl _ _ _ _) => UpdateFits os s name port ssl
  | .request _ (.del name) => s.DelFits name
  | _ => True

theorem ledger_step {s : Ledger} {e : Event} (hkept : s.Kept) (he : s.Allowed e)
    (hold : s.CertsServed) :
    (machine.next s e).Kept ∧ ((machine.next s e).CertsServed ↔ s.Fits e) := by
  cases e with
  | tick os => cases he
  | issued hostname cert => cases he
  | disk t =>
    exact ⟨⟨hkept.agrees, hkept.mapped, hkept.tidy, hkept.current, hkept.free, hkept.given⟩,
      iff_of_true ⟨hold.own, hold.alive⟩ trivial⟩
  | request os r =>
    cases r with
    | run config =>
      obtain ⟨c, pm, p, disk, m, hran⟩ := Server.handleRun_isOk he
      exact ⟨kept_ran hran he hkept, certsServed_ran_iff hran he hkept hold⟩
    | del name => exact ⟨kept_deleted name hkept, certsServed_deleted_iff name hkept hold⟩
    | update name port ssl acme envFile args image =>
      obtain ⟨hok, hload⟩ := he
      obtain ⟨change, img, p, p', t, disk, hdone⟩ :=
        Server.handleUpdate_isOk hkept.agrees.keyed hok
      exact ⟨kept_updated hdone hload hkept, certsServed_updated_iff hdone hload hkept hold⟩
    | _ => cases he

theorem kept_initial (store : StateStore) (disk : FileTree) : (initial store disk).Kept := by
  refine ⟨⟨fun n _ => rfl, fun n p hp => ?_, fun n p hp => ?_⟩, fun n p hp => ?_, rfl,
    fun n p hp => ?_, fun _ _ => rfl, fun n cert h => ?_⟩
  · cases hp
  · cases hp
  · cases hp
  · cases hp
  · cases h

theorem certsServed_initial (store : StateStore) (disk : FileTree) :
    (initial store disk).CertsServed := by
  refine ⟨fun r hr => ?_, fun name cert hselect => ?_⟩
  · cases hr
  · cases hselect

/-- Through any run of runs, updates and deletions the handshakes are given the certificates of
the live apps, each route its own, exactly if every request fits what the store has. -/
theorem certsServed_throughout_iff (store : StateStore) (disk : FileTree) (events : List Event)
    (h : machine.Along Allowed (initial store disk) events) :
    machine.Throughout CertsServed (initial store disk) events ↔
      machine.Along Fits (initial store disk) events :=
  Machine.throughout_iff_along (I := Kept)
    (fun _ _ hkept he hold _ => (ledger_step hkept he hold).1)
    (fun _ _ hkept he hold => (ledger_step hkept he hold).2) (kept_initial store disk)
    (certsServed_initial store disk) h

/-- A site with a certificate of its own. -/
def siteConfig : ProcessConfig :=
  { ProcessConfig.plain "site" "server" with
    mode := .run
    portMapping := some { host := some "example.com", publicPort := 443, appPort := some 8000 }
    ssl := some ⟨"cert.pem", "cert.pem"⟩ }

def siteEvents : List Event :=
  [.disk (final (write "cert.pem" [1]) .empty), .request (.serving 7 4000) (.run siteConfig)]

/-- The site is served its certificate. -/
theorem certsServed_throughout_site :
    machine.Throughout CertsServed (initial .empty .empty) siteEvents := by
  refine (certsServed_throughout_iff .empty .empty siteEvents (by decide +kernel)).2 ?_
  simp only [siteEvents, Machine.along_cons]
  refine ⟨trivial, fun ssl cert pm _ _ _ r hr => ?_, trivial⟩
  cases hr

/-- The site deleted. -/
def deleteEvents : List Event := siteEvents ++ [.request (.serving 8 4000) (.del "site")]

/-- Its certificate goes on being served, while no app is left. -/
theorem deleted_certificate_served :
    machine.Along Allowed (initial .empty .empty) deleteEvents ∧
      (machine.run (initial .empty .empty) deleteEvents).daemon.proxyMgr.routes = [] ∧
      (machine.run (initial .empty .empty) deleteEvents).daemon.proxyMgr.certStore.select
        (some "example.com") = some ⟨[1], [1], []⟩ ∧
      ¬machine.Throughout CertsServed (initial .empty .empty) deleteEvents := by
  have hselect : (machine.run (initial .empty .empty) deleteEvents).daemon.proxyMgr.certStore.select
      (some "example.com") = some ⟨[1], [1], []⟩ := by decide +kernel
  have hgiven : (machine.run (initial .empty .empty) deleteEvents).given = [] := by decide +kernel
  refine ⟨by decide +kernel, by decide +kernel, hselect, fun h => ?_⟩
  obtain ⟨app, happ, -⟩ := h.end.alive _ _ hselect
  rw [hgiven] at happ
  cases happ

end Ledger

end Daemon
