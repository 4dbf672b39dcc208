import Mathlib.Algebra.Group.Nat.Defs
import NylonRun.Lib.Machine
import NylonRun.Protocol

/-!
# The backoff of the cloud agent

`CloudAgent::run` (src/cloud.rs:88-123) connects to the cloud again and again, and waits between
two attempts for a backoff, which doubles with every attempt and which a connection that is
closed normally takes back to one second. What the network does in an attempt is data: whether
the socket opens and takes what is sent, and what is read from it, up to what ends the session.
-/

/-- `CloudAction` (src/cloud.rs:44-61). -/
inductive CloudAction where
  | restart (name : String)
  | reload (name : String)
  | del (name : String)
  | update (name : String) (port : Option String) (ssl : Option (List String))
      (acme envFile args image : Option String)

/-- `CloudMessage` (src/cloud.rs:18-40). -/
inductive CloudMessage where
  | auth (apiKey : String)
  | heartbeat
  | status (processes : List ProcessInfo)
  | logs (name data : String)
  | command (action : CloudAction)
  | authOk
  | error (message : String)

/-- `tungstenite::Message`, as far as it is told apart. -/
inductive WsMessage where
  | text (text : String)
  | ping (data : List UInt8)
  | close
  | other (data : List UInt8)

/-- The libraries: `serde_json::from_str` for a message, and how a socket message is printed. -/
structure CloudOs where
  fromStr : String → Except String CloudMessage
  debug : WsMessage → String

namespace CloudAgent

/-- `INITIAL_BACKOFF`, in seconds (src/cloud.rs:12). -/
def initialBackoff : Nat := 1

/-- `MAX_BACKOFF`, in seconds (src/cloud.rs:11). -/
def maxBackoff : Nat := 300

/-- A turn of the main loop: one of its two timers fires and the message it sends goes through or
fails, or something is read from the socket, `none` being its end. The answer to a command may
fail to be sent as well. -/
inductive SessionEvent where
  | heartbeat (sent : Except String Unit)
  | status (sent : Except String Unit)
  | received (msg : Option (Except String WsMessage)) (answered : Except String Unit)

/-- The main loop's body (src/cloud.rs:180-232): `none` goes on. -/
def onEvent (os : CloudOs) : SessionEvent → Option (Except String Unit)
  | .heartbeat (.error e) => some (.error s!"heartbeat send failed: {e}")
  | .status (.error e) => some (.error s!"status push failed: {e}")
  | .heartbeat (.ok _) | .status (.ok _) => none
  | .received (some (.ok (.text text))) answered =>
    match os.fromStr text with
    | .ok (.command _) =>
      match answered with
      | .error e => some (.error s!"command response send failed: {e}")
      | .ok _ => none
    | .ok _ => none
    | .error _ => none
  | .received (some (.ok (.ping _))) _ => none
  | .received (some (.ok .close)) _ => some (.ok ())
  | .received (some (.error e)) _ => some (.error s!"WebSocket error: {e}")
  | .received none _ => some (.ok ())
  | .received (some (.ok (.other _))) _ => none

/-- The main loop (src/cloud.rs:178-233). It returns nothing while the session lasts. -/
def mainLoop (os : CloudOs) (session : List SessionEvent) : Option (Except String Unit) :=
  session.findSome? (onEvent os)

/-- An attempt to connect: opening the socket, sending the key, the first message read, and the
turns of the main loop. -/
structure Attempt where
  connect : Except String Unit
  sendAuth : Except String Unit
  authReply : Option (Except String WsMessage)
  session : List SessionEvent

/-- The part of `connect_and_run` before the main loop (src/cloud.rs:131-172). -/
def authenticate (os : CloudOs) (a : Attempt) : Except String Unit :=
  match a.connect with
  | .error e => .error s!"WebSocket connect failed: {e}"
  | .ok _ =>
    match a.sendAuth with
    | .error e => .error s!"failed to send auth: {e}"
    | .ok _ =>
      match a.authReply with
      | some (.ok (.text text)) =>
        match os.fromStr text with
        | .ok .authOk => .ok ()
        | .ok (.error message) => .error s!"cloud auth rejected: {message}"
        | _ => .error s!"unexpected auth response: {text}"
      | some (.ok msg) => .error s!"unexpected message type during auth: {os.debug msg}"
      | some (.error e) => .error s!"WebSocket error during auth: {e}"
      | none => .error "connection closed during auth"

/-- `connect_and_run` (src/cloud.rs:125-235). -/
def connectAndRun (os : CloudOs) (a : Attempt) : Option (Except String Unit) :=
  match authenticate os a with
  | .error e => some (.error e)
  | .ok _ => mainLoop os a.session

/-- An attempt that has come to its end: `run` does nothing before that. -/
structure Outcome (os : CloudOs) where
  attempt : Attempt
  result : Except String Unit
  returned : connectAndRun os attempt = some result

/-- The session of the attempt was authenticated. -/
def Outcome.Authenticated {os : CloudOs} (o : Outcome os) : Prop :=
  authenticate os o.attempt = .ok ()

instance {os : CloudOs} (o : Outcome os) : Decidable o.Authenticated :=
  match h : authenticate os o.attempt with
  | .ok _ => .isTrue h
  | .error _ => .isFalse (by rw [Outcome.Authenticated, h]; exact nofun)

/-- What `run` keeps, its backoff in seconds. The rest is history: how many attempts there were,
and how many failed since the last authenticated session ended, if there was one. -/
structure Retry where
  backoff : Nat
  attempts : Nat
  failures : Option Nat

namespace Retry

variable {os : CloudOs} {s : Retry} {o : Outcome os}

/-- The backoff that `run` starts with (src/cloud.rs:91). -/
def start : Retry := ⟨initialBackoff, 0, none⟩

/-- The backoff once an attempt has returned: that after an error is the one before
(src/cloud.rs:99-109). -/
def backoffAfter (backoff : Nat) : Except String Unit → Nat
  | .ok _ => initialBackoff
  | .error _ => backoff

/-- A turn of the loop of `run` that is not shut down (src/cloud.rs:93-122). It answers with the
delay that is waited. -/
def step (s : Retry) (o : Outcome os) : Retry × Nat :=
  let backoff := backoffAfter s.backoff o.result
  let failures := if o.Authenticated then some 0 else s.failures.map (· + 1)
  (⟨min (backoff * 2) maxBackoff, s.attempts + 1, failures⟩, backoff)

def machine : Machine Retry (Outcome os) Nat := ⟨step⟩

/-- The delay after an attempt is one second where its session was authenticated, and else grows
with the attempts that have failed since the last such session. -/
def WaitsInLine (s : Retry) (o : Outcome os) : Prop :=
  (o.Authenticated → machine.answer s o = 1) ∧
    (¬o.Authenticated → ∀ k ∈ s.failures, machine.answer s o = min (2 ^ (k + 1)) 300)

/-- The session is ended by a message that could not be sent, or by an error of the socket. -/
def Breaks (os : CloudOs) : SessionEvent → Prop
  | .heartbeat sent | .status sent => sent ≠ .ok ()
  | .received (some (.error _)) _ => True
  | .received (some (.ok (.text text))) answered =>
    (∃ action, os.fromStr text = .ok (.command action)) ∧ answered ≠ .ok ()
  | .received _ _ => False

/-- The session is ended by a close message, or by the end of the stream. -/
def Closes : SessionEvent → Prop
  | .received none _ | .received (some (.ok .close)) _ => True
  | _ => False

/-- Of the turns of the main loop, one that breaks the session comes before any that closes it. -/
def EndsBroken (os : CloudOs) : List SessionEvent → Prop
  | [] => False
  | e :: es => Breaks os e ∨ (¬Closes e ∧ EndsBroken os es)

/-- The condition on an attempt: an authenticated session is closed, by the other side or by the
end of the stream, and does not break, unless it is that of the very first attempt. -/
def ClosedOrFirst (s : Retry) (o : Outcome os) : Prop :=
  o.Authenticated → EndsBroken os o.attempt.session → s.attempts = 0

theorem onEvent_cases (e : SessionEvent) :
    (Breaks os e ∧ ∃ text, onEvent os e = some (.error text)) ∨
    (¬Breaks os e ∧ Closes e ∧ onEvent os e = some (.ok ())) ∨
    (¬Breaks os e ∧ ¬Closes e ∧ onEvent os e = none) := by
  cases e with
  | heartbeat sent =>
    cases sent with
    | error e => exact .inl ⟨nofun, _, rfl⟩
    | ok _ => exact .inr (.inr ⟨fun h => h rfl, id, rfl⟩)
  | status sent =>
    cases sent with
    | error e => exact .inl ⟨nofun, _, rfl⟩
    | ok _ => exact .inr (.inr ⟨fun h => h rfl, id, rfl⟩)
  | received msg answered =>
    rcases msg with _ | e | (text | data | _ | data)
    · exact .inr (.inl ⟨id, trivial, rfl⟩)
    · exact .inl ⟨trivial, _, rfl⟩
    · simp only [Breaks, Closes, onEvent]
      rcases os.fromStr text with e | message
      · simp
      · cases message with
        | command action =>
          cases answered with
          | error e => simp
          | ok _ => simp
        | _ => simp
    · exact .inr (.inr ⟨id, id, rfl⟩)
    · exact .inr (.inl ⟨id, trivial, rfl⟩)
    · exact .inr (.inr ⟨id, id, rfl⟩)

/-- How the main loop returns: with an error exactly if the session is broken. -/
theorem mainLoop_returned {session : List SessionEvent} {result : Except String Unit}
    (h : mainLoop os session = some result) : result = .ok () ↔ ¬EndsBroken os session := by
  induction session with
  | nil => exact nomatch h
  | cons e es ih =>
    rw [mainLoop, List.findSome?_cons] at h
    rcases @onEvent_cases os e with ⟨hbreaks, text, he⟩ | ⟨hnot, hcloses, he⟩ |
      ⟨hnot, hopen, he⟩
    · rw [he] at h
      cases h
      exact iff_of_false nofun fun hn => hn (.inl hbreaks)
    · rw [he] at h
      cases h
      exact iff_of_true rfl fun hn => hn.elim hnot fun hn => hn.1 hcloses
    · rw [he] at h
      rw [ih h, EndsBroken]
      simp only [hnot, hopen, not_false_eq_true, true_and, false_or]

/-- An attempt returns normally exactly if it was authenticated and its session does not break. -/
theorem result_ok_iff (o : Outcome os) :
    o.result = .ok () ↔ o.Authenticated ∧ ¬EndsBroken os o.attempt.session := by
  have h := o.returned
  rw [connectAndRun] at h
  by_cases hauth : o.Authenticated
  · have hok : authenticate os o.attempt = .ok () := hauth
    rw [hok] at h
    rw [mainLoop_returned h, and_iff_right hauth]
  · cases hcase : authenticate os o.attempt with
    | ok _ => exact absurd hcase hauth
    | error e =>
      rw [hcase] at h
      rw [← Option.some.inj h]
      exact iff_of_false nofun fun hn => hauth hn.1

/-- What the backoff is between two attempts: more than its least from the first attempt on, and
otherwise fixed by the attempts that failed since the last authenticated session. -/
structure InLine (s : Retry) : Prop where
  first : s.attempts = 0 ↔ s.backoff = 1
  start : s.attempts = 0 → s.failures = none
  pos : 1 ≤ s.backoff
  since : ∀ k ∈ s.failures, s.backoff = min (2 ^ (k + 1)) 300

theorem inLine_start : start.InLine := by
  refine ⟨iff_of_true rfl rfl, fun _ => rfl, Nat.le_refl 1, ?_⟩
  intro k hk
  exact nomatch hk

/-- The delay is the backoff, which a normal return takes back to one second. -/
theorem answer_cases (s : Retry) (o : Outcome os) :
    (o.Authenticated ∧ ¬EndsBroken os o.attempt.session ∧ machine.answer s o = 1) ∨
    ((o.Authenticated → EndsBroken os o.attempt.session) ∧ machine.answer s o = s.backoff) := by
  change (_ ∧ _ ∧ backoffAfter s.backoff o.result = 1) ∨
    (_ ∧ backoffAfter s.backoff o.result = s.backoff)
  have h := result_ok_iff o
  cases hresult : o.result with
  | ok _ =>
    obtain ⟨hauth, hopen⟩ := h.1 hresult
    exact .inl ⟨hauth, hopen, rfl⟩
  | error e =>
    refine .inr ⟨fun hauth => ?_, rfl⟩
    by_contra hopen
    exact nomatch hresult.symm.trans (h.2 ⟨hauth, hopen⟩)

theorem waitsInLine_iff (h : s.InLine) : s.WaitsInLine o ↔ s.ClosedOrFirst o := by
  rcases answer_cases s o with ⟨hauth, hopen, hanswer⟩ | ⟨hbroken, hanswer⟩
  · refine iff_of_true ⟨fun _ => hanswer, fun hnot => absurd hauth hnot⟩ ?_
    intro _ hbroken
    exact absurd hbroken hopen
  · rw [WaitsInLine, hanswer]
    constructor
    · intro hwaits hauth _
      exact h.first.2 (hwaits.1 hauth)
    · intro hcond
      exact ⟨fun hauth => h.first.1 (hcond hauth (hbroken hauth)), fun _ => h.since⟩

/-- Doubling keeps the backoff in line, as long as the delay was. -/
theorem inLine_next (h : s.InLine) (hwaits : s.WaitsInLine o) : (machine.next s o).InLine := by
  have hbackoff : (machine.next s o).backoff = min (machine.answer s o * 2) 300 := rfl
  have hattempts : (machine.next s o).attempts = s.attempts + 1 := rfl
  have hfailures : (machine.next s o).failures =
      if o.Authenticated then some 0 else s.failures.map (· + 1) := rfl
  have hpos : 1 ≤ machine.answer s o := by
    rcases answer_cases s o with ⟨-, -, hanswer⟩ | ⟨-, hanswer⟩
    · exact Nat.le_of_eq hanswer.symm
    · exact hanswer ▸ h.pos
  refine ⟨?_, ?_, ?_, ?_⟩
  · rw [hattempts, hbackoff]
    omega
  · rw [hattempts]
    omega
  · rw [hbackoff]
    omega
  · intro k hk
    rw [hfailures] at hk
    rw [hbackoff]
    by_cases hauth : o.Authenticated
    · rw [if_pos hauth] at hk
      obtain rfl := Option.some.inj hk
      rw [hwaits.1 hauth, Nat.one_mul, Nat.zero_add, Nat.pow_one]
    · rw [if_neg hauth] at hk
      obtain ⟨j, hj, rfl⟩ := Option.map_eq_some_iff.1 hk
      rw [hwaits.2 hauth j hj, Nat.pow_succ]
      omega

/-- Through any run of attempts, the delay is one second after every authenticated session and
doubles with every failed attempt after it, up to the cap, exactly if no authenticated session
but that of the first attempt breaks. -/
theorem waits_iff (outcomes : List (Outcome os)) :
    machine.Along WaitsInLine start outcomes ↔ machine.Along ClosedOrFirst start outcomes :=
  Machine.along_congr_of_invariant (H := fun _ _ => True)
    (fun _ _ h _ => waitsInLine_iff h) (fun _ _ h _ hwaits => inLine_next h hwaits)
    inLine_start Machine.along_true

/-- A cloud that takes every text for its consent. -/
def consenting : CloudOs := ⟨fun _ => .ok .authOk, fun _ => ""⟩

/-- The cloud cannot be reached; then a session is authenticated, and its socket breaks. -/
def unreachedThenBroken : List (Outcome consenting) :=
  [⟨⟨.error "refused", .ok (), none, []⟩, .error "WebSocket connect failed: refused", rfl⟩,
    ⟨⟨.ok (), .ok (), some (.ok (.text "ok")), [.received (some (.error "reset")) (.ok ())]⟩,
      .error "WebSocket error: reset", rfl⟩]

/-- After that session two seconds are waited. -/
theorem broken_session_waits_two :
    machine.answers start unreachedThenBroken = [1, 2] ∧
      ¬machine.Along WaitsInLine start unreachedThenBroken := by
  refine ⟨by decide, fun h => ?_⟩
  have hone := h.2.1.1 rfl
  exact absurd hone (by decide)

end Retry

end CloudAgent
