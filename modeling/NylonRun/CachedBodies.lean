import NylonRun.Traffic

/-!
# The body that is cached

`response_filter` and then `response_body_filter` on one response (src/proxy.rs:278-336), whose
body comes in parts. The context is filling, with the parts so far in it, until a part is too
much or the last one has come; after that it is idle.
-/

namespace ResponseHeader

/-- The values under a name. -/
def values (h : ResponseHeader) (name : String) : List String := Multimap.values h.headers name

theorem values_insertHeader (h : ResponseHeader) (name value n : String) :
    (h.insertHeader name value).values n = if n = name then [value] else h.values n :=
  Multimap.values_replace h.headers name value n

theorem values_removeHeader (h : ResponseHeader) (name : String) :
    (h.removeHeader name).values name = [] :=
  (Multimap.values_remove h.headers name name).trans (if_pos rfl)

end ResponseHeader

/-- What one call of `response_body_filter` is given. -/
structure BodyPart where
  body : Option Bytes
  endOfStream : Bool

def BodyPart.bytes (part : BodyPart) : Bytes := part.body.getD []

namespace ProxyCtx

/-- The parts of a body one after the other; an answer is what is to be inserted. -/
def bodyMachine (request : HttpRequest) :
    Machine ProxyCtx BodyPart (Option (String × CachedResponse)) :=
  ⟨fun ctx part => ctx.responseBodyFilter request part.body part.endOfStream⟩

/-- What the parts of a body have inserted into the cache. -/
def inserted (request : HttpRequest) (ctx : ProxyCtx) (parts : List BodyPart) :
    List (String × CachedResponse) :=
  ((bodyMachine request).answers ctx parts).reduceOption

/-- The context of a response to a request with the key, as its body begins. -/
def ofResponse (key : String) (resp : ResponseHeader) : ProxyCtx :=
  { ProxyCtx.new with cacheKey := key }.responseFilter resp

/-- The end of the stream is among the parts. -/
def ended (parts : List BodyPart) : Bool := parts.any (·.endOfStream)

/-- The parts in order, as one. -/
def wholeBody (parts : List BodyPart) : Bytes := parts.flatMap BodyPart.bytes

/-- The header that is cached with a body. -/
def cachedHeader (resp : ResponseHeader) (body : Bytes) : ResponseHeader :=
  (resp.removeHeader "transfer-encoding").insertHeader "content-length" (toString body.length)

variable {request : HttpRequest} {ctx : ProxyCtx} {resp : ResponseHeader} {acc : Bytes}

/-! ## One part -/

/-- A context that collects a body. -/
def filling (key : String) (resp : ResponseHeader) (acc : Bytes) : ProxyCtx where
  cacheKey := key
  shouldCache := true
  responseHeader := some resp
  responseBody := acc

/-- What is inserted for a body. -/
def entry (request : HttpRequest) (key : String) (resp : ResponseHeader) (body : Bytes) :
    String × CachedResponse :=
  (key, ⟨cachedHeader resp body, body, request⟩)

theorem keepBody_filling (key : String) (part : BodyPart) (hacc : acc.length ≤ bodyCap) :
    (filling key resp acc).keepBody part.body =
      if acc.length + part.bytes.length ≤ bodyCap then some (filling key resp (acc ++ part.bytes))
      else none := by
  obtain ⟨body, eos⟩ := part
  cases body with
  | none => simp [keepBody, BodyPart.bytes, hacc]
  | some b =>
    change (if acc.length + b.length > bodyCap then none
        else some (filling key resp (acc ++ b))) =
      if acc.length + b.length ≤ bodyCap then some (filling key resp (acc ++ b)) else none
    by_cases hfits : acc.length + b.length ≤ bodyCap
    · rw [if_pos hfits, if_neg (by omega)]
    · rw [if_neg hfits, if_pos (by omega)]

/-- A part that fits is collected, and the last one hands the body on; one that does not fit
ends the collecting. -/
theorem filter_filling (key : String) (part : BodyPart) (hacc : acc.length ≤ bodyCap) :
    (filling key resp acc).responseBodyFilter request part.body part.endOfStream =
      if acc.length + part.bytes.length ≤ bodyCap then
        if part.endOfStream then
          ({ filling key resp [] with responseHeader := none },
            some (entry request key resp (acc ++ part.bytes)))
        else (filling key resp (acc ++ part.bytes), none)
      else ({ filling key resp [] with shouldCache := false }, none) := by
  unfold responseBodyFilter
  rw [if_neg (by simp [filling]), keepBody_filling key part hacc]
  by_cases hfits : acc.length + part.bytes.length ≤ bodyCap
  · rw [if_pos hfits, if_pos hfits]
    cases part.endOfStream <;> rfl
  · rw [if_neg hfits, if_neg hfits]
    rfl

/-- A part never makes the collected body longer than the cap. -/
theorem filter_body_le (part : BodyPart) (h : ctx.responseBody.length ≤ bodyCap) :
    (ctx.responseBodyFilter request part.body part.endOfStream).1.responseBody.length
      ≤ bodyCap := by
  have hnil : ([] : Bytes).length ≤ bodyCap := Nat.zero_le _
  unfold responseBodyFilter
  split
  · exact h
  · cases hkeep : ctx.keepBody part.body with
    | none => exact hnil
    | some ctx' =>
      have hctx' : ctx'.responseBody.length ≤ bodyCap := by
        unfold keepBody at hkeep
        split at hkeep
        · cases hkeep
          exact h
        · split at hkeep
          · cases hkeep
          · cases hkeep
            rw [List.length_append]
            omega
      dsimp only
      split
      · split
        · exact hnil
        · exact hctx'
      · exact hctx'

/-! ## A whole body -/

theorem inserted_cons (ctx : ProxyCtx) (part : BodyPart) (parts : List BodyPart) :
    inserted request ctx (part :: parts) =
      (ctx.responseBodyFilter request part.body part.endOfStream).2.toList ++
        inserted request (ctx.responseBodyFilter request part.body part.endOfStream).1 parts := by
  have hcons : (bodyMachine request).answers ctx (part :: parts) =
      (ctx.responseBodyFilter request part.body part.endOfStream).2 ::
        (bodyMachine request).answers
          (ctx.responseBodyFilter request part.body part.endOfStream).1 parts := rfl
  unfold inserted
  rw [hcons]
  cases (ctx.responseBodyFilter request part.body part.endOfStream).2 <;> rfl

/-- Once nothing is to be cached, nothing is. -/
theorem inserted_idle (h : ctx.shouldCache = false) (parts : List BodyPart) :
    inserted request ctx parts = [] := by
  induction parts with
  | nil => rfl
  | cons part parts ih =>
    have hstep : ctx.responseBodyFilter request part.body part.endOfStream = (ctx, none) := by
      rw [responseBodyFilter, if_pos (by simp [h])]
    rw [inserted_cons, hstep]
    exact ih

/-- By induction on the parts: a collecting context inserts what it has and the parts, once,
if the last one comes and nothing is too much. -/
theorem inserted_filling (key : String) {parts : List BodyPart}
    (hlast : ∀ part ∈ parts.dropLast, part.endOfStream = false) (hacc : acc.length ≤ bodyCap) :
    inserted request (filling key resp acc) parts =
      if ended parts = true ∧ (acc ++ wholeBody parts).length ≤ bodyCap then
        [entry request key resp (acc ++ wholeBody parts)]
      else [] := by
  induction parts generalizing acc with
  | nil =>
    rw [if_neg (by simp [ended])]
    rfl
  | cons part parts ih =>
    have hwhole : acc ++ wholeBody (part :: parts) = acc ++ part.bytes ++ wholeBody parts :=
      (List.append_assoc ..).symm
    have hlen : (acc ++ part.bytes).length = acc.length + part.bytes.length := List.length_append
    rw [inserted_cons, filter_filling key part hacc, hwhole]
    by_cases hfits : acc.length + part.bytes.length ≤ bodyCap
    · rw [if_pos hfits]
      cases heos : part.endOfStream with
      | true =>
        -- the last part, since no other one ends the stream
        have hparts : parts = [] := by
          by_contra hne
          have hmem : part ∈ (part :: parts).dropLast := by
            rw [List.dropLast_cons_of_ne_nil hne]
            exact List.mem_cons_self
          rw [hlast part hmem] at heos
          cases heos
        subst hparts
        have hend : ended [part] = true := by simp [ended, heos]
        have hnil : acc ++ part.bytes ++ wholeBody [] = acc ++ part.bytes := List.append_nil _
        rw [hnil, if_pos rfl, if_pos ⟨hend, by omega⟩]
        rfl
      | false =>
        have hrest : ∀ p ∈ parts.dropLast, p.endOfStream = false := by
          intro p hp
          refine hlast p ?_
          cases parts with
          | nil => cases hp
          | cons q qs => exact List.mem_cons_of_mem _ hp
        have hends : ended (part :: parts) = ended parts := by simp [ended, heos]
        rw [hends, if_neg Bool.false_ne_true]
        exact ih hrest (by omega)
    · have hover : ¬(acc ++ part.bytes ++ wholeBody parts).length ≤ bodyCap := by
        rw [List.length_append]
        omega
      rw [if_neg hfits, if_neg fun h => hover h.2]
      exact inserted_idle rfl parts

theorem ofResponse_eq (key : String) (resp : ResponseHeader) :
    ofResponse key resp =
      if key ≠ "" ∧ resp.status = 200 then filling key resp []
      else { ProxyCtx.new with cacheKey := key } := by
  unfold ofResponse responseFilter
  by_cases hkey : key = ""
  · rw [if_pos hkey, if_neg fun h => h.1 hkey]
  · by_cases hstatus : resp.status = 200
    · rw [if_neg hkey, if_pos hstatus, if_pos ⟨hkey, hstatus⟩]
      rfl
    · rw [if_neg hkey, if_neg hstatus, if_neg fun h => hstatus h.2]

/-- The body collected for the cache never exceeds the cap, and a response is cached exactly if
its request has a key, its status is 200, its body ends and is no longer than the cap; it is
cached once, with the parts of its body in order and a header that fits them. -/
theorem cached_once (request : HttpRequest) (key : String) (resp : ResponseHeader)
    (parts : List BodyPart) (hlast : ∀ part ∈ parts.dropLast, part.endOfStream = false) :
    (bodyMachine request).Throughout (fun ctx => ctx.responseBody.length ≤ bodyCap)
      (ofResponse key resp) parts ∧
    (inserted request (ofResponse key resp) parts ≠ [] ↔
      key ≠ "" ∧ resp.status = 200 ∧ ended parts = true ∧ (wholeBody parts).length ≤ bodyCap) ∧
    ∀ found, found ∈ inserted request (ofResponse key resp) parts →
      inserted request (ofResponse key resp) parts = [found] ∧ found.1 = key ∧
      found.2.body = wholeBody parts ∧ found.2.header.status = 200 ∧
      found.2.header.values "content-length" = [toString (wholeBody parts).length] ∧
      found.2.header.values "transfer-encoding" = [] := by
  refine ⟨?_, ?_⟩
  · have hstart : (ofResponse key resp).responseBody.length ≤ bodyCap := by
      rw [ofResponse_eq]
      split <;> exact Nat.zero_le _
    exact Machine.throughout_of_invariant (fun _ part h _ => filter_body_le part h) hstart
      Machine.along_true
  · by_cases hcaches : key ≠ "" ∧ resp.status = 200
    · obtain ⟨hkey, hstatus⟩ := hcaches
      have hctx : ofResponse key resp = filling key resp [] := by
        rw [ofResponse_eq, if_pos ⟨hkey, hstatus⟩]
      have hrun : inserted request (filling key resp []) parts =
          if ended parts = true ∧ (wholeBody parts).length ≤ bodyCap then
            [entry request key resp (wholeBody parts)]
          else [] := inserted_filling key hlast (Nat.zero_le _)
      rw [hctx, hrun]
      by_cases hend : ended parts = true ∧ (wholeBody parts).length ≤ bodyCap
      · rw [if_pos hend]
        refine ⟨iff_of_true (by simp) ⟨hkey, hstatus, hend⟩, fun found hfound => ?_⟩
        obtain rfl := List.mem_singleton.1 hfound
        refine ⟨rfl, rfl, rfl, hstatus, ?_, ?_⟩
        · exact (ResponseHeader.values_insertHeader ..).trans (if_pos rfl)
        · have hother := ResponseHeader.values_insertHeader
            (resp.removeHeader "transfer-encoding") "content-length"
            (toString (wholeBody parts).length) "transfer-encoding"
          rw [if_neg (by decide), ResponseHeader.values_removeHeader] at hother
          exact hother
      · rw [if_neg hend]
        refine ⟨iff_of_false (by simp) fun h => hend h.2.2, fun found hfound => ?_⟩
        cases hfound
    · have hnone : inserted request (ofResponse key resp) parts = [] := by
        rw [ofResponse_eq, if_neg hcaches]
        exact inserted_idle rfl parts
      rw [hnone]
      refine ⟨iff_of_false (by simp) fun h => hcaches ⟨h.1, h.2.1⟩, fun found hfound => ?_⟩
      cases hfound

/-- A request, and a response whose length the upstream did not say. -/
def chunkedRequest : HttpRequest := ⟨8080, "GET", some (some "app.local"), "/", none⟩

def chunkedResponse : ResponseHeader := ⟨200, [("transfer-encoding", "chunked")]⟩

/-- A body in two parts, with the end of the stream by itself. -/
def chunkedBody : List BodyPart := [⟨some [1, 2], false⟩, ⟨some [3], false⟩, ⟨none, true⟩]

theorem cached_once_chunked :
    ∃ found, inserted chunkedRequest (ofResponse "app.local/" chunkedResponse) chunkedBody =
        [found] ∧ found.1 = "app.local/" ∧ found.2.body = [1, 2, 3] ∧
      found.2.header.status = 200 ∧ found.2.header.values "content-length" = ["3"] ∧
      found.2.header.values "transfer-encoding" = [] := by
  obtain ⟨-, hiff, hentry⟩ := cached_once chunkedRequest "app.local/" chunkedResponse chunkedBody
    (by decide)
  obtain ⟨found, hfound⟩ := List.exists_mem_of_ne_nil _ (hiff.2 (by decide))
  exact ⟨found, hentry found hfound⟩

end ProxyCtx
