import NylonRun.Messages

/-!
# Messages one after the other

What `read_message` takes from any stream of bytes, and so what comes back from a connection on
which several messages were written (src/protocol.rs:135-162).
-/

open Effect

namespace Wire

variable {α : Type} {c : Codec α}

/-- Reading one message after the other. -/
def readMessages (c : Codec α) : Nat → EStateM String Bytes (List α)
  | 0 => pure []
  | n + 1 => do
    let msg ← readMessage c
    let msgs ← readMessages c n
    return msg :: msgs

/-- The stream starts with the length of a document, at most ten megabytes, and the document of
the message; `rest` follows. -/
def Holds (c : Codec α) (s : Bytes) (msg : α) (rest : Bytes) : Prop :=
  ∃ head body : Bytes, s = head ++ (body ++ rest) ∧ head.length = 4 ∧
    fromBeBytes head = body.length ∧ body.length ≤ maxMessage ∧ c.fromSlice body = .ok msg

theorem readExact_ok_iff {count : Nat} {s bytes rest : Bytes} :
    readExact count s = .ok bytes rest ↔ s = bytes ++ rest ∧ bytes.length = count := by
  unfold readExact
  by_cases hshort : s.length < count
  · rw [if_pos hshort]
    refine iff_of_false (fun h => by cases h) ?_
    rintro ⟨rfl, rfl⟩
    rw [List.length_append] at hshort
    omega
  · rw [if_neg hshort]
    constructor
    · intro h
      cases h
      refine ⟨(List.take_append_drop count s).symm, ?_⟩
      rw [List.length_take]
      omega
    · rintro ⟨rfl, rfl⟩
      rw [List.take_left, List.drop_left]

/-- `read_message` returns a message exactly if the stream holds it, and takes just the length and
the document. -/
theorem readMessage_ok_iff {s rest : Bytes} {msg : α} :
    readMessage c s = .ok msg rest ↔ Holds c s msg rest := by
  constructor
  · intro h
    obtain ⟨head, s₁, hhead, hread⟩ := bind_ok h
    obtain ⟨rfl, hfour⟩ := readExact_ok_iff.1 hhead
    dsimp only at hread
    by_cases hlong : fromBeBytes head > maxMessage
    · rw [if_pos hlong] at hread
      cases hread
    · rw [if_neg hlong] at hread
      obtain ⟨body, s₂, hbody, hslice⟩ := bind_ok hread
      obtain ⟨rfl, hlength⟩ := readExact_ok_iff.1 hbody
      obtain ⟨hok, rfl⟩ := demand_ok hslice
      exact ⟨head, body, rfl, hfour, hlength.symm, by omega, hok⟩
  · rintro ⟨head, body, rfl, hfour, hlength, hmax, hslice⟩
    have hhead : readExact 4 (head ++ (body ++ rest)) = .ok head (body ++ rest) :=
      readExact_ok_iff.2 ⟨rfl, hfour⟩
    have hbody : readExact body.length (body ++ rest) = .ok body rest :=
      readExact_ok_iff.2 ⟨rfl, rfl⟩
    unfold readMessage
    rw [run_bind, hhead]
    dsimp only
    rw [hlength, if_neg (Nat.not_lt.2 hmax), run_bind, hbody]
    dsimp only
    rw [hslice]
    rfl

theorem fromBeBytes_length {data : Bytes} (h : data.length < 2 ^ 32) :
    fromBeBytes (toBeBytes data.length.toUInt32) = data.length := by
  rw [fromBeBytes_toBeBytes, Nat.toUInt32, UInt32.toNat_ofNat', Nat.mod_eq_of_lt h]

/-- What a written message leaves on the wire is held there, whatever follows. -/
theorem holds_written
    (round : ∀ msg data, c.toVec msg = .ok data → c.fromSlice data = .ok msg) {msg : α}
    {data : Bytes} (hvec : c.toVec msg = .ok data) (hmax : data.length ≤ maxMessage)
    (rest : Bytes) : Holds c (toBeBytes data.length.toUInt32 ++ data ++ rest) msg rest := by
  have hword : maxMessage < 2 ^ 32 := by decide
  exact ⟨_, data, List.append_assoc .., length_toBeBytes _, fromBeBytes_length (by omega), hmax,
    round msg data hvec⟩

theorem writeMessage_extends {msg : α} {w w' : Writer} (h : writeMessage c msg w = .ok () w') :
    w.written <+: w'.written := by
  obtain ⟨data, -, hwritten⟩ := writeMessage_ok h
  exact ⟨_, hwritten.symm⟩

theorem forEach_extends {msgs : List α} {w w' : Writer}
    (h : forEach msgs (writeMessage c) w = .ok () w') : w.written <+: w'.written := by
  induction msgs generalizing w with
  | nil =>
    cases h
    exact List.prefix_rfl
  | cons msg msgs ih =>
    obtain ⟨_, w₁, hmsg, hrest⟩ := bind_ok h
    exact (writeMessage_extends hmsg).trans (ih hrest)

/-- Messages that were written one after the other are read in their order, and what follows them
is left; by induction on the messages. -/
theorem readMessages_written
    (round : ∀ msg data, c.toVec msg = .ok data → c.fromSlice data = .ok msg) {msgs : List α}
    {w w' : Writer} (hfits : ∀ msg ∈ msgs, Fits c msg)
    (h : forEach msgs (writeMessage c) w = .ok () w') (rest : Bytes) :
    readMessages c msgs.length (w'.written.drop w.written.length ++ rest) = .ok msgs rest := by
  induction msgs generalizing w with
  | nil =>
    cases h
    rw [List.drop_length, List.nil_append]
    rfl
  | cons msg msgs ih =>
    obtain ⟨_, w₁, hmsg, hrest⟩ := bind_ok h
    obtain ⟨data, hvec, hwritten⟩ := writeMessage_ok hmsg
    obtain ⟨data', hvec', hmax⟩ := hfits msg List.mem_cons_self
    obtain rfl : data = data' := by
      rw [hvec] at hvec'
      cases hvec'
      rfl
    obtain ⟨back, hback⟩ := forEach_extends hrest
    have hmsgs := ih (fun m hm => hfits m (List.mem_cons_of_mem _ hm)) hrest
    rw [← hback, List.drop_left] at hmsgs
    have hstream : w'.written.drop w.written.length ++ rest =
        toBeBytes data.length.toUInt32 ++ data ++ (back ++ rest) := by
      rw [← hback, hwritten, List.append_assoc w.written, List.drop_left, List.append_assoc _ back]
    have hread := readMessage_ok_iff.2 (holds_written round hvec hmax (back ++ rest))
    rw [hstream, List.length_cons, readMessages, run_bind, hread]
    dsimp only
    rw [run_bind, hmsgs]
    rfl

/-- A message that is cut short anywhere is not read, nor is another one in its place. -/
theorem read_short {msg : α} {data front : Bytes} (hword : data.length < 2 ^ 32)
    (hfront : front <+: toBeBytes data.length.toUInt32 ++ data)
    (hshort : front ≠ toBeBytes data.length.toUInt32 ++ data) (rest : Bytes) :
    readMessage c front ≠ .ok msg rest := by
  intro hread
  obtain ⟨head, body, rfl, hfour, hlength, -, -⟩ := readMessage_ok_iff.1 hread
  obtain ⟨tail, htail⟩ := hfront
  -- the length that was read is the one of the whole document
  rw [List.append_assoc] at htail
  obtain ⟨rfl, hbody⟩ := List.append_inj htail hfour
  rw [fromBeBytes_length hword] at hlength
  have hlengths := congrArg List.length hbody
  simp only [List.length_append] at hlengths
  have hrest : rest = [] := List.length_eq_zero_iff.1 (by omega)
  have htail' : tail = [] := List.length_eq_zero_iff.1 (by omega)
  subst hrest htail'
  rw [List.append_nil, List.append_nil] at hbody
  rw [List.append_nil, hbody] at hshort
  exact hshort rfl

/-- `read_message` returns a message exactly if the stream starts with the length of its document,
at most ten megabytes, and the document, and takes just these. So messages written one after the
other come back in order, and one that is cut short anywhere gives an error. -/
theorem readMessage_exact
    (round : ∀ msg data, c.toVec msg = .ok data → c.fromSlice data = .ok msg) :
    (∀ s msg rest, readMessage c s = .ok msg rest ↔ Holds c s msg rest) ∧
    (∀ msgs w w' rest, (∀ msg ∈ msgs, Fits c msg) →
      forEach msgs (writeMessage c) w = .ok () w' →
      readMessages c msgs.length (w'.written.drop w.written.length ++ rest) = .ok msgs rest) ∧
    ∀ msg data w w' front, c.toVec msg = .ok data → data.length < 2 ^ 32 →
      writeMessage c msg w = .ok () w' → front <+: w'.written.drop w.written.length →
      front ≠ w'.written.drop w.written.length → ∃ e s, readMessage c front = .error e s := by
  refine ⟨fun s msg rest => readMessage_ok_iff, fun msgs w w' rest hfits h => ?_,
    fun msg data w w' front hvec hword h hfront hshort => ?_⟩
  · exact readMessages_written round hfits h rest
  · obtain ⟨data', hvec', hwritten⟩ := writeMessage_ok h
    rw [hvec] at hvec'
    cases hvec'
    rw [hwritten, List.drop_left] at hfront hshort
    cases hread : readMessage c front with
    | ok msg' rest => exact absurd hread (read_short hword hfront hshort rest)
    | error e s => exact ⟨e, s, rfl⟩

theorem write_logOf_next (count : Nat) {w : Writer} (h : w.faults = []) :
    ∃ w', writeMessage logsCodec (logOf count) w = .ok () w' ∧ w'.faults = [] := by
  obtain ⟨written, faults⟩ := w
  subst h
  unfold writeMessage
  rw [toVec_logOf]
  exact ⟨_, rfl, rfl⟩

/-- Two logs, with one byte of a third message behind them. -/
theorem readMessage_exact_logs :
    ∃ w, forEach [logOf 3, logOf 5] (writeMessage logsCodec) Writer.fresh = .ok () w ∧
      readMessages logsCodec 2 (w.written ++ [0]) = .ok [logOf 3, logOf 5] [0] := by
  obtain ⟨-, hmany, -⟩ := readMessage_exact (c := logsCodec) fun _ _ h => lawful_logsCodec.round h
  have hfits : ∀ msg ∈ [logOf 3, logOf 5], Fits logsCodec msg := by
    intro msg hmsg
    rw [List.mem_pair] at hmsg
    rcases hmsg with rfl | rfl
    · exact ⟨_, toVec_logOf 3, by decide⟩
    · exact ⟨_, toVec_logOf 5, by decide⟩
  obtain ⟨w, hw, hfaults⟩ := write_logOf_next 3 (w := Writer.fresh) rfl
  obtain ⟨w', hw', -⟩ := write_logOf_next 5 hfaults
  have hboth : forEach [logOf 3, logOf 5] (writeMessage logsCodec) Writer.fresh = .ok () w' := by
    rw [forEach, run_bind, hw]
    dsimp only
    rw [forEach, run_bind, hw']
    rfl
  exact ⟨w', hboth, hmany _ _ _ [0] hfits hboth⟩

end Wire
