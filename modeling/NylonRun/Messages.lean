import NylonRun.Lib.Effect
import NylonRun.Lib.FileTree
import NylonRun.Protocol

/-!
# Messages on the wire

`write_message` and `read_message` (src/protocol.rs:135-162): four bytes of length and then a
document of `serde_json`. The writer narrows the length to 32 bits and sends a document of any
length; the reader takes at most ten megabytes.
-/

open Effect

namespace Wire

/-- `serde_json` for one type of messages. -/
structure Codec (α : Type) where
  toVec : α → Except String Bytes
  fromSlice : Bytes → Except String α

/-- A document is read back as what it was written for, and one that is cut short is not read. -/
structure Codec.Lawful {α : Type} (c : Codec α) : Prop where
  round : ∀ {msg data}, c.toVec msg = .ok data → c.fromSlice data = .ok msg
  short : ∀ {msg data n}, c.toVec msg = .ok data → n < data.length →
    ∀ msg', c.fromSlice (data.take n) ≠ .ok msg'

/-- The writing end of a connection: what has gone out, and the faults that the next writes meet,
each after some of the bytes. -/
structure Writer where
  written : Bytes
  faults : List (Option (Nat × String))

/-! ## The big-endian length -/

/-- `u32::to_be_bytes`. -/
def toBeBytes (n : UInt32) : Bytes :=
  [(n.toNat / 2 ^ 24).toUInt8, (n.toNat / 2 ^ 16).toUInt8, (n.toNat / 2 ^ 8).toUInt8,
    n.toNat.toUInt8]

/-- `u32::from_be_bytes(_) as usize`. -/
def fromBeBytes (bytes : Bytes) : Nat := bytes.foldl (fun n b => n * 256 + b.toNat) 0

theorem fromBeBytes_toBeBytes (n : UInt32) : fromBeBytes (toBeBytes n) = n.toNat := by
  have hbound := n.toNat_lt
  simp only [fromBeBytes, toBeBytes, List.foldl_cons, List.foldl_nil, Nat.toUInt8,
    UInt8.toNat_ofNat']
  omega

theorem length_toBeBytes (n : UInt32) : (toBeBytes n).length = 4 := rfl

/-! ## The two ends -/

/-- `write_all`. -/
def writeAll (bytes : Bytes) : EStateM String Writer Unit := fun w =>
  match w.faults with
  | some (count, e) :: rest =>
    .error e { written := w.written ++ bytes.take count, faults := rest }
  | none :: rest => .ok () { written := w.written ++ bytes, faults := rest }
  | [] => .ok () { w with written := w.written ++ bytes }

/-- `flush`: nothing new goes out. -/
def flush : EStateM String Writer Unit := writeAll []

/-- `read_exact`, from the bytes that are still to come. -/
def readExact (count : Nat) : EStateM String Bytes Bytes := fun s =>
  if s.length < count then .error "early eof" []
  else .ok (s.take count) (s.drop count)

/-- The length that the reader takes at most. -/
def maxMessage : Nat := 10 * 1024 * 1024

variable {α : Type}

/-- `write_message` (src/protocol.rs:135-145). -/
def writeMessage (c : Codec α) (msg : α) : EStateM String Writer Unit := do
  let data ← demand id (c.toVec msg)
  writeAll (toBeBytes data.length.toUInt32)
  writeAll data
  flush

/-- `read_message` (src/protocol.rs:147-162). -/
def readMessage (c : Codec α) : EStateM String Bytes α := do
  let len := fromBeBytes (← readExact 4)
  if len > maxMessage then throw "message too large"
  let buf ← readExact len
  demand id (c.fromSlice buf)

theorem writeAll_ok {bytes : Bytes} {w w' : Writer} (h : writeAll bytes w = .ok () w') :
    w'.written = w.written ++ bytes := by
  unfold writeAll at h
  split at h <;> cases h <;> rfl

theorem demand_ok {ε σ δ : Type} {f : δ → ε} {a : Except δ α} {s s' : σ} {b : α}
    (h : demand f a s = .ok b s') : a = .ok b ∧ s' = s := by
  cases a with
  | error e => cases h
  | ok a => cases h; exact ⟨rfl, rfl⟩

/-- What a message that is written puts on the wire. -/
theorem writeMessage_ok {c : Codec α} {msg : α} {w w' : Writer}
    (h : writeMessage c msg w = .ok () w') : ∃ data, c.toVec msg = .ok data ∧
      w'.written = w.written ++ (toBeBytes data.length.toUInt32 ++ data) := by
  obtain ⟨data, w₁, hdata, hsend⟩ := bind_ok h
  obtain ⟨hvec, rfl⟩ := demand_ok hdata
  obtain ⟨_, w₂, hlen, hsend⟩ := bind_ok hsend
  obtain ⟨_, w₃, hbody, hflush⟩ := bind_ok hsend
  refine ⟨data, hvec, ?_⟩
  rw [writeAll_ok hflush, writeAll_ok hbody, writeAll_ok hlen, List.append_nil, List.append_assoc]

theorem readExact_append (front back : Bytes) :
    readExact front.length (front ++ back) = .ok front back := by
  have hlength : ¬(front ++ back).length < front.length := by simp
  rw [readExact, if_neg hlength, List.take_left, List.drop_left]

/-- The reader behind a length. -/
theorem readMessage_length (c : Codec α) (n : UInt32) (s : Bytes) :
    readMessage c (toBeBytes n ++ s) =
      if n.toNat > maxMessage then .error "message too large" s
      else (readExact n.toNat >>= fun buf => demand id (c.fromSlice buf)) s := by
  have hread := readExact_append (toBeBytes n) s
  rw [length_toBeBytes] at hread
  unfold readMessage
  rw [run_bind, hread]
  dsimp only
  rw [fromBeBytes_toBeBytes]
  by_cases hlong : n.toNat > maxMessage
  · rw [if_pos hlong, if_pos hlong]
    rfl
  · rw [if_neg hlong, if_neg hlong]

/-! ## When a written message is read back -/

/-- The document of a message is no longer than the reader takes. -/
def Fits (c : Codec α) (msg : α) : Prop := ∃ data, c.toVec msg = .ok data ∧ data.length ≤ maxMessage

theorem read_of_length_le {c : Codec α} (hc : c.Lawful) {msg : α} {data : Bytes}
    (hvec : c.toVec msg = .ok data) (hlength : data.length ≤ maxMessage) (rest : Bytes) :
    readMessage c (toBeBytes data.length.toUInt32 ++ (data ++ rest)) = .ok msg rest := by
  have hmax : maxMessage < 2 ^ 32 := by decide
  have hnarrow : data.length.toUInt32.toNat = data.length := by
    rw [Nat.toUInt32, UInt32.toNat_ofNat']
    omega
  rw [readMessage_length, hnarrow, if_neg (Nat.not_lt.2 hlength), run_bind, readExact_append]
  dsimp only
  rw [hc.round hvec]
  rfl

/-- A longer document is refused or cut short: the 32 bits of its length name fewer bytes. -/
theorem read_of_length_gt {c : Codec α} (hc : c.Lawful) {msg : α} {data : Bytes}
    (hvec : c.toVec msg = .ok data) (hlength : maxMessage < data.length) (rest : Bytes) (msg' : α) :
    result (readMessage c) (toBeBytes data.length.toUInt32 ++ (data ++ rest)) ≠ .ok msg' := by
  have hnarrow : data.length.toUInt32.toNat = data.length % 2 ^ 32 := by
    rw [Nat.toUInt32, UInt32.toNat_ofNat']
  unfold result
  rw [readMessage_length, hnarrow]
  by_cases hlong : data.length % 2 ^ 32 > maxMessage
  · rw [if_pos hlong]
    intro h
    cases h
  · have hshort : data.length % 2 ^ 32 < data.length := by
      have hle := Nat.mod_le data.length (2 ^ 32)
      omega
    have hsplit : data ++ rest = data.take (data.length % 2 ^ 32) ++
        (data.drop (data.length % 2 ^ 32) ++ rest) := by
      rw [← List.append_assoc, List.take_append_drop]
    have htake : (data.take (data.length % 2 ^ 32)).length = data.length % 2 ^ 32 := by
      rw [List.length_take]
      omega
    have hread := readExact_append (data.take (data.length % 2 ^ 32))
      (data.drop (data.length % 2 ^ 32) ++ rest)
    rw [htake, ← hsplit] at hread
    rw [if_neg hlong, run_bind, hread]
    dsimp only
    have hnot := hc.short hvec hshort
    cases hslice : c.fromSlice (data.take (data.length % 2 ^ 32)) with
    | error e =>
      intro h
      cases h
    | ok msg'' => exact absurd hslice (hnot msg'')

/-- A message that was written is read back from what went out, with anything behind it, exactly
if its document is at most ten megabytes long. -/
theorem read_written_iff {c : Codec α} (hc : c.Lawful) {msg : α} {w w' : Writer}
    (hw : writeMessage c msg w = .ok () w') (rest : Bytes) :
    result (readMessage c) (w'.written.drop w.written.length ++ rest) = .ok msg ↔ Fits c msg := by
  obtain ⟨data, hvec, hwritten⟩ := writeMessage_ok hw
  rw [hwritten, List.drop_left, List.append_assoc]
  constructor
  · intro hread
    refine ⟨data, hvec, ?_⟩
    by_contra hlength
    exact read_of_length_gt hc hvec (Nat.lt_of_not_le hlength) rest msg hread
  · rintro ⟨data', hvec', hlength⟩
    rw [hvec] at hvec'
    cases hvec'
    unfold result
    rw [read_of_length_le hc hvec hlength rest]

/-! ## The documents of plain logs -/

/-- A character that stands for itself in a JSON string, as one byte. -/
def plain (c : Char) : Bool := 32 ≤ c.toNat && c.toNat < 127 && c.toNat ≠ 34 && c.toNat ≠ 92

def byteOf (c : Char) : UInt8 := c.toNat.toUInt8

/-- The bytes before the text of a `Response::Logs`, a brace, `"Logs"`, a colon and a quote. -/
def logsOpen : Bytes := [123, 34, 76, 111, 103, 115, 34, 58, 34]

/-- The quote and the brace behind it. -/
def logsClose : Bytes := [34, 125]

/-- The text up to the end of the document. -/
def untilClose : Bytes → Option (List Char)
  | [] => none
  | b :: rest =>
    if b = 34 then (if rest = [125] then some [] else none)
    else if plain (Char.ofNat b.toNat) then (untilClose rest).map (Char.ofNat b.toNat :: ·)
    else none

/-- `serde_json` on the logs whose text is plain. -/
def logsCodec : Codec Response where
  toVec
    | .logs text =>
      if text.toList.all plain then .ok (logsOpen ++ (text.toList.map byteOf ++ logsClose))
      else .error "not plain"
    | _ => .error "not logs"
  fromSlice bytes :=
    if bytes.take 9 = logsOpen then
      match untilClose (bytes.drop 9) with
      | some text => .ok (.logs (String.ofList text))
      | none => .error "expected value"
    else .error "unknown variant"

theorem plain_byte {c : Char} (hc : plain c = true) :
    byteOf c ≠ 34 ∧ Char.ofNat (byteOf c).toNat = c := by
  simp only [plain, Bool.and_eq_true, decide_eq_true_eq] at hc
  obtain ⟨⟨⟨hlow, hhigh⟩, hquote⟩, -⟩ := hc
  have hbyte : (byteOf c).toNat = c.toNat := by
    rw [byteOf, Nat.toUInt8, UInt8.toNat_ofNat']
    omega
  refine ⟨fun h => hquote ?_, by rw [hbyte, Char.ofNat_toNat]⟩
  rw [← hbyte, h]
  rfl

theorem untilClose_text {text : List Char} (h : ∀ c ∈ text, plain c = true) :
    untilClose (text.map byteOf ++ logsClose) = some text := by
  induction text with
  | nil => rfl
  | cons c text ih =>
    obtain ⟨hquote, hchar⟩ := plain_byte (h c List.mem_cons_self)
    rw [List.map_cons, List.cons_append, untilClose, if_neg hquote, hchar,
      if_pos (h c List.mem_cons_self), ih fun d hd => h d (List.mem_cons_of_mem _ hd)]
    rfl

/-- Without its last byte, or more, the text does not end. -/
theorem untilClose_short {text : List Char} (h : ∀ c ∈ text, plain c = true) {n : Nat}
    (hn : n < text.length + 2) : untilClose ((text.map byteOf ++ logsClose).take n) = none := by
  induction text generalizing n with
  | nil =>
    obtain rfl | rfl : n = 0 ∨ n = 1 := by
      rw [List.length_nil] at hn
      omega
    · rfl
    · rfl
  | cons c text ih =>
    cases n with
    | zero => rfl
    | succ n =>
      obtain ⟨hquote, hchar⟩ := plain_byte (h c List.mem_cons_self)
      have hrest := ih (fun d hd => h d (List.mem_cons_of_mem _ hd)) (n := n)
        (by rw [List.length_cons] at hn; omega)
      rw [List.map_cons, List.cons_append, List.take_succ_cons, untilClose, if_neg hquote, hchar,
        if_pos (h c List.mem_cons_self), hrest]
      rfl

theorem toVec_logs {msg : Response} {data : Bytes} (h : logsCodec.toVec msg = .ok data) :
    ∃ text, msg = .logs text ∧ (∀ c ∈ text.toList, plain c = true) ∧
      data = logsOpen ++ (text.toList.map byteOf ++ logsClose) := by
  cases msg with
  | logs text =>
    unfold logsCodec at h
    dsimp only at h
    split at h
    · rename_i hplain
      cases h
      exact ⟨text, rfl, List.all_eq_true.1 hplain, rfl⟩
    · cases h
  | _ => cases h

theorem lawful_logsCodec : logsCodec.Lawful := by
  constructor
  · intro msg data hvec
    obtain ⟨text, rfl, hplain, rfl⟩ := toVec_logs hvec
    have htake : (logsOpen ++ (text.toList.map byteOf ++ logsClose)).take 9 = logsOpen := rfl
    have hdrop : (logsOpen ++ (text.toList.map byteOf ++ logsClose)).drop 9 =
        text.toList.map byteOf ++ logsClose := rfl
    unfold logsCodec
    dsimp only
    rw [if_pos htake, hdrop, untilClose_text hplain]
    dsimp only
    rw [String.ofList_toList]
  · intro msg data n hvec hn msg'
    obtain ⟨text, rfl, hplain, rfl⟩ := toVec_logs hvec
    unfold logsCodec
    dsimp only
    split
    · rename_i hopen
      have hnine : 9 ≤ n := by
        have hlength := congrArg List.length hopen
        rw [List.length_take, List.length_take] at hlength
        have : logsOpen.length = 9 := rfl
        omega
      have hdrop : ((logsOpen ++ (text.toList.map byteOf ++ logsClose)).take n).drop 9 =
          (text.toList.map byteOf ++ logsClose).take (n - 9) := by
        rw [List.drop_take]
        congr 1
      have hshort : n - 9 < text.toList.length + 2 := by
        simp only [List.length_append, List.length_map] at hn
        have hopen : logsOpen.length = 9 := rfl
        have hclose : logsClose.length = 2 := rfl
        omega
      rw [hdrop, untilClose_short hplain hshort]
      intro h
      cases h
    · intro h
      cases h

/-- The text of a log of one line. -/
def logOf (count : Nat) : Response := .logs (String.ofList (List.replicate count 'a'))

theorem toVec_logOf (count : Nat) : logsCodec.toVec (logOf count) =
    .ok (logsOpen ++ ((List.replicate count 'a').map byteOf ++ logsClose)) := by
  have hplain : (List.replicate count 'a').all plain = true := by
    rw [List.all_eq_true]
    intro c hc
    rw [List.eq_of_mem_replicate hc]
    decide
  unfold logsCodec logOf
  dsimp only
  rw [String.toList_ofList, if_pos hplain]

theorem length_logOf (count : Nat) :
    (logsOpen ++ ((List.replicate count 'a').map byteOf ++ logsClose)).length = count + 11 := by
  simp only [List.length_append, List.length_map, List.length_replicate]
  have hopen : logsOpen.length = 9 := rfl
  have hclose : logsClose.length = 2 := rfl
  omega

/-- A writer that has sent nothing and meets no faults. -/
def Writer.fresh : Writer := ⟨[], []⟩

theorem write_logOf (count : Nat) :
    ∃ w, writeMessage logsCodec (logOf count) Writer.fresh = .ok () w := by
  unfold writeMessage
  rw [toVec_logOf]
  exact ⟨_, rfl⟩

/-- A short log is read back. -/
theorem read_written_short_log : ∃ w, writeMessage logsCodec (logOf 3) Writer.fresh = .ok () w ∧
    result (readMessage logsCodec) (w.written.drop Writer.fresh.written.length ++ []) =
      .ok (logOf 3) := by
  obtain ⟨w, hw⟩ := write_logOf 3
  refine ⟨w, hw, (read_written_iff lawful_logsCodec hw []).2 ⟨_, toVec_logOf 3, ?_⟩⟩
  decide

/-- The reader refuses a log that is too long. -/
theorem read_long_log {count : Nat} (hlong : maxMessage < count + 11) (hword : count + 11 < 2 ^ 32) :
    ∃ w, writeMessage logsCodec (logOf count) Writer.fresh = .ok () w ∧
      result (readMessage logsCodec) w.written = .error "message too large" := by
  obtain ⟨w, hw⟩ := write_logOf count
  refine ⟨w, hw, ?_⟩
  obtain ⟨data, hvec, hwritten⟩ := writeMessage_ok hw
  rw [toVec_logOf] at hvec
  cases hvec
  have hnarrow : (count + 11).toUInt32.toNat > maxMessage := by
    rw [Nat.toUInt32, UInt32.toNat_ofNat', Nat.mod_eq_of_lt hword]
    exact hlong
  rw [hwritten, length_logOf]
  unfold result
  rw [Writer.fresh, List.nil_append, readMessage_length, if_pos hnarrow]

/-- A log of ten megabytes is sent, and the reader refuses it. -/
theorem read_written_long_log :
    ∃ w, writeMessage logsCodec (logOf maxMessage) Writer.fresh = .ok () w ∧
      result (readMessage logsCodec) w.written = .error "message too large" :=
  read_long_log (by omega) (by decide)

end Wire
