import AgentEngine.Anet.HttpChunking

/-!
When `HTTPStreamer` honours the lengths that a message declares.

`Content-Length` goes through `atoi` and the size of a chunk through `%x` into an `int`. Numbers
of 2 ^ 31 and more are cut down on the way, so that the parser goes on with another length, unless
it rejects what is left of the number (`declared_lengths_honoured_iff`).
-/

namespace AgentEngine.Anet

open Lib List

namespace HTTPMachine

open HTTPStreamer HTTPStreamingContext TCPConnection

/-! ### What it means to honour a length -/

/-- What a connection receives if the bytes come in one piece. -/
def receives (pkgLimit : Nat) (c : Reading HTTPPacket HTTPFields) (bytes : List UInt8) (eof : Bool) :
    List HTTPPacket × Bool :=
  received pkgLimit c (if bytes = [] then [] else [bytes]) eof

/-- The empty line `eol` after the headers of the packet `p` is followed by a body of exactly
`length` bytes, and by other messages. -/
def DeliversBody (pkgLimit : Nat) (c : Reading HTTPPacket HTTPFields) (p : HTTPPacket)
    (eol : List UInt8) (length : Nat) : Prop :=
  ∀ data eof, receives pkgLimit c (eol ++ data) eof =
    if length ≤ data.length then
      let after := receives pkgLimit (start (streamer pkgLimit) fun _ => 0) (data.drop length) eof
      (p.appendBody (data.take length) :: after.1, after.2)
    else ([], eof)

/-- The message is rejected, or its body is of the given length. -/
def BodyHonoured (pkgLimit : Nat) (c : Reading HTTPPacket HTTPFields) (p : HTTPPacket)
    (eol : List UInt8) (length : Nat) : Prop :=
  (∀ data eof, receives pkgLimit c (eol ++ data) eof = ([], true)) ∨
    DeliversBody pkgLimit c p eol length

/-- After the line, exactly `size` bytes are data of a chunk: the body grows by them, and then
data is no longer expected. -/
def DeliversChunk (pkgLimit : Nat) (c : Reading HTTPPacket HTTPFields) (p : HTTPPacket)
    (line : List UInt8) (size : Nat) : Prop :=
  ∀ data, data.length ≤ size →
    let r := (readData (streamer pkgLimit)).feed (line ++ data) c
    r.items = [] ∧ r.halted = false ∧ r.state.context.packet = some (p.appendBody data) ∧
      (r.state.context.ext.chunkState = .chunkData ↔ data.length < size)

/-- The line is rejected, or the chunk is of the given size. -/
def ChunkHonoured (pkgLimit : Nat) (c : Reading HTTPPacket HTTPFields) (p : HTTPPacket)
    (line : List UInt8) (size : Nat) : Prop :=
  (∀ data, ((readData (streamer pkgLimit)).feed (line ++ data) c).items = [] ∧
    ((readData (streamer pkgLimit)).feed (line ++ data) c).halted = true) ∨
    DeliversChunk pkgLimit c p line size

/-- How a line may end. -/
def LineEnd (eol : List UInt8) : Prop := eol = [10] ∨ eol = [13, 10]

section Lines

theorem findCRLF_of_not_mem (line : List UInt8) (no_end : 10 ∉ line) (data : List UInt8) :
    findCRLF (line ++ 10 :: data) =
      some (if line.getLast? = some 13 then line.dropLast else line, line.length + 1) := by
  have taken : (line ++ 10 :: data).takeWhile (· ≠ 10) = line := by
    rw [takeWhile_append_of_pos]
    · rw [takeWhile_cons_of_neg (by decide), append_nil]
    · intro x hx
      exact decide_eq_true fun e => no_end (e ▸ hx)
  unfold findCRLF
  dsimp only
  rw [taken, if_neg]
  rw [length_append, length_cons]
  omega

theorem findCRLF_emptyLine {eol : List UInt8} (h : LineEnd eol) (data : List UInt8) :
    findCRLF (eol ++ data) = some ([], eol.length) := by
  rcases h with rfl | rfl
  · exact findCRLF_of_not_mem [] (by decide) data
  · exact findCRLF_of_not_mem [13] (by decide) data

end Lines

section States

variable {pkgLimit limit : Nat} {c : Reading HTTPPacket HTTPFields} {phase : HTTPPhase}

/-- However the input was cut: if the context is not broken, the loop has stopped in some
phase. -/
theorem stands_feedAll (h : Stands (getPkgLimit pkgLimit) c phase) {pieces : List (List UInt8)}
    (nonempty : ∀ piece ∈ pieces, piece ≠ [])
    (running : ((readData (streamer pkgLimit)).feedAll pieces c).halted = false) :
    ∃ phase', Stands (getPkgLimit pkgLimit) ((readData (streamer pkgLimit)).feedAll pieces c).state
      phase' := by
  induction pieces generalizing c phase with
  | nil => exact ⟨phase, h⟩
  | cons piece pieces ih =>
    have first := feed_at h (nonempty piece mem_cons_self)
    simp only [Reader.feedAll] at running ⊢
    split at running
    · rename_i halted
      cases halted.symm.trans running
    · rename_i going
      rw [if_neg going]
      have stands := first.stands (first.halted.symm.trans (eq_false_of_ne_true going))
      exact ih stands (fun p hp => nonempty p (mem_cons_of_mem _ hp)) running

theorem phase_of_header (h : Stands limit c phase) (step : c.context.ext.step = .messageHeader)
    {p : HTTPPacket} (held : c.context.packet = some p) :
    phase = .headers false p c.context.ext.drainedLength c.context.ext.headersCount := by
  have showing := h.showing
  cases phase with
  | headers trailer p' drained count =>
    cases trailer with
    | false =>
      obtain ⟨held', -, -, rfl, rfl⟩ := showing
      cases held.symm.trans held'
      rfl
    | true => cases showing.2.1.symm.trans step
  | startLine => cases showing.1.symm.trans step
  | lengthBody | chunkSize | chunkData | chunkEnd | eofBody | complete =>
    cases showing.2.1.symm.trans step

theorem phase_of_chunkSize (h : Stands limit c phase) (step : c.context.ext.step = .messageBody)
    (chunked : c.context.ext.encodingType = .chunked)
    (chunkState : c.context.ext.chunkState = .chunkSize) {p : HTTPPacket}
    (held : c.context.packet = some p) :
    phase = .chunkSize p c.context.ext.drainedLength c.context.ext.headersCount := by
  have showing := h.showing
  cases phase with
  | headers trailer p' drained count =>
    cases trailer with
    | false => cases showing.2.1.symm.trans step
    | true => cases showing.2.2.2.1.symm.trans chunkState
  | startLine => cases showing.1.symm.trans step
  | lengthBody => cases showing.2.2.1.symm.trans chunked
  | eofBody | complete => cases showing.2.2.symm.trans chunked
  | chunkData | chunkEnd => cases showing.2.2.2.1.symm.trans chunkState
  | chunkSize p' drained count =>
    obtain ⟨held', -, -, -, rfl, rfl⟩ := showing
    cases held.symm.trans held'
    rfl

theorem receives_eq (h : Stands (getPkgLimit pkgLimit) c phase) (resumable : Resumable phase)
    (bytes : List UInt8) (eof : Bool) :
    receives pkgLimit c bytes eof =
      meaning (getPkgLimit pkgLimit) phase (c.input.unread ++ bytes) eof := by
  unfold receives
  split
  · rename_i empty
    subst empty
    exact received_eq h (by simp) (by
      intro before piece after e
      simp at e) eof
  · rename_i some_byte
    rw [received_eq h (by simpa using some_byte) (h.clean resumable bytes), flatten_singleton]

end States

/-- A declared length is honoured if it is what is left of it, or if this is too long. -/
theorem rejected_or_delivers_iff {rejected tooLong : Prop} [Decidable tooLong] {delivers : Nat → Prop}
    {left declared : Nat} (delivered : if tooLong then rejected else delivers left)
    (unique : ∀ {m n}, delivers m → delivers n → m = n) (not_rejected : delivers left → ¬ rejected) :
    rejected ∨ delivers declared ↔ left = declared ∨ tooLong := by
  split at delivered
  · rename_i long
    exact iff_of_true (.inl delivered) (.inr long)
  · rename_i within
    rw [or_iff_right (not_rejected delivered), or_iff_left within]
    refine ⟨unique delivered, ?_⟩
    rintro rfl
    exact delivered

/-! ### Content-Length -/

section ContentLength

variable {limit : Nat} {p : HTTPPacket}

/-- What is left of a `Content-Length`: an `int` that is not positive means no body. -/
def contentLeft (n : Nat) : Nat :=
  let left := min n (2 ^ 63 - 1) % 2 ^ 32
  if left < 2 ^ 31 then left else 0

theorem contentLeft_eq_iff (n : Nat) : contentLeft n = n ↔ n < 2 ^ 31 := by
  unfold contentLeft
  dsimp only
  split_ifs <;> omega

theorem toNat_atoi {v : List UInt8} (ne : v ≠ []) (digits : ∀ x ∈ v, isdigit x) :
    (atoi v).toInt.toNat = contentLeft (numeral 10 v) ∧
      ((atoi v).toInt > 0 ↔ 0 < contentLeft (numeral 10 v)) := by
  rw [atoi_digits ne digits, toInt_ofNat_wrapped]
  unfold contentLeft
  dsimp only
  split_ifs <;> omega

/-- The headers of a message with a `Content-Length` of decimal digits: it is over the limit, or
its body is what is left of the number. -/
theorem headersEnd_contentLength (limit : Nat) {v : List UInt8}
    (noEncoding : p.getHeader (ascii "Transfer-Encoding") = none)
    (declared : p.getHeader (ascii "Content-Length") = some v) (ne : v ≠ [])
    (digits : ∀ x ∈ v, isdigit x) (drained count : Nat) :
    headersEnd limit p drained count =
      if 0 < contentLeft (numeral 10 v) then
        if contentLeft (numeral 10 v) + drained > limit then none
        else some (.lengthBody p (contentLeft (numeral 10 v)))
      else some (.complete p) := by
  obtain ⟨left, positive⟩ := toNat_atoi ne digits
  have valid : isValidDigits v = true := by
    have clean : 0 ∉ v := fun h => absurd (digits 0 h) (by decide)
    rw [isValidDigits, cstr_eq_self clean, all_eq_true]
    exact digits
  simp only [headersEnd, noEncoding, declared, valid, Bool.not_true, Bool.false_eq_true, if_false,
    left, positive]

theorem meaning_before {phase phase' : HTTPPhase} {bytes bytes' : List UInt8}
    (run : (httpMachine limit).run phase bytes =
      ((httpMachine limit).run phase' bytes').before [p]) (eof : Bool) :
    meaning limit phase bytes eof =
      (p :: (meaning limit phase' bytes' eof).1, (meaning limit phase' bytes' eof).2) := by
  simp only [meaning, run, Outcome.before]
  split <;> rfl

/-- What the bytes behind the headers mean if a body of `length` bytes is expected. -/
theorem meaning_lengthBody {phase : HTTPPhase} {bytes data : List UInt8} {length : Nat}
    (run : (httpMachine limit).run phase bytes = (httpMachine limit).run (.lengthBody p length) data)
    (eof : Bool) :
    meaning limit phase bytes eof =
      if length ≤ data.length then
        let after := meaning limit .startLine (data.drop length) eof
        (p.appendBody (data.take length) :: after.1, after.2)
      else ([], eof) := by
  have reach := reaches_lengthBody limit p length data
  split at reach
  · rename_i enough
    rw [if_pos enough, meaning_before (run.trans (reach.run.trans (run_complete _ _)))]
  · rename_i few
    have waits : step limit (.lengthBody (p.appendBody data) (length - data.length)) [] = .wait :=
      if_neg (by omega)
    rw [if_neg few, meaning, run, reach.run, run_wait waits]
    cases eof <;> rfl

theorem run_emptyBody (p : HTTPPacket) (data : List UInt8) :
    (httpMachine limit).run (.complete p) data = (httpMachine limit).run (.lengthBody p 0) data :=
  (run_take (n := 0) rfl).symm

variable {pkgLimit : Nat} {c : Reading HTTPPacket HTTPFields}

theorem DeliversBody.unique {eol : List UInt8} {length length' : Nat}
    (h : DeliversBody pkgLimit c p eol length) (h' : DeliversBody pkgLimit c p eol length') :
    length = length' := by
  -- a body of the shorter length is complete for one of them only
  have shorter : ∀ {m n}, DeliversBody pkgLimit c p eol m → DeliversBody pkgLimit c p eol n →
      ¬ m < n := by
    intro m n hm hn less
    have both := (hm (replicate m 0) false).symm.trans (hn (replicate m 0) false)
    rw [length_replicate, if_pos (Nat.le_refl m), if_neg (not_le.mpr less)] at both
    cases congrArg (·.1) both
  exact le_antisymm (not_lt.mp (shorter h' h)) (not_lt.mp (shorter h h'))

theorem DeliversBody.not_rejected {eol : List UInt8} {length : Nat}
    (h : DeliversBody pkgLimit c p eol length) :
    ¬ ∀ data eof, receives pkgLimit c (eol ++ data) eof = ([], true) := by
  intro rejected
  have both := (h (replicate length 0) false).symm.trans
    (rejected (replicate length 0) false)
  rw [length_replicate, if_pos (Nat.le_refl length)] at both
  cases congrArg (·.1) both

variable {drained count : Nat} {v eol : List UInt8}
  (h : Stands (getPkgLimit pkgLimit) c (.headers false p drained count))
  (used : c.input.unread = []) (noEncoding : p.getHeader (ascii "Transfer-Encoding") = none)
  (declared : p.getHeader (ascii "Content-Length") = some v) (ne : v ≠ [])
  (digits : ∀ x ∈ v, isdigit x) (line : LineEnd eol)

include h used noEncoding declared ne digits line

/-- The parser rejects a `Content-Length` if what is left of it is over the limit, and otherwise
delivers a body of this length. -/
theorem body_delivered :
    if getPkgLimit pkgLimit < drained + eol.length ∨ (0 < contentLeft (numeral 10 v) ∧
        getPkgLimit pkgLimit < drained + eol.length + contentLeft (numeral 10 v)) then
      ∀ data eof, receives pkgLimit c (eol ++ data) eof = ([], true)
    else DeliversBody pkgLimit c p eol (contentLeft (numeral 10 v)) := by
  have moved : ∀ data, step (getPkgLimit pkgLimit) (.headers false p drained count) (eol ++ data) =
      if drained + eol.length > getPkgLimit pkgLimit then .fail
      else decided eol.length
        (headersEnd (getPkgLimit pkgLimit) p (drained + eol.length) count) := by
    intro data
    simp only [step, onLine, findCRLF_emptyLine line]
    rfl
  unfold decided at moved
  have means : ∀ data eof, receives pkgLimit c (eol ++ data) eof =
      meaning (getPkgLimit pkgLimit) (.headers false p drained count) (eol ++ data) eof := by
    intro data eof
    rw [receives_eq h trivial, used, nil_append]
  simp only [headersEnd_contentLength _ noEncoding declared ne digits] at moved
  split
  · rename_i tooLong
    intro data eof
    have failed : step (getPkgLimit pkgLimit) (.headers false p drained count) (eol ++ data) =
        .fail := by
      rw [moved]
      split
      · rfl
      · rename_i within
        obtain ⟨positive, tooLong⟩ := tooLong.resolve_left within
        rw [if_pos positive, if_pos (by omega)]
    rw [means, meaning, run_fail failed]
    rfl
  · rename_i within
    obtain ⟨line_within, within⟩ := not_or.mp within
    intro data eof
    have run : (httpMachine (getPkgLimit pkgLimit)).run (.headers false p drained count)
        (eol ++ data) =
        (httpMachine (getPkgLimit pkgLimit)).run (.lengthBody p (contentLeft (numeral 10 v))) data := by
      have moved := moved data
      rw [if_neg line_within] at moved
      split at moved
      · rename_i e
        split_ifs at e
        omega
      · rename_i e
        rw [run_take moved, drop_left]
        split_ifs at e with positive
        · cases e
          rfl
        · cases e
          rw [run_emptyBody, Nat.eq_zero_of_not_pos positive]
    rw [means, meaning_lengthBody run]
    split
    · rw [receives_eq (stands_start pkgLimit _ _) trivial]
      rfl
    · rfl

theorem bodyHonoured_iff :
    BodyHonoured pkgLimit c p eol (numeral 10 v) ↔ numeral 10 v < 2 ^ 31 ∨
      getPkgLimit pkgLimit < drained + eol.length ∨ (0 < contentLeft (numeral 10 v) ∧
        getPkgLimit pkgLimit < drained + eol.length + contentLeft (numeral 10 v)) := by
  rw [← contentLeft_eq_iff]
  exact rejected_or_delivers_iff (body_delivered h used noEncoding declared ne digits line)
    DeliversBody.unique DeliversBody.not_rejected

end ContentLength

/-! ### Sizes of chunks -/

section ChunkSize

variable {limit pkgLimit : Nat} {p : HTTPPacket} {c : Reading HTTPPacket HTTPFields}
  {digits ext eol : List UInt8}

/-- What is left of the size of a chunk. From 2 ^ 31 on, it is a negative `int`. -/
def chunkLeft (n : Nat) : Nat := min n (2 ^ 64 - 1) % 2 ^ 32

/-- What may stand between the size of a chunk and the end of its line. -/
def Extension (ext : List UInt8) : Prop := ext = [] ∨ ext.head? = some 59

theorem not_isWhiteSpace_of_isxdigit (x : UInt8) : isxdigit x → isWhiteSpace x = false := by
  revert x
  apply forall_byte
  decide +kernel

theorem scanChunkSize_digits (ne : digits ≠ []) (all : ∀ x ∈ digits, isxdigit x)
    (extension : Extension ext) :
    ((scanChunkSize (skipWhiteSpaces (digits ++ ext))).1 =
        (BitVec.ofNat 32 (min (numeral 16 digits) (2 ^ 64 - 1))).toInt) ∧
      ((scanChunkSize (skipWhiteSpaces (digits ++ ext))).2 = 0 ∨
        (scanChunkSize (skipWhiteSpaces (digits ++ ext))).2 = 59) := by
  have skipped : skipWhiteSpaces (digits ++ ext) = digits ++ ext := by
    cases digits with
    | nil => exact absurd rfl ne
    | cons x xs =>
      rw [skipWhiteSpaces, cons_append, dropWhile_cons_of_neg]
      rw [not_isWhiteSpace_of_isxdigit x (all x mem_cons_self)]
      exact Bool.false_ne_true
  have next : (cstr ext) = [] ∨ (cstr ext).head? = some 59 := by
    rcases extension with rfl | first
    · exact .inl rfl
    · cases ext with
      | nil => cases first
      | cons x xs =>
        cases first
        exact .inr rfl
  have ends : Ends (cstr ext) := by
    intro x hx
    rcases next with e | e
    · rw [e] at hx
      cases hx
    · rw [e] at hx
      cases hx
      decide
  rw [skipped, scanChunkSize, scanHex_digits ne all ends]
  refine ⟨rfl, ?_⟩
  rcases next with e | e
  · rw [e]
    exact .inl rfl
  · right
    cases h : cstr ext with
    | nil =>
      rw [h] at e
      cases e
    | cons x xs =>
      rw [h] at e
      cases e
      rfl

theorem sizeLine_digits (ne : digits ≠ []) (all : ∀ x ∈ digits, isxdigit x)
    (extension : Extension ext) (drained count length : Nat) :
    sizeLine limit p drained count (digits ++ ext) length =
      if 2 ^ 31 ≤ chunkLeft (numeral 16 digits) then none
      else if chunkLeft (numeral 16 digits) = 0 then
        some (.headers true p (drained + length) count)
      else if drained + length + chunkLeft (numeral 16 digits) > limit then none
      else some (.chunkData p (chunkLeft (numeral 16 digits)) (drained + length) count) := by
  obtain ⟨size, behind⟩ := scanChunkSize_digits ne all extension
  have fine : ¬ ((scanChunkSize (skipWhiteSpaces (digits ++ ext))).2 ≠ 0 ∧
      (scanChunkSize (skipWhiteSpaces (digits ++ ext))).2 ≠ 59) := by
    rintro ⟨other, other'⟩
    exact behind.elim other other'
  rw [toInt_ofNat_wrapped] at size
  have negative : (scanChunkSize (skipWhiteSpaces (digits ++ ext))).1 < 0 ↔
      2 ^ 31 ≤ chunkLeft (numeral 16 digits) := by
    rw [size]
    unfold chunkLeft
    split_ifs <;> omega
  have left : ¬ 2 ^ 31 ≤ chunkLeft (numeral 16 digits) →
      (scanChunkSize (skipWhiteSpaces (digits ++ ext))).1.toNat = chunkLeft (numeral 16 digits) := by
    intro small
    rw [size]
    unfold chunkLeft at small ⊢
    rw [if_pos (not_le.mp small), Int.toNat_natCast]
  simp only [sizeLine, fine, or_false, negative]
  by_cases large : 2 ^ 31 ≤ chunkLeft (numeral 16 digits)
  · rw [if_pos large, if_pos large]
  · rw [if_neg large, if_neg large, left large]

/-- The line with the size of a chunk, as the parser finds it. -/
theorem findCRLF_sizeLine (all : ∀ x ∈ digits, isxdigit x) (extension : Extension ext)
    (no_end : 10 ∉ ext) (line : LineEnd eol) (data : List UInt8) :
    ∃ ext', Extension ext' ∧ findCRLF (digits ++ ext ++ eol ++ data) =
      some (digits ++ ext', (digits ++ ext ++ eol).length) := by
  have notLF : 10 ∉ digits ++ ext := by
    intro h
    rcases mem_append.mp h with h | h
    · exact absurd (all 10 h) (by decide)
    · exact no_end h
  rcases line with rfl | rfl
  · rw [append_assoc _ [10], singleton_append, findCRLF_of_not_mem _ notLF]
    split
    · rename_i last
      refine ⟨ext.dropLast, ?_, ?_⟩
      · rcases extension with rfl | first
        · exact .inl rfl
        · cases ext with
          | nil => cases first
          | cons x xs =>
            cases first
            cases xs with
            | nil =>
              rw [getLast?_append] at last
              cases last
            | cons y ys => exact .inr rfl
      · have ne : ext ≠ [] := by
          rintro rfl
          rw [append_nil] at last
          have := all 13 (mem_of_getLast? last)
          exact absurd this (by decide)
        rw [dropLast_append_of_ne_nil ne]
        simp only [length_append, length_singleton]
    · refine ⟨ext, extension, ?_⟩
      simp only [length_append, length_singleton]
  · have split : digits ++ ext ++ [13, 10] ++ data = digits ++ ext ++ [13] ++ 10 :: data := by simp
    have notLF' : 10 ∉ digits ++ ext ++ [13] := by
      rw [mem_append]
      rintro (h | h)
      · exact notLF h
      · exact absurd h (by decide)
    rw [split, findCRLF_of_not_mem _ notLF', if_pos (by rw [getLast?_concat]), dropLast_concat]
    refine ⟨ext, extension, ?_⟩
    simp only [length_append, length_cons, length_nil]

theorem DeliversChunk.unique {line : List UInt8} {size size' : Nat}
    (h : DeliversChunk pkgLimit c p line size) (h' : DeliversChunk pkgLimit c p line size') :
    size = size' := by
  -- behind as many bytes as the smaller size, only one of them still expects data
  have smaller : ∀ {m n}, DeliversChunk pkgLimit c p line m → DeliversChunk pkgLimit c p line n →
      ¬ m < n := by
    intro m n hm hn less
    have length : (replicate m (0 : UInt8)).length = m := length_replicate
    obtain ⟨-, -, -, here⟩ := hm (replicate m 0) length.le
    obtain ⟨-, -, -, there⟩ := hn (replicate m 0) (length.le.trans less.le)
    rw [length] at here there
    exact lt_irrefl m (here.mp (there.mpr less))
  exact le_antisymm (not_lt.mp (smaller h' h)) (not_lt.mp (smaller h h'))

theorem DeliversChunk.not_rejected {line : List UInt8} {size : Nat}
    (h : DeliversChunk pkgLimit c p line size) :
    ¬ ∀ data, ((readData (streamer pkgLimit)).feed (line ++ data) c).items = [] ∧
      ((readData (streamer pkgLimit)).feed (line ++ data) c).halted = true := by
  intro rejected
  obtain ⟨-, running, -⟩ := h [] (Nat.zero_le _)
  cases running.symm.trans (rejected []).2

/-- Data of a chunk as far as it goes: the body grows by it, and the chunk is still open if and
only if bytes are missing. -/
theorem run_chunk_data (left drained count : Nat) {data : List UInt8} (enough : data.length ≤ left)
    (positive : 0 < left) :
    ∃ phase, (httpMachine limit).run (.chunkData p left drained count) data =
        ⟨[], phase, [], false⟩ ∧
      ∀ context : HTTPStreamingContext, context.Shows phase →
        context.packet = some (p.appendBody data) ∧
          (context.ext.chunkState = .chunkData ↔ data.length < left) := by
  have reach := reaches_chunkData limit p left drained count data
  split at reach
  · rename_i full
    obtain rfl : data.length = left := le_antisymm enough full
    rw [take_length, drop_length] at reach
    refine ⟨_, reach.run.trans (run_wait rfl), ?_⟩
    rintro context ⟨held, -, -, chunkState, -⟩
    rw [chunkState]
    exact ⟨held, nofun, fun less => absurd less (lt_irrefl _)⟩
  · rename_i missing
    refine ⟨_, reach.run.trans (run_wait (if_neg (by omega))), ?_⟩
    rintro context ⟨held, -, -, chunkState, -⟩
    exact ⟨held, fun _ => not_le.mp missing, fun _ => chunkState⟩

variable {drained count : Nat}
  (h : Stands (getPkgLimit pkgLimit) c (.chunkSize p drained count))
  (used : c.input.unread = []) (ne : digits ≠ []) (all : ∀ x ∈ digits, isxdigit x)
  (extension : Extension ext) (no_end : 10 ∉ ext) (line : LineEnd eol)

include h used ne all extension no_end line

theorem chunk_delivered :
    if 2 ^ 31 ≤ chunkLeft (numeral 16 digits) ∨
        getPkgLimit pkgLimit < drained + (digits ++ ext ++ eol).length ∨
        (0 < chunkLeft (numeral 16 digits) ∧ getPkgLimit pkgLimit <
          drained + (digits ++ ext ++ eol).length + chunkLeft (numeral 16 digits)) then
      ∀ data, ((readData (streamer pkgLimit)).feed (digits ++ ext ++ eol ++ data) c).items = [] ∧
        ((readData (streamer pkgLimit)).feed (digits ++ ext ++ eol ++ data) c).halted = true
    else
      DeliversChunk pkgLimit c p (digits ++ ext ++ eol) (chunkLeft (numeral 16 digits)) := by
  have reports : ∀ data, Reports (getPkgLimit pkgLimit)
      ((httpMachine (getPkgLimit pkgLimit)).run (.chunkSize p drained count)
        (digits ++ ext ++ eol ++ data))
      ((readData (streamer pkgLimit)).feed (digits ++ ext ++ eol ++ data) c) := by
    intro data
    have some_byte : digits ++ ext ++ eol ++ data ≠ [] := by simp [ne]
    have := feed_at h some_byte
    rwa [used, nil_append] at this
  have moved : ∀ data, step (getPkgLimit pkgLimit) (.chunkSize p drained count)
      (digits ++ ext ++ eol ++ data) =
      if drained + (digits ++ ext ++ eol).length > getPkgLimit pkgLimit then .fail
      else decided (digits ++ ext ++ eol).length
        (if 2 ^ 31 ≤ chunkLeft (numeral 16 digits) then none
          else if chunkLeft (numeral 16 digits) = 0 then
            some (.headers true p (drained + (digits ++ ext ++ eol).length) count)
          else if drained + (digits ++ ext ++ eol).length + chunkLeft (numeral 16 digits) >
              getPkgLimit pkgLimit then none
          else some (.chunkData p (chunkLeft (numeral 16 digits))
            (drained + (digits ++ ext ++ eol).length) count)) := by
    intro data
    obtain ⟨ext', extension', found⟩ := findCRLF_sizeLine all extension no_end line data
    simp only [step, onLine, found, sizeLine_digits ne all extension']
    exact rfl
  unfold decided at moved
  generalize length : (digits ++ ext ++ eol).length = n at moved
  split
  · rename_i tooLong
    intro data
    have failed : step (getPkgLimit pkgLimit) (.chunkSize p drained count)
        (digits ++ ext ++ eol ++ data) = .fail := by
      rw [moved]
      split
      · rfl
      · rename_i within
        split
        · rfl
        · rename_i e
          split_ifs at e with negative zero large
          · omega
          · omega
    have reports := reports data
    rw [run_fail failed] at reports
    exact ⟨reports.items, reports.halted⟩
  · rename_i within
    intro data enough
    have reports := reports data
    have moved := moved data
    rw [if_neg (by omega), if_neg (by omega)] at moved
    -- no data for the last chunk, otherwise some of the data
    have shown : ∃ phase, (httpMachine (getPkgLimit pkgLimit)).run (.chunkSize p drained count)
          (digits ++ ext ++ eol ++ data) = ⟨[], phase, [], false⟩ ∧
        ∀ context : HTTPStreamingContext, context.Shows phase →
          context.packet = some (p.appendBody data) ∧ (context.ext.chunkState = .chunkData ↔
            data.length < chunkLeft (numeral 16 digits)) := by
      by_cases zero : chunkLeft (numeral 16 digits) = 0
      · rw [if_pos zero] at moved
        obtain rfl : data = [] := eq_nil_of_length_eq_zero (by omega)
        have waits : step (getPkgLimit pkgLimit) (.headers true p (drained + n) count) [] = .wait :=
          if_neg (by simp only [length_nil]; omega)
        rw [run_take moved, drop_left' length]
        refine ⟨_, run_wait waits, ?_⟩
        rintro context ⟨held, -, -, chunkState, -⟩
        rw [chunkState, zero, HTTPPacket.appendBody_nil]
        exact ⟨held, fun e => (by cases e), fun less => absurd less (Nat.not_lt_zero _)⟩
      · rw [if_neg zero, if_neg (by omega)] at moved
        rw [run_take moved, drop_left' length]
        exact run_chunk_data _ (drained + n) count enough (Nat.pos_of_ne_zero zero)
    obtain ⟨phase, run, shown⟩ := shown
    rw [run] at reports
    exact ⟨reports.items, reports.halted, shown _ (reports.stands rfl).showing⟩

theorem chunkHonoured_iff :
    ChunkHonoured pkgLimit c p (digits ++ ext ++ eol) (numeral 16 digits) ↔
      numeral 16 digits < 2 ^ 31 ∨ 2 ^ 31 ≤ chunkLeft (numeral 16 digits) ∨
        getPkgLimit pkgLimit < drained + (digits ++ ext ++ eol).length ∨
        (0 < chunkLeft (numeral 16 digits) ∧ getPkgLimit pkgLimit <
          drained + (digits ++ ext ++ eol).length + chunkLeft (numeral 16 digits)) := by
  refine (rejected_or_delivers_iff (chunk_delivered h used ne all extension no_end line)
    DeliversChunk.unique DeliversChunk.not_rejected).trans (or_congr_left' fun within => ?_)
  have small := (not_or.mp within).1
  unfold chunkLeft at small ⊢
  omega

end ChunkSize

/-- In any state that the read loop can stop in, behind the headers of a message or before the
size of a chunk: the declared length is honoured if and only if it is below 2 ^ 31, or the parser
rejects what is left of it, because it is negative or over the limit. -/
theorem declared_lengths_honoured_iff (pkgLimit : Nat) (slack : Nat → UInt8)
    (pieces : List (List UInt8)) (nonempty : ∀ piece ∈ pieces, piece ≠ []) {p : HTTPPacket}
    {c : Reading HTTPPacket HTTPFields} {items : List HTTPPacket}
    (reached : (readData (streamer pkgLimit)).feedAll pieces (start (streamer pkgLimit) slack) =
      ⟨items, c, false⟩)
    (used : c.input.unread = []) (held : c.context.packet = some p) :
    (∀ v eol : List UInt8, c.context.ext.step = .messageHeader →
      p.getHeader (ascii "Transfer-Encoding") = none →
      p.getHeader (ascii "Content-Length") = some v → v ≠ [] → (∀ x ∈ v, isdigit x) → LineEnd eol →
      (BodyHonoured pkgLimit c p eol (numeral 10 v) ↔
        numeral 10 v < 2 ^ 31 ∨
        getPkgLimit pkgLimit < c.context.ext.drainedLength + eol.length ∨
        (0 < contentLeft (numeral 10 v) ∧ getPkgLimit pkgLimit <
          c.context.ext.drainedLength + eol.length + contentLeft (numeral 10 v)))) ∧
    ∀ digits ext eol : List UInt8, c.context.ext.step = .messageBody →
      c.context.ext.encodingType = .chunked → c.context.ext.chunkState = .chunkSize →
      digits ≠ [] → (∀ x ∈ digits, isxdigit x) → Extension ext → 10 ∉ ext → LineEnd eol →
      (ChunkHonoured pkgLimit c p (digits ++ ext ++ eol) (numeral 16 digits) ↔
        numeral 16 digits < 2 ^ 31 ∨ 2 ^ 31 ≤ chunkLeft (numeral 16 digits) ∨
        getPkgLimit pkgLimit <
          c.context.ext.drainedLength + (digits ++ ext ++ eol).length ∨
        (0 < chunkLeft (numeral 16 digits) ∧ getPkgLimit pkgLimit <
          c.context.ext.drainedLength + (digits ++ ext ++ eol).length +
            chunkLeft (numeral 16 digits))) := by
  obtain ⟨phase, stands⟩ := stands_feedAll (stands_start pkgLimit (getPkgLimit pkgLimit) slack)
    nonempty (congrArg (·.halted) reached)
  rw [reached] at stands
  constructor
  · intro v eol header noEncoding declared ne digits line
    rw [phase_of_header stands header held] at stands
    exact bodyHonoured_iff stands used noEncoding declared ne digits line
  · intro digits ext eol body chunked chunkState ne all extension no_end line
    rw [phase_of_chunkSize stands body chunked chunkState held] at stands
    exact chunkHonoured_iff stands used ne all extension no_end line

theorem declared_lengths_honoured_five :
    let r := (readData (streamer 0)).feedAll [ascii "POST / HTTP/1.1\r\nContent-Length: 5\r\n"]
      (start (streamer 0) fun _ => 0)
    BodyHonoured 0 r.state (r.state.context.packet.getD {}) [13, 10] 5 := by
  intro r
  have reached : r = ⟨r.items, r.state, false⟩ := by
    have running : r.halted = false := by decide +kernel
    rw [← running]
  have held : r.state.context.packet = some (r.state.context.packet.getD {}) := by decide +kernel
  refine ((declared_lengths_honoured_iff 0 (fun _ => 0) _ (by decide) reached (by decide +kernel)
    held).1 (ascii "5") [13, 10] ?_ ?_ ?_ ?_ ?_ (.inr rfl)).mpr (.inl (by decide))
  · decide +kernel
  · decide +kernel
  · decide +kernel
  · decide
  · decide +kernel

/-- A body of 4294967296 bytes is declared in two ways, and both messages end with no body. -/
theorem declared_lengths_cut_down :
    numeral 10 (ascii "4294967296") = 4294967296 ∧
    (receives 0 (start (streamer 0) fun _ => 0)
      (ascii "POST / HTTP/1.1\r\nContent-Length: 4294967296\r\n\r\n") false).1.map (·.body) =
        [[]] ∧
    numeral 16 (ascii "100000000") = 4294967296 ∧
    (receives 0 (start (streamer 0) fun _ => 0)
      (ascii "POST / HTTP/1.1\r\nTransfer-Encoding: chunked\r\n\r\n100000000\r\n\r\n")
        false).1.map (·.body) = [[]] := by
  decide +kernel

end HTTPMachine

end AgentEngine.Anet
