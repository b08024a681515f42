import AgentEngine.Anet.HttpRefinement

/-!
`HTTPStreamer` follows the machine through the bodies of messages, and `processData` as a whole
gets to where the machine gets (`advance_at`).
-/

namespace AgentEngine.Anet

open Lib List DataBuffer

namespace HTTPMachine

open HTTPStreamer HTTPStreamingContext

variable {limit : Nat} {b : DataBuffer} {c : HTTPStreamingContext} {eof : Bool} {s₀ : HTTPPhase}
  {bytes : List UInt8}

/-! ### Bodies -/

/-- Data of known length: the machine takes it byte by byte. -/
theorem reaches_data (limit : Nat) (full : List UInt8 → HTTPPhase)
    (taking : List UInt8 → Nat → HTTPPhase)
    (steps : ∀ xs left data, step limit (taking xs left) data =
      onData left data (full xs) fun c => taking (xs ++ [c]) (left - 1))
    (xs : List UInt8) (left : Nat) (data : List UInt8) :
    if left ≤ data.length then
      (httpMachine limit).Reaches (taking xs left) data (full (xs ++ data.take left))
        (data.drop left)
    else
      (httpMachine limit).Reaches (taking xs left) data (taking (xs ++ data) (left - data.length))
        [] := by
  induction left generalizing xs data with
  | zero =>
    have moved := steps xs 0 data
    rw [onData, if_pos rfl] at moved
    rw [if_pos (Nat.zero_le _), take_zero, append_nil]
    exact .take moved (.refl _ _)
  | succ left ih =>
    cases data with
    | nil =>
      rw [length_nil, if_neg (Nat.not_succ_le_zero left), append_nil]
      exact .refl _ _
    | cons x data =>
      have moved := steps xs (left + 1) (x :: data)
      rw [onData, if_neg (Nat.succ_ne_zero _)] at moved
      have later := ih (xs ++ [x]) data
      simp only [append_assoc, singleton_append] at later
      simp only [length_cons, Nat.add_le_add_iff_right, Nat.add_sub_add_right,
        take_succ_cons, drop_succ_cons]
      split at later
      · rename_i enough
        rw [if_pos enough]
        exact .take moved later
      · rename_i few
        rw [if_neg few]
        exact .take moved later

theorem reaches_lengthBody (limit : Nat) (p : HTTPPacket) (left : Nat) (data : List UInt8) :
    if left ≤ data.length then
      (httpMachine limit).Reaches (.lengthBody p left) data
        (.complete (p.appendBody (data.take left))) (data.drop left)
    else
      (httpMachine limit).Reaches (.lengthBody p left) data
        (.lengthBody (p.appendBody data) (left - data.length)) [] := by
  have := reaches_data limit (fun xs => .complete (p.appendBody xs))
    (fun xs left => .lengthBody (p.appendBody xs) left)
    (by simp only [step, HTTPPacket.appendBody_appendBody, implies_true]) [] left data
  rwa [HTTPPacket.appendBody_nil] at this

theorem reaches_chunkData (limit : Nat) (p : HTTPPacket) (left drained count : Nat)
    (data : List UInt8) :
    if left ≤ data.length then
      (httpMachine limit).Reaches (.chunkData p left drained count) data
        (.chunkEnd (p.appendBody (data.take left)) false (drained + left) count) (data.drop left)
    else
      (httpMachine limit).Reaches (.chunkData p left drained count) data
        (.chunkData (p.appendBody data) (left - data.length) (drained + data.length) count) [] := by
  have := reaches_data limit
    (fun xs => .chunkEnd (p.appendBody xs) false (drained + xs.length) count)
    (fun xs left => .chunkData (p.appendBody xs) left (drained + xs.length) count)
    (by
      intro xs left data
      simp only [step, HTTPPacket.appendBody_appendBody, length_append, length_singleton,
        add_assoc]) [] left data
  simp only [HTTPPacket.appendBody_nil, nil_append, length_nil, Nat.add_zero] at this
  split at this
  · rename_i enough
    rw [length_take_of_le enough] at this
    rwa [if_pos enough]
  · rename_i few
    rwa [if_neg few]

theorem reaches_eofBody (limit : Nat) (p : HTTPPacket) (data : List UInt8) :
    (httpMachine limit).Reaches (.eofBody p) data (.eofBody (p.appendBody data)) [] := by
  induction data generalizing p with
  | nil =>
    rw [HTTPPacket.appendBody_nil]
    exact .refl _ _
  | cons x data ih =>
    have later := ih (p.appendBody [x])
    rw [HTTPPacket.appendBody_appendBody, singleton_append] at later
    exact .take (n := 1) rfl later

variable {p : HTTPPacket}

theorem processLengthBody_at {left : Nat} (h : At limit eof s₀ bytes b c (.lengthBody p left)) :
    Follows limit eof s₀ bytes (processLengthBody b c) := by
  obtain ⟨held, hstep, encodingType, dataLength⟩ := h.showing
  have reach := reaches_lengthBody limit p left b.unread
  simp only [processLengthBody, dataLength, ge_iff_le]
  split at reach
  · rename_i enough
    rw [if_pos enough]
    refine .complete (p := p.appendBody (b.unread.take left)) ?_ (drainData_inside b left)
      ?_ ?_
    · exact ⟨h.intact.broken, h.intact.completed, h.intact.eof⟩
    · simp only [addDrained, modifyPacket, held, Option.map_some]
    · rw [unread_drainData]
      exact h.reach.trans reach
  · rename_i few
    rw [if_neg few]
    refine .waits (.lengthBody (p.appendBody b.unread) (left - b.unread.length)) ?_
      b.clear_inside ?_ ?_ ?_
    · exact ⟨h.intact.broken, h.intact.completed, h.intact.eof⟩
    · refine ⟨?_, hstep, encodingType, rfl⟩
      simp only [addDrained, setDataLength, modifyPacket, held, Option.map_some]
    · rw [unread_clear]
      exact h.reach.trans reach
    · rw [unread_clear]
      exact if_neg (by omega)

theorem processEOFBody_at (h : At limit eof s₀ bytes b c (.eofBody p)) :
    Follows limit eof s₀ bytes (processEOFBody b c) := by
  obtain ⟨held, hstep, encodingType⟩ := h.showing
  have reach := h.reach.trans (reaches_eofBody limit p b.unread)
  rw [← b.unread_clear] at reach
  have holds : (c.modifyPacket (·.appendBody b.unread)).packet = some (p.appendBody b.unread) := by
    simp only [modifyPacket, held, Option.map_some]
  have intact : (c.modifyPacket (·.appendBody b.unread)).Intact eof :=
    ⟨h.intact.broken, h.intact.completed, h.intact.eof⟩
  rw [processEOFBody, h.intact.eof]
  cases end_ : eof with
  | true =>
    subst end_
    exact .closes intact b.clear_inside rfl holds reach b.unread_clear
  | false =>
    subst end_
    refine .waits (.eofBody (p.appendBody b.unread)) intact b.clear_inside
      ⟨holds, hstep, encodingType⟩ reach ?_
    rw [unread_clear]
    rfl

/-! ### Chunked bodies -/

/-- The phases that a round of the loop over the chunks can start in. -/
def InChunks : HTTPPhase → Prop
  | .headers true .. | .chunkSize .. | .chunkData .. | .chunkEnd _ false .. => True
  | _ => False

/-- A part of a chunk was complete, and the loop goes on with the context that `f` makes; or the
loop is left. -/
def PartAt (limit : Nat) (eof : Bool) (s₀ : HTTPPhase) (bytes : List UInt8)
    (f : HTTPStreamingContext → HTTPStreamingContext)
    (r : Bool × DataBuffer × HTTPStreamingContext) : Prop :=
  (r.1 = true → ∃ phase, InChunks phase ∧ At limit eof s₀ bytes r.2.1 (f r.2.2) phase) ∧
    (r.1 = false → Follows limit eof s₀ bytes r)

variable {f : HTTPStreamingContext → HTTPStreamingContext}

theorem PartAt.again (phase : HTTPPhase)
    (chunks : InChunks phase) (h : At limit eof s₀ bytes b (f c) phase) :
    PartAt limit eof s₀ bytes f (true, b, c) := ⟨fun _ => ⟨phase, chunks, h⟩, nofun⟩

theorem PartAt.leave
    (h : Follows limit eof s₀ bytes (false, b, c)) : PartAt limit eof s₀ bytes f (false, b, c) :=
  ⟨nofun, fun _ => h⟩

variable {drained count : Nat}

theorem processChunkSize_at (h : At limit eof s₀ bytes b c (.chunkSize p drained count)) :
    PartAt limit eof s₀ bytes id (processChunkSize limit b c) := by
  obtain ⟨held, hstep, encodingType, chunkState, same, counted⟩ := h.showing
  unfold processChunkSize
  rw [same]
  cases found : findCRLF b.unread with
  | none =>
    by_cases long : b.unread.length + drained > limit
    · rw [if_pos long]
      refine .leave (h.fail ?_ rfl)
      simp only [step, onLine, found, if_pos long]
    · rw [if_neg long]
      refine .leave (h.wait ?_)
      simp only [step, onLine, found, if_neg long]
  | some lineEnd =>
    obtain ⟨line, length⟩ := lineEnd
    dsimp only
    by_cases long : drained + length > limit
    · rw [if_pos long]
      refine .leave (h.fail ?_ rfl)
      simp only [step, onLine, found, if_pos long]
    rw [if_neg long]
    have moved : step limit (.chunkSize p drained count) b.unread =
        decided length (sizeLine limit p drained count line length) := by
      simp only [step, onLine, found]
      exact if_neg long
    unfold decided at moved
    simp only [sizeLine] at moved
    simp only [chunkSizeLine, setDataLength, addDrained, same]
    by_cases bad : (scanChunkSize (skipWhiteSpaces line)).1 < 0 ∨
        ((scanChunkSize (skipWhiteSpaces line)).2 ≠ 0 ∧
          (scanChunkSize (skipWhiteSpaces line)).2 ≠ 59)
    · rw [if_pos bad] at moved ⊢
      exact .leave (h.fail moved rfl)
    rw [if_neg bad] at moved ⊢
    by_cases last : (scanChunkSize (skipWhiteSpaces line)).1.toNat = 0
    · rw [if_pos last] at moved ⊢
      refine .again (.headers true p (drained + length) count) trivial (h.take moved
        (unread_drainData b length) (drainData_inside b length) ?_ ?_)
      · exact ⟨h.intact.broken, h.intact.completed, h.intact.eof⟩
      · exact ⟨held, hstep, encodingType, rfl, rfl, counted⟩
    rw [if_neg last] at moved ⊢
    by_cases large : drained + length + (scanChunkSize (skipWhiteSpaces line)).1.toNat > limit
    · rw [if_pos large] at moved ⊢
      exact .leave (h.fail moved rfl)
    · rw [if_neg large] at moved ⊢
      refine .again (.chunkData p _ (drained + length) count) trivial (h.take moved
        (unread_drainData b length) (drainData_inside b length) ?_ ?_)
      · exact ⟨h.intact.broken, h.intact.completed, h.intact.eof⟩
      · exact ⟨held, hstep, encodingType, rfl, rfl, rfl, counted⟩

theorem chunkData_at {left drained count : Nat}
    (h : At limit eof s₀ bytes b c (.chunkData p left drained count)) :
    PartAt limit eof s₀ bytes (·.setChunkState .chunkDataCRLF) (processLengthBody b c) := by
  obtain ⟨held, hstep, encodingType, chunkState, dataLength, same, counted⟩ := h.showing
  have reach := reaches_chunkData limit p left drained count b.unread
  simp only [processLengthBody, dataLength, ge_iff_le]
  split at reach
  · rename_i enough
    rw [if_pos enough]
    refine .again (.chunkEnd (p.appendBody (b.unread.take left)) false (drained + left) count)
      trivial ⟨?_, drainData_inside b left, ?_, ?_⟩
    · exact ⟨h.intact.broken, h.intact.completed, h.intact.eof⟩
    · refine ⟨?_, hstep, encodingType, rfl, congrArg (· + left) same, counted⟩
      simp only [setChunkState, addDrained, modifyPacket, held, Option.map_some]
    · rw [unread_drainData]
      exact h.reach.trans reach
  · rename_i few
    rw [if_neg few]
    refine .leave (.waits (.chunkData (p.appendBody b.unread) (left - b.unread.length)
      (drained + b.unread.length) count) ?_ b.clear_inside ?_ ?_ ?_)
    · exact ⟨h.intact.broken, h.intact.completed, h.intact.eof⟩
    · refine ⟨?_, hstep, encodingType, chunkState, rfl, congrArg (· + b.unread.length) same, counted⟩
      simp only [addDrained, setDataLength, modifyPacket, held, Option.map_some]
    · rw [unread_clear]
      exact h.reach.trans reach
    · rw [unread_clear]
      exact if_neg (by omega)

/-- A carriage return without its line feed is dropped; the machine then has seen it. -/
theorem getCRLF_at (h : At limit eof s₀ bytes b c (.chunkEnd p false drained count)) :
    PartAt limit eof s₀ bytes (·.setChunkState .chunkSize) (getCRLF b c) := by
  obtain ⟨held, hstep, encodingType, chunkState, same, counted⟩ := h.showing
  have intact : ∀ n, (c.addDrained n).Intact eof :=
    fun n => ⟨h.intact.broken, h.intact.completed, h.intact.eof⟩
  have next : ∀ n, ((c.addDrained n).setChunkState .chunkSize).Shows
      (.chunkSize p (drained + n) count) :=
    fun n => ⟨held, hstep, encodingType, rfl, congrArg (· + n) same, counted⟩
  -- the first byte decides, if it is not a carriage return
  have lineFeed : ∀ rest, b.unread = 10 :: rest →
      PartAt limit eof s₀ bytes (·.setChunkState .chunkSize) (true, b.drainData 1, c.addDrained 1) := by
    intro rest e
    refine .again (.chunkSize p (drained + 1) count) trivial (h.take (n := 1) ?_
      (unread_drainData b 1) (drainData_inside b 1) ?_ (next 1))
    · rw [e]
      rfl
    · exact ⟨h.intact.broken, h.intact.completed, h.intact.eof⟩
  have other : ∀ x rest, b.unread = x :: rest → x ≠ 10 → x ≠ 13 →
      PartAt limit eof s₀ bytes (·.setChunkState .chunkSize) (false, b, c.setErrorNo .invalidData) := by
    intro x rest e notLF notCR
    refine .leave (h.fail ?_ rfl)
    simp only [step, onByte, e, endByte, if_neg notLF, notCR, false_and, if_false]
  -- with a carriage return, the machine takes the second byte from here
  have second : ∀ rest, b.unread = 13 :: rest →
      (httpMachine limit).Reaches s₀ bytes (.chunkEnd p true (drained + 1) count) rest := by
    intro rest e
    have reach := h.reach
    rw [e] at reach
    exact reach.step (n := 1) rfl
  unfold getCRLF
  split
  · rename_i e
    refine .leave (h.wait ?_)
    rw [e]
    rfl
  · rename_i x e
    split_ifs with isLF notCR
    · subst isLF
      exact lineFeed _ e
    · exact other x _ e isLF notCR
    · obtain rfl : x = 13 := not_not.mp notCR
      refine .leave (.waits (.chunkEnd p true (drained + 1) count) (intact 1) b.clear_inside
        ?_ ?_ ?_)
      · exact ⟨held, hstep, encodingType, chunkState, congrArg (· + 1) same, counted⟩
      · rw [unread_clear]
        exact second _ e
      · rw [unread_clear]
        rfl
  · rename_i x y rest e
    split_ifs with isLF both
    · subst isLF
      exact lineFeed _ e
    · obtain ⟨rfl, rfl⟩ := both
      refine .again (.chunkSize p (drained + 2) count) trivial
        ⟨⟨h.intact.broken, h.intact.completed, h.intact.eof⟩, drainData_inside b 2, next 2, ?_⟩
      rw [show (b.drainData 2).unread = b.unread.drop 2 from unread_drainData b 2, e]
      exact (second _ e).step (n := 1) rfl
    · by_cases isCR : x = 13
      · subst isCR
        have notLF : y ≠ 10 := fun isLF => both ⟨rfl, isLF⟩
        have failed : step limit (.chunkEnd p true (drained + 1) count) (y :: rest) = .fail := by
          simp only [step, onByte, endByte, if_neg notLF, Bool.true_eq_false, and_false, if_false]
        exact .leave (.broken rfl (second _ e) failed)
      · exact other x _ e isLF isCR

theorem withHeaders_self (held : c.packet = some p)
    (same : c.ext.drainedLength = drained) (counted : c.ext.headersCount = count) :
    withHeaders c p drained count = c := by
  subst same counted
  simp only [withHeaders, ← held]

theorem trailer_at (h : At limit eof s₀ bytes b c (.headers true p drained count)) :
    Follows limit eof s₀ bytes (processHeadersOrTrailers limit b c) := by
  obtain ⟨held, hstep, encodingType, chunkState, same, counted⟩ := h.showing
  have at_ := processHeadersOrTrailers_at limit true c p drained count h.inside h.reach
  rw [withHeaders_self held same counted] at at_
  have intact : ∀ p drained count, (withHeaders c p drained count).Intact eof :=
    fun p drained count => ⟨h.intact.broken, h.intact.completed, h.intact.eof⟩
  generalize processHeadersOrTrailers limit b c = r at at_
  cases at_ with
  | broken broken reach failed => exact .broken broken reach failed
  | rejected p drained count bad => cases bad
  | ended p drained count inside next reach =>
    cases next
    exact .complete (intact p drained count) inside rfl reach
  | waits p drained count inside reach waits =>
    exact .waits (.headers true p drained count) (intact p drained count) inside
      ⟨rfl, hstep, encodingType, chunkState, rfl, rfl⟩ reach waits

/-- The loop over the chunks is where the machine is. -/
def GoesOn (limit : Nat) (eof : Bool) (s₀ : HTTPPhase) (bytes : List UInt8)
    (s : DataBuffer × HTTPStreamingContext) : Prop :=
  ∃ phase, InChunks phase ∧ At limit eof s₀ bytes s.1 s.2 phase

theorem PartAt.sat
    {r : Bool × DataBuffer × HTTPStreamingContext} (h : PartAt limit eof s₀ bytes f r) :
    (nextPart r f).Sat (GoesOn limit eof s₀ bytes) (Follows limit eof s₀ bytes) :=
  nextPart_sat h.1 h.2

variable {phase : HTTPPhase}

/-- A round of the loop over the chunks works on a part of a chunk or on the trailers. -/
theorem chunkRound_at (chunks : InChunks phase)
    (h : At limit eof s₀ bytes b c phase) : (chunkRound limit (b, c)).Sat
      (GoesOn limit eof s₀ bytes) (Follows limit eof s₀ bytes) := by
  unfold chunkRound
  dsimp only
  cases phase with
  | startLine | lengthBody | eofBody | complete => cases chunks
  | headers trailer p drained count =>
    cases trailer with
    | false => cases chunks
    | true =>
      obtain ⟨-, -, -, chunkState, -⟩ := h.showing
      rw [chunkState]
      exact trailer_at h
  | chunkSize p drained count =>
    obtain ⟨-, -, -, chunkState, -⟩ := h.showing
    rw [chunkState]
    exact (processChunkSize_at h).sat
  | chunkData p left drained count =>
    obtain ⟨-, -, -, chunkState, -⟩ := h.showing
    rw [chunkState]
    exact (chunkData_at h).sat
  | chunkEnd p heldCR drained count =>
    cases heldCR with
    | true => cases chunks
    | false =>
      obtain ⟨-, -, -, chunkState, -⟩ := h.showing
      rw [chunkState]
      exact (getCRLF_at h).sat

theorem processChunkedBody_at (chunks : InChunks phase) (h : At limit eof s₀ bytes b c phase) :
    Follows limit eof s₀ bytes (processChunkedBody limit b c) := by
  apply Loop.run_inv (L := chunkLoop limit) (I := GoesOn limit eof s₀ bytes)
  · rintro s ⟨phase, chunks, h⟩
    exact chunkRound_at chunks h
  · exact ⟨phase, chunks, h⟩

/-- The phases that the parser can go on from: it never knows that it dropped a carriage return. -/
def Resumable : HTTPPhase → Prop
  | .chunkEnd _ heldCR .. => heldCR = false
  | _ => True

theorem processBody_at (resumable : Resumable phase)
    (h : At limit eof s₀ bytes b c phase) (body : c.ext.step = .messageBody) :
    Follows limit eof s₀ bytes (processBody limit b c) := by
  unfold processBody
  cases phase with
  | startLine => cases h.showing.1.symm.trans body
  | headers trailer p drained count =>
    cases trailer with
    | false => cases h.showing.2.1.symm.trans body
    | true =>
      rw [h.showing.2.2.1]
      exact processChunkedBody_at (by exact trivial) h
  | lengthBody p left =>
    rw [h.showing.2.2.1]
    exact processLengthBody_at h
  | chunkSize p drained count | chunkData p left drained count =>
    rw [h.showing.2.2.1]
    exact processChunkedBody_at (by exact trivial) h
  | chunkEnd p heldCR drained count =>
    cases resumable
    rw [h.showing.2.2.1]
    exact processChunkedBody_at (by exact trivial) h
  | eofBody p =>
    rw [h.showing.2.2]
    exact processEOFBody_at h
  | complete p =>
    rw [h.showing.2.2]
    exact .complete h.intact h.inside h.showing.1 h.reach

/-! ### processData -/

/-- Where `processData` gets to, before it looks at the end of the file. -/
inductive Arrives (limit : Nat) (eof : Bool) (s₀ : HTTPPhase) (bytes : List UInt8) :
    DataBuffer × HTTPStreamingContext → Prop where
  | broken {b : DataBuffer} {c : HTTPStreamingContext} {phase : HTTPPhase} {data : List UInt8}
      (broken : c.broken = true) (reach : (httpMachine limit).Reaches s₀ bytes phase data)
      (failed : step limit phase data = .fail) : Arrives limit eof s₀ bytes (b, c)
  | complete {b : DataBuffer} {c : HTTPStreamingContext} {p : HTTPPacket} (intact : c.Intact eof)
      (inside : b.pdata ≤ b.mem.length) (held : c.packet = some p)
      (reach : (httpMachine limit).Reaches s₀ bytes (.complete p) b.unread) :
      Arrives limit eof s₀ bytes (b, { c with completed := true })
  | closes {b : DataBuffer} {c : HTTPStreamingContext} {p : HTTPPacket} (intact : c.Intact eof)
      (inside : b.pdata ≤ b.mem.length) (end_ : eof = true) (held : c.packet = some p)
      (reach : (httpMachine limit).Reaches s₀ bytes (.eofBody p) b.unread) (used : b.unread = []) :
      Arrives limit eof s₀ bytes (b, { c with completed := true })
  | waits {b : DataBuffer} {c : HTTPStreamingContext} (phase : HTTPPhase) (intact : c.Intact eof)
      (inside : b.pdata ≤ b.mem.length) (shows_ : c.Shows phase)
      (reach : (httpMachine limit).Reaches s₀ bytes phase b.unread)
      (waits : step limit phase b.unread = .wait) : Arrives limit eof s₀ bytes (b, c)

/-- A step that is not finished ends `processData`. -/
theorem Follows.unfinished (h : Follows limit eof s₀ bytes (false, b, c)) :
    Arrives limit eof s₀ bytes (b, c) := by
  cases h with
  | broken broken reach failed => exact .broken broken reach failed
  | waits phase intact inside showing reach waits =>
    exact .waits phase intact inside showing reach waits

theorem fromBody_at (resumable : Resumable phase)
    (h : At limit eof s₀ bytes b c phase) (body : c.ext.step = .messageBody) :
    Arrives limit eof s₀ bytes (fromBody limit b c) := by
  have follows := processBody_at resumable h body
  unfold fromBody
  generalize processBody limit b c = r at follows
  cases follows with
  | @broken finished b c phase data broken reach failed =>
    cases finished with
    | true | false => exact .broken broken reach failed
  | complete intact inside held reach => exact .complete intact inside held reach
  | waits phase intact inside showing reach waits =>
    exact .waits phase intact inside showing reach waits
  | closes intact inside end_ held reach used => exact .closes intact inside end_ held reach used

theorem resumable_headersEnd
    (h : headersEnd limit p drained count = some phase) : Resumable phase := by
  unfold headersEnd at h
  split at h
  · split at h
    · cases h
      split <;> trivial
    · split_ifs at h <;> cases h <;> trivial
  · split_ifs at h
    cases h
    trivial

theorem fromHeader_at (h : At limit eof s₀ bytes b c (.headers false p drained count)) :
    Arrives limit eof s₀ bytes (fromHeader limit b c) := by
  obtain ⟨held, hstep, chunkState, same, counted⟩ := h.showing
  have at_ := processHeadersOrTrailers_at limit false c p drained count h.inside h.reach
  rw [withHeaders_self held same counted] at at_
  unfold fromHeader processHeaders
  generalize processHeadersOrTrailers limit b c = r at at_
  cases at_ with
  | @broken finished b' c' phase data broken reach failed =>
    have ended := broken_messageHeadersEnd limit broken
    cases finished with
    | false => exact .broken broken reach failed
    | true =>
      dsimp only
      generalize messageHeadersEnd limit c' = m at ended
      obtain ⟨ok, c''⟩ := m
      cases ok with
      | true => exact .broken ((onward_fromBody limit b' _).broken ended) reach failed
      | false => exact .broken ended reach failed
  | rejected p drained count bad reach failed =>
    obtain ⟨unfinished, broken⟩ := (messageHeadersEnd_at limit h.intact chunkState).1 bad
    dsimp only [if_true]
    rw [unfinished]
    exact .broken broken reach failed
  | ended p drained count inside next reach =>
    obtain ⟨finished, intact, showing⟩ := (messageHeadersEnd_at limit h.intact chunkState).2 _ next
    dsimp only [if_true]
    rw [finished]
    exact fromBody_at (resumable_headersEnd next)
      ⟨⟨intact.broken, intact.completed, intact.eof⟩, inside, showing, reach⟩ rfl
  | waits p drained count inside reach waits =>
    exact .waits (.headers false p drained count)
      ⟨h.intact.broken, h.intact.completed, h.intact.eof⟩ inside ⟨rfl, hstep, chunkState, rfl, rfl⟩ reach waits

theorem fromStart_at (h : At limit eof s₀ bytes b c .startLine) :
    Arrives limit eof s₀ bytes (fromStart limit b c) := by
  obtain ⟨finished, unfinished⟩ := processStartLine_at h
  unfold fromStart
  generalize processStartLine limit b c = r at finished unfinished
  obtain ⟨rc, b', c'⟩ := r
  cases rc with
  | true =>
    obtain ⟨p, drained, at_⟩ := finished rfl
    exact fromHeader_at at_
  | false => exact (unfinished rfl).unfinished

theorem advance_at (resumable : Resumable phase)
    (h : At limit eof s₀ bytes b c phase) : Arrives limit eof s₀ bytes (advance limit b c) := by
  unfold advance
  cases phase with
  | startLine =>
    rw [h.showing.1]
    exact fromStart_at h
  | headers trailer p drained count =>
    cases trailer with
    | false =>
      rw [h.showing.2.1]
      exact fromHeader_at h
    | true =>
      rw [h.showing.2.1]
      exact fromBody_at resumable h h.showing.2.1
  | lengthBody | chunkSize | chunkData | chunkEnd | eofBody | complete =>
    rw [h.showing.2.1]
    exact fromBody_at resumable h h.showing.2.1

end HTTPMachine

end AgentEngine.Anet
