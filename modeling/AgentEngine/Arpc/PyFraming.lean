import AgentEngine.Arpc.PyConnection

/-!
The input loop of the Python client on any bytes.

`_readPacket` takes the announced length of a body as a signed number. As long as every complete
head at a frame boundary announces a length that is not negative, the packets handled are the
successive frames of the stream and every call of `handleRead` ends. The first head that announces
a negative length breaks this (`orderly_iff`): the slices then count from the wrong place, and for
a length of minus sixteen nothing is consumed and the loop does not end (`not_orderly_stuck`).
-/

namespace AgentEngine.Arpc.Python

open List

/-! ### The loop -/

/-- A packet as it was handled, and by how much `_inbuf` got shorter. -/
structure Handled where
  headBuf : List UInt8
  body : List UInt8
  consumed : Nat
  deriving DecidableEq

structure Reader where
  inbuf : List UInt8 := []
  handled : List Handled := []
  deriving DecidableEq

/-- `while self._handlePacket()`: the handling of the `n`-th packet may raise an exception, which
ends the call after the packet was taken. `none` is a loop that has not ended yet. -/
def handlePackets (raises : Nat → Bool) : Nat → Reader → Option Reader
  | 0, _ => none
  | fuel + 1, s =>
      match readPacket s.inbuf with
      | none => some s
      | some packet =>
          let consumed := s.inbuf.length - packet.inbuf.length
          let t : Reader :=
            { inbuf := packet.inbuf
              handled := s.handled ++ [⟨packet.headBuf, packet.body, consumed⟩] }
          if raises s.handled.length then some t else handlePackets raises fuel t

/-- `handleRead` ends after a chunk was received. -/
def HandlesRead (raises : Nat → Bool) (s : Reader) (chunk : List UInt8) (t : Reader) : Prop :=
  ∃ fuel, handlePackets raises fuel { s with inbuf := s.inbuf ++ chunk } = some t

/-- A call of `handleRead` for each chunk, all of which end. -/
def Reads (raises : Nat → Bool) (s : Reader) : List (List UInt8) → Reader → Prop
  | [], t => s = t
  | chunk :: chunks, t => ∃ u, HandlesRead raises s chunk u ∧ Reads raises u chunks t

/-! ### Frames -/

/-- A head, and a body as long as the head announces. -/
structure Handled.IsFrame (p : Handled) : Prop where
  head : p.headBuf.length = headLen
  body : (unpack p.headBuf).bodyLen = p.body.length
  consumed : p.consumed = headLen + p.body.length

def Handled.bytes (p : Handled) : List UInt8 := p.headBuf ++ p.body

/-- All calls end, and what was handled are the successive frames of what was received. -/
def Orderly (raises : Nat → Bool) (chunks : List (List UInt8)) : Prop :=
  ∃ s, Reads raises {} chunks s ∧ (∀ p ∈ s.handled, p.IsFrame) ∧
    s.handled.flatMap Handled.bytes ++ s.inbuf = chunks.flatten

/-- The length that a complete head announces for its body. -/
def announced (stream : List UInt8) : Int := (unpack (stream.take headLen)).bodyLen

/-- Some complete head at a frame boundary announces a negative length. -/
inductive NegativeAhead : List UInt8 → Prop
  | here {stream : List UInt8} : headLen ≤ stream.length → announced stream < 0 →
      NegativeAhead stream
  | later {stream : List UInt8} (n : Nat) : headLen + n ≤ stream.length → announced stream = n →
      NegativeAhead (stream.drop (headLen + n)) → NegativeAhead stream

theorem announced_append {stream : List UInt8} (complete : headLen ≤ stream.length)
    (more : List UInt8) : announced (stream ++ more) = announced stream := by
  rw [announced, announced, take_append_of_le_length complete]

theorem NegativeAhead.append {stream : List UInt8} (ahead : NegativeAhead stream)
    (more : List UInt8) : NegativeAhead (stream ++ more) := by
  induction ahead with
  | here complete negative =>
    refine .here ?_ ?_
    · rw [length_append]
      omega
    · rw [announced_append complete]
      exact negative
  | later n complete length _ ih =>
    refine .later n ?_ ?_ ?_
    · rw [length_append]
      omega
    · rw [announced_append (by omega)]
      exact length
    · rw [drop_append_of_le_length complete]
      exact ih

theorem NegativeAhead.of_initial {stream longer : List UInt8} (ahead : NegativeAhead stream)
    (le : stream <+: longer) : NegativeAhead longer := by
  obtain ⟨more, rfl⟩ := le
  exact ahead.append more

/-- A frame in front does not hide or make a negative length. -/
theorem negativeAhead_frame {p : Handled} (frame : p.IsFrame) (rest : List UInt8) :
    NegativeAhead (p.bytes ++ rest) ↔ NegativeAhead rest := by
  have first : announced (p.bytes ++ rest) = p.body.length := by
    rw [announced, Handled.bytes, append_assoc, take_append_of_le_length, ← frame.head,
      take_length, frame.body]
    rw [frame.head]
  have skip : (p.bytes ++ rest).drop (headLen + p.body.length) = rest := by
    have length : p.bytes.length = headLen + p.body.length := by
      rw [Handled.bytes, length_append, frame.head]
    rw [← length, drop_left]
  constructor
  · intro ahead
    cases ahead with
    | here _ negative =>
      rw [first] at negative
      omega
    | later n _ length ahead =>
      rw [first] at length
      have : p.body.length = n := by exact_mod_cast length
      rw [← this, skip] at ahead
      exact ahead
  · intro ahead
    refine .later p.body.length ?_ first ?_
    · rw [length_append, Handled.bytes, length_append, frame.head]
      omega
    · rw [skip]
      exact ahead

theorem negativeAhead_frames {ps : List Handled} (frames : ∀ p ∈ ps, p.IsFrame)
    (rest : List UInt8) :
    NegativeAhead (ps.flatMap Handled.bytes ++ rest) ↔ NegativeAhead rest := by
  induction ps with
  | nil => rfl
  | cons p ps ih =>
    rw [flatMap_cons, append_assoc, negativeAhead_frame (frames p mem_cons_self),
      ih fun q mem => frames q (mem_cons_of_mem p mem)]

/-! ### `_readPacket` -/

variable (inbuf : List UInt8)

theorem slice_head : slice inbuf 0 headLen = inbuf.take headLen := by
  simp [slice, bound, headLen, take_eq_take_iff]

/-- A packet is left in the buffer only if it is not complete. -/
theorem readPacket_none_iff : readPacket inbuf = none ↔
      inbuf.length < headLen ∨ (inbuf.length : Int) < headLen + announced inbuf := by
  unfold readPacket
  simp only [slice_head]
  split_ifs with short long
  · simp [short]
  · simp only [true_iff]
    exact .inr long
  · simp only [false_iff, not_or]
    exact ⟨short, long⟩

/-- A complete packet whose announced length is not negative is taken as a frame. -/
theorem readPacket_frame {inbuf : List UInt8} {n : Nat} (complete : headLen + n ≤ inbuf.length)
    (length : announced inbuf = n) :
    readPacket inbuf = some ⟨inbuf.take headLen, (inbuf.drop headLen).take n,
      inbuf.drop (headLen + n)⟩ := by
  have head : ¬ headLen > inbuf.length := by omega
  have packet : (headLen : Int) + announced inbuf = ((headLen + n : Nat) : Int) := by
    rw [length]
    rfl
  have fits : ¬ (headLen : Int) + announced inbuf > inbuf.length := by omega
  have upto (m : Nat) (le : m ≤ inbuf.length) : bound inbuf.length m = m := by
    rw [bound, if_neg (by omega), Int.toNat_natCast, min_eq_left le]
  unfold readPacket
  simp only [slice_head, if_neg head]
  rw [← announced, if_neg fits, packet, slice, sliceFrom, upto _ complete, upto headLen (by omega), drop_take,
    Nat.add_sub_cancel_left]

/-! ### Runs -/

/-- What the loop keeps: the frames handled so far and what is still to come. -/
structure Framed (received : List UInt8) (s : Reader) : Prop where
  frames : ∀ p ∈ s.handled, p.IsFrame
  stream : s.handled.flatMap Handled.bytes ++ s.inbuf = received

variable {received : List UInt8} {s : Reader}

theorem Framed.receive (framed : Framed received s) (chunk : List UInt8) :
    Framed (received ++ chunk) { s with inbuf := s.inbuf ++ chunk } where
  frames := framed.frames
  stream := by rw [← framed.stream, append_assoc]

/-- The first packet of a buffer, as it is handled. -/
def firstFrame (n : Nat) : Handled where
  headBuf := inbuf.take headLen
  body := (inbuf.drop headLen).take n
  consumed := inbuf.length - (inbuf.drop (headLen + n)).length

theorem firstFrame_isFrame {inbuf : List UInt8} {n : Nat} (complete : headLen + n ≤ inbuf.length)
    (length : announced inbuf = n) : (firstFrame inbuf n).IsFrame := by
  have body : (firstFrame inbuf n).body.length = n := by
    rw [firstFrame, length_take, length_drop]
    omega
  refine ⟨length_take_of_le (by omega), ?_, ?_⟩
  · rw [body]
    exact length
  · rw [body]
    simp only [firstFrame, length_drop]
    omega

theorem Framed.frame (framed : Framed received s) {n : Nat}
    (complete : headLen + n ≤ s.inbuf.length) (length : announced s.inbuf = n) :
    Framed received
      { inbuf := s.inbuf.drop (headLen + n), handled := s.handled ++ [firstFrame s.inbuf n] } := by
  constructor
  · intro p mem
    rcases mem_append.mp mem with old | new
    · exact framed.frames p old
    · rw [mem_singleton.mp new]
      exact firstFrame_isFrame complete length
  · rw [← framed.stream, flatMap_append, append_assoc, flatMap_singleton, Handled.bytes, firstFrame,
      append_assoc, ← drop_drop, take_append_drop, take_append_drop]

/-- Without a negative length ahead the loop ends, and goes from frame to frame. -/
theorem handlePackets_framed {raises : Nat → Bool}
    (framed : Framed received s) (clear : ¬ NegativeAhead s.inbuf) {fuel : Nat}
    (enough : s.inbuf.length < fuel) :
    ∃ t, handlePackets raises fuel s = some t ∧ Framed received t := by
  induction fuel generalizing s with
  | zero => omega
  | succ fuel ih =>
    unfold handlePackets
    cases next : readPacket s.inbuf with
    | none => exact ⟨s, rfl, framed⟩
    | some packet =>
      have left := mt (readPacket_none_iff s.inbuf).mpr (by rw [next]; exact nofun)
      rw [not_or] at left
      have positive : 0 ≤ announced s.inbuf := by
        by_contra negative
        exact clear (.here (by omega) (by omega))
      obtain ⟨n, length⟩ := Int.eq_ofNat_of_zero_le positive
      have complete : headLen + n ≤ s.inbuf.length := by omega
      have frame := readPacket_frame complete length
      rw [next] at frame
      cases frame
      have rest := framed.frame complete length
      dsimp only
      split
      · exact ⟨_, rfl, rest⟩
      · refine ih rest ?_ ?_
        · exact fun ahead => clear (.later n complete length ahead)
        · simp only [length_drop]
          have : 0 < headLen := by decide
          omega

/-- A loop without exceptions ends with an incomplete packet. -/
theorem handlePackets_left {fuel : Nat} {s t : Reader}
    (run : handlePackets (fun _ => false) fuel s = some t) : readPacket t.inbuf = none := by
  induction fuel generalizing s with
  | zero => cases run
  | succ fuel ih =>
    unfold handlePackets at run
    split at run
    · rename_i last
      cases run
      exact last
    · exact ih run

variable {chunks : List (List UInt8)}

theorem reads_framed {raises : Nat → Bool}
    (framed : Framed received s) (clear : ¬ NegativeAhead (received ++ chunks.flatten)) :
    ∃ t, Reads raises s chunks t ∧ Framed (received ++ chunks.flatten) t := by
  induction chunks generalizing received s with
  | nil =>
    rw [flatten_nil, append_nil]
    exact ⟨s, rfl, framed⟩
  | cons chunk chunks ih =>
    rw [flatten_cons, ← append_assoc] at clear ⊢
    have next := framed.receive chunk
    have ahead : ¬ NegativeAhead (s.inbuf ++ chunk) := by
      intro ahead
      rw [← negativeAhead_frames next.frames, next.stream] at ahead
      exact clear (ahead.append _)
    obtain ⟨u, run, result⟩ := handlePackets_framed next ahead (Nat.lt_succ_self _)
    obtain ⟨t, reads, last⟩ := ih result clear
    exact ⟨t, ⟨u, ⟨_, run⟩, reads⟩, last⟩

/-- Without exceptions a complete packet is never left in the buffer. -/
theorem reads_left {s t : Reader} (start : readPacket s.inbuf = none)
    (reads : Reads (fun _ => false) s chunks t) : readPacket t.inbuf = none := by
  induction chunks generalizing s with
  | nil =>
    cases reads
    exact start
  | cons chunk chunks ih =>
    obtain ⟨u, ⟨fuel, run⟩, rest⟩ := reads
    exact ih (handlePackets_left run) rest

/-- Whatever the callbacks raise, every call ends and the packets are the frames of the stream,
iff no complete head at a frame boundary announces a negative length. -/
theorem orderly_iff (chunks : List (List UInt8)) :
    (∀ raises, ∀ received, received <+: chunks → Orderly raises received) ↔
      ¬ NegativeAhead chunks.flatten := by
  constructor
  · intro orderly ahead
    obtain ⟨s, reads, frames, stream⟩ := orderly (fun _ => false) chunks prefix_rfl
    rw [← stream, negativeAhead_frames frames] at ahead
    have left := reads_left rfl reads
    rw [readPacket_none_iff] at left
    cases ahead with
    | here complete negative | later n complete length _ => omega
  · rintro clear raises received ⟨rest, rfl⟩
    rw [flatten_append] at clear
    have start : Framed [] {} := ⟨nofun, rfl⟩
    obtain ⟨s, reads, framed⟩ :=
      reads_framed start fun ahead => clear (ahead.append rest.flatten)
    exact ⟨s, reads, framed.frames, framed.stream⟩

/-- A head that announces a body of minus sixteen bytes. -/
def stuckHead : List UInt8 :=
  [0x41, 0x6e, 0x45, 0x74, 0, 0, 0, 1, 0, 0, 0, 0, 0xff, 0xff, 0xff, 0xf0]

/-- The packet is read and the buffer stays as it is. -/
theorem readPacket_stuckHead : readPacket stuckHead = some ⟨stuckHead, [], stuckHead⟩ := by
  decide

theorem handlePackets_stuckHead (fuel : Nat) (handled : List Handled) :
    handlePackets (fun _ => false) fuel ⟨stuckHead, handled⟩ = none := by
  induction fuel generalizing handled with
  | zero => rfl
  | succ fuel ih =>
    unfold handlePackets
    simp only [readPacket_stuckHead]
    exact ih _

/-- The loop does not end. -/
theorem not_orderly_stuck : ¬ Orderly (fun _ => false) [stuckHead] := by
  rintro ⟨t, ⟨u, ⟨fuel, run⟩, -⟩, -⟩
  rw [nil_append, handlePackets_stuckHead] at run
  cases run

end AgentEngine.Arpc.Python
