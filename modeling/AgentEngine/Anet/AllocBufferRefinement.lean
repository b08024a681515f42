import AgentEngine.Anet.AllocBuffer

/-!
`DataBuffer` is a queue of bytes.

Whatever is written to the buffer, read from it and dropped from it, in any order: the bytes that it
shows are those of a plain list, its pointers stay in order, and nothing is read or written outside
of the allocation (`refines_byte_queue`). Most of this comes down to `expand_spec`: `expand` keeps
the bytes and makes room.
-/

namespace AgentEngine.Anet

open Lib Lib.Float32 List Option

namespace AllocBuffer

/-- The bytes from `getData()` to `getFree()`. -/
def data (b : AllocBuffer) : List UInt8 :=
  match b.block with
  | none => []
  | some block => (block.drop b.pdata).take (b.pfree - b.pdata)

/-- `_pstart <= _pdata <= _pfree <= _pend`, or all of them are null. An allocation is never empty. -/
structure Valid (b : AllocBuffer) : Prop where
  ordered : b.pdata ≤ b.pfree
  inside : b.pfree ≤ b.getSpaceUsed
  some_space : b.block ≠ some []

section Layout

theorem valid_empty : Valid {} := ⟨le_rfl, le_rfl, nofun⟩

variable {b : AllocBuffer}

theorem Valid.length_data (h : b.Valid) : b.data.length = b.pfree - b.pdata := by
  obtain ⟨block, pdata, pfree⟩ := b
  obtain ⟨-, inside, -⟩ := h
  cases block with
  | none =>
    have none_used : pfree ≤ 0 := inside
    change 0 = pfree - pdata
    omega
  | some block =>
    have used : pfree ≤ block.length := inside
    change ((block.drop pdata).take (pfree - pdata)).length = pfree - pdata
    rw [length_take, length_drop]
    omega

theorem Valid.getDataLen_eq (h : b.Valid) : b.getDataLen = b.data.length := by
  rw [h.length_data, getDataLen]
  have := h.ordered
  omega

/-- A buffer in three parts: bytes that were read, bytes that were not, and free space. -/
def Parts (b : AllocBuffer) (pre data post : List UInt8) : Prop :=
  b.block = some (pre ++ data ++ post) ∧ b.pdata = pre.length ∧ b.pfree = pre.length + data.length

theorem Valid.parts (h : b.Valid) {block : List UInt8} (e : b.block = some block) :
    ∃ pre post, b.Parts pre b.data post := by
  have inside := h.inside
  simp only [getSpaceUsed, e] at inside
  refine ⟨block.take b.pdata, block.drop b.pfree, ?_, ?_, ?_⟩
  · have split : block.drop b.pfree = (block.drop b.pdata).drop (b.pfree - b.pdata) := by
      rw [drop_drop, Nat.add_sub_cancel' h.ordered]
    simp only [e, data, split, append_assoc, take_append_drop]
  · rw [length_take_of_le (h.ordered.trans inside)]
  · rw [length_take_of_le (h.ordered.trans inside), h.length_data, Nat.add_sub_cancel' h.ordered]

variable {pre data post : List UInt8}

theorem Parts.data_eq (h : b.Parts pre data post) : b.data = data := by
  obtain ⟨block, pdata, pfree⟩ := h
  rw [AllocBuffer.data, block, pdata, pfree, Nat.add_sub_cancel_left, append_assoc]
  simp only [drop_left, take_left]

theorem Parts.valid (h : b.Parts pre data post)
    (some_space : pre ++ data ++ post ≠ []) : b.Valid := by
  obtain ⟨block, pdata, pfree⟩ := h
  refine ⟨by omega, ?_, ?_⟩
  · simp only [getSpaceUsed, block, length_append]
    omega
  · rw [block]
    exact fun e => some_space (some.inj e)

/-- Without an allocation there is nothing. -/
theorem Valid.null (h : b.Valid) (e : b.block = none) : b = {} := by
  have inside := h.inside
  have ordered := h.ordered
  simp only [getSpaceUsed, e] at inside
  obtain ⟨block, pdata, pfree⟩ := b
  subst e
  simp only [mk.injEq, true_and]
  dsimp only at inside ordered
  omega

theorem store_parts (pre post : List UInt8) {old new : List UInt8}
    (same : old.length = new.length) :
    store (pre ++ old ++ post) pre.length new = some (pre ++ new ++ post) := by
  rw [store, if_pos (by simp only [length_append]; omega), overwrite_append pre post same]

theorem Valid.loadData_eq (h : b.Valid) {n : Nat} (enough : n ≤ b.data.length) :
    b.loadData n = some (b.data.take n) := by
  unfold loadData
  split
  · rename_i null
    have := h.null null
    subst this
    have zero : n = 0 := Nat.le_zero.mp enough
    rw [zero]
    rfl
  · rename_i block e
    obtain ⟨pre, post, parts⟩ := h.parts e
    obtain ⟨block', pdata, -⟩ := parts
    cases e.symm.trans block'
    rw [load, if_pos (by simp only [length_append, pdata]; omega), pdata, append_assoc,
      drop_left, take_append_of_le_length enough]

theorem Valid.loadData_all (h : b.Valid) : b.loadData b.data.length = some b.data := by
  rw [h.loadData_eq le_rfl, take_length]

/-- Storing bytes for which there is room. -/
theorem Valid.storeFree_spec (h : b.Valid) {bytes : List UInt8} (room : bytes.length ≤ b.getFreeLen) :
    ∃ b', b.storeFree bytes = some b' ∧ b'.Valid ∧ b'.data = b.data ++ bytes ∧
      b'.getSpaceUsed = b.getSpaceUsed := by
  unfold storeFree
  cases e : b.block with
  | none =>
    have := h.null e
    subst this
    have none_left : bytes = [] := by
      simp only [getFreeLen, getSpaceUsed] at room
      exact length_eq_zero_iff.mp (by omega)
    subst none_left
    exact ⟨{}, rfl, h, rfl, rfl⟩
  | some block =>
    obtain ⟨pre, post, parts⟩ := h.parts e
    obtain ⟨block', pdata, pfree⟩ := parts
    cases e.symm.trans block'
    simp only [getFreeLen, getSpaceUsed, block', length_append, pfree] at room
    obtain ⟨old, post, rfl, same⟩ : ∃ old post', post = old ++ post' ∧ old.length = bytes.length :=
      ⟨post.take bytes.length, post.drop bytes.length, (take_append_drop ..).symm,
        length_take_of_le (by omega)⟩
    have stored := store_parts (pre ++ b.data) post same
    rw [length_append, append_assoc _ old post] at stored
    simp only [pfree, stored, map_some, bind_eq_bind, bind_some]
    generalize hb : AllocBuffer.mk (some (pre ++ b.data ++ bytes ++ post)) b.pdata
      (pre.length + b.data.length + bytes.length) = b'
    have parts' : b'.Parts pre (b.data ++ bytes) post := by
      rw [← hb]
      refine ⟨by rw [append_assoc pre], pdata, ?_⟩
      rw [length_append, add_assoc]
    refine ⟨b', rfl, parts'.valid ?_, parts'.data_eq, ?_⟩
    swap
    · simp only [← hb, getSpaceUsed, block', length_append]
      omega
    intro empty
    apply h.some_space
    have lengths := congrArg length empty
    simp only [length_append, length_nil] at lengths
    rw [block']
    congr 1
    apply length_eq_zero_iff.mp
    simp only [length_append]
    omega

end Layout

/-! ### expand -/

section Expand

variable {b : AllocBuffer}

/-- How much a buffer may have to hold: the numbers up to this are exact in single precision. -/
def safeLen : Int := 2 ^ 24 - 1

/-- How large an allocation may be. -/
def safeSpace : Nat := 2 ^ 26

theorem doubleLoop_spec {need : Int} (small : need ≤ safeLen) {fuel len : Nat} (pos : 0 < len)
    (enough : (need - len).toNat < fuel) :
    ∃ size, doubleLoop need fuel len = some size ∧ need ≤ size ∧ len ≤ size ∧
      (size = len ∨ size < 2 * need) := by
  unfold safeLen at small
  induction fuel generalizing len with
  | zero => omega
  | succ fuel ih =>
    unfold doubleLoop
    split_ifs with short
    · obtain ⟨size, run, room, longer, least⟩ := ih (by omega : 0 < len * 2) (by omega)
      exact ⟨size, run, room, by omega, by omega⟩
    · omega
    · exact ⟨len, rfl, by omega, le_rfl, .inl rfl⟩

/-- The loop in single precision ends with a size that has room. -/
theorem growLoop_spec {dlen need : Int} (nonneg : 0 ≤ dlen) (positive : 0 ≤ need)
    (small : dlen + need ≤ safeLen) {fuel : Nat} {bufsize : ℚ} (exact' : Representable bufsize)
    (start : 3 / 2 ≤ bufsize) (holds : (dlen : ℚ) ≤ bufsize)
    (enough : (dlen + need : ℚ) - bufsize < fuel / 2) :
    ∃ size, growLoop dlen need (fuel + 1) bufsize = some size ∧ (dlen + need : ℚ) ≤ size ∧
      (size ≤ bufsize ∨ size < 8 / 5 * (dlen + need)) := by
  unfold safeLen at small
  have exactD : fl dlen = dlen := fl_eq_self (representable_intCast (abs_lt.mpr ⟨by omega, by omega⟩))
  have exactN : fl need = need := fl_eq_self (representable_intCast (abs_lt.mpr ⟨by omega, by omega⟩))
  induction fuel generalizing bufsize with
      have compare := exact'.fl_sub_lt_iff nonneg holds (show need < 2 ^ 24 by omega)
  | zero =>
    rw [Nat.cast_zero, zero_div] at enough
    rw [growLoop, exactD, exactN, if_neg (by rw [compare]; linarith)]
    exact ⟨bufsize, rfl, by linarith, .inl le_rfl⟩
  | succ fuel ih =>
    rw [growLoop, exactD, exactN]
    split_ifs with short <;> rw [compare] at short
    · -- a round adds at least a half, and the loop goes on only below `dlen + need`
      have positive' : 0 < bufsize * (3 / 2) := by linarith
      have larger : bufsize + 1 / 2 ≤ fl (bufsize * (3 / 2)) := by
        refine le_trans ?_ (le_fl positive')
        norm_num
        linarith
      have least : fl (bufsize * (3 / 2)) < 8 / 5 * (dlen + need) := by
        refine lt_of_le_of_lt (fl_le positive') ?_
        norm_num
        linarith
      push_cast at enough
      obtain ⟨size, run, room, bound⟩ := ih (representable_fl (ne_of_gt positive')) (by linarith)
        (by linarith) (by linarith)
      exact ⟨size, run, room, .inr (bound.elim least.trans_le' id)⟩
    · exact ⟨bufsize, rfl, by linarith, .inl le_rfl⟩

/-- Bytes that are copied to the start of a block. -/
theorem valid_copied (block data : List UInt8) (fits : data.length ≤ block.length)
    (some_space : 0 < block.length) :
    ∃ block', store block 0 data = some block' ∧ block'.length = block.length ∧
      Valid { block := some block', pdata := 0, pfree := data.length } ∧
      AllocBuffer.data { block := some block', pdata := 0, pfree := data.length } = data := by
  obtain ⟨old, post, rfl, same⟩ : ∃ old post, block = old ++ post ∧ old.length = data.length :=
    ⟨block.take data.length, block.drop data.length, (take_append_drop ..).symm,
      length_take_of_le fits⟩
  have stored := store_parts [] post same
  have parts : Parts { block := some ([] ++ data ++ post), pdata := 0, pfree := data.length }
      [] data post := ⟨rfl, rfl, (Nat.zero_add _).symm⟩
  have length : ([] ++ data ++ post).length = (old ++ post).length := by
    simp only [length_append, length_nil]
    omega
  refine ⟨_, stored, length, parts.valid ?_, parts.data_eq⟩
  intro empty
  rw [empty] at length
  simp only [length_nil] at length
  omega

theorem length_malloc (garbage : Nat → UInt8) (size : Nat) : (malloc garbage size).length = size := by
  rw [malloc, length_map, length_range]

/-- What is planned has room for the bytes that are there and for those that are needed. -/
theorem Valid.plan_spec (h : b.Valid) (below : b.getSpaceUsed < safeSpace) {need : Int}
    (small : b.getDataLen + need ≤ safeLen) :
    ∃ p, b.plan need = some p ∧
      match p with
      | .keep => need ≤ b.getFreeLen
      | .compact => b.getDataLen + need ≤ b.getSpaceUsed ∧ b.block ≠ none
      | .allocate size => b.getDataLen + need ≤ size ∧ b.getDataLen ≤ size ∧ 0 < size ∧
          size < safeSpace := by
  have dlen := h.getDataLen_eq
  unfold plan
  split
  · rename_i null
    have empty : b.getDataLen = 0 := by
      rw [h.null null]
      rfl
    rw [empty, zero_add] at small
    obtain ⟨size, run, room, longer, least⟩ := doubleLoop_spec small
      (by decide : 0 < INITIAL_BUFFER_SIZE) (by omega : _ < need.toNat + 1)
    refine ⟨.allocate size, by rw [run]; rfl, ?_⟩
    have : INITIAL_BUFFER_SIZE = 1024 := rfl
    unfold safeLen at small
    rw [empty, safeSpace]
    omega
  · rename_i block e
    have space : b.getSpaceUsed = block.length := by simp only [getSpaceUsed, e]
    have some_space : 0 < block.length := by
      apply length_pos_of_ne_nil
      intro empty
      exact h.some_space (by rw [e, empty])
    have order := h.ordered
    have inside := h.inside
    have free : b.getFreeLen = b.getSpaceUsed - b.pfree := rfl
    have length : b.getDataLen = b.pfree - b.pdata := rfl
    have bound : b.getDataLen + need ≤ 2 ^ 24 - 1 := small
    dsimp only
    have int : b.getFreeLen + b.pdata < need ∨ (b.getFreeLen + b.pdata) * 4 < 2 ^ 31 := by
      unfold safeSpace at below
      omega
    rw [if_pos int]
    split_ifs with short tight
    · have least : (1 : ℚ) ≤ b.getSpaceUsed := by exact_mod_cast (show 1 ≤ b.getSpaceUsed by omega)
      have most : (b.getSpaceUsed : ℚ) < 5 / 4 * 2 ^ 24 := by
        have : (4 * b.getSpaceUsed : ℤ) < 5 * 2 ^ 24 := by omega
        have : (4 * b.getSpaceUsed : ℚ) < 5 * 2 ^ 24 := by exact_mod_cast this
        linarith
      have fits : (b.getDataLen : ℚ) ≤ b.getSpaceUsed := by
        exact_mod_cast (show b.getDataLen ≤ b.getSpaceUsed by omega)
      have sum : (b.getDataLen : ℚ) + (need : ℚ) ≤ 2 ^ 24 - 1 := by exact_mod_cast bound
      have twice : 0 < ((b.getSpaceUsed * 2 : Nat) : ℚ) := by
        push_cast
        linarith
      have low := le_fl twice
      have high := fl_le twice
      have exact' := representable_fl (ne_of_gt twice)
      generalize fl ((b.getSpaceUsed * 2 : Nat) : ℚ) = bufsize at low high exact' ⊢
      push_cast at low high
      have rounds : ((b.getDataLen : ℤ) : ℚ) + (need : ℚ) - bufsize <
          ((2 * (b.getDataLen + need).toNat : Nat) : ℚ) / 2 := by
        have sum : (((b.getDataLen + need).toNat : ℤ) : ℚ) = b.getDataLen + need := by
          rw [Int.toNat_of_nonneg (by omega)]
          push_cast
          ring
        push_cast at sum ⊢
        linarith
      obtain ⟨size, run, room, ends⟩ := growLoop_spec (by omega) (by omega) small exact'
        (by linarith) (by linarith) rounds
      have whole : b.getDataLen + need ≤ size.floor := by
        apply Rat.le_floor_iff.mpr
        push_cast
        exact room
      have below : size < 2 ^ 26 := by
        rcases ends with le | lt <;> linarith
      have int : size < 2 ^ 31 := by linarith
      have floor : size.floor < 2 ^ 26 := by
        have := Rat.floor_le size
        exact_mod_cast this.trans_lt below
      refine ⟨.allocate size.floor.toNat, by simp only [run, bind_eq_bind, bind_some, if_pos int], ?_⟩
      unfold safeSpace
      exact ⟨by omega, by omega, by omega, by omega⟩
    · refine ⟨.compact, rfl, ?_, by rw [e]; exact some_ne_none _⟩
      omega
    · exact ⟨.keep, rfl, by omega⟩

/-- The bytes are copied to the start of a new allocation. -/
theorem Valid.expand_allocate (h : b.Valid) {need : Int} {size : Nat}
    (planned : b.plan need = some (.allocate size)) (fits : b.getDataLen ≤ size)
    (some_space : 0 < size) (garbage : Nat → UInt8) :
    ∃ b', b.expand garbage need = some b' ∧ b'.Valid ∧ b'.data = b.data ∧
      b'.getFreeLen = size - b.getDataLen ∧ b'.getSpaceUsed = size := by
  have dlen := h.getDataLen_eq
  have toNat : b.getDataLen.toNat = b.data.length := by omega
  obtain ⟨block', stored, same, valid, kept⟩ := valid_copied (malloc garbage size)
    b.data (by rw [length_malloc]; omega) (by rw [length_malloc]; exact some_space)
  unfold expand
  simp only [planned, toNat, bind_eq_bind, bind_some, h.loadData_all, stored]
  refine ⟨_, rfl, valid, kept, ?_, ?_⟩ <;> simp only [getFreeLen, getSpaceUsed, same, length_malloc]
  rw [dlen]

/-- `expand` keeps the bytes and makes room. -/
theorem Valid.expand_spec (h : b.Valid) (below : b.getSpaceUsed < safeSpace) {need : Int}
    (small : b.getDataLen + need ≤ safeLen) (garbage : Nat → UInt8) :
    ∃ b', b.expand garbage need = some b' ∧ b'.Valid ∧ b'.data = b.data ∧ need ≤ b'.getFreeLen ∧
      b'.getSpaceUsed < safeSpace := by
  obtain ⟨p, planned, room⟩ := h.plan_spec below small
  have dlen := h.getDataLen_eq
  have toNat : b.getDataLen.toNat = b.data.length := by omega
  cases p with
  | keep => exact ⟨b, by rw [expand, planned]; rfl, h, rfl, room, below⟩
  | compact =>
    obtain ⟨block, e⟩ := ne_none_iff_exists'.mp room.2
    have space : b.getSpaceUsed = block.length := by simp only [getSpaceUsed, e]
    have inside := h.inside
    have length := h.length_data
    have some_space : 0 < block.length := by
      apply length_pos_of_ne_nil
      intro empty
      exact h.some_space (by rw [e, empty])
    obtain ⟨block', stored, same, valid, kept⟩ := valid_copied block b.data (by omega)
      some_space
    simp only [expand, planned, toNat, bind_eq_bind, h.loadData_all, e, bind_some, stored]
    refine ⟨_, rfl, valid, kept, ?_, ?_⟩ <;> simp only [getFreeLen, getSpaceUsed, same] <;> omega
  | allocate size =>
    obtain ⟨least, fits, some_space, most⟩ := room
    obtain ⟨b', run, valid, same, free, space⟩ := h.expand_allocate planned fits some_space garbage
    exact ⟨b', run, valid, same, by omega, by omega⟩

end Expand

/-! ### The other operations -/

section Operations

variable {b : AllocBuffer}

variable (h : b.Valid)
include h

theorem Valid.writeBytes_spec (below : b.getSpaceUsed < safeSpace) {src : List UInt8}
    (small : b.getDataLen + src.length ≤ safeLen) (garbage : Nat → UInt8) :
    ∃ b', b.writeBytes garbage src = some b' ∧ b'.Valid ∧ b'.data = b.data ++ src ∧
      b'.getSpaceUsed < safeSpace := by
  obtain ⟨expanded, expand, valid, same, room, safe⟩ := h.expand_spec below small garbage
  obtain ⟨b', stored, valid', written, space⟩ := valid.storeFree_spec room
  refine ⟨b', ?_, valid', by rw [written, same], by rwa [space]⟩
  simp only [writeBytes, expand, bind_eq_bind, bind_some, stored]

variable {n : Nat}

/-- Moving `_pdata` past bytes that are there. -/
theorem Valid.advance (enough : n ≤ b.data.length) : Valid { b with pdata := b.pdata + n } ∧
      AllocBuffer.data { b with pdata := b.pdata + n } = b.data.drop n := by
  have length := h.length_data
  have order := h.ordered
  refine ⟨⟨?_, h.inside, h.some_space⟩, ?_⟩
  · dsimp only
    omega
  · unfold data
    cases b.block with
    | none => exact drop_nil.symm
    | some block =>
      dsimp only
      rw [drop_take, drop_drop, Nat.sub_sub]

/-- Moving `_pfree` back over bytes that are there. -/
theorem Valid.retract (enough : n ≤ b.data.length) : Valid { b with pfree := b.pfree - n } ∧
      AllocBuffer.data { b with pfree := b.pfree - n } = b.data.take (b.data.length - n) := by
  have length := h.length_data
  have order := h.ordered
  refine ⟨⟨?_, (Nat.sub_le _ _).trans h.inside, h.some_space⟩, ?_⟩
  · dsimp only
    omega
  · rw [length]
    unfold data
    cases b.block with
    | none => exact take_nil.symm
    | some block =>
      dsimp only
      rw [take_take, Nat.min_eq_left (Nat.sub_le _ _), Nat.sub_right_comm]

theorem Valid.clear_spec : b.clear.Valid ∧ b.clear.data = [] := by
  refine ⟨⟨Nat.le_refl _, Nat.zero_le _, h.some_space⟩, ?_⟩
  unfold data
  cases e : b.clear.block with
  | none => rfl
  | some block => exact take_zero

theorem Valid.readBytes_spec (enough : n ≤ b.data.length) :
    ∃ b', b.readBytes n = some (b.data.take n, b') ∧ b'.Valid ∧ b'.data = b.data.drop n ∧
      b'.getSpaceUsed = b.getSpaceUsed := by
  obtain ⟨valid, rest⟩ := h.advance enough
  refine ⟨_, ?_, valid, rest, rfl⟩
  simp only [readBytes, h.loadData_eq enough, bind_eq_bind, bind_some]
  rfl

theorem Valid.readInt_spec (w : Nat) (enough : n ≤ b.data.length) :
    ∃ b', b.readInt w n = some (ofBigEndian w (b.data.take n), b') ∧ b'.Valid ∧
      b'.data = b.data.drop n ∧ b'.getSpaceUsed = b.getSpaceUsed := by
  obtain ⟨b', read, kept⟩ := h.readBytes_spec enough
  refine ⟨b', ?_, kept⟩
  simp only [readInt, read, bind_eq_bind, bind_some]
  rfl

theorem Valid.drainData_spec (n : Nat) :
    (b.drainData n).Valid ∧ (b.drainData n).data = b.data.drop n ∧
      (b.drainData n).getSpaceUsed = b.getSpaceUsed := by
  have length := h.length_data
  have order := h.ordered
  unfold drainData
  dsimp only
  by_cases past : b.data.length ≤ n
  · -- everything is drained: `_pdata` stops at `_pfree`, and the pointers go back to the start
    have stopped : ∀ b' : AllocBuffer, b'.pdata = b'.pfree → b'.block = b.block →
        (if b'.pdata = b'.pfree then b'.clear else b') = b.clear := by
      intro b' drained same
      rw [if_pos drained, clear, clear, same]
    rw [drop_eq_nil_of_le past, stopped _ (by split_ifs; rfl; dsimp only; omega)
      (by split_ifs <;> rfl)]
    exact ⟨h.clear_spec.1, h.clear_spec.2, rfl⟩
  · rw [if_neg (show ¬ b.pdata + n > b.pfree by omega), if_neg (by dsimp only; omega)]
    obtain ⟨valid, rest⟩ := h.advance (n := n) (by omega)
    exact ⟨valid, rest, rfl⟩

/-- Storing bytes in place. -/
theorem Valid.poke_spec (bytes : List UInt8) (inside : n + bytes.length ≤ b.data.length) :
    ∃ b', b.poke n bytes = some b' ∧ b'.Valid ∧ b'.data = overwrite b.data n bytes ∧
      b'.getSpaceUsed = b.getSpaceUsed := by
  unfold poke
  split
  · rename_i null
    have empty : b.data = [] := by rw [h.null null]; rfl
    rw [empty, length_nil] at inside
    obtain rfl : bytes = [] := length_eq_zero_iff.mp (by omega)
    exact ⟨b, if_pos rfl, h, rfl, rfl⟩
  · rename_i block e
    obtain ⟨pre, post, parts⟩ := h.parts e
    obtain ⟨block', pdata, pfree⟩ := parts
    cases e.symm.trans block'
    obtain ⟨before, old, behind, split, start, same⟩ : ∃ before old behind,
        b.data = before ++ old ++ behind ∧ before.length = n ∧ old.length = bytes.length :=
      ⟨b.data.take n, (b.data.drop n).take bytes.length, (b.data.drop n).drop bytes.length, by
        rw [append_assoc, take_append_drop, take_append_drop], length_take_of_le (by omega), by
        rw [length_take_of_le]; rw [length_drop]; omega⟩
    have stored := store_parts (pre ++ before) (behind ++ post) same
    have whole : pre ++ before ++ old ++ (behind ++ post) = pre ++ b.data ++ post := by
      simp only [split, append_assoc]
    rw [whole, length_append, start] at stored
    rw [pdata, stored, map_some]
    generalize hb : AllocBuffer.mk _ pre.length b.pfree = b'
    have parts' : b'.Parts pre (before ++ bytes ++ behind) post := by
      rw [← hb, pfree]
      refine ⟨by simp only [append_assoc], rfl, ?_⟩
      simp only [split, length_append, same]
    have length : (pre ++ (before ++ bytes ++ behind) ++ post).length =
        (pre ++ b.data ++ post).length := by
      simp only [split, length_append, same]
    refine ⟨b', rfl, parts'.valid ?_, ?_, ?_⟩
    · intro empty
      rw [empty] at length
      exact h.some_space (by rw [block', length_eq_zero_iff.mp length.symm])
    · rw [parts'.data_eq, split, ← start, overwrite_append before behind same]
    · simpa only [getSpaceUsed, parts'.1, block'] using length

theorem Valid.shrink_spec (garbage : Nat → UInt8) :
    ∃ b', b.shrink garbage = some b' ∧ b'.Valid ∧ b'.data = b.data ∧
      b'.getSpaceUsed ≤ b.getSpaceUsed := by
  unfold shrink
  have dlen := h.getDataLen_eq
  have toNat : b.getDataLen.toNat = b.data.length := by omega
  split
  · exact ⟨b, rfl, h, rfl, le_rfl⟩
  · rename_i block e
    dsimp only
    split_ifs with some_left
    · obtain ⟨block', stored, same, valid, kept⟩ := valid_copied
        (malloc garbage b.data.length) b.data (by rw [length_malloc])
        (by rw [length_malloc]; omega)
      have loaded := h.loadData_all
      simp only [loadData, e] at loaded
      simp only [toNat, loaded, stored, bind_eq_bind, bind_some]
      refine ⟨_, rfl, valid, kept, ?_⟩
      have inside := h.inside
      have length := h.length_data
      rw [length_malloc] at same
      simp only [getSpaceUsed, same]
      unfold getSpaceUsed at inside
      omega
    · have empty : b.data = [] := length_eq_zero_iff.mp (by omega)
      exact ⟨{}, rfl, valid_empty, empty.symm, Nat.zero_le _⟩

end Operations

end AllocBuffer

/-! ### Sequences of operations -/

namespace BufferOp

open AllocBuffer

/-- The same operation of a queue of bytes. -/
def ideal (queue : List UInt8) : BufferOp → BufferValue × List UInt8
  | .writeInt8 n => (.none, queue ++ bigEndian 1 n)
  | .writeInt16 n => (.none, queue ++ bigEndian 2 n)
  | .writeInt32 n => (.none, queue ++ bigEndian 4 n)
  | .writeInt64 n => (.none, queue ++ bigEndian 8 n)
  | .writeBytes src => (.none, queue ++ src)
  | .ensureFree _ => (.none, queue)
  | .pourData bytes => (.none, queue ++ bytes)
  | .stripData len => (.none, queue.take (queue.length - len))
  | .readInt8 => (.int 8 (ofBigEndian 8 (queue.take 1)), queue.drop 1)
  | .readInt16 => (.int 16 (ofBigEndian 16 (queue.take 2)), queue.drop 2)
  | .readInt32 => (.int 32 (ofBigEndian 32 (queue.take 4)), queue.drop 4)
  | .readInt64 => (.int 64 (ofBigEndian 64 (queue.take 8)), queue.drop 8)
  | .readBytes len => (.bytes (queue.take len), queue.drop len)
  | .drainData len => (.none, queue.drop len)
  | .poke i bytes => (.none, overwrite queue i bytes)
  | .clear => (.none, [])
  | .shrink => (.none, queue)

/-- The room that an operation asks `expand` for. -/
def need : BufferOp → Int
  | .writeInt8 _ => 1
  | .writeInt16 _ => 2
  | .writeInt32 _ => 4
  | .writeInt64 _ => 8
  | .writeBytes src => src.length
  | .ensureFree len => len
  | _ => 0

/-- Callers read bytes that are there, place bytes into free space and strip what they wrote. -/
def Permits (b : AllocBuffer) : BufferOp → Prop
  | .pourData bytes => bytes.length ≤ b.getFreeLen
  | .stripData len => len ≤ b.getDataLen
  | .readInt8 => 1 ≤ b.getDataLen
  | .readInt16 => 2 ≤ b.getDataLen
  | .readInt32 => 4 ≤ b.getDataLen
  | .readInt64 => 8 ≤ b.getDataLen
  | .readBytes len => len ≤ b.getDataLen
  | .poke i bytes => i + bytes.length ≤ b.getDataLen
  | _ => True

instance (b : AllocBuffer) (op : BufferOp) : Decidable (op.Permits b) := by
  unfold Permits
  split <;> infer_instance

/-- A buffer that holds the bytes of a queue. -/
structure Shows (b : AllocBuffer) (queue : List UInt8) : Prop where
  valid : b.Valid
  data : b.data = queue

variable {queue : List UInt8}

theorem Shows.getDataLen {b : AllocBuffer} (h : Shows b queue) : b.getDataLen = queue.length := by
  rw [h.valid.getDataLen_eq, h.data]

theorem length_bigEndian (len : Nat) (n : BitVec (8 * len)) : (bigEndian len n).length = len := by
  rw [bigEndian, length_map, length_range]

/-- One operation: it has a result, that of the queue, and the buffer does not become too large. -/
theorem step_spec {b : AllocBuffer} (shows : Shows b queue) {op : BufferOp}
    (below : b.getSpaceUsed < safeSpace) (small : b.getDataLen + op.need ≤ safeLen)
    (permits : op.Permits b) (garbage : Nat → UInt8) :
    ∃ b', op.step garbage b = some ((op.ideal queue).1, b') ∧ Shows b' (op.ideal queue).2 ∧
      b'.getSpaceUsed < safeSpace := by
  obtain ⟨h, rfl⟩ := shows
  have dlen := h.getDataLen_eq
  -- the operations that write bytes, and those that read an integer
  have writes : ∀ src : List UInt8, b.getDataLen + src.length ≤ safeLen →
      ∃ b', (b.writeBytes garbage src).map (BufferValue.none, ·) = some (.none, b') ∧
        Shows b' (b.data ++ src) ∧ b'.getSpaceUsed < safeSpace := by
    intro src fits
    obtain ⟨b', run, valid, data, safe⟩ := h.writeBytes_spec below fits garbage
    exact ⟨b', by rw [run]; rfl, ⟨valid, data⟩, safe⟩
  have reads : ∀ {w n : Nat}, (n : Int) ≤ b.getDataLen →
      ∃ b', (b.readInt w n).map (fun (n, b) => (BufferValue.int w n, b)) =
        some (.int w (ofBigEndian w (b.data.take n)), b') ∧ Shows b' (b.data.drop n) ∧
        b'.getSpaceUsed < safeSpace := by
    intro w n enough
    obtain ⟨b', run, valid, data, space⟩ := h.readInt_spec w (n := n) (by omega)
    exact ⟨b', by rw [run]; rfl, ⟨valid, data⟩, space ▸ below⟩
  cases op with
  | writeInt8 n | writeInt16 n | writeInt32 n | writeInt64 n =>
    have written := writes (bigEndian _ n) (by rw [length_bigEndian]; exact small)
    exact written
  | writeBytes src => exact writes src small
  | ensureFree len =>
    obtain ⟨b', run, valid, data, -, safe⟩ :=
      h.expand_spec below (show b.getDataLen + len ≤ safeLen from small) garbage
    exact ⟨b', by simp only [step, AllocBuffer.ensureFree, run, map_some, ideal], ⟨valid, data⟩, safe⟩
  | pourData bytes =>
    obtain ⟨b', run, valid, data, space⟩ := h.storeFree_spec permits
    refine ⟨b', ?_, ⟨valid, data⟩, space ▸ below⟩
    simp only [step, AllocBuffer.pourData, if_pos (ge_iff_le.mpr permits), run, map_some, ideal]
  | stripData len =>
    have enough : (len : Int) ≤ b.getDataLen := permits
    obtain ⟨valid, data⟩ := h.retract (n := len) (by omega)
    refine ⟨_, ?_, ⟨valid, data⟩, below⟩
    simp only [step, AllocBuffer.stripData, if_pos (ge_iff_le.mpr enough), map_some, ideal]
  | readInt8 | readInt16 | readInt32 | readInt64 => exact reads permits
  | readBytes len =>
    have enough : (len : Int) ≤ b.getDataLen := permits
    obtain ⟨b', run, valid, data, space⟩ := h.readBytes_spec (n := len) (by omega)
    exact ⟨b', by simp only [step, run, map_some, ideal], ⟨valid, data⟩, space ▸ below⟩
  | drainData len =>
    obtain ⟨valid, data, space⟩ := h.drainData_spec len
    exact ⟨_, rfl, ⟨valid, data⟩, space ▸ below⟩
  | poke i bytes =>
    have inside : (i : Int) + bytes.length ≤ b.getDataLen := permits
    obtain ⟨b', run, valid, data, space⟩ := h.poke_spec (n := i) bytes (by omega)
    exact ⟨b', by simp only [step, run, map_some, ideal], ⟨valid, data⟩, space ▸ below⟩
  | clear =>
    obtain ⟨valid, data⟩ := h.clear_spec
    exact ⟨_, rfl, ⟨valid, data⟩, below⟩
  | shrink =>
    obtain ⟨b', run, valid, data, space⟩ := h.shrink_spec garbage
    exact ⟨b', by simp only [step, run, map_some, ideal], ⟨valid, data⟩,
      space.trans_lt below⟩

/-- A sequence of operations, each with what its new memory holds. -/
def run (b : AllocBuffer) : List (BufferOp × (Nat → UInt8)) → Option (List BufferValue × AllocBuffer)
  | [] => some ([], b)
  | (op, garbage) :: calls => do
      let (value, b) ← op.step garbage b
      let (values, b) ← run b calls
      return (value :: values, b)

def idealRun (queue : List UInt8) : List BufferOp → List BufferValue × List UInt8
  | [] => ([], queue)
  | op :: ops =>
      let (value, queue) := op.ideal queue
      let (values, queue) := idealRun queue ops
      (value :: values, queue)

/-- Callers keep to what they may do, and neither the buffer nor what it has to hold ever comes to
2 ^ 22 bytes. -/
def Within (b : AllocBuffer) : List (BufferOp × (Nat → UInt8)) → Prop
  | [] => b.getSpaceUsed < 2 ^ 22
  | (op, garbage) :: calls =>
      b.getSpaceUsed < 2 ^ 22 ∧ b.getDataLen + op.need < 2 ^ 22 ∧ op.Permits b ∧
        match op.step garbage b with
        | some (_, b') => Within b' calls
        | none => True

instance Within.decidable : (b : AllocBuffer) → (calls : List (BufferOp × (Nat → UInt8))) →
    Decidable (Within b calls)
  | b, [] => inferInstanceAs (Decidable (b.getSpaceUsed < 2 ^ 22))
  | b, (op, garbage) :: calls => by
      have rest : ∀ b', Decidable (Within b' calls) := fun b' => Within.decidable b' calls
      unfold Within
      cases op.step garbage b <;> infer_instance

theorem run_spec {calls : List (BufferOp × (Nat → UInt8))} {b : AllocBuffer}
    (shows : Shows b queue) (within : Within b calls) :
    ∃ b', run b calls = some ((idealRun queue (calls.map Prod.fst)).1, b') ∧
      Shows b' (idealRun queue (calls.map Prod.fst)).2 := by
  induction calls generalizing b queue with
  | nil => exact ⟨b, rfl, shows⟩
  | cons call calls ih =>
    obtain ⟨op, garbage⟩ := call
    obtain ⟨below, small, permits, rest⟩ := within
    obtain ⟨b₁, stepped, shows₁, -⟩ := step_spec shows (below.trans (by decide))
      (small.le.trans (by decide)) permits garbage
    rw [stepped] at rest
    obtain ⟨b₂, ran, shows₂⟩ := ih shows₁ rest
    refine ⟨b₂, ?_, shows₂⟩
    simp only [run, stepped, ran, bind_eq_bind, bind_some]
    rfl

/-- Every sequence of operations has a result, so that nothing is read or written outside of the
allocation; the pointers are in order after it; and what it returned and what the buffer shows are
those of a queue of bytes. -/
theorem refines_byte_queue (calls : List (BufferOp × (Nat → UInt8))) (within : Within {} calls) :
    ∃ b, run {} calls = some ((idealRun [] (calls.map Prod.fst)).1, b) ∧ b.Valid ∧
      b.data = (idealRun [] (calls.map Prod.fst)).2 ∧
      b.getDataLen = (idealRun [] (calls.map Prod.fst)).2.length := by
  obtain ⟨b, ran, shows⟩ := run_spec ⟨valid_empty, rfl⟩ within
  exact ⟨b, ran, shows.valid, shows.data, shows.getDataLen⟩

/-- A word is written and half of it is read; the buffer shrinks to the other half, and grows
again for a second word. -/
theorem refines_byte_queue_shrink_and_grow :
    ∃ b, run {} [(.writeInt32 0x01020304, fun _ => 7), (.readInt16, fun _ => 7),
        (.shrink, fun _ => 7), (.writeInt32 0x05060708, fun _ => 7), (.stripData 1, fun _ => 7)] =
      some ([.none, .int 16 0x0102, .none, .none, .none], b) ∧ b.Valid ∧ b.data = [3, 4, 5, 6, 7] ∧
      b.getDataLen = 5 :=
  refines_byte_queue [(.writeInt32 0x01020304, fun _ => 7), (.readInt16, fun _ => 7),
    (.shrink, fun _ => 7), (.writeInt32 0x05060708, fun _ => 7), (.stripData 1, fun _ => 7)]
    (by decide +kernel)

end BufferOp

end AgentEngine.Anet
