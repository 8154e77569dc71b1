import Mathlib.Algebra.Order.Floor.Div
import PayloadStream.EvenChunks

/-!
# Even cuts

The chunks of a payload have one size, and only the last may be shorter. The size is the length
divided by the number of parts, rounded up, and at least one. It is computed in words as a quotient
and a carry, whose sum does not wrap: rounded up or not, a quotient is at most the length. It is the
least size with which the parts cover the payload, so the chunks stay within the parts.
-/

namespace PayloadStream

/-- Chunks of one size, of which only the last may be shorter. None is empty. -/
inductive EvenlyCut (size : Nat) : List (List UInt8) → Prop
  | nil : EvenlyCut size []
  | last {chunk : List UInt8} (pos : 0 < chunk.length) (le : chunk.length ≤ size) :
      EvenlyCut size [chunk]
  | more {chunk next : List UInt8} {rest : List (List UInt8)} (length_eq : chunk.length = size)
      (tail : EvenlyCut size (next :: rest)) : EvenlyCut size (chunk :: next :: rest)

theorem evenlyCut_chunksOf {size : Nat} (h : 0 < size) (bytes : List UInt8) :
    EvenlyCut size (chunksOf size bytes) := by
  -- The induction is on the length, since a whole chunk is taken off at each step.
  induction hn : bytes.length using Nat.strongRecOn generalizing bytes with
  | ind n ih =>
    cases bytes with
    | nil =>
      rw [chunksOf_nil]
      exact .nil
    | cons b rest =>
      rw [chunksOf_cons h]
      have hshorter : ((b :: rest).drop size).length < n := by
        rw [List.length_drop, hn]
        rw [List.length_cons] at hn
        omega
      have htail := ih _ hshorter _ rfl
      cases hdrop : (b :: rest).drop size with
      | nil =>
        have hle : (b :: rest).length ≤ size := List.drop_eq_nil_iff.mp hdrop
        rw [chunksOf_nil, List.take_of_length_le hle]
        exact .last (Nat.zero_lt_succ _) hle
      | cons c tail =>
        have hlt : size < (b :: rest).length := by
          apply Nat.lt_of_not_le
          intro hle
          rw [List.drop_eq_nil_of_le hle] at hdrop
          cases hdrop
        rw [hdrop, chunksOf_cons h] at htail
        rw [chunksOf_cons h]
        exact .more (List.length_take_of_le (Nat.le_of_lt hlt)) htail

section CeilDiv

variable {a d : Nat}

theorem ceilDiv_le_self (hd : 0 < d) : a ⌈/⌉ d ≤ a :=
  (ceilDiv_le_iff_le_mul hd).mpr (Nat.le_mul_of_pos_left a hd)

theorem ceilDiv_eq_div_add_carry (a : Nat) (hd : 0 < d) :
    a ⌈/⌉ d = a / d + if a % d = 0 then 0 else 1 := by
  have ha := Nat.div_add_mod a d
  have hlt := Nat.mod_lt a hd
  rw [Nat.ceilDiv_eq_add_pred_div]
  split
  next h =>
    apply Nat.div_eq_of_lt_le
    · rw [Nat.add_zero, Nat.mul_comm]
      omega
    · rw [Nat.add_zero, Nat.add_mul, Nat.one_mul, Nat.mul_comm]
      omega
  next h =>
    apply Nat.div_eq_of_lt_le
    · rw [Nat.add_mul, Nat.one_mul, Nat.mul_comm]
      omega
    · rw [Nat.add_mul, Nat.add_mul, Nat.one_mul, Nat.mul_comm]
      omega

theorem ceilDiv_eq_one (hpos : 0 < a) (hle : a ≤ d) : a ⌈/⌉ d = 1 := by
  rw [Nat.ceilDiv_eq_add_pred_div]
  apply Nat.div_eq_of_lt_le <;> omega

theorem ceilDiv_eq_sub_ceilDiv_add_one (hd : 0 < d) (hle : d ≤ a) :
    a ⌈/⌉ d = (a - d) ⌈/⌉ d + 1 := by
  have hsum : a + d - 1 = a - d + d - 1 + d := by omega
  rw [Nat.ceilDiv_eq_add_pred_div, Nat.ceilDiv_eq_add_pred_div, hsum, Nat.add_div_right _ hd]

end CeilDiv

namespace EvenlyCut

variable {size : Nat} {chunks : List (List UInt8)}

theorem length_bounds (hpos : 0 < size) (h : EvenlyCut size chunks) {chunk : List UInt8}
    (hchunk : chunk ∈ chunks) : 0 < chunk.length ∧ chunk.length ≤ size := by
  induction h with
  | nil => simp at hchunk
  | last pos le =>
    obtain rfl := List.mem_singleton.mp hchunk
    exact ⟨pos, le⟩
  | more length_eq tail ih =>
    rcases List.mem_cons.mp hchunk with rfl | hchunk
    · rw [length_eq]
      exact ⟨hpos, Nat.le_refl size⟩
    · exact ih hchunk

theorem length_of_mem_dropLast (h : EvenlyCut size chunks) {chunk : List UInt8}
    (hchunk : chunk ∈ chunks.dropLast) : chunk.length = size := by
  induction h with
  | nil => simp at hchunk
  | last pos le => simp at hchunk
  | more length_eq tail ih =>
    rw [List.dropLast_cons_cons] at hchunk
    rcases List.mem_cons.mp hchunk with rfl | hchunk
    · exact length_eq
    · exact ih hchunk

/-- The number of chunks is the length of the payload divided by their size, rounded up. -/
theorem length_eq_ceilDiv (hpos : 0 < size) (h : EvenlyCut size chunks) :
    chunks.length = chunks.flatten.length ⌈/⌉ size := by
  induction h with
  | nil => exact (zero_ceilDiv size).symm
  | last pos le =>
    rw [List.flatten_singleton, ceilDiv_eq_one pos le]
    rfl
  | @more chunk next rest length_eq tail ih =>
    have hlength : (chunk :: next :: rest).flatten.length =
        size + (next :: rest).flatten.length := by
      rw [List.flatten_cons, List.length_append, length_eq]
    rw [hlength, ceilDiv_eq_sub_ceilDiv_add_one hpos (Nat.le_add_right size _),
      Nat.add_sub_cancel_left, ← ih]
    rfl

end EvenlyCut

section ChunkSize

variable {n : Nat} {parts : UInt64}

theorem toNat_pos_of_ne_zero (hparts : parts ≠ 0) : 0 < parts.toNat :=
  UInt64.lt_iff_toNat_lt.mp (UInt64.pos_iff_ne_zero.mpr hparts)

/-- The quotient and its carry come to the exact quotient, rounded up. -/
theorem div_add_carry_eq_ceilDiv (hn : n < UInt64.size) (hparts : parts ≠ 0) :
    (n.toUInt64 / parts).toNat + (if n.toUInt64 % parts = 0 then 0 else 1) =
      n ⌈/⌉ parts.toNat := by
  have hword : n.toUInt64.toNat = n := UInt64.toNat_ofNat_of_lt' hn
  simp only [ceilDiv_eq_div_add_carry n (toNat_pos_of_ne_zero hparts), ← UInt64.toNat_inj,
    UInt64.toNat_mod, UInt64.toNat_div, hword, UInt64.toNat_zero]

theorem div_add_carry_lt (hn : n < UInt64.size) (hparts : parts ≠ 0) :
    (n.toUInt64 / parts).toNat + (if n.toUInt64 % parts = 0 then 0 else 1) < UInt64.size := by
  rw [div_add_carry_eq_ceilDiv hn hparts]
  exact Nat.lt_of_le_of_lt (ceilDiv_le_self (toNat_pos_of_ne_zero hparts)) hn

/-- The size of the chunks is the length divided by the number of parts, rounded up. -/
theorem toNat_chunkSize (hn : n < UInt64.size) (hparts : parts ≠ 0) :
    (chunkSize n.toUInt64 parts).toNat = max 1 (n ⌈/⌉ parts.toNat) := by
  have hcarry : (if n.toUInt64 % parts = 0 then (0 : UInt64) else 1).toNat =
      if n.toUInt64 % parts = 0 then 0 else 1 := by
    split <;> rfl
  rw [chunkSize, UInt64.toNat_max, UInt64.toNat_add, hcarry,
    Nat.mod_eq_of_lt (div_add_carry_lt hn hparts), div_add_carry_eq_ceilDiv hn hparts, Nat.max_comm]
  rfl

end ChunkSize

theorem evenChunks_eq_chunksOf {payload : List UInt8} (hword : payload.length < UInt64.size)
    {parts : UInt64} (hparts : parts ≠ 0) :
    evenChunks payload parts =
      .ok (chunksOf (max 1 (payload.length ⌈/⌉ parts.toNat)) payload) := by
  rw [← toNat_chunkSize hword hparts]
  exact if_neg hparts

section LeastSize

variable {n parts size : Nat}

theorem isLeast_max_ceilDiv (n : Nat) (hparts : 0 < parts) :
    IsLeast {c | 1 ≤ c ∧ n ≤ c * parts} (max 1 (n ⌈/⌉ parts)) := by
  constructor
  · refine ⟨Nat.le_max_left _ _, ?_⟩
    rw [Nat.mul_comm]
    exact (ceilDiv_le_iff_le_mul hparts).mp (Nat.le_max_right _ _)
  · rintro c ⟨hpos, hcover⟩
    rw [Nat.mul_comm] at hcover
    exact Nat.max_le.mpr ⟨hpos, (ceilDiv_le_iff_le_mul hparts).mpr hcover⟩

/-- Parts of a size below the least one do not cover the payload. -/
theorem eq_one_or_pred_mul_lt (h : IsLeast {c | 1 ≤ c ∧ n ≤ c * parts} size) :
    size = 1 ∨ (size - 1) * parts < n := by
  by_contra hnot
  obtain ⟨hne, hcover⟩ := not_or.mp hnot
  have hpos : 1 ≤ size := h.1.1
  have hsmaller : size ≤ size - 1 := h.2 ⟨by omega, Nat.le_of_not_lt hcover⟩
  omega

end LeastSize

/-- A payload is cut into its bytes in order, in at most as many chunks as parts and as bytes. All
chunks have the least size with which the parts cover the payload, but the last one may be shorter.
No word on the way to the size wraps, however many parts there are. -/
theorem evenChunks_cut_in_least_size {payload : List UInt8} (hword : payload.length < UInt64.size)
    {parts : UInt64} (hparts : parts ≠ 0) :
    ∃ chunks size, evenChunks payload parts = .ok chunks ∧
      chunks.flatten = payload ∧ chunks.length ≤ min parts.toNat payload.length ∧
      (chunks = [] ↔ payload = []) ∧
      (∀ chunk ∈ chunks.dropLast, chunk.length = size) ∧
      (∀ chunk ∈ chunks, 1 ≤ chunk.length ∧ chunk.length ≤ size) ∧
      IsLeast {c | 1 ≤ c ∧ payload.length ≤ c * parts.toNat} size ∧
      (size = 1 ∨ (size - 1) * parts.toNat < payload.length) ∧
      payload.length.toUInt64.toNat = payload.length ∧
      (payload.length.toUInt64 / parts).toNat +
        (if payload.length.toUInt64 % parts = 0 then 0 else 1) < UInt64.size ∧
      (chunkSize payload.length.toUInt64 parts).toNat = size := by
  have hleast := isLeast_max_ceilDiv payload.length (toNat_pos_of_ne_zero hparts)
  have hchunks := evenChunks_eq_chunksOf hword hparts
  have hsize := toNat_chunkSize hword hparts
  generalize max 1 (payload.length ⌈/⌉ parts.toNat) = size at hleast hchunks hsize
  have hpos : 0 < size := hleast.1.1
  have heven := evenlyCut_chunksOf hpos payload
  have hflatten := flatten_chunksOf size payload
  have hlength := heven.length_eq_ceilDiv hpos
  rw [hflatten] at hlength
  refine ⟨chunksOf size payload, size, hchunks, hflatten, ?_, ?_,
    fun chunk => heven.length_of_mem_dropLast, fun chunk => heven.length_bounds hpos, hleast,
    eq_one_or_pred_mul_lt hleast, UInt64.toNat_ofNat_of_lt' hword, div_add_carry_lt hword hparts,
    hsize⟩
  · rw [hlength]
    exact Nat.le_min.mpr ⟨(ceilDiv_le_iff_le_mul hpos).mpr hleast.1.2, ceilDiv_le_self hpos⟩
  · constructor
    · intro hnil
      rw [← hflatten, hnil]
      rfl
    · rintro rfl
      exact chunksOf_nil size

/-- Nine bytes in four parts are three chunks, since four chunks of two bytes are too few. -/
theorem evenChunks_nine_in_four :
    [(1 : UInt8), 2, 3, 4, 5, 6, 7, 8, 9].length < UInt64.size ∧ (4 : UInt64) ≠ 0 ∧
      evenChunks [1, 2, 3, 4, 5, 6, 7, 8, 9] 4 = .ok [[1, 2, 3], [4, 5, 6], [7, 8, 9]] ∧
      IsLeast {c | 1 ≤ c ∧ 9 ≤ c * (4 : UInt64).toNat} 3 := by
  have hword : [(1 : UInt8), 2, 3, 4, 5, 6, 7, 8, 9].length < UInt64.size := by decide
  have hparts : (4 : UInt64) ≠ 0 := by decide
  have hchunks : evenChunks [1, 2, 3, 4, 5, 6, 7, 8, 9] 4 =
      .ok [[1, 2, 3], [4, 5, 6], [7, 8, 9]] := by
    change Except.ok (chunksOf 3 [1, 2, 3, 4, 5, 6, 7, 8, 9]) = _
    simp [chunksOf]
  obtain ⟨_, size, -, -, -, -, -, -, hleast, -, -, -, hsize⟩ :=
    evenChunks_cut_in_least_size hword hparts
  obtain rfl : 3 = size := hsize
  exact ⟨hword, hparts, hchunks, hleast⟩

end PayloadStream
