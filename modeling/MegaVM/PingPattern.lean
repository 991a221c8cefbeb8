import MegaVM.Lib.Stores
import MegaVM.System.Opening

/-!
# The pattern in `start_buf`

`megaVM_test_client` stores the text, then letters behind it with a counter
that wraps from 122 to 65, and last a NUL over the final letter. The server
gets the length of its echo by `strlen` from the bytes it has read, so the
echo has the advertised length only because no NUL stands before the last
byte.
-/

namespace MegaVM

/-! ## The letters -/

/-- The value of the counter after `k` turns of the loop. -/
def letter (k : Nat) : Byte := BitVec.ofNat 8 (65 + k % 58)

theorem letter_toNat (k : Nat) : (letter k).toNat = 65 + k % 58 := by
  have hlt : k % 58 < 58 := Nat.mod_lt k (by omega)
  rw [letter, BitVec.toNat_ofNat, Nat.mod_eq_of_lt (by omega)]

theorem letter_ne_zero (k : Nat) : letter k ≠ 0 := by
  intro h
  have htoNat := congrArg BitVec.toNat h
  rw [letter_toNat] at htoNat
  simp at htoNat

/-- `c++; if (c > 122) c = 65;`. -/
theorem letter_succ (k : Nat) :
    (if letter k + 1 > 122 then 65 else letter k + 1) = letter (k + 1) := by
  have hk : (letter k + 1).toNat = 66 + k % 58 := by
    have hlt : k % 58 < 58 := Nat.mod_lt k (by omega)
    rw [BitVec.toNat_add, letter_toNat]
    show (65 + k % 58 + 1) % 256 = 66 + k % 58
    omega
  apply BitVec.eq_of_toNat_eq
  rw [letter_toNat]
  -- the counter wraps behind `z`
  by_cases hlast : letter k + 1 > 122
  · rw [if_pos hlast]
    have htoNat : 122 < (letter k + 1).toNat := BitVec.lt_def.mp hlast
    show 65 = 65 + (k + 1) % 58
    omega
  · rw [if_neg hlast, hk]
    have htoNat : ¬ 122 < (letter k + 1).toNat := fun h => hlast (BitVec.lt_def.mpr h)
    omega

/-! ## The stores -/

theorem fillLoop_index {left i : Nat} {c : Byte} {w : Nat × Byte} (h : w ∈ fillLoop left i c) :
    i ≤ w.1 ∧ w.1 < i + left := by
  induction left generalizing i c with
  | zero => cases h
  | succ left ih =>
      rcases List.mem_cons.mp h with rfl | h
      · exact ⟨le_rfl, by omega⟩
      · have := ih h
        omega

/-- The loop puts one letter behind the other. -/
theorem apply_fillLoop (left i k : Nat) (mem : Nat → Byte) (x : Nat) :
    Stores.apply (fillLoop left i (letter k)) mem x =
      if i ≤ x ∧ x < i + left then letter (k + (x - i)) else mem x := by
  induction left generalizing i k mem with
  | zero => rw [if_neg (by omega)]; rfl
  | succ left ih =>
      rw [fillLoop, letter_succ, Stores.apply_cons, ih]
      -- the first turn stores at `i`, the others behind it
      by_cases hi : x = i
      · subst hi
        rw [if_neg (by omega), if_pos (by omega), Function.update_self, Nat.sub_self]
        rfl
      · rw [Function.update_of_ne hi]
        by_cases hx : i ≤ x ∧ x < i + (left + 1)
        · rw [if_pos hx, if_pos (by omega), show k + 1 + (x - (i + 1)) = k + (x - i) by omega]
        · rw [if_neg hx, if_neg (by omega)]

/-- The stores of `sprintf` are those of the list behind it. -/
theorem sprintfWrites_index {w : Nat × Byte} (h : w ∈ sprintfWrites) :
    w.1 ≤ pingText.length := by
  obtain ⟨p, hp, rfl⟩ := List.mem_map.mp h
  have hlt := List.snd_lt_of_mem_zipIdx hp
  rw [List.length_append, List.length_singleton] at hlt
  omega

/-- `start_buf` after the stores. -/
def startBuf (size : Nat) (mem : Nat → Byte) : Nat → Byte :=
  Stores.apply (startBufWrites size) mem

/-- The buffer holds the text, then the letters in order up to a NUL in the
last byte, and no NUL before it. -/
structure PingPattern (size : Nat) (buf : Nat → Byte) : Prop where
  text : ∀ j (hj : j < pingText.length), buf j = pingText[j]
  letters : ∀ j, pingText.length ≤ j → j < size - 1 →
    buf j = BitVec.ofNat 8 (65 + (j - pingText.length) % 58)
  nul : buf (size - 1) = 0
  noNul : ∀ j < size - 1, buf j ≠ 0

theorem startBuf_nul (size : Nat) (mem : Nat → Byte) : startBuf size mem (size - 1) = 0 := by
  rw [startBuf, startBufWrites, Stores.apply_concat, Function.update_self]

/-- Before the NUL is stored, what `sprintf` and the loop leave. -/
theorem startBuf_of_ne {size j : Nat} (hj : j ≠ size - 1) (mem : Nat → Byte) :
    startBuf size mem j =
      if pingText.length ≤ j ∧ j < pingText.length + (size - pingText.length) then
        letter (j - pingText.length)
      else Stores.apply sprintfWrites mem j := by
  rw [startBuf, startBufWrites, Stores.apply_concat, Function.update_of_ne hj,
    Stores.apply_append]
  refine (apply_fillLoop (size - pingText.length) pingText.length 0 _ j).trans ?_
  rw [Nat.zero_add]

theorem pingText_length : pingText.length = 13 := rfl

theorem pingText_ne_zero : ∀ b ∈ pingText, b ≠ 0 := by decide

variable {size : Nat}

/-- No store leaves the buffer. -/
theorem startBufWrites_index (hsize : 14 ≤ size) {w : Nat × Byte}
    (h : w ∈ startBufWrites size) : w.1 < size := by
  have htext := pingText_length
  rw [startBufWrites, List.mem_append, List.mem_append, List.mem_singleton] at h
  -- `sprintf`, the loop, the NUL
  rcases h with (h | h) | rfl
  · have := sprintfWrites_index h
    omega
  · have := fillLoop_index h
    omega
  · show size - 1 < size
    omega

/-- **The pattern.** -/
theorem startBuf_pattern (hsize : 14 ≤ size) (mem : Nat → Byte) :
    PingPattern size (startBuf size mem) := by
  have hlen := pingText_length
  have htext : ∀ j (hj : j < pingText.length), startBuf size mem j = pingText[j] := by
    intro j hj
    rw [startBuf_of_ne (by omega), if_neg (by omega)]
    -- `sprintf` stores the text and a NUL, which the loop overwrites
    have hj' : j < (pingText ++ [0]).length := by
      rw [List.length_append]
      omega
    have hstore := Stores.apply_zipIdx (pingText ++ [0]) 0 mem hj'
    rw [Nat.zero_add, List.getElem_append_left hj] at hstore
    exact hstore
  have hletters : ∀ j, pingText.length ≤ j → j < size - 1 →
      startBuf size mem j = letter (j - pingText.length) := by
    intro j hge hlt
    rw [startBuf_of_ne (by omega), if_pos (by omega)]
  refine ⟨htext, hletters, startBuf_nul size mem, ?_⟩
  intro j hj
  by_cases hin : j < pingText.length
  · rw [htext j hin]
    exact pingText_ne_zero _ (List.getElem_mem hin)
  · rw [hletters j (by omega) hj]
    exact letter_ne_zero _

/-- Only the bytes of the buffer count. -/
theorem PingPattern.congr {buf buf' : Nat → Byte} (h : PingPattern size buf) (hsize : 14 ≤ size)
    (heq : ∀ j < size, buf' j = buf j) : PingPattern size buf' := by
  have hlen := pingText_length
  constructor
  · intro j hj
    rw [heq j (by omega)]
    exact h.text j hj
  · intro j hge hlt
    rw [heq j (by omega)]
    exact h.letters j hge hlt
  · rw [heq _ (by omega)]
    exact h.nul
  · intro j hj
    rw [heq j (by omega)]
    exact h.noNul j hj

/-- `strlen` finds the last byte of the pattern. -/
theorem PingPattern.strlen {buf : Nat → Byte} (h : PingPattern size buf) (hpos : 0 < size)
    {mem : List Byte} (hmem : ∀ j < size, mem[j]? = some (buf j)) :
    strlen mem = some (size - 1) := by
  have hnul : mem[size - 1]? = some 0 := by
    rw [hmem _ (by omega), h.nul]
  obtain ⟨n, hn, hle⟩ := strlen_le hnul
  have hat : mem[n]? = some 0 := (strlen_eq_some hn).1
  rw [hmem n (by omega), Option.some.injEq] at hat
  -- the first NUL is not before the last byte
  have hlast : ¬ n < size - 1 := fun hlt => h.noNul n hlt hat
  rw [hn, show n = size - 1 by omega]

/-! ## The echo -/

/-- In the client's memory the buffer lies at its DMA address. -/
theorem Call.store_startBuf (base : BitVec 64) (mem : BitVec 64 → Byte) (hsize : 14 ≤ size)
    (hint : size < 2 ^ 31) {j : Nat} (hj : j < size) :
    (Call.fill (startBufWrites size)).store base mem (base + BitVec.ofNat 64 j) =
      startBuf size (fun k => mem (base + BitVec.ofNat 64 k)) j := by
  have hinj : ∀ w ∈ startBufWrites size,
      base + BitVec.ofNat 64 w.1 = base + BitVec.ofNat 64 j → w.1 = j := by
    intro w hw
    have := startBufWrites_index hsize hw
    exact ServerConfig.offset_inj (by omega) (by omega)
  rw [startBuf, ← Stores.apply_map mem hinj, Stores.apply, List.foldl_map]
  rfl

/-- **The echo has the advertised length.** -/
theorem testClient_echo (client server : IbContext) (inp inp' : MainIn) (N i : Nat)
    (mem : Nat → Byte) (hsize : 14 ≤ client.size) :
    ∃ client' writes,
      clientMain inp client .testFill = some (client', .testPost, .fill writes) ∧
      (∀ w ∈ writes, w.1 < client.size) ∧
      PingPattern client.size (Stores.apply writes mem) ∧
      ∀ rdmaMem : List Byte,
        (∀ j < client.size, rdmaMem[j]? = some (Stores.apply writes mem j)) →
        ∃ server', serverMain N (strlen rdmaMem) inp' server (.writeSet i) =
            some (server', .writePost i, .none) ∧
          server'.rdmaSgl.length.toNat =
            (client'.sendBuf.carry client.host server.host).len server.host ∧
          (client.size < 2 ^ 31 → server'.rdmaSgl.length.toNat = client.size) := by
  have hpattern := startBuf_pattern hsize mem
  refine ⟨formatSend client client.startDmaAddr, startBufWrites client.size, rfl,
    fun w hw => startBufWrites_index hsize hw, hpattern, ?_⟩
  intro rdmaMem hread
  -- the string the server measures is the one the client has left
  rw [hpattern.strlen (by omega) hread]
  have hlen : client.size - 1 + 1 = client.size := by omega
  refine ⟨setWrite server (client.size - 1), rfl, ?_, ?_⟩
  · rw [formatSend, System.carry_len, setWrite, hlen]
  · intro hint
    rw [setWrite, hlen, BitVec.toNat_ofNat]
    omega

/-- A buffer of 64 bytes, as the pattern leaves it in zeroed memory. -/
theorem testClient_echo_sixtyFour :
    ∃ server', serverMain 1 (strlen ((List.range 64).map (startBuf 64 fun _ => 0))) .ok
        (.init .big 1 64) (.writeSet 0) = some (server', .writePost 0, .none) ∧
      server'.rdmaSgl.length.toNat = 64 := by
  obtain ⟨client', writes, hmain, -, -, hecho⟩ :=
    testClient_echo (.init .little 0 64) (.init .big 1 64) .ok .ok 1 0 (fun _ => 0) (by decide)
  cases hmain
  obtain ⟨server', hserver, -, hlen⟩ := hecho ((List.range 64).map (startBuf 64 fun _ => 0)) <| by
    intro j (hj : j < 64)
    rw [List.getElem?_map, List.getElem?_range hj]
    rfl
  exact ⟨server', hserver, hlen (by decide)⟩

end MegaVM
