import MegaVM.Lib.Words
import MegaVM.System.Machine

/-!
# The advertisement on the wire

The 16 bytes of `struct megaVM_rdma_info` as a host lays them out in
memory: `buf` at offset 0, `rkey` at 8, `size` at 12, each in the byte
order of the host. The client stores the fields in network order with
`htonll` and `htonl`; whatever the two hosts are, the bytes are the same,
and the server's `ntohll` (which is `cpu_to_be64`) and `ntohl` undo it.
-/

namespace MegaVM

open Words

/-- The bytes of one message. -/
abbrev Message := Fin 16 → Byte

/-- The byte order of a host, for words of `n` bytes. -/
def Endian.order (host : Endian) (n : Nat) : ByteOrder n :=
  match host with
  | .little => Words.little n
  | .big => Words.big n

/-- `struct megaVM_rdma_info` in the memory of a host. -/
def RdmaInfo.bytes (host : Endian) (m : RdmaInfo) : Message := fun i =>
  if i.val < 8 then store (host.order 8) m.buf i
  else if i.val < 12 then store (host.order 4) m.rkey (i - 8)
  else store (host.order 4) m.size (i - 12)

/-- The fields as a host loads them from `recv_buf`. -/
def RdmaInfo.ofBytes (host : Endian) (bs : Message) : RdmaInfo where
  buf := load 64 (host.order 8) fun i => bs (Fin.ofNat 16 i)
  rkey := load 32 (host.order 4) fun i => bs (Fin.ofNat 16 (i + 8))
  size := load 32 (host.order 4) fun i => bs (Fin.ofNat 16 (i + 12))

/-- `megaVM_format_send`, which stores to `send_buf` only; `size` is the
`int` in `context->size`. -/
def megaVMFormatSend (host : Endian) (rkey : BitVec 32) (size : Int) (buf : BitVec 64) : RdmaInfo :=
  ⟨htonll host buf, htonl host rkey, htonl host (BitVec.ofInt 32 size)⟩

/-- The main thread's `formatSend` is it, on a size that is not negative. -/
theorem formatSend_sendBuf (cb : IbContext) (buf : BitVec 64) :
    (formatSend cb buf).sendBuf = megaVMFormatSend cb.host cb.dmaMr.rkey cb.size buf := by
  rw [formatSend, megaVMFormatSend, BitVec.ofInt_natCast]

/-! ## Layout -/

/-- A host reads back what it has laid out. -/
theorem ofBytes_bytes (host : Endian) (m : RdmaInfo) : .ofBytes host (m.bytes host) = m := by
  have hbuf : load 64 (host.order 8) (fun i => m.bytes host (Fin.ofNat 16 i)) = m.buf := by
    refine load_of_store _ _ (by omega) fun i hi => ?_
    have hval : (Fin.ofNat 16 i).val = i := Nat.mod_eq_of_lt (by omega)
    rw [RdmaInfo.bytes, hval, if_pos hi]
  have hrkey : load 32 (host.order 4) (fun i => m.bytes host (Fin.ofNat 16 (i + 8))) = m.rkey := by
    refine load_of_store _ _ (by omega) fun i hi => ?_
    have hval : (Fin.ofNat 16 (i + 8)).val = i + 8 := Nat.mod_eq_of_lt (by omega)
    rw [RdmaInfo.bytes, hval, if_neg (by omega), if_pos (by omega), Nat.add_sub_cancel]
  have hsize : load 32 (host.order 4) (fun i => m.bytes host (Fin.ofNat 16 (i + 12))) = m.size := by
    refine load_of_store _ _ (by omega) fun i hi => ?_
    have hval : (Fin.ofNat 16 (i + 12)).val = i + 12 := Nat.mod_eq_of_lt (by omega)
    rw [RdmaInfo.bytes, hval, if_neg (by omega), if_neg (by omega), Nat.add_sub_cancel]
  rw [RdmaInfo.ofBytes, hbuf, hrkey, hsize]

/-- Every message is the layout of what a host reads from it. -/
theorem bytes_ofBytes (host : Endian) (bs : Message) :
    (RdmaInfo.ofBytes host bs).bytes host = bs := by
  funext i
  obtain ⟨i, hi⟩ := i
  rw [RdmaInfo.bytes, RdmaInfo.ofBytes]
  split
  · rename_i h8
    rw [store_load _ _ h8 (by omega)]
    congr 1
    exact Fin.ext (Nat.mod_eq_of_lt hi)
  · rename_i h8
    split
    · rename_i h12
      rw [store_load _ _ (by simp only at h8 h12 ⊢; omega) (by omega)]
      congr 1
      exact Fin.ext (by simp only [Fin.val_ofNat] at h8 h12 ⊢; omega)
    · rename_i h12
      rw [store_load _ _ (by simp only at h8 h12 ⊢; omega) (by omega)]
      congr 1
      exact Fin.ext (by simp only [Fin.val_ofNat] at h8 h12 ⊢; omega)

/-! ## Network order -/

theorem bswap32_eq_swap (x : BitVec 32) : bswap32 x = swap 4 x := by
  apply BitVec.eq_of_getLsbD_eq
  intro j hj
  rw [swap, getLsbD_gather _ hj, getLsbD_byte]
  simp only [bswap32, BitVec.getLsbD_append, BitVec.getLsbD_extractLsb']
  grind

theorem bswap64_eq_swap (x : BitVec 64) : bswap64 x = swap 8 x := by
  apply BitVec.eq_of_getLsbD_eq
  intro j hj
  rw [swap, getLsbD_gather _ hj, getLsbD_byte]
  simp only [bswap64, bswap32, BitVec.getLsbD_append, BitVec.getLsbD_extractLsb']
  grind

/-- A store in network order leaves the same bytes on every host. -/
theorem store_htonl (host : Endian) (x : BitVec 32) {i : Nat} (hi : i < 4) :
    store (host.order 4) (htonl host x) i = store (Words.big 4) x i := by
  cases host with
  | little =>
      rw [htonl, ntohl, bswap32_eq_swap]
      exact store_swap x hi (by omega)
  | big => rfl

theorem store_htonll (host : Endian) (x : BitVec 64) {i : Nat} (hi : i < 8) :
    store (host.order 8) (htonll host x) i = store (Words.big 8) x i := by
  cases host with
  | little =>
      rw [htonll, ntohll, bswap64_eq_swap]
      exact store_swap x hi (by omega)
  | big => rfl

/-- The message does not depend on the host that formats it. -/
theorem format_bytes (host host' : Endian) (rkey : BitVec 32) (size : Int) (buf : BitVec 64) :
    (megaVMFormatSend host rkey size buf).bytes host
      = (megaVMFormatSend host' rkey size buf).bytes host' := by
  funext i
  obtain ⟨i, hi⟩ := i
  simp only [RdmaInfo.bytes, megaVMFormatSend]
  split
  · rename_i h8
    rw [store_htonll host buf h8, store_htonll host' buf h8]
  · split
    · rw [store_htonl host rkey (by omega), store_htonl host' rkey (by omega)]
    · rw [store_htonl host _ (by omega), store_htonl host' _ (by omega)]

theorem ntohl_htonl (host : Endian) (x : BitVec 32) : ntohl host (htonl host x) = x := by
  cases host with
  | little => exact bswap32_bswap32 x
  | big => rfl

theorem ntohll_htonll (host : Endian) (x : BitVec 64) : ntohll host (htonll host x) = x := by
  cases host with
  | little => exact bswap64_bswap64 x
  | big => rfl

/-- `htonl` and `ntohl` are the same function of the bytes. -/
theorem htonl_ntohl (host : Endian) (x : BitVec 32) : htonl host (ntohl host x) = x :=
  ntohl_htonl host x

theorem htonll_ntohll (host : Endian) (x : BitVec 64) : htonll host (ntohll host x) = x :=
  ntohll_htonll host x

/-- The joint machine carries a message byte by byte. -/
theorem carry_eq_ofBytes (src dst : Endian) (m : RdmaInfo) :
    m.carry src dst = .ofBytes dst (m.bytes src) := by
  have hm : m = megaVMFormatSend src (ntohl src m.rkey) (ntohl src m.size).toInt
      (ntohll src m.buf) := by
    rw [megaVMFormatSend, htonll_ntohll, htonl_ntohl, BitVec.ofInt_toInt, htonl_ntohl]
  rw [hm, format_bytes src dst, ofBytes_bytes]
  cases src <;> cases dst <;>
    simp [RdmaInfo.carry, megaVMFormatSend, htonll, ntohll, htonl, ntohl, bswap64_bswap64,
      bswap32_bswap32]

/-! ## The round trip -/

/-- `server_recv` on a message in `recv_buf`. -/
theorem serverRecv_decodes (cb : IbContext) {wc : Wc} (hlen : wc.byteLen = sizeofRdmaInfo)
    (m : RdmaInfo) :
    let cb' := (serverRecv { cb with recvBuf := m } wc).1
    cb'.remoteAddr = ntohll cb.host m.buf ∧ cb'.remoteRkey = ntohl cb.host m.rkey ∧
      cb'.remoteLen = ntohl cb.host m.size := by
  simp [serverRecv, hlen]

/-- **The advertisement survives the wire, and no two messages are
confused**, for all four pairs of hosts. -/
theorem advert_round_trip (client : Endian) (cb : IbContext) (wc : Wc)
    (hlen : wc.byteLen = sizeofRdmaInfo) :
    (∀ (buf : BitVec 64) (rkey : BitVec 32) (size : Int),
      let bs := (megaVMFormatSend client rkey size buf).bytes client
      let cb' := (serverRecv { cb with recvBuf := .ofBytes cb.host bs } wc).1
      cb'.remoteAddr = buf ∧ cb'.remoteRkey = rkey ∧ (cb'.remoteLen.toNat : Int) = size % 2 ^ 32) ∧
    (∀ bs : Message,
      let cb' := (serverRecv { cb with recvBuf := .ofBytes cb.host bs } wc).1
      (megaVMFormatSend client cb'.remoteRkey cb'.remoteLen.toInt cb'.remoteAddr).bytes client
        = bs) := by
  constructor
  · intro buf rkey size bs cb'
    have hbs : RdmaInfo.ofBytes cb.host bs = megaVMFormatSend cb.host rkey size buf := by
      rw [← ofBytes_bytes cb.host (megaVMFormatSend cb.host rkey size buf),
        format_bytes cb.host client]
    obtain ⟨haddr, hrkey, hsize⟩ := serverRecv_decodes cb hlen (.ofBytes cb.host bs)
    have hlen' : cb'.remoteLen = BitVec.ofInt 32 size := by
      refine hsize.trans ?_
      rw [hbs]
      exact ntohl_htonl cb.host _
    refine ⟨haddr.trans ?_, hrkey.trans ?_, ?_⟩
    · rw [hbs]
      exact ntohll_htonll cb.host buf
    · rw [hbs]
      exact ntohl_htonl cb.host rkey
    · rw [hlen', BitVec.toNat_ofInt]
      exact Int.toNat_of_nonneg (Int.emod_nonneg _ (by decide))
  · intro bs cb'
    obtain ⟨haddr, hrkey, hsize⟩ := serverRecv_decodes cb hlen (.ofBytes cb.host bs)
    rw [haddr, hrkey, hsize, format_bytes client cb.host, megaVMFormatSend, BitVec.ofInt_toInt,
      htonl_ntohl, htonl_ntohl, htonll_ntohll, bytes_ofBytes]

/-- A negative size on a little-endian client and a big-endian server. -/
theorem advert_round_trip_negative :
    let cb := IbContext.init .big 1 64
    let bs := (megaVMFormatSend .little 7 (-1) 4096).bytes .little
    let cb' := (serverRecv { cb with recvBuf := .ofBytes .big bs } ⟨.success, .recv, 16⟩).1
    cb'.remoteAddr = 4096 ∧ cb'.remoteRkey = 7 ∧ (cb'.remoteLen.toNat : Int) = (-1) % 2 ^ 32 :=
  (advert_round_trip .little (IbContext.init .big 1 64) ⟨.success, .recv, 16⟩ rfl).1 4096 7 (-1)

end MegaVM
