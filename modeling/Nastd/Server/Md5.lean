import Nastd.Lib.Absorb
import Nastd.Server.Memdb
import Mathlib.Data.UInt

/-!
# The hash of the cache

`server/md5.c`, and `hashkey` of `server/memdb.c`, which takes the bucket of a key from the first
word of its digest. `MD5Update` counts bits in two words, fills its buffer and goes
through whole blocks from where they lie; `md5_stream` is that however the input is cut
into updates, what comes out is the digest of the whole: the block function, over the
blocks of the input with a 1 bit, zeros and its length behind it.

`unsigned int` has 32 bits, and every update is shorter than 2^32 - 63 bytes, so `i + 63` does
not wrap.
-/

namespace Nastd.Server

open Lib

/-! ## As the source has it -/

/-- `context->state`. -/
structure Md5State where
  a : UInt32
  b : UInt32
  c : UInt32
  d : UInt32
  deriving DecidableEq, Repr

/-- `MD5_CTX`. -/
structure Md5Ctx where
  state : Md5State
  count0 : UInt32
  count1 : UInt32
  buffer : Bytes
  deriving DecidableEq, Repr

/-- `PADDING`. -/
def PADDING : Bytes := 0x80 :: List.replicate 63 0

def md5F (x y z : UInt32) : UInt32 := (x &&& y) ||| (~~~x &&& z)

def md5G (x y z : UInt32) : UInt32 := (x &&& z) ||| (y &&& ~~~z)

def md5H (x y z : UInt32) : UInt32 := x ^^^ y ^^^ z

def md5I (x y z : UInt32) : UInt32 := y ^^^ (x ||| ~~~z)

/-- `ROTATE_LEFT`. -/
def rotateLeft (x n : UInt32) : UInt32 := (x <<< n) ||| (x >>> (32 - n))

/-- `FF`, `GG`, `HH` and `II` with `fn`, and the registers one place on for the next operation. -/
def md5Op (fn : UInt32 → UInt32 → UInt32 → UInt32) (x : List UInt32) (r : Md5State)
    (op : Nat × UInt32 × UInt32) : Md5State :=
  let a := rotateLeft (r.a + (fn r.b r.c r.d + x.getD op.1 0 + op.2.2)) op.2.1 + r.b
  ⟨r.d, a, r.b, r.c⟩

/-- The 64 operations: the word, the rotation and the constant of each. -/
def opsF : List (Nat × UInt32 × UInt32) :=
  [(0, 7, 0xd76aa478), (1, 12, 0xe8c7b756), (2, 17, 0x242070db), (3, 22, 0xc1bdceee),
    (4, 7, 0xf57c0faf), (5, 12, 0x4787c62a), (6, 17, 0xa8304613), (7, 22, 0xfd469501),
    (8, 7, 0x698098d8), (9, 12, 0x8b44f7af), (10, 17, 0xffff5bb1), (11, 22, 0x895cd7be),
    (12, 7, 0x6b901122), (13, 12, 0xfd987193), (14, 17, 0xa679438e), (15, 22, 0x49b40821)]

def opsG : List (Nat × UInt32 × UInt32) :=
  [(1, 5, 0xf61e2562), (6, 9, 0xc040b340), (11, 14, 0x265e5a51), (0, 20, 0xe9b6c7aa),
    (5, 5, 0xd62f105d), (10, 9, 0x2441453), (15, 14, 0xd8a1e681), (4, 20, 0xe7d3fbc8),
    (9, 5, 0x21e1cde6), (14, 9, 0xc33707d6), (3, 14, 0xf4d50d87), (8, 20, 0x455a14ed),
    (13, 5, 0xa9e3e905), (2, 9, 0xfcefa3f8), (7, 14, 0x676f02d9), (12, 20, 0x8d2a4c8a)]

def opsH : List (Nat × UInt32 × UInt32) :=
  [(5, 4, 0xfffa3942), (8, 11, 0x8771f681), (11, 16, 0x6d9d6122), (14, 23, 0xfde5380c),
    (1, 4, 0xa4beea44), (4, 11, 0x4bdecfa9), (7, 16, 0xf6bb4b60), (10, 23, 0xbebfbc70),
    (13, 4, 0x289b7ec6), (0, 11, 0xeaa127fa), (3, 16, 0xd4ef3085), (6, 23, 0x4881d05),
    (9, 4, 0xd9d4d039), (12, 11, 0xe6db99e5), (15, 16, 0x1fa27cf8), (2, 23, 0xc4ac5665)]

def opsI : List (Nat × UInt32 × UInt32) :=
  [(0, 6, 0xf4292244), (7, 10, 0x432aff97), (14, 15, 0xab9423a7), (5, 21, 0xfc93a039),
    (12, 6, 0x655b59c3), (3, 10, 0x8f0ccc92), (10, 15, 0xffeff47d), (1, 21, 0x85845dd1),
    (8, 6, 0x6fa87e4f), (15, 10, 0xfe2ce6e0), (6, 15, 0xa3014314), (13, 21, 0x4e0811a1),
    (4, 6, 0xf7537e82), (11, 10, 0xbd3af235), (2, 15, 0x2ad7d2bb), (9, 21, 0xeb86d391)]

/-- `Decode`: words from bytes, low byte first. -/
def decode : Bytes → List UInt32
  | b0 :: b1 :: b2 :: b3 :: rest =>
    (b0.toUInt32 ||| (b1.toUInt32 <<< 8) ||| (b2.toUInt32 <<< 16) ||| (b3.toUInt32 <<< 24)) ::
      decode rest
  | _ => []

/-- `MD5Transform`. -/
def md5Transform (state : Md5State) (block : Bytes) : Md5State :=
  let x := decode block
  let r := opsF.foldl (md5Op md5F x) state
  let r := opsG.foldl (md5Op md5G x) r
  let r := opsH.foldl (md5Op md5H x) r
  let r := opsI.foldl (md5Op md5I x) r
  ⟨state.a + r.a, state.b + r.b, state.c + r.c, state.d + r.d⟩

/-- The four bytes of a word. -/
def wordBytes (w : UInt32) : Bytes :=
  [(w &&& 0xff).toUInt8, ((w >>> 8) &&& 0xff).toUInt8, ((w >>> 16) &&& 0xff).toUInt8,
    ((w >>> 24) &&& 0xff).toUInt8]

/-- `Encode` from `output[j]` on: what it stores of these words. `outputlen - 4` is unsigned. -/
def encode (outputlen : UInt32) : UInt32 → List UInt32 → Bytes
  | _, [] => []
  | j, w :: input =>
    if j ≤ outputlen - 4 then wordBytes w ++ encode outputlen (j + 4) input else []

/-- `MD5Init`. The buffer is as it was. -/
def md5Init (buffer : Bytes) : Md5Ctx :=
  ⟨⟨0x67452301, 0xefcdab89, 0x98badcfe, 0x10325476⟩, 0, 0, buffer⟩

/-- `memcpy` to `buffer[index]`. -/
def store (buffer : Bytes) (index : Nat) (bytes : Bytes) : Bytes :=
  buffer.take index ++ bytes ++ buffer.drop (index + bytes.length)

/-- The number of bytes mod 64. -/
def Md5Ctx.index (context : Md5Ctx) : Nat := ((context.count0 >>> 3) &&& 0x3f).toNat

/-- `MD5Update`. Its loop is `absorb`: `i + 63 < inputLen` as long as 64 bytes are left. -/
def md5Update (context : Md5Ctx) (input : Bytes) : Md5Ctx :=
  let inputLen := UInt32.ofNat input.length
  let index := context.index
  let count0 := context.count0 + (inputLen <<< 3)
  let count1 :=
    (if count0 < inputLen <<< 3 then context.count1 + 1 else context.count1) + (inputLen >>> 29)
  let partLen := 64 - index
  if input.length ≥ partLen then
    let buffer := store context.buffer index (input.take partLen)
    let r := absorb md5Transform 64 (md5Transform context.state buffer) (input.drop partLen)
    ⟨r.1, count0, count1, store buffer 0 r.2⟩
  else ⟨context.state, count0, count1, store context.buffer index input⟩

/-- `MD5Final`: what it stores in the digest. -/
def md5Final (context : Md5Ctx) (digestlen : UInt32) : Bytes :=
  let bits := encode 8 0 [context.count0, context.count1]
  let index := context.index
  let padLen := if index < 56 then 56 - index else 120 - index
  let padded := md5Update (md5Update context (PADDING.take padLen)) bits
  encode digestlen 0 [padded.state.a, padded.state.b, padded.state.c, padded.state.d]

/-- `md5_calc`. `stack` is what its context's buffer holds at first. -/
def md5Calc (stack input : Bytes) (outputlen : UInt32) : Bytes :=
  md5Final (md5Update (md5Init stack) input) outputlen

/-- `hashkey`: the first word of the digest, mod 1024. -/
def hashkey (stack key : Bytes) : Fin HASHSIZE :=
  let md5hash := store (List.replicate 32 0) 0 (md5Calc stack key 32)
  let rc := (decode (md5hash.take 4)).headD 0
  ⟨rc.toNat % HASHSIZE, Nat.mod_lt _ (by decide)⟩

/-! ## What it computes -/

/-- The eight bytes of the length in bits, mod 2^64, low byte first. -/
def lengthBytes (len : Nat) : Bytes := (List.range 8).map fun i => UInt8.ofNat (8 * len / 256 ^ i)

/-- The message as it is hashed: a 1 bit, zeros up to 56 mod 64, and the length. -/
def padded (msg : Bytes) : Bytes :=
  msg ++ (0x80 :: List.replicate ((119 - msg.length % 64) % 64) 0 ++ lengthBytes msg.length)

/-- The state before the first block. -/
def md5Start : Md5State := (md5Init []).state

/-- The four words as bytes. -/
def Md5State.bytes (r : Md5State) : Bytes :=
  wordBytes r.a ++ wordBytes r.b ++ wordBytes r.c ++ wordBytes r.d

/-- The context has seen this message. -/
structure Hashed (context : Md5Ctx) (msg : Bytes) : Prop where
  state : context.state = (absorb md5Transform 64 md5Start msg).1
  kept : context.buffer.take (msg.length % 64) = (absorb md5Transform 64 md5Start msg).2
  size : context.buffer.length = 64
  count0 : context.count0.toNat = 8 * msg.length % 2 ^ 32
  count1 : context.count1.toNat = 8 * msg.length / 2 ^ 32 % 2 ^ 32

/-! ### The counters -/

theorem Hashed.index {context : Md5Ctx} {msg : Bytes} (h : Hashed context msg) :
    context.index = msg.length % 64 := by
  unfold Md5Ctx.index
  rw [UInt32.toNat_and, UInt32.toNat_shiftRight, h.count0]
  show (8 * msg.length % 2 ^ 32) >>> 3 &&& (2 ^ 6 - 1) = msg.length % 64
  rw [Nat.and_two_pow_sub_one_eq_mod, Nat.shiftRight_eq_div_pow]
  omega

theorem shiftLeft_three (n : Nat) : (UInt32.ofNat n <<< 3).toNat = 8 * n % 2 ^ 32 := by
  rw [UInt32.toNat_shiftLeft, UInt32.toNat_ofNat']
  show (n % 2 ^ 32) <<< 3 % 2 ^ 32 = 8 * n % 2 ^ 32
  rw [Nat.shiftLeft_eq]
  omega

theorem shiftRight_29 (n : Nat) : (UInt32.ofNat n >>> 29).toNat = n % 2 ^ 32 / 2 ^ 29 := by
  rw [UInt32.toNat_shiftRight, UInt32.toNat_ofNat']
  show (n % 2 ^ 32) >>> 29 = n % 2 ^ 32 / 2 ^ 29
  rw [Nat.shiftRight_eq_div_pow]

/-- The two words count bits: the carry is where the sum is less than what was added. -/
theorem md5Update_counts {context : Md5Ctx} {msg input : Bytes} (h : Hashed context msg)
    (hlen : input.length < 2 ^ 32) :
    (md5Update context input).count0.toNat = 8 * (msg ++ input).length % 2 ^ 32 ∧
      (md5Update context input).count1.toNat = 8 * (msg ++ input).length / 2 ^ 32 % 2 ^ 32 := by
  have hcount0 : (context.count0 + (UInt32.ofNat input.length <<< 3)).toNat
      = 8 * (msg ++ input).length % 2 ^ 32 := by
    rw [UInt32.toNat_add, shiftLeft_three, h.count0, List.length_append]
    omega
  have hcarry : (context.count0 + (UInt32.ofNat input.length <<< 3))
        < (UInt32.ofNat input.length <<< 3) ↔
      8 * (msg ++ input).length % 2 ^ 32 < 8 * input.length % 2 ^ 32 := by
    rw [UInt32.lt_iff_toNat_lt, hcount0, shiftLeft_three]
  have hcount1 : ((if context.count0 + (UInt32.ofNat input.length <<< 3)
        < UInt32.ofNat input.length <<< 3 then context.count1 + 1 else context.count1)
          + (UInt32.ofNat input.length >>> 29)).toNat
      = 8 * (msg ++ input).length / 2 ^ 32 % 2 ^ 32 := by
    rw [UInt32.toNat_add, shiftRight_29]
    rw [List.length_append] at hcarry ⊢
    by_cases hless : 8 * (msg.length + input.length) % 2 ^ 32 < 8 * input.length % 2 ^ 32
    · rw [if_pos (hcarry.mpr hless), UInt32.toNat_add, h.count1]
      have hone : (1 : UInt32).toNat = 1 := rfl
      omega
    · rw [if_neg fun hlt => hless (hcarry.mp hlt), h.count1]
      omega
  unfold md5Update
  dsimp only
  split
  · exact ⟨hcount0, hcount1⟩
  · exact ⟨hcount0, hcount1⟩

/-! ### The buffer -/

theorem store_length {buffer bytes : Bytes} {index : Nat}
    (h : index + bytes.length ≤ buffer.length) :
    (store buffer index bytes).length = buffer.length := by
  unfold store
  rw [List.length_append, List.length_append, List.length_take, List.length_drop]
  omega

/-- What is in the buffer up to the end of what was stored. -/
theorem store_take {buffer bytes : Bytes} {index : Nat} (h : index ≤ buffer.length) :
    (store buffer index bytes).take (index + bytes.length) = buffer.take index ++ bytes := by
  have hlen : (buffer.take index ++ bytes).length = index + bytes.length := by
    rw [List.length_append, List.length_take]
    omega
  unfold store
  exact List.take_left' hlen

/-- The buffer is filled up: it holds the next 64 bytes then. -/
theorem store_fill {buffer input : Bytes} {index : Nat} (hsize : buffer.length = 64)
    (hindex : index < 64) (hfull : 64 - index ≤ input.length) :
    store buffer index (input.take (64 - index)) = (buffer.take index ++ input).take 64 := by
  have hpart : (input.take (64 - index)).length = 64 - index := by
    rw [List.length_take]
    omega
  have hbuffer : (store buffer index (input.take (64 - index))).take
      (index + (input.take (64 - index)).length) = buffer.take index ++ input.take (64 - index) :=
    store_take (by omega)
  have hwhole : (store buffer index (input.take (64 - index))).length = 64 := by
    rw [store_length (by omega), hsize]
  have hin : (buffer.take index).length = index := by
    rw [List.length_take]
    omega
  rw [List.take_of_length_le (by omega)] at hbuffer
  have hshort : (buffer.take index).length ≤ 64 := by omega
  rw [hbuffer, List.take_append, List.take_of_length_le hshort, hin]

/-- One update: the context has seen what was added. -/
theorem md5Update_hashed {context : Md5Ctx} {msg input : Bytes} (h : Hashed context msg)
    (hlen : input.length < 2 ^ 32) : Hashed (md5Update context input) (msg ++ input) := by
  obtain ⟨hcount0, hcount1⟩ := md5Update_counts h hlen
  have hlt : msg.length % 64 < 64 := Nat.mod_lt _ (by decide)
  have hbefore : (absorb md5Transform 64 md5Start msg).2.length = msg.length % 64 :=
    absorb_rest (by decide) (Nat.le_refl _)
  have hafter : (absorb md5Transform 64 md5Start (msg ++ input)).2.length
      = (msg ++ input).length % 64 := absorb_rest (by decide) (Nat.le_refl _)
  have hmsg : absorb md5Transform 64 md5Start (msg ++ input)
      = absorb md5Transform 64 context.state (context.buffer.take (msg.length % 64) ++ input) := by
    rw [absorb_append (by decide) input (Nat.le_refl msg.length), ← h.state, ← h.kept]
  have hin : (context.buffer.take (msg.length % 64)).length = msg.length % 64 := by
    rw [h.kept, hbefore]
  have hsize := h.size
  by_cases hfull : input.length ≥ 64 - msg.length % 64
  · -- the buffer is filled and goes through first
    have htake := store_fill hsize hlt hfull
    have hdrop : (context.buffer.take (msg.length % 64) ++ input).drop 64
        = input.drop (64 - msg.length % 64) := by
      rw [List.drop_append, List.drop_eq_nil_of_le (by omega), List.nil_append, hin]
    have hlong : 64 ≤ (context.buffer.take (msg.length % 64) ++ input).length := by
      rw [List.length_append]
      omega
    have hstored : (store context.buffer (msg.length % 64)
        (input.take (64 - msg.length % 64))).length = 64 := by
      rw [htake, List.length_take]
      omega
    rw [absorb_block (by decide) hlong, ← htake, hdrop] at hmsg
    have hupdate : (md5Update context input).state
          = (absorb md5Transform 64 md5Start (msg ++ input)).1 ∧
        (md5Update context input).buffer
          = store (store context.buffer (msg.length % 64) (input.take (64 - msg.length % 64))) 0
              (absorb md5Transform 64 md5Start (msg ++ input)).2 := by
      unfold md5Update
      rw [h.index, hmsg]
      dsimp only
      rw [if_pos hfull]
      exact ⟨rfl, rfl⟩
    have hfits : 0 + (absorb md5Transform 64 md5Start (msg ++ input)).2.length
        ≤ (store context.buffer (msg.length % 64) (input.take (64 - msg.length % 64))).length := by
      rw [hafter, hstored]
      omega
    refine ⟨hupdate.1, ?_, ?_, hcount0, hcount1⟩
    · rw [hupdate.2, ← hafter, ← Nat.zero_add (absorb _ _ _ _).2.length,
        store_take (Nat.zero_le _), List.take_zero, List.nil_append]
    · rw [hupdate.2, store_length hfits, hstored]
  · -- nothing goes through
    have hshort : (context.buffer.take (msg.length % 64) ++ input).length < 64 := by
      rw [List.length_append]
      omega
    have hsum : (msg ++ input).length % 64 = msg.length % 64 + input.length := by
      rw [List.length_append]
      omega
    rw [absorb_short hshort] at hmsg
    have hupdate : (md5Update context input).state = context.state ∧
        (md5Update context input).buffer
          = store context.buffer (msg.length % 64) input := by
      unfold md5Update
      rw [h.index]
      dsimp only
      rw [if_neg hfull]
      exact ⟨rfl, rfl⟩
    refine ⟨?_, ?_, ?_, hcount0, hcount1⟩
    · rw [hupdate.1, hmsg]
    · rw [hupdate.2, hmsg, hsum, store_take (by omega)]
    · rw [hupdate.2, store_length (by omega), hsize]

theorem md5Init_hashed {buffer : Bytes} (h : buffer.length = 64) : Hashed (md5Init buffer) [] :=
  ⟨rfl, rfl, h, rfl, rfl⟩

/-- Any number of updates. -/
theorem md5Updates_hashed :
    ∀ {inputs : List Bytes} {context : Md5Ctx} {msg : Bytes}, Hashed context msg →
      (∀ input ∈ inputs, input.length < 2 ^ 32) →
      Hashed (inputs.foldl md5Update context) (msg ++ inputs.flatten) := by
  intro inputs
  induction inputs with
  | nil =>
    intro context msg h _
    rw [List.flatten_nil, List.append_nil]
    exact h
  | cons input inputs ih =>
    intro context msg h hlen
    rw [List.foldl_cons, List.flatten_cons, ← List.append_assoc]
    exact ih (md5Update_hashed h (hlen input List.mem_cons_self))
      fun x hx => hlen x (List.mem_cons_of_mem _ hx)

/-! ### The end -/

theorem lowByte (v : UInt32) : (v &&& 0xff).toUInt8 = UInt8.ofNat v.toNat := by
  apply UInt8.toNat_inj.mp
  rw [UInt32.toNat_toUInt8, UInt32.toNat_and, UInt8.toNat_ofNat']
  show (v.toNat &&& (2 ^ 8 - 1)) % 2 ^ 8 = v.toNat % 2 ^ 8
  rw [Nat.and_two_pow_sub_one_eq_mod, Nat.mod_mod]

theorem toNat_shiftRight (w : UInt32) {k : UInt32} (hk : k.toNat < 32) :
    (w >>> k).toNat = w.toNat / 2 ^ k.toNat := by
  rw [UInt32.toNat_shiftRight, Nat.mod_eq_of_lt hk, Nat.shiftRight_eq_div_pow]

theorem wordBytes_eq (w : UInt32) :
    wordBytes w = (List.range 4).map fun i => UInt8.ofNat (w.toNat / 256 ^ i) := by
  unfold wordBytes
  rw [lowByte, lowByte, lowByte, lowByte, toNat_shiftRight w (by decide),
    toNat_shiftRight w (by decide), toNat_shiftRight w (by decide)]
  show _ = [UInt8.ofNat (w.toNat / 1), _, _, _]
  rw [Nat.div_one]
  rfl

/-- The bytes of a number, put together again. -/
theorem packed_bytes (n : Nat) :
    n % 256 ||| (n / 2 ^ 8 % 256) <<< 8 ||| (n / 2 ^ 16 % 256) <<< 16 ||| (n / 2 ^ 24) <<< 24
      = n := by
  have hpack : ∀ {i low : Nat} (high : Nat), low < 2 ^ i →
      low ||| high <<< i = high * 2 ^ i + low := by
    intro i low high hlow
    rw [Nat.or_comm, ← Nat.shiftLeft_add_eq_or_of_lt hlow, Nat.shiftLeft_eq]
  have htwo : n % 256 ||| (n / 2 ^ 8 % 256) <<< 8 = n % 2 ^ 16 := by
    rw [hpack _ (by omega)]
    omega
  have hthree : n % 2 ^ 16 ||| (n / 2 ^ 16 % 256) <<< 16 = n % 2 ^ 24 := by
    rw [hpack _ (by omega)]
    omega
  rw [htwo, hthree, hpack _ (by omega)]
  omega

/-- `Decode` undoes `Encode`. -/
theorem decode_wordBytes (w : UInt32) : decode (wordBytes w) = [w] := by
  have hw := w.toNat_lt
  have hbyte : ∀ n : Nat, (UInt8.ofNat n).toUInt32.toNat = n % 256 := by
    intro n
    rw [UInt8.toNat_toUInt32, UInt8.toNat_ofNat']
  have hleft : ∀ (n : Nat) {k : UInt32}, k.toNat ≤ 24 →
      ((UInt8.ofNat n).toUInt32 <<< k).toNat = (n % 256) <<< k.toNat := by
    intro n k hk
    have hfits : (n % 256) <<< k.toNat < 2 ^ 32 := by
      rw [Nat.shiftLeft_eq]
      calc n % 256 * 2 ^ k.toNat < 2 ^ 8 * 2 ^ k.toNat :=
            Nat.mul_lt_mul_of_pos_right (Nat.mod_lt _ (by decide)) (Nat.two_pow_pos _)
        _ ≤ 2 ^ 8 * 2 ^ 24 := Nat.mul_le_mul_left _ (Nat.pow_le_pow_right (by decide) hk)
        _ = 2 ^ 32 := rfl
    rw [UInt32.toNat_shiftLeft, hbyte, Nat.mod_eq_of_lt (show k.toNat < 32 by omega),
      Nat.mod_eq_of_lt hfits]
  have hhigh : w.toNat / 2 ^ 24 % 256 = w.toNat / 2 ^ 24 := Nat.mod_eq_of_lt (by omega)
  unfold wordBytes
  rw [lowByte, lowByte, lowByte, lowByte, toNat_shiftRight w (by decide),
    toNat_shiftRight w (by decide), toNat_shiftRight w (by decide), decode]
  apply congrArg (fun v => [v])
  apply UInt32.toNat_inj.mp
  rw [UInt32.toNat_or, UInt32.toNat_or, UInt32.toNat_or, hbyte, hleft _ (by decide),
    hleft _ (by decide), hleft _ (by decide)]
  show w.toNat % 256 ||| (w.toNat / 2 ^ 8 % 256) <<< 8 ||| (w.toNat / 2 ^ 16 % 256) <<< 16 |||
    (w.toNat / 2 ^ 24 % 256) <<< 24 = w.toNat
  rw [hhigh]
  exact packed_bytes w.toNat

/-- How much of a digest is stored: whole words that fit; and all of it where there is not room
for one, because `outputlen - 4` is unsigned. -/
def digestRoom (outputlen : UInt32) : Nat :=
  if outputlen < 4 then 16 else outputlen.toNat / 4 * 4

theorem encode_words (outputlen : UInt32) (r : Md5State) :
    encode outputlen 0 [r.a, r.b, r.c, r.d] = r.bytes.take (digestRoom outputlen) := by
  have hlt := outputlen.toNat_lt
  have hsmall : outputlen < 4 ↔ outputlen.toNat < 4 := UInt32.lt_iff_toNat_lt
  have hroom : ∀ j : UInt32, j.toNat ≤ 12 →
      (j ≤ outputlen - 4 ↔ outputlen.toNat < 4 ∨ j.toNat + 4 ≤ outputlen.toNat) := by
    intro j hj
    have hfour : (4 : UInt32).toNat = 4 := rfl
    rw [UInt32.le_iff_toNat_le, UInt32.toNat_sub, hfour]
    omega
  have hrest : ∀ j, encode outputlen j [] = [] := fun _ => rfl
  have htwo : (0 : UInt32) + 4 + 4 = 8 := rfl
  have hthree : (8 : UInt32) + 4 = 12 := rfl
  rw [encode, encode, encode, encode, hrest, htwo, hthree, UInt32.zero_add]
  simp only [hroom 0 (by decide), hroom 4 (by decide), hroom 8 (by decide), hroom 12 (by decide)]
  show (if outputlen.toNat < 4 ∨ 0 + 4 ≤ outputlen.toNat then
      wordBytes r.a ++ if outputlen.toNat < 4 ∨ 4 + 4 ≤ outputlen.toNat then
        wordBytes r.b ++ if outputlen.toNat < 4 ∨ 8 + 4 ≤ outputlen.toNat then
          wordBytes r.c ++ if outputlen.toNat < 4 ∨ 12 + 4 ≤ outputlen.toNat then
            wordBytes r.d ++ [] else [] else [] else [] else []) = _
  have hbytes : r.bytes.length = 16 := rfl
  unfold digestRoom
  simp only [hsmall]
  by_cases hunsigned : outputlen.toNat < 4
  · simp only [hunsigned, true_or, if_true]
    rfl
  simp only [hunsigned, false_or, if_false]
  by_cases hfull : 16 ≤ outputlen.toNat
  · rw [if_pos (by omega), if_pos (by omega), if_pos (by omega), if_pos (by omega),
      List.take_of_length_le (by omega)]
    simp only [Md5State.bytes, List.append_assoc, List.append_nil]
  -- one, two or three words
  have hk : outputlen.toNat / 4 = 1 ∨ outputlen.toNat / 4 = 2 ∨ outputlen.toNat / 4 = 3 := by omega
  rcases hk with hk | hk | hk
  · rw [hk, if_pos (by omega), if_neg (by omega)]
    rfl
  · rw [hk, if_pos (by omega), if_pos (by omega), if_neg (by omega)]
    rfl
  · rw [hk, if_pos (by omega), if_pos (by omega), if_pos (by omega), if_neg (by omega)]
    rfl

/-- The counters as bytes. -/
theorem bits_eq {context : Md5Ctx} {msg : Bytes} (h : Hashed context msg) :
    encode 8 0 [context.count0, context.count1] = lengthBytes msg.length := by
  have hwords : encode 8 0 [context.count0, context.count1]
      = wordBytes context.count0 ++ wordBytes context.count1 := rfl
  have hbyte : ∀ m n : Nat, m % 256 = n % 256 → UInt8.ofNat m = UInt8.ofNat n := by
    intro m n hmn
    apply UInt8.toNat_inj.mp
    rw [UInt8.toNat_ofNat', UInt8.toNat_ofNat']
    exact hmn
  rw [hwords, wordBytes_eq, wordBytes_eq, h.count0, h.count1]
  unfold lengthBytes
  simp only [List.range, List.range.loop, List.map_cons, List.map_nil, List.cons_append,
    List.nil_append, List.cons.injEq, and_true]
  refine ⟨?_, ?_, ?_, ?_, ?_, ?_, ?_, ?_⟩ <;> apply hbyte <;> omega

theorem lengthBytes_length (len : Nat) : (lengthBytes len).length = 8 := by
  unfold lengthBytes
  rw [List.length_map, List.length_range]

theorem padded_length (msg : Bytes) : (padded msg).length % 64 = 0 := by
  have hlt : msg.length % 64 < 64 := Nat.mod_lt _ (by decide)
  unfold padded
  simp only [List.length_append, List.length_cons, List.length_replicate, lengthBytes_length]
  omega

/-- `MD5Final` hashes the padded message. -/
theorem md5Final_hashed {context : Md5Ctx} {msg : Bytes} (h : Hashed context msg)
    (digestlen : UInt32) :
    md5Final context digestlen
      = (absorb md5Transform 64 md5Start (padded msg)).1.bytes.take (digestRoom digestlen) := by
  have hlt : msg.length % 64 < 64 := Nat.mod_lt _ (by decide)
  obtain ⟨k, hk, hzeros⟩ : ∃ k, (if msg.length % 64 < 56 then 56 - msg.length % 64
      else 120 - msg.length % 64) = k + 1 ∧ k = (119 - msg.length % 64) % 64 := by
    refine ⟨_, ?_, rfl⟩
    split
    · omega
    · omega
  have hpadding : PADDING.take (k + 1) = 0x80 :: List.replicate k 0 := by
    unfold PADDING
    rw [List.take_succ_cons, List.take_replicate, Nat.min_eq_left (by omega)]
  have hpadlen : (PADDING.take (k + 1)).length < 2 ^ 32 :=
    Nat.lt_of_le_of_lt (List.length_take_le' ..) (show PADDING.length < 2 ^ 32 by decide)
  have hbitlen : (lengthBytes msg.length).length < 2 ^ 32 := by
    rw [lengthBytes_length]
    decide
  have hall : msg ++ PADDING.take (k + 1) ++ lengthBytes msg.length = padded msg := by
    unfold padded
    rw [hpadding, ← hzeros, List.append_assoc]
  have hend := md5Update_hashed (md5Update_hashed h hpadlen) hbitlen
  rw [hall] at hend
  unfold md5Final
  dsimp only
  rw [bits_eq h, h.index, hk, hend.state, encode_words]

/-- **However the input comes, the digest is that of the whole.** Any context, any cut of a
message into updates: what `MD5Final` stores is the block function over the blocks of the
padded message, as far as there is room. -/
theorem md5_stream (stack : Bytes) (inputs : List Bytes) (digestlen : UInt32)
    (hstack : stack.length = 64) (hinputs : ∀ input ∈ inputs, input.length < 2 ^ 32 - 63) :
    ∃ blocks : List Bytes, blocks.flatten = padded inputs.flatten ∧
      (∀ b ∈ blocks, b.length = 64) ∧
      md5Final (inputs.foldl md5Update (md5Init stack)) digestlen
        = (blocks.foldl md5Transform md5Start).bytes.take (digestRoom digestlen) := by
  have hall : ∀ input ∈ inputs, input.length < 2 ^ 32 := fun input hin =>
    Nat.lt_of_lt_of_le (hinputs input hin) (Nat.sub_le ..)
  have hfinal := md5Final_hashed (md5Updates_hashed (md5Init_hashed hstack) hall) digestlen
  obtain ⟨blocks, hflat, hblocks, habs⟩ := @absorb_whole _ _ md5Transform 64 (by decide) _ md5Start
    _ (Nat.le_refl _) (padded_length inputs.flatten)
  rw [List.nil_append, habs] at hfinal
  exact ⟨blocks, hflat, hblocks, hfinal⟩

/-- `abc` in two parts. -/
theorem md5_stream_abc :
    ∃ blocks : List Bytes, blocks.flatten = padded (ascii "abc") ∧
      (∀ b ∈ blocks, b.length = 64) ∧
      md5Final ([ascii "a", ascii "bc"].foldl md5Update (md5Init (List.replicate 64 7))) 32
        = (blocks.foldl md5Transform md5Start).bytes.take (digestRoom 32) :=
  md5_stream (List.replicate 64 7) [ascii "a", ascii "bc"] 32 (by decide) (by decide)

example : md5Calc (List.replicate 64 0) (ascii "abc") 32
    = [0x90, 0x01, 0x50, 0x98, 0x3c, 0xd2, 0x4f, 0xb0, 0xd6, 0x96, 0x3f, 0x7d, 0x28, 0xe1, 0x7f,
      0x72] := by decide +kernel

/-- The bucket of a key. -/
theorem hashkey_eq {stack key : Bytes} (hstack : stack.length = 64)
    (hkey : key.length < 2 ^ 32 - 63) :
    (hashkey stack key).val
      = (absorb md5Transform 64 md5Start (padded key)).1.a.toNat % HASHSIZE := by
  have hlen : key.length < 2 ^ 32 := Nat.lt_of_lt_of_le hkey (Nat.sub_le ..)
  have hfinal := md5Final_hashed (md5Update_hashed (md5Init_hashed hstack) hlen) 32
  have hword : (store (List.replicate 32 0) 0 (md5Calc stack key 32)).take 4
      = wordBytes (absorb md5Transform 64 md5Start (padded key)).1.a := by
    unfold md5Calc
    rw [hfinal]
    rfl
  unfold hashkey
  dsimp only
  rw [hword, decode_wordBytes]
  rfl

/-- It is a function of the key: what lies on the stack does not matter. -/
theorem hashkey_stack {stack stack' key : Bytes} (hstack : stack.length = 64)
    (hstack' : stack'.length = 64) (hkey : key.length < 2 ^ 32 - 63) :
    hashkey stack key = hashkey stack' key :=
  Fin.ext ((hashkey_eq hstack hkey).trans (hashkey_eq hstack' hkey).symm)

end Nastd.Server
