/-!
# Wire constants and bytes

`include/nastipc.h` and the two byte-level idioms both sides of the socket use: a
C string ends at its first NUL, and a `short` travels in network order.

Characters are modelled as bytes. Every comparison the source makes between a
`char` and one of these constants is an equality, so the signedness of `char`
does not matter.
-/

namespace Nastd

abbrev Byte := UInt8

abbrev Bytes := List UInt8

/-- Every request starts with this byte, after its length and id. -/
def NASTCMD : Byte := 0xff

def NASTADD : Byte := 0x01
def NASTDEL : Byte := 0x02
def NASTUPD : Byte := 0x03
def NASTGET : Byte := 0x04
def NASTDIE : Byte := 0x0f
def NASTOPTGET : Byte := 0x10
def NASTOPTSET : Byte := 0x11
def NASTSTATS : Byte := 0x20

def NASTOK : Byte := 0xf1
def NASTERR : Byte := 0xf2

/-- Separates the items of a request or a response. -/
def NASTSEP : Byte := 0xfc

def OPTFALSE : Byte := 0x00
def OPTTRUE : Byte := 0x01

def OPTQCACHE : Byte := 0x01
def OPTLOCALDB : Byte := 0x02
def OPTFALLASYNC : Byte := 0x03
def OPTALWAYSFALL : Byte := 0x04
def OPTFAILONCE : Byte := 0x05
def OPTNOFALLTHROUGH : Byte := 0x07

/-- The bytes `strlen` counts: up to the first NUL. -/
def cstr (b : Bytes) : Bytes := b.takeWhile (· ≠ 0)

/-- Bytes without a NUL are a whole C string. -/
theorem cstr_of_not_mem {b : Bytes} (h : 0 ∉ b) : cstr b = b := by
  have hall : ∀ x ∈ b, decide (x ≠ 0) = true := by
    intro x hx
    have hne : x ≠ 0 := fun he => h (he ▸ hx)
    simpa using hne
  have htake : (b ++ []).takeWhile (fun x => decide (x ≠ 0))
      = b ++ [].takeWhile fun x => decide (x ≠ 0) := List.takeWhile_append_of_pos hall
  rw [List.append_nil, List.takeWhile_nil, List.append_nil] at htake
  exact htake

theorem not_mem_cstr (b : Bytes) : 0 ∉ cstr b := by
  intro h
  have hne : decide ((0 : Byte) ≠ 0) = true := List.all_eq_true.mp List.all_takeWhile 0 h
  exact absurd hne (by decide)

/-- A text of the source as bytes. -/
def ascii (s : String) : Bytes := s.toList.map fun c => UInt8.ofNat c.toNat

/-- `htons` and `memcpy` of a 16-bit value into a buffer. -/
def htons (n : UInt16) : Bytes := [UInt8.ofNat (n.toNat / 256), UInt8.ofNat (n.toNat % 256)]

/-- `memcpy` of two bytes and `ntohs`. -/
def ntohs (hi lo : Byte) : UInt16 := UInt16.ofNat (hi.toNat * 256 + lo.toNat)

/-- The value of a C `short` with these bits. -/
def short (n : UInt16) : Int := if n < 0x8000 then n.toNat else (n.toNat : Int) - 0x10000

@[simp] theorem htons_length (n : UInt16) : (htons n).length = 2 := rfl

/-- Network order and back. -/
theorem ntohs_htons (n : UInt16) :
    ntohs (UInt8.ofNat (n.toNat / 256)) (UInt8.ofNat (n.toNat % 256)) = n := by
  have hlt : n.toNat < 65536 := n.toNat_lt
  have hhi : (UInt8.ofNat (n.toNat / 256)).toNat = n.toNat / 256 := by
    rw [UInt8.toNat_ofNat']
    omega
  have hlo : (UInt8.ofNat (n.toNat % 256)).toNat = n.toNat % 256 := by
    rw [UInt8.toNat_ofNat']
    omega
  rw [ntohs, hhi, hlo, Nat.div_add_mod' n.toNat 256]
  exact UInt16.ofNat_toNat

/-- Out of network order and back. -/
theorem htons_ntohs (hi lo : Byte) : htons (ntohs hi lo) = [hi, lo] := by
  have hhi : hi.toNat < 256 := hi.toNat_lt
  have hlo : lo.toNat < 256 := lo.toNat_lt
  have hn : (ntohs hi lo).toNat = hi.toNat * 256 + lo.toNat := by
    rw [ntohs, UInt16.toNat_ofNat']
    omega
  have hdiv : (hi.toNat * 256 + lo.toNat) / 256 = hi.toNat := by omega
  have hmod : (hi.toNat * 256 + lo.toNat) % 256 = lo.toNat := by omega
  rw [htons, hn, hdiv, hmod, UInt8.ofNat_toNat, UInt8.ofNat_toNat]

/-- The bits of a non-negative `short`. -/
theorem ofNat_of_short {n : UInt16} {k : Nat} (h : short n = k) : n = UInt16.ofNat k := by
  have hlt : n.toNat < 65536 := n.toNat_lt
  rw [short] at h
  split at h
  · have hk : n.toNat = k := by omega
    rw [← hk, UInt16.ofNat_toNat]
  · omega

/-- A length below `2^15` reads back as itself from the signed field. -/
theorem short_ofNat {n : Nat} (hn : n < 0x8000) : short (UInt16.ofNat n) = n := by
  have htn : (UInt16.ofNat n).toNat = n := by
    rw [UInt16.toNat_ofNat']
    omega
  have hlt : UInt16.ofNat n < 0x8000 := by
    rw [UInt16.lt_iff_toNat_lt, htn]
    exact hn
  rw [short, if_pos hlt, htn]

end Nastd
