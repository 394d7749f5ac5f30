import Pausable.Text.Bytes

/-! The hash function BLAKE2b without a key. -/
namespace Pausable.Blake2b

abbrev Chain := Vector UInt64 8

/-- The words of a message block, or those that a compression works on. -/
abbrev Block := Vector UInt64 16

/-- The initial chain value, before the parameters go in. -/
def initial : Chain := #v[
  0x6A09E667F3BCC908, 0xBB67AE8584CAA73B, 0x3C6EF372FE94F82B, 0xA54FF53A5F1D36F1,
  0x510E527FADE682D1, 0x9B05688C2B3E6C1F, 0x1F83D9ABFB41BD6B, 0x5BE0CD19137E2179]

/-- The order in which the rounds take the words of a block. -/
def schedule : List (Vector (Fin 16) 16) := [
  #v[0, 1, 2, 3, 4, 5, 6, 7, 8, 9, 10, 11, 12, 13, 14, 15],
  #v[14, 10, 4, 8, 9, 15, 13, 6, 1, 12, 0, 2, 11, 7, 5, 3],
  #v[11, 8, 12, 0, 5, 2, 15, 13, 10, 14, 3, 6, 7, 1, 9, 4],
  #v[7, 9, 3, 1, 13, 12, 11, 14, 2, 6, 5, 10, 4, 0, 15, 8],
  #v[9, 0, 5, 7, 2, 4, 10, 15, 14, 1, 11, 12, 6, 8, 3, 13],
  #v[2, 12, 6, 10, 0, 11, 8, 3, 4, 13, 7, 5, 15, 14, 1, 9],
  #v[12, 5, 1, 15, 14, 13, 4, 10, 0, 7, 6, 3, 9, 2, 8, 11],
  #v[13, 11, 7, 14, 12, 1, 3, 9, 5, 0, 15, 4, 8, 6, 2, 10],
  #v[6, 15, 14, 9, 11, 3, 0, 8, 12, 2, 13, 7, 1, 4, 10, 5],
  #v[10, 2, 8, 4, 7, 6, 1, 5, 15, 11, 9, 14, 3, 12, 13, 0],
  #v[0, 1, 2, 3, 4, 5, 6, 7, 8, 9, 10, 11, 12, 13, 14, 15],
  #v[14, 10, 4, 8, 9, 15, 13, 6, 1, 12, 0, 2, 11, 7, 5, 3]]

def rotate (w : UInt64) (n : UInt64) : UInt64 := (w >>> n) ||| (w <<< (64 - n))

def mix (v : Block) (a b c d : Fin 16) (x y : UInt64) : Block :=
  let va := v[a] + v[b] + x
  let vd := rotate (v[d] ^^^ va) 32
  let vc := v[c] + vd
  let vb := rotate (v[b] ^^^ vc) 24
  let va := va + vb + y
  let vd := rotate (vd ^^^ va) 16
  let vc := vc + vd
  let vb := rotate (vb ^^^ vc) 63
  (((v.set a va).set b vb).set c vc).set d vd

/-- One round: the columns, then the diagonals. -/
def round (m v : Block) (s : Vector (Fin 16) 16) : Block :=
  let v := mix v 0 4 8 12 m[s[0]] m[s[1]]
  let v := mix v 1 5 9 13 m[s[2]] m[s[3]]
  let v := mix v 2 6 10 14 m[s[4]] m[s[5]]
  let v := mix v 3 7 11 15 m[s[6]] m[s[7]]
  let v := mix v 0 5 10 15 m[s[8]] m[s[9]]
  let v := mix v 1 6 11 12 m[s[10]] m[s[11]]
  let v := mix v 2 7 8 13 m[s[12]] m[s[13]]
  mix v 3 4 9 14 m[s[14]] m[s[15]]

/-- Compresses a block; `count` bytes are done with it, and it may be the last one. -/
def compress (h : Chain) (m : Block) (count : Nat) (last : Bool) : Chain :=
  let v : Block := h ++ initial
  let v := v.set 12 (v[12] ^^^ count.toUInt64)
  let v := v.set 13 (v[13] ^^^ (count >>> 64).toUInt64)
  let v := if last then v.set 14 (v[14] ^^^ 0xFFFFFFFFFFFFFFFF) else v
  let v := schedule.foldl (round m) v
  Vector.ofFn fun i => h[i] ^^^ v[i.val] ^^^ v[i.val + 8]

/-- The word of eight bytes, lowest first. -/
def word (bytes : Bytes) : UInt64 := bytes.foldr (fun b w => w * 256 + b.toUInt64) 0

/-- The block of at most 128 bytes, filled up with zeros. -/
def blockOf (bytes : Bytes) : Block :=
  Vector.ofFn fun i => word ((bytes.drop (8 * i.val)).take 8)

/-- Compresses what is left; `count` bytes are done. -/
def absorb (h : Chain) (count : Nat) (bytes : Bytes) : Chain :=
  let rest := bytes.drop 128
  if hr : rest = [] then compress h (blockOf bytes) (count + bytes.length) true
  else absorb (compress h (blockOf (bytes.take 128)) (count + 128) false) (count + 128) rest
termination_by bytes.length
decreasing_by
  have := List.length_pos_iff.2 hr
  simp only [rest, List.length_drop] at this ⊢
  omega

/-- A digest has 32 bytes. -/
abbrev Digest := Vector UInt8 32

/-- The digest of a message: the bytes of the first four words, each lowest first. -/
def digest (bytes : Bytes) : Digest :=
  let h := absorb (initial.set 0 (initial[0] ^^^ 0x01010020)) 0 bytes
  Vector.ofFn fun i => (h[i.val / 8] >>> (8 * (i.val % 8)).toUInt64).toUInt8

end Pausable.Blake2b
