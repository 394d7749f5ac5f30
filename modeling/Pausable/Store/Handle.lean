import Pausable.Store.Blake2b

/-! Handles of snapshots: the digest of the text, written in hexadecimal after a fixed beginning. -/
namespace Pausable

structure Handle where
  digest : Blake2b.Digest
deriving DecidableEq

namespace Handle

def mark : Text := "&h_snap_"

def digits (h : Handle) : Text := h.digest.toList.flatMap fun b => Text.hex 2 b.toNat

def toText (h : Handle) : Text := mark ++ h.digits

/-- The first two digits name a folder of the store. -/
def folder (h : Handle) : Text := h.digits.take 2

/-- The other digits name a file in it. -/
def file (h : Handle) : Text := h.digits.drop 2

/-- The bytes of pairs of hexadecimal digits in small letters. -/
def bytes? : Text → Option Bytes
  | [] => some []
  | a :: b :: t =>
    if a ≠ a.asciiLower ∨ b ≠ b.asciiLower then none
    else do
      let high ← a.hexValue?
      let low ← b.hexValue?
      let rest ← bytes? t
      return (high * 16 + low).toUInt8 :: rest
  | [_] => none

def ofText? (t : Text) : Option Handle :=
  if t.take mark.length ≠ mark then none
  else match bytes? (t.drop mark.length) with
    | none => none
    | some bytes => if h : bytes.length = 32 then some ⟨⟨bytes.toArray, by simpa using h⟩⟩ else none

def ofSnapshot (t : Text) : Except EncodeError Handle :=
  t.toAscii.map fun bytes => ⟨Blake2b.digest bytes⟩

/-- The wording for a text that is no handle. -/
def invalidMessage (t : Text) : Text := "Invalid snapshot handle: " ++ t

def shown (h : Handle) : Text := "SnapshotHandle(" ++ h.toText.quoted ++ ")"

end Handle
end Pausable
