import Dtnme.Bundling.BlockInfo
import Dtnme.Library.Word

/-! # Bundles and their payloads

The fields of a `Bundle` that the fragment manager reads and sets. Sums of offsets and
lengths are taken in `size_t`, as the checks of `BundlePayload` take them.
-/

namespace Dtnme.Bundling
open Library

structure Bundle where
  bundleid : ℕ := 0
  bpVersion : ℕ := 7
  secsOrMillisecs : ℕ := 0
  seqno : ℕ := 0
  source : String := "dtn:none"
  dest : String := "dtn:none"
  isFragment : Bool := false
  doNotFragment : Bool := false
  origLength : ℕ := 0
  fragOffset : ℕ := 0
  fragLength : ℕ := 0
  fragCreatedFromBundleid : ℕ := 0
  payload : List UInt8 := []
  recvBlocks : List BlockInfo := []
  deriving DecidableEq, Repr

/-- `copy_metadata`, into a new bundle. -/
def Bundle.copyMetadata (b : Bundle) : Bundle :=
  { bpVersion := b.bpVersion, secsOrMillisecs := b.secsOrMillisecs, seqno := b.seqno,
    source := b.source, dest := b.dest, isFragment := b.isFragment,
    doNotFragment := b.doNotFragment }

/-- `get_hash_key`. -/
def Bundle.hashKey (b : Bundle) : String :=
  toString b.secsOrMillisecs ++ "." ++ toString b.seqno ++ b.source ++ b.dest

/-- `BundlePayload::write_data` from another payload. What passes the checks only because a sum
wraps asks for a buffer that is not to be had. -/
def writeData (dst src : List UInt8) (srcOffset len dstOffset : ℕ) : Except Fault (List UInt8) :=
  if u64 (dstOffset + len) ≤ dst.length ∧ u64 (srcOffset + len) ≤ src.length then
    if dstOffset + len ≤ dst.length ∧ srcOffset + len ≤ src.length then
      .ok (overwrite dst dstOffset (slice src srcOffset len))
    else .error .panic
  else .error .assertFailed

theorem writeData_ok {dst src : List UInt8} {srcOffset len dstOffset : ℕ}
    (hd : dstOffset + len ≤ dst.length) (hs : srcOffset + len ≤ src.length) :
    writeData dst src srcOffset len dstOffset =
      .ok (overwrite dst dstOffset (slice src srcOffset len)) := by
  have hwrap : ∀ n, u64 n ≤ n := fun n => by
    unfold u64
    exact Nat.mod_le _ _
  unfold writeData
  rw [if_pos ⟨(hwrap _).trans hd, (hwrap _).trans hs⟩, if_pos ⟨hd, hs⟩]

end Dtnme.Bundling
