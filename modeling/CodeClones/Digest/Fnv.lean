/-!
# FNV-1a digests of 64 bits

Each byte is mixed into the low end before the multiplication by the prime.
-/

namespace CodeClones.Digest

/-- The 64-bit FNV-1a digest. -/
def fnv1a (bytes : ByteArray) : UInt64 :=
  bytes.toList.foldl (fun h b => (h ^^^ b.toUInt64) * 0x100000001b3) 0xcbf29ce484222325

end CodeClones.Digest
