/-
  SpendScript.Hash — the hash functions of scripts and digests.

  SHA-256 of SHA-256, RIPEMD-160 of SHA-256, and SHA-256 in a domain of its own: a tagged
  hash starts with the hash of its tag, written twice.
-/

import SpendScript.Hash.Sha256
import SpendScript.Hash.Sha1
import SpendScript.Hash.Ripemd160

namespace SpendScript.Hash

def sha256 (m : Bytes) : Block 32 := Sha256.digest m

def sha1 (m : Bytes) : Block 20 := Sha1.digest m

def ripemd160 (m : Bytes) : Block 20 := Ripemd160.digest m

def hash160 (m : Bytes) : Block 20 := ripemd160 (sha256 m).val

def hash256 (m : Bytes) : Block 32 := sha256 (sha256 m).val

/-- What a tagged hash puts before its message. -/
def tagBlock (tag : String) : Bytes :=
  let t := (sha256 tag.toUTF8.toList).val
  t ++ t

def tagged (tag : String) (m : Bytes) : Block 32 := sha256 (tagBlock tag ++ m)

end SpendScript.Hash
