import Redline.Digest.Sha512

namespace Redline.Digest

def blockKey (key : List UInt8) : List UInt8 :=
  let short := if key.length > blockSize then sha512 key else key
  short ++ List.replicate (blockSize - short.length) 0

def hmac (key message : List UInt8) : List UInt8 :=
  let inner := sha512 ((blockKey key).map (· ^^^ 0x36) ++ message)
  sha512 ((blockKey key).map (· ^^^ 0x5C) ++ inner)

end Redline.Digest
