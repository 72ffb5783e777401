import KtorrentStream.Util.Word
set_option autoImplicit true

namespace KtorrentStream.Torrent
open KtorrentStream.Util

structure TorrentFile where
  cacheOffset : Nat
  size : Nat
  firstChunk : Nat
  firstChunkOffset : Nat
  lastChunk : Nat
  lastChunkSize : Nat
  deriving DecidableEq

-- The constructor; off, size and chunkSize are Uint64, the chunk indices Uint32.
def TorrentFile.new (off size chunkSize : Nat) : TorrentFile where
  cacheOffset := off
  size := size
  firstChunk := uint32 (off / chunkSize)
  firstChunkOffset := off % chunkSize
  lastChunk := if size > 0 then uint32 (uint64 (off + size - 1) / chunkSize) else uint32 (off / chunkSize)
  lastChunkSize :=
    let last := if size > 0 then uint32 (uint64 (off + size - 1) / chunkSize) else uint32 (off / chunkSize)
    uint64 (off + size + (18446744073709551616 - uint64 (last * chunkSize)))

end KtorrentStream.Torrent
