import KtorrentStream.Download.Downloader
set_option autoImplicit true

namespace KtorrentStream.Download
open KtorrentStream.Util KtorrentStream.Diskio

namespace ChunkDownload

variable (cd : ChunkDownload σ H)

-- Where a load that returns false leaves the cache and the file: reading goes
-- on from there.
def loadPieceEnd (cache : Cache) (file : File) : Cache × File :=
  match readPieceHeader file with
  | none => (cache,file.drop 12)
  | some (phdr,file) =>
    if phdr.piece ≥ cd.totalPiecesNumber then (cache,file)
    else
      let (p,cache) := cache.getPiece cd.index (phdr.piece * maxPieceLen) phdr.size false
      match cache.pieces[p]? with
      | none => (cache,file)
      | some pd =>
        let (bytes,file) := file.read pd.len
        (cache.fill p pd bytes,file)

def loadPiecesEnd : Nat → ChunkDownload σ H → Cache → File → Cache × File
  | 0,_,cache,file => (cache,file)
  | n + 1,cd,cache,file =>
    match cd.loadPiece cache file with
    | none => cd.loadPieceEnd cache file
    | some (cd,cache,file) => loadPiecesEnd n cd cache file

def loadEnd (numBits : Nat) (cache : Cache) (file : File) : Cache × File :=
  if numBits ≠ cd.totalPiecesNumber then (cache,file)
  else
    let (cd,file) := cd.loadBits file
    match file.readUint32 with
    | none => (cache,file.drop 4)
    | some (toFollow,file) => if toFollow > cd.totalPiecesNumber then (cache,file) else loadPiecesEnd toFollow cd cache file

end ChunkDownload

namespace Downloader

-- fptr.read(&hdr,sizeof(hdr)) for a header of some words: where the file ends too
-- early, hdr keeps what was in memory.
def readWords (words : Nat) (memory : List UInt8) (file : File) : List UInt8 × File :=
  let (bytes,file) := file.read (4 * words)
  (bytes ++ memory.drop bytes.length,file)

def word (hdr : List UInt8) (k : Nat) : Nat :=
  (hdr.getD (4 * k) 0).toNat + 256 * (hdr.getD (4 * k + 1) 0).toNat + 65536 * (hdr.getD (4 * k + 2) 0).toNat +
    16777216 * (hdr.getD (4 * k + 3) 0).toNat

variable (d : Downloader σ H)

-- unwanted says which chunks are on disk or excluded.
def loadChunks (sha : Sha1 σ H) (numChunks : Nat) (unwanted : Nat → Bool) (memory : Nat → List UInt8) :
    Nat → Downloader σ H → File → Downloader σ H
  | 0,d,_ => d
  | k + 1,d,file =>
    let (hdr,file) := readWords 3 (memory (k + 1)) file
    let i := word hdr 0
    if i ≥ numChunks then d
    else if d.downloadingChunks.contains i then d
    else
      let cd := ChunkDownload.new sha i (d.chunkSize i).toNat
      match cd.load sha (word hdr 1) true d.cache file with
      | none =>
        let (cache,file) := cd.loadEnd (word hdr 1) d.cache file
        loadChunks sha numChunks unwanted memory k {d with cache := cache} file
      | some (cd,cache,file) =>
        if unwanted i then loadChunks sha numChunks unwanted memory k {d with cache := cache} file
        else
          loadChunks sha numChunks unwanted memory k
            {d with
              cache := cache
              downloadingChunks := d.downloadingChunks.insert i cd
              bytesDownloaded := d.bytesDownloaded + cd.bytesDownloaded}
            file

def currentChunkMagic : Nat := 0xABCDEF00

-- From the moment the file is open; downloaded is what the ChunkManager has.
def loadDownloads (sha : Sha1 σ H) (numChunks downloaded : Nat) (unwanted : Nat → Bool) (memory : Nat → List UInt8) (file : File) :
    Downloader σ H :=
  let d := {d with bytesDownloaded := downloaded}
  let (chdr,rest) := readWords 4 (memory 0) file
  if word chdr 0 ≠ currentChunkMagic then d else loadChunks sha numChunks unwanted memory (word chdr 3) d rest

end Downloader

end KtorrentStream.Download
