import AltairRs.Compress.Tar

/-!
# Gzip recipes

One file is opened, another created, and the bytes of the encoder or the decoder
are copied into it.
-/

namespace AltairRs.Compress

open Effect Unix

/-- `File::open` of the input. -/
def openInput : TarProgram (Except IoError Unit) := openArchive

/-- `compress_file`; `gzip` is what a `GzEncoder` writes for what it is given. -/
def compressFile (gzip : List UInt8 → List UInt8) (content : List UInt8) (output : Path) :
    TarProgram (Result Unit) := do
  match ← openInput with
  | .error e => return .error (.io e)
  | .ok _ =>
      match ← createFile output with
      | .error e => return .error (.io e)
      | .ok file =>
          match ← copy file (gzip content) with
          | .error e => return .error (.io e)
          | .ok _ => return .ok ()

/-- `decompress_file_with_limit`; the stream is what a `GzDecoder` reads. -/
def decompressFileWithLimit (stream : List UInt8) (output : Path) (limit : UInt64) :
    TarProgram (Result Unit) := do
  match ← openInput with
  | .error e => return .error (.io e)
  | .ok _ =>
      let bounded := stream.take (saturatingAdd limit.toNat 1)
      match ← createFile output with
      | .error e => return .error (.io e)
      | .ok file =>
          match ← copy file bounded with
          | .error e => return .error (.io e)
          | .ok written =>
              if limit.toNat < written then
                return .error (.decompressionLimit limit.toNat "gzip-stream")
              else
                return .ok ()

end AltairRs.Compress
