/-
  Protobuf.Main — reads a request from standard input and writes the response to standard output.
-/

import Protobuf.Plugin.Command

namespace Protobuf.Plugin

/-- All bytes up to the end of a stream, behind those already read. -/
partial def readAll (stream : IO.FS.Stream) (read : ByteArray) : IO ByteArray := do
  let chunk ← stream.read 65536
  if chunk.isEmpty then return read else readAll stream (read ++ chunk)

end Protobuf.Plugin

open Protobuf.Plugin

def main (args : List String) : IO UInt32 := do
  let input ← if args.isEmpty then readAll (← IO.getStdin) ByteArray.empty else pure ByteArray.empty
  let stdout ← IO.getStdout
  stdout.write ⟨(reply .rust programName args input.data.toList).bytes.toArray⟩
  stdout.flush
  return 0
