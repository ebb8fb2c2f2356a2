import SpiderDiagrams.CommandLine.Run

/-!
# The command line

Reads the arguments and the input they name, runs the request and prints its result.
-/
namespace SpiderDiagrams.CommandLine

def decodeText (bytes : ByteArray) : Except String String :=
  match String.fromUTF8? bytes with
  | some text => .ok text
  | none => .error "stream did not contain valid UTF-8"

partial def readToEnd (stream : IO.FS.Stream) (bytes : ByteArray) : IO ByteArray := do
  let more ← stream.read 65536
  if more.isEmpty then return bytes else readToEnd stream (bytes ++ more)

def readInput (path : String) : IO (Except String String) := do
  try
    if namesStandardInput path then
      return decodeText (← readToEnd (← IO.getStdin) .empty)
    else
      return decodeText (← IO.FS.readBinFile path)
  catch
    | .noFileOrDirectory .. => return .error "No such file or directory (os error 2)"
    | e => return .error (toString e)

end SpiderDiagrams.CommandLine

open SpiderDiagrams.CommandLine in
def main (args : List String) : IO UInt32 := do
  let locale := (← IO.getEnv "SPIDER_LOCALE").getD defaultLocale
  let contents ←
    match Request.ofArguments args with
    | .ok request =>
      match request.input? with
      | some path => readInput path
      | none => pure (.ok "")
    | .error _ => pure (.ok "")
  let outcome := run locale (fun _ => contents) args
  IO.print (output outcome)
  if let .error failure := outcome then
    IO.eprintln failure.message
  return (exitCode outcome).toUInt32
