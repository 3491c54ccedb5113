/-
The program: reads its arguments and inputs, and writes what the command line makes of them.
-/
import FrameGraph.CommandLine

namespace FrameGraph.Console

/-- the number of an error from its code, which may be the negated number as a word -/
def errorNumber (code : UInt32) : Nat := if code < 0x80000000 then code.toNat else (0 - code).toNat

/-- description and number of an error of the system -/
def systemError : IO.Error → String × Nat
  | .alreadyExists _ n d | .invalidArgument _ n d | .permissionDenied _ n d | .resourceExhausted _ n d
  | .inappropriateType _ n d | .noSuchThing _ n d | .interrupted _ n d | .noFileOrDirectory _ n d => (d, errorNumber n)
  | .otherError n d | .resourceBusy n d | .resourceVanished n d | .unsupportedOperation n d | .hardwareFault n d
  | .unsatisfiedConstraints n d | .illegalOperation n d | .protocolError n d | .timeExpired n d => (d, errorNumber n)
  | .unexpectedEof => ("unexpected end of file", 0)
  | .userError d => (d, 0)

/-- the content of a file; a directory can be opened but not read -/
def readFile (name : String) : IO (Except FileError ByteSource) := do
  try return .ok (.ofBytes (← IO.FS.readBinFile name).toList)
  catch e =>
    let (description, number) := systemError e
    let error := FileError.ofNumber number description
    return if error = .isDirectory then .ok ⟨[], some error.message⟩ else .error error

/-- everything that a stream still holds -/
partial def readStream (stream : IO.FS.Stream) (done : ByteArray) : IO ByteArray := do
  let bytes ← stream.read 65536
  if bytes.isEmpty then return done else readStream stream (done ++ bytes)

end FrameGraph.Console

open FrameGraph in
/-- run on the arguments; the exit code is 2 if they are refused -/
def main (args : List String) : IO UInt32 := do
  match Arguments.read (args.map fun a => a.toUTF8.toList) with
  | none =>
    (← IO.getStderr).putStrLn "usage: [-t|--tokens] [--demo] [--quote CHAR] [--max-depth N] [PATH | -]..."
    return 2
  | some request =>
    let inputs ← request.paths.mapM fun p => do
      match String.fromUTF8? p.bytes.toByteArray with
      | some name => return (p, ← Console.readFile name)
      | none => return (p, .error .notFound)
    let stdin ← if request.paths.any CommandLine.isStdin then Console.readStream (← IO.getStdin) .empty else pure .empty
    let files : Files := fun p => (inputs.lookup p).getD (.error .notFound)
    let result := CommandLine.run request files (.ofBytes stdin.toList)
    (← IO.getStdout).write result.stdout
    (← IO.getStderr).putStr result.stderr
    return UInt32.ofNat result.exitCode
