import PredictiveParsing.CommandLine.Session

/-!
# The command line program

The only place with effects: reading files, printing and taking the time.
-/

namespace PredictiveParsing.CommandLine.Console

def readError : IO.Error → ReadError
  | .noFileOrDirectory _ _ _ => .notFound
  | .inappropriateType _ _ _ => .isFolder
  | e => .other (toString e)

def relative (path : String) : IO String := do
  try
    let full := (← IO.FS.realPath path).toString
    let here := (← IO.FS.realPath (← IO.currentDir)).toString ++ "/"
    return if full.startsWith here then (full.drop here.length).toString else path
  catch _ => return path

def read (path : String) : IO (Except ReadError Source) := do
  try
    let bytes ← IO.FS.readBinFile path
    match String.fromUTF8? bytes with
    | some text => return .ok ⟨text, ← relative path⟩
    | none => return .error (.other "stream did not contain valid UTF-8")
  catch e => return .error (readError e)

def phase {β : Type} (p : Phase) (step : Unit → β) : IO β := do
  let start ← IO.monoNanosNow
  let mut result ← IO.lazyPure step
  for _ in [1:p.iterations] do
    result ← IO.lazyPure step
  let stop ← IO.monoNanosNow
  if p.isReported then
    let seconds := Float.ofNat (stop - start) / Float.ofNat p.iterations / 1e9
    (← IO.getStderr).putStr (p.timeLine seconds)
  return result

def host : Host IO where
  read := read
  out text := do (← IO.getStdout).putStr text
  err text := do (← IO.getStderr).putStr text
  phase := phase

end PredictiveParsing.CommandLine.Console

def main (args : List String) : IO UInt32 :=
  PredictiveParsing.CommandLine.run PredictiveParsing.CommandLine.Console.host args
