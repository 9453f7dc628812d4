import RateCurve.Watch

namespace RateCurve.Watch

/-- Shows the frames of an input, one a line, until it ends or a frame cannot be shown. -/
partial def watchAll (input : IO.FS.Stream) (output : IO.FS.Stream) : IO UInt32 := do
  let text ← input.getLine
  if text.isEmpty then return 0
  match line text with
  | .ok shown =>
    output.putStrLn (String.ofList shown)
    output.flush
    watchAll input output
  | .error _ => return 1

end RateCurve.Watch

open RateCurve

def main : IO UInt32 := do
  let output ← IO.getStdout
  output.putStr (String.ofList ((Watch.printed Watch.greeting).text.map Text.Point.shown))
  output.flush
  Watch.watchAll (← IO.getStdin) output
