import Noticeboard.Command

namespace Noticeboard

def readFile (path : String) : IO FileContent := do
  try
    return .bytes (← IO.FS.readBinFile path)
  catch e =>
    match e with
    | .noFileOrDirectory .. => return .missing e.toString
    | _ => return .unreadable e.toString

end Noticeboard

open Noticeboard in
/-- Exits with 1 when a file cannot be used, and with 2 when the arguments make no sense. -/
def main (args : List String) : IO UInt32 := do
  match Command.ofArguments args with
  | .error e =>
    IO.eprintln ("error: " ++ e.message)
    return 2
  | .ok command =>
    match ← command.run readFile (← IO.getEnv "HOME") with
    | .error e =>
      IO.eprintln ("Error: " ++ e.report)
      return 1
    | .ok out =>
      for entry in out.log do
        IO.eprintln entry.line
      for update in out.updates do
        IO.println update.toJson.text
      return 0
