import Routing.CommandLine.Answer
/-!
# The program

Answers the arguments with the files of the system, prints the outcome and returns its code.
-/

namespace Routing.Main

open CommandLine

/-- The cause that stands behind a code of the system. -/
def causeOf (code : Nat) (details : String) : FileError :=
  match code with
  | 2 => .notFound
  | 17 => .exists
  | 20 => .notDirectory
  | 21 => .isDirectory
  | 36 => .nameTooLong
  | _ => .other (details ++ " (os error " ++ toString code ++ ")")

/-- The cause of an error of the system. -/
def fileError : IO.Error → FileError
  | .noFileOrDirectory _ code details | .alreadyExists _ code details
  | .inappropriateType _ code details | .permissionDenied _ code details
  | .invalidArgument _ code details | .resourceExhausted _ code details =>
    causeOf code.toNat details
  | e => .other (toString e)

/-- Keeps the error of the system as a value. -/
def caught {α : Type} (act : IO α) : IO (Except FileError α) := do
  try
    return .ok (← act)
  catch e => return .error (fileError e)

def readText (path : String) : IO (Except FileError String) := do
  let content ← caught do (← IO.FS.Handle.mk path .read).readBinToEnd
  return content.bind fun bytes => (String.fromUTF8? bytes).elim (.error .notText) .ok

def systemFiles : Files.Access IO where
  read := readText
  makeDir path := caught (IO.FS.createDir path)
  isDir path := return (← caught do (← IO.FS.realPath path).isDir).toOption.getD false
  append path more := caught do (← IO.FS.Handle.mk path .append).putStr more

/-- The directory of the configurations of the user. -/
def configDir : IO (Option String) := do
  match ← IO.getEnv "XDG_CONFIG_HOME" with
  | some dir => if dir.startsWith "/" then return some dir else fromHome
  | none => fromHome
where
  fromHome : IO (Option String) := do
    return (← IO.getEnv "HOME").map (· ++ "/.config")

end Routing.Main

open Routing in
/-- The program. -/
def main (args : List String) : IO UInt32 := do
  let outcome ← CommandLine.answer Main.systemFiles (← Main.configDir) args
  (← IO.getStdout).putStr outcome.stdout
  (← IO.getStderr).putStr outcome.stderr
  return outcome.code.toUInt32
